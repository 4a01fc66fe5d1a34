import TypedModule.Graph.Outline
import TypedModule.Proofs.Graph.Atomic
import TypedModule.Proofs.Graph.Place

/-!
# Foreign children

A walk through all that is below a node succeeds if and only if no child there is foreign, and
otherwise complains of the first one that is, whatever the walk is for; copying asks for this that
the foreign children have no copy. Depth passes over foreign children, and annotation drops them:
both come to the same as if all foreign children had been taken out beforehand.
-/

namespace TypedModule

/-- The graph with all foreign children taken out. -/
def Graph.purged (g : Graph) : Graph := g.without fun _ => true

/-- What a walk says of a foreign child. -/
def Purpose.complaint (purpose : Purpose) (v : Foreign) : Obstacle := ⟨purpose, .foreign v⟩

theorem foreign_notMem_withMarkers (v : Foreign) (times : Nat) (cs : List Child) :
    .foreign v ∉ withMarkers times cs := by
  induction cs with
  | nil => exact List.not_mem_nil
  | cons c rest ih =>
    cases c with
    | text s =>
      rw [withMarkers, List.mem_append, List.mem_cons]
      rintro (hv | hv | hv)
      · split at hv
        · cases List.eq_of_mem_replicate hv
        · cases hv
      · cases hv
      · exact ih hv
    | node i =>
      intro hv
      rcases List.mem_cons.1 hv with hv | hv
      · cases hv
      · exact ih hv
    | foreign w => exact ih

namespace Graph

variable {g : Graph} {i n : NodeId} {s : Settings} {strict : Bool} {ε α : Type}

theorem textual_purged (g : Graph) (i : NodeId) : g.purged.Textual i :=
  textual_without_iff.2 fun _ _ _ _ => rfl

section

variable (hg : g.WellFormed) (hi : i < g.size)

include hg hi

theorem textual_annotate : (g.annotate i).Textual i := by
  intro n hn v
  have hreach : g.Reaches i n := (reaches_congr (fun m _ => kids_annotate hg hi m) n).1 hn
  have hpos := hg.pathCount_pos_iff.2 hreach
  rw [children, node_annotate hg hi rfl fun _ _ => rfl, Node.marked, if_neg (by omega)]
  exact foreign_notMem_withMarkers v (g.pathCount i n) (g.node n).children

end

/-- What is made of a node and all that is below it, by something that asks each node for what is
wanted: it succeeds if and only if there is no foreign child, and otherwise complains that the first
one lacks what is wanted. -/
structure StopsAtForeign (g : Graph) (i : NodeId) (told : Foreign → ε) (message : ε → String)
    (wanted : String) (x : Except ε α) : Prop where
  succeeds_iff : (∃ a, x = .ok a) ↔ g.Textual i
  fails_iff : ∀ e, x = .error e ↔ ∃ v, g.FirstForeign (.node i) v ∧ e = told v
  message_eq : ∀ v, message (told v) =
    "'" ++ v.kind ++ "' object has no attribute '" ++ wanted ++ "'"

/-- It is enough to know what comes of the node unfolded. -/
theorem StopsAtForeign.of_unfold (hg : g.WellFormed) (hi : i < g.size) {told : Foreign → ε}
    {message : ε → String} {wanted : String} {x : Except ε α}
    (hok : ∀ t, g.unfold i = .ok t → ∃ a, x = .ok a)
    (herror : ∀ v, g.unfold i = .error (.foreign v) → x = .error (told v))
    (hmessage : ∀ v, message (told v) =
      "'" ++ v.kind ++ "' object has no attribute '" ++ wanted ++ "'") :
    StopsAtForeign g i told message wanted x := by
  refine ⟨?_, ?_, hmessage⟩
  · rw [← hg.unfold_ok_iff hi]
    refine ⟨?_, fun ⟨t, ht⟩ => hok t ht⟩
    rintro ⟨a, rfl⟩
    cases hunfold : g.unfold i with
    | ok t => exact ⟨t, rfl⟩
    | error e =>
      obtain ⟨v, -, rfl⟩ := (hg.unfold_eq_error_iff hi).1 hunfold
      cases herror v hunfold
  · intro e
    constructor
    · rintro rfl
      cases hunfold : g.unfold i with
      | ok t => obtain ⟨a, ha⟩ := hok t hunfold; cases ha
      | error e =>
        obtain ⟨v, hv, rfl⟩ := (hg.unfold_eq_error_iff hi).1 hunfold
        exact ⟨v, hv, Except.error.inj (herror v hunfold)⟩
    · rintro ⟨v, hv, rfl⟩
      exact herror v ((hg.unfold_eq_error_iff hi).2 ⟨v, hv, rfl⟩)

theorem StopsAtForeign.of_walk (hg : g.WellFormed) (hi : i < g.size) (purpose : Purpose)
    (view : Tree → α) :
    StopsAtForeign g i purpose.complaint Obstacle.message purpose.wanted
      ((g.walk purpose i).map view) := by
  apply of_unfold hg hi
  · intro t ht
    exact ⟨view t, by rw [walk, ht]; rfl⟩
  · intro v hv
    rw [walk, hv]
    rfl
  · exact fun v => rfl

section

variable (hg : g.WellFormed) (hi : i < g.size) (huncopied : g.Uncopied i)

include hg hi huncopied

theorem stopsAtForeign_copy :
    StopsAtForeign g i (Purpose.complaint .copying) Obstacle.message "copy" (g.copy i) := by
  rw [copy_eq hg hi huncopied]
  exact StopsAtForeign.of_walk hg hi .copying fun t => plant t g

theorem stopsAtForeign_wrap {name : String}
    (hname : checkErrorName strict s.effectiveName = .ok name) :
    StopsAtForeign g i (fun v => .walk (Purpose.complaint .copying v)) PassFault.message "copy"
      (g.wrap s strict (some i)) := by
  apply StopsAtForeign.of_unfold hg hi
  · intro t ht
    obtain ⟨out, hout, -⟩ := wrap_eq_ok hg hi hname ht
    exact ⟨out, hout⟩
  · intro v hv
    have hcopy : g.copy i = .error (Purpose.complaint .copying v) := by
      rw [copy_eq hg hi huncopied, walk, hv]
      rfl
    exact wrap_eq_error_of_copy hname hcopy
  · exact fun v => rfl

end

theorem kept_of_copy_error {o : Obstacle} (h : g.copy i = .error o) :
    ∃ left, (Work.copy i).on g = (.error o, left) ∧ ∀ n < g.size, left.node n = g.node n := by
  have hfollows := Work.follows_copy i g
  rw [h] at hfollows
  obtain ⟨left, hon, hext⟩ := hfollows
  exact ⟨left, hon, hext.node_eq⟩

theorem kept_of_wrap_error {fault : PassFault} (h : g.wrap s strict (some i) = .error fault) :
    ∃ left, (Work.wrap s strict (some i)).on g = (.error fault, left) ∧
      ∀ n < g.size, left.node n = g.node n := by
  have hends := Work.endsIn_wrap s strict (some i) g
  rw [h] at hends
  obtain ⟨left, hon, hext⟩ := hends
  exact ⟨left, hon, hext.node_eq⟩

/-- Foreign children below a node. Rendering and counting, outlining and, if none of them has a copy
(no number, truth value or null has), copying and the pass itself succeed if and only if there are
none, and otherwise complain of the first one. All nodes are left as they are (a copy that fails may
leave new nodes behind, the others make none). Depth is that of the tree without them. Annotation
leaves none, and the text then is that of the graph annotated after all of them have been taken
out. -/
theorem foreign_children_stop_walks (hg : g.WellFormed) (hi : i < g.size) :
    StopsAtForeign g i (Purpose.complaint .rendering) Obstacle.message "fragments"
        (g.fragments i) ∧
      StopsAtForeign g i (Purpose.complaint .rendering) Obstacle.message "fragments"
        (g.render i) ∧
      StopsAtForeign g i (Purpose.complaint .rendering) Obstacle.message "fragments"
        (g.countMarkers i) ∧
      (g.Uncopied i →
        StopsAtForeign g i (Purpose.complaint .copying) Obstacle.message "copy" (g.copy i)) ∧
      (∀ depth, StopsAtForeign g i (Purpose.complaint .outlining) Obstacle.message "line"
        (g.outline i depth)) ∧
      (g.Uncopied i → ∀ s strict name, checkErrorName strict s.effectiveName = .ok name →
        StopsAtForeign g i (fun v => .walk (Purpose.complaint .copying v)) PassFault.message
          "copy" (g.wrap s strict (some i))) ∧
      (∀ o, g.copy i = .error o → ∃ left, (Work.copy i).on g = (.error o, left) ∧
        ∀ n < g.size, left.node n = g.node n) ∧
      (∀ s strict fault, g.wrap s strict (some i) = .error fault →
        ∃ left, (Work.wrap s strict (some i)).on g = (.error fault, left) ∧
          ∀ n < g.size, left.node n = g.node n) ∧
      g.depth i = g.purged.depth i ∧
      (∃ t, g.purged.unfold i = .ok t ∧ g.depth i = t.depth) ∧
      (g.annotate i).Textual i ∧
      ∃ text, (g.annotate i).render i = .ok text ∧ (g.purged.annotate i).render i = .ok text := by
  have hpurged : g.purged.WellFormed := hg.without _
  have hpurgedi : i < g.purged.size := by rwa [purged, size_without]
  have hsameDepth : g.purged.depth i = g.depth i := depth_without _ g i
  obtain ⟨t, ht⟩ := hpurged.exists_unfold hpurgedi (textual_purged g i)
  have hdepth : g.depth i = t.depth := by
    rw [← hsameDepth, hpurged.depth_unfold hpurgedi ht]
  have hannotated : i < (g.annotate i).size := by rwa [size_annotate]
  obtain ⟨u, hu⟩ := (hg.annotate hi).exists_unfold hannotated (textual_annotate hg hi)
  have hrender : (g.annotate i).render i = .ok u.render := by
    rw [render, walk, hu]
    rfl
  have hsame : (g.purged.annotate i).render i = (g.annotate i).render i := by
    rw [render, render, walk, walk, purged, unfold_annotate_without hg hi]
  exact ⟨StopsAtForeign.of_walk hg hi .rendering Tree.fragments,
    StopsAtForeign.of_walk hg hi .rendering Tree.render,
    StopsAtForeign.of_walk hg hi .rendering Tree.countMarkers, stopsAtForeign_copy hg hi,
    fun depth => StopsAtForeign.of_walk hg hi .outlining fun t => t.outline depth,
    fun huncopied s strict name => stopsAtForeign_wrap hg hi huncopied,
    fun o => kept_of_copy_error, fun s strict fault => kept_of_wrap_error, hsameDepth.symm,
    ⟨t, ht, hdepth⟩, textual_annotate hg hi, u.render, hrender, hsame.trans hrender⟩

/-- Below the first child, which comes twice, is a number behind a text, and a truth value stands
behind both. -/
def straySheet : Graph := ⟨#[
  ⟨{}, [.node 1, .text "f(\n", .node 1, .foreign (.scalar (.bool true))]⟩,
  ⟨{ line := some 1 }, [.node 2, .foreign (.scalar .null)]⟩,
  ⟨{}, [.text "x = 1;\n", .foreign (.scalar (.int 3)), .text "\x7d\n"]⟩]⟩

theorem straySheet_uncopied : straySheet.Uncopied 0 := by
  have hall : ∀ n < 3, ∀ c ∈ straySheet.children n, c.isForeign Foreign.copies = false := by decide
  have hg : straySheet.WellFormed := WellFormed.of_later (by decide)
  intro n hn v hv
  exact hall n (hg.lt_of_reaches (show 0 < straySheet.size by decide) hn) _ hv

theorem walks_straySheet :
    (∃ o, straySheet.fragments 0 = .error o ∧
        o.message = "'int' object has no attribute 'fragments'") ∧
      (∃ o, straySheet.outline 0 2 = .error o ∧
        o.message = "'int' object has no attribute 'line'") ∧
      (∃ left, (Work.copy 0).on straySheet =
          (.error ⟨.copying, .foreign (.scalar (.int 3))⟩, left) ∧
        left.node 2 = straySheet.node 2) ∧
      (∃ fault, straySheet.wrap {} true (some 0) = .error fault ∧
        fault.message = "'int' object has no attribute 'copy'") ∧
      straySheet.depth 0 = 2 ∧ (straySheet.annotate 0).Textual 0 := by
  have hg : straySheet.WellFormed := WellFormed.of_later (by decide)
  have hname : checkErrorName true (Settings.effectiveName {}) = .ok defaultErrorName := by
    decide +kernel
  obtain ⟨hfragments, -, -, hcopy, houtline, hwrap, hkept, -, -, -, hannotated, -⟩ :=
    foreign_children_stop_walks hg (show 0 < straySheet.size by decide)
  obtain ⟨v, hv, heq⟩ :=
    (hfragments.fails_iff (Purpose.complaint .rendering (.scalar (.int 3)))).1 rfl
  obtain rfl : Foreign.scalar (.int 3) = v := WalkFault.foreign.inj (congrArg Obstacle.fault heq)
  have hwrapped := hwrap straySheet_uncopied {} true _ hname
  obtain ⟨left, hon, hnodes⟩ :=
    hkept _ (((hcopy straySheet_uncopied).fails_iff _).2 ⟨_, hv, rfl⟩)
  exact ⟨⟨_, (hfragments.fails_iff _).2 ⟨_, hv, rfl⟩, hfragments.message_eq (.scalar (.int 3))⟩,
    ⟨_, ((houtline 2).fails_iff _).2 ⟨_, hv, rfl⟩, (houtline 2).message_eq (.scalar (.int 3))⟩,
    ⟨left, hon, hnodes 2 (by decide)⟩,
    ⟨_, (hwrapped.fails_iff _).2 ⟨_, hv, rfl⟩, hwrapped.message_eq (.scalar (.int 3))⟩, rfl,
    hannotated⟩

end Graph

end TypedModule
