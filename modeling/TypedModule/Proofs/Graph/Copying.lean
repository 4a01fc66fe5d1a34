import TypedModule.Graph.Work
import TypedModule.Proofs.Graph.Foreign
import TypedModule.Proofs.Graph.Planting
import TypedModule.Proofs.Graph.Without

/-!
# Copies

A deep copy is what its node unfolds to, planted, if all that is foreign below the node has no copy;
it is then stopped by what stops unfolding. Foreign children that have a copy are copied along and
make no other difference: what is copied is the same as with these children left out. Done step by
step, copying makes new nodes only, also if it stops on the way.
-/

open TypedModule.Graph

namespace TypedModule

section

variable {g h : Graph} {ε δ α β : Type}

namespace Work

/-- The work makes of `g` what the outcome says, and keeps the nodes of `g` as they are. If it
fails, the outcome says nothing about the new nodes that it leaves behind. -/
def Follows (w : Work ε α) (g : Graph) : Except ε (Graph × α) → Prop
  | .ok (h, a) => w.on g = (.ok a, h) ∧ Extends g h
  | .error e => ∃ h, w.on g = (.error e, h) ∧ Extends g h

namespace Follows

theorem pure (a : α) (g : Graph) : Follows (ε := ε) (Pure.pure a) g (.ok (g, a)) :=
  ⟨on_pure a g, Extends.refl g⟩

theorem throw (e : ε) (g : Graph) : Follows (α := α) (MonadExcept.throw e) g (.error e) :=
  ⟨g, on_throw e g, Extends.refl g⟩

theorem make (n : Node) (g : Graph) : Follows (ε := ε) (Work.make n) g (.ok (g.alloc n)) :=
  ⟨on_make n g, Extends.alloc g n⟩

theorem bind {w : Work ε α} {next : α → Work ε β} {x : Except ε (Graph × α)}
    {f : Graph × α → Except ε (Graph × β)} (hw : Follows w g x)
    (hnext : ∀ h a, Follows (next a) h (f (h, a))) : Follows (w >>= next) g (x >>= f) := by
  cases x with
  | error e =>
    obtain ⟨h, hon, hext⟩ := hw
    exact ⟨h, by rw [on_bind, hon], hext⟩
  | ok r =>
    obtain ⟨hon, hext⟩ := hw
    have hf := hnext r.1 r.2
    change Follows (w >>= next) g (f r)
    cases hr : f r with
    | error e =>
      rw [hr] at hf
      obtain ⟨k, hon', hext'⟩ := hf
      exact ⟨k, by rw [on_bind, hon]; exact hon', hext.trans hext'⟩
    | ok q =>
      rw [hr] at hf
      obtain ⟨hon', hext'⟩ := hf
      exact ⟨by rw [on_bind, hon]; exact hon', hext.trans hext'⟩

theorem adapt {w : Work ε α} {x : Except ε (Graph × α)} (hw : Follows w g x) (f : ε → δ) :
    Follows (w.adapt f) g (x.mapError f) := by
  cases x with
  | error e =>
    obtain ⟨h, hon, hext⟩ := hw
    exact ⟨h, by rw [on_adapt, hon]; rfl, hext⟩
  | ok r => exact ⟨by rw [on_adapt, hw.1]; rfl, hw.2⟩

end Follows

theorem follows_copyChildren {visit : NodeId → Work WalkFault NodeId}
    {copy : Graph → NodeId → Except WalkFault (Graph × NodeId)}
    (hvisit : ∀ i g, Follows (visit i) g (copy g i)) (cs : List Child) (g : Graph) :
    Follows (copyChildren visit cs) g (Graph.copyChildren copy cs g) := by
  induction cs generalizing g with
  | nil => exact Follows.pure [] g
  | cons c rest ih =>
    cases c with
    | text s =>
      have heq : Graph.copyChildren copy (.text s :: rest) g =
          Graph.copyChildren copy rest g >>= fun r => .ok (r.1, .text s :: r.2) := by
        rw [Graph.copyChildren]
        cases Graph.copyChildren copy rest g <;> rfl
      rw [heq]
      exact (ih g).bind fun h cs => Follows.pure (.text s :: cs) h
    | node i =>
      have heq : Graph.copyChildren copy (.node i :: rest) g =
          copy g i >>= fun r => Graph.copyChildren copy rest r.1 >>= fun q =>
            .ok (q.1, .node r.2 :: q.2) := by
        rw [Graph.copyChildren]
        cases copy g i with
        | error e => rfl
        | ok r =>
          obtain ⟨h, j⟩ := r
          change _ = Graph.copyChildren copy rest h >>= fun q => .ok (q.1, .node j :: q.2)
          dsimp only
          cases Graph.copyChildren copy rest h <;> rfl
      rw [heq]
      exact (hvisit i g).bind fun h j => (ih h).bind fun k cs => Follows.pure (.node j :: cs) k
    | foreign v =>
      by_cases hv : v.copies
      · have heq : Graph.copyChildren copy (.foreign v :: rest) g =
            Graph.copyChildren copy rest g >>= fun r => .ok (r.1, .foreign v :: r.2) := by
          rw [Graph.copyChildren, if_pos hv]
          cases Graph.copyChildren copy rest g <;> rfl
        rw [heq, copyChildren, if_pos hv]
        exact (ih g).bind fun h cs => Follows.pure (.foreign v :: cs) h
      · rw [Graph.copyChildren, copyChildren, if_neg hv, if_neg hv]
        exact Follows.throw (WalkFault.foreign v) g

theorem follows_copyWithin (fuel : Nat) (i : NodeId) (g : Graph) :
    Follows (copyWithin fuel i) g (Graph.copyWithin fuel g i) := by
  induction fuel generalizing i g with
  | zero => exact Follows.throw WalkFault.endless g
  | succ fuel ih =>
    have heq : Graph.copyWithin (fuel + 1) g i =
        Graph.copyChildren (Graph.copyWithin fuel) (g.children i) g >>= fun r =>
          .ok (r.1.alloc ⟨(g.node i).tag, r.2⟩) := by
      rw [Graph.copyWithin]
      cases Graph.copyChildren (Graph.copyWithin fuel) (g.children i) g <;> rfl
    rw [heq]
    exact (follows_copyChildren ih (g.children i) g).bind fun h cs =>
      Follows.make ⟨(g.node i).tag, cs⟩ h

theorem follows_copy (i : NodeId) (g : Graph) : Follows (copy i) g (g.copy i) :=
  (follows_copyWithin g.size i g).adapt _

end Work

end

namespace Graph

variable {g h : Graph} {i d : NodeId} {cs : List Child} {t : Tree}

/-- No foreign child below the node has a copy. -/
def Uncopied (g : Graph) (i : NodeId) : Prop :=
  ∀ n, g.Reaches i n → ∀ v, .foreign v ∈ g.children n → v.copies = false

theorem Uncopied.kid {k : NodeId} (hi : g.Uncopied i) (hk : k ∈ g.kids i) : g.Uncopied k :=
  fun n hn => hi n ((Reaches.of_mem_kids hk).trans hn)

theorem Textual.uncopied (ht : g.Textual i) : g.Uncopied i :=
  fun n hn v hv => absurd hv (ht n hn v)

theorem uncopied_without (g : Graph) (i : NodeId) : (g.without Foreign.copies).Uncopied i := by
  intro n _ v hv
  rw [children_without] at hv
  exact (foreign_mem_leaveOut.1 hv).2

theorem copyChildren_eq {copy : Graph → NodeId → Except WalkFault (Graph × NodeId)}
    {tree : NodeId → Except WalkFault Tree}
    (hcopy : ∀ i ∈ childIds cs, ∀ h, Extends g h → h.WellFormed →
      copy h i = (tree i).map fun t => plant t h)
    (hforeign : ∀ v, .foreign v ∈ cs → v.copies = false) (hgh : Extends g h)
    (hh : h.WellFormed) :
    copyChildren copy cs h = (forestOf tree cs).map fun f => plantForest f h := by
  induction cs generalizing h with
  | nil => rfl
  | cons c rest ih =>
    have hforeign' : ∀ v, .foreign v ∈ rest → v.copies = false :=
      fun v hv => hforeign v (List.mem_cons_of_mem _ hv)
    cases c with
    | text s =>
      rw [copyChildren, ih hcopy hforeign' hgh hh, forestOf]
      cases forestOf tree rest <;> rfl
    | node i =>
      rw [copyChildren, hcopy i (by simp [childIds]) h hgh hh, forestOf]
      cases hi : tree i with
      | error e => rfl
      | ok t =>
        have hp := planted_plant hh t
        have hrest := ih (fun m hm => hcopy m (by simp [childIds, hm])) hforeign'
          (hgh.trans hp.kept) hp.wellFormed
        simp only [Except.map, hrest]
        cases forestOf tree rest <;> rfl
    | foreign v =>
      rw [copyChildren, hforeign v List.mem_cons_self, if_neg Bool.false_ne_true]
      rfl

theorem copyWithin_eq (hg : g.WellFormed) (hi : i < g.size) (huncopied : g.Uncopied i) (fuel : Nat)
    (hgh : Extends g h) (hh : h.WellFormed) :
    copyWithin fuel h i = (g.unfoldWithin fuel i).map fun t => plant t h := by
  induction fuel generalizing h i with
  | zero => rfl
  | succ fuel ih =>
    have hnode : h.node i = g.node i := hgh.node_eq i hi
    have hchildren : h.children i = g.children i := congrArg Node.children hnode
    have hcopy : copyChildren (copyWithin fuel) (g.children i) h =
        (forestOf (g.unfoldWithin fuel) (g.children i)).map fun f => plantForest f h :=
      copyChildren_eq (fun k hk h' hgh' hh' => ih (hg.closed hk) (huncopied.kid hk) hgh' hh')
        (huncopied i (Reaches.refl g i)) hgh hh
    rw [copyWithin, unfoldWithin, hchildren, hcopy, hnode]
    cases forestOf (g.unfoldWithin fuel) (g.children i) <;> rfl

/-- A deep copy plants what its node unfolds to, and it is stopped by what stops unfolding. -/
theorem copy_eq (hg : g.WellFormed) (hi : i < g.size) (huncopied : g.Uncopied i) :
    g.copy i = (g.walk .copying i).map fun t => plant t g := by
  rw [copy, walk, unfold, copyWithin_eq hg hi huncopied g.size (Extends.refl g) hg]
  cases g.unfoldWithin g.size i <;> rfl

theorem without_alloc (p : Foreign → Bool) (g : Graph) (n : Node) :
    (g.without p).alloc (n.without p) = ((g.alloc n).1.without p, (g.alloc n).2) := by
  rw [alloc, alloc, size_without, without, without, Array.map_push]

theorem copyChildren_without {copy : Graph → NodeId → Except WalkFault (Graph × NodeId)}
    (hcopy : ∀ g i, copy (g.without Foreign.copies) i =
      (copy g i).map fun r => (r.1.without Foreign.copies, r.2)) (cs : List Child) (g : Graph) :
    copyChildren copy (leaveOut Foreign.copies cs) (g.without Foreign.copies) =
      (copyChildren copy cs g).map fun r =>
        (r.1.without Foreign.copies, leaveOut Foreign.copies r.2) := by
  induction cs generalizing g with
  | nil => rfl
  | cons c rest ih =>
    cases c with
    | text s =>
      rw [leaveOut_text, copyChildren, copyChildren, ih]
      cases copyChildren copy rest g <;> rfl
    | node i =>
      rw [leaveOut_node, copyChildren, copyChildren, hcopy]
      cases copy g i with
      | error e => rfl
      | ok r =>
        simp only [Except.map, ih]
        cases copyChildren copy rest r.1 <;> rfl
    | foreign v =>
      rw [leaveOut_foreign, copyChildren]
      by_cases hv : v.copies
      · rw [if_pos hv, if_pos hv, ih]
        cases copyChildren copy rest g with
        | error e => rfl
        | ok r =>
          simp only [Except.map, leaveOut_foreign, if_pos hv]
      · rw [if_neg hv, if_neg hv, copyChildren, if_neg hv]
        rfl

theorem copyWithin_without (fuel : Nat) (g : Graph) (i : NodeId) :
    copyWithin fuel (g.without Foreign.copies) i =
      (copyWithin fuel g i).map fun r => (r.1.without Foreign.copies, r.2) := by
  induction fuel generalizing g i with
  | zero => rfl
  | succ fuel ih =>
    rw [copyWithin, copyWithin, children_without, copyChildren_without ih, node_without]
    cases copyChildren (copyWithin fuel) (g.children i) g with
    | error e => rfl
    | ok r => exact congrArg Except.ok (without_alloc Foreign.copies r.1 ⟨(g.node i).tag, r.2⟩)

/-- What is copied is the same with or without the foreign children that have a copy. -/
theorem copy_without (g : Graph) (i : NodeId) :
    (g.without Foreign.copies).copy i =
      (g.copy i).map fun r => (r.1.without Foreign.copies, r.2) := by
  rw [copy, copy, size_without, copyWithin_without]
  cases copyWithin g.size g i <;> rfl

/-- A copy of a node below which all that is foreign has a copy, for the tree without that. -/
theorem copy_eq_ok (hg : g.WellFormed) (hi : i < g.size)
    (ht : (g.without Foreign.copies).unfold i = .ok t) :
    ∃ h d, g.copy i = .ok (h, d) ∧ Extends g h ∧
      (h.without Foreign.copies, d) = plant t (g.without Foreign.copies) := by
  have hplant : (g.without Foreign.copies).copy i = .ok (plant t (g.without Foreign.copies)) := by
    rw [copy_eq (hg.without _) (by rwa [size_without]) (uncopied_without g i), walk, ht]
    rfl
  rw [copy_without] at hplant
  have hfollows := Work.follows_copy i g
  cases hcopy : g.copy i with
  | error o => rw [hcopy] at hplant; cases hplant
  | ok r =>
    rw [hcopy] at hplant hfollows
    exact ⟨r.1, r.2, rfl, hfollows.2, Except.ok.inj hplant⟩

theorem copy_eq_error (hg : g.WellFormed) (hi : i < g.size) {fault : WalkFault}
    (ht : (g.without Foreign.copies).unfold i = .error fault) :
    g.copy i = .error ⟨.copying, fault⟩ := by
  have hstop : (g.without Foreign.copies).copy i = .error ⟨.copying, fault⟩ := by
    rw [copy_eq (hg.without _) (by rwa [size_without]) (uncopied_without g i), walk, ht]
    rfl
  rw [copy_without] at hstop
  cases hcopy : g.copy i with
  | error o =>
    rw [hcopy] at hstop
    exact congrArg Except.error (Except.error.inj hstop)
  | ok r => rw [hcopy] at hstop; cases hstop

theorem copy_of_unfold (hg : g.WellFormed) (hi : i < g.size) (ht : g.unfold i = .ok t) :
    g.copy i = .ok (plant t g) := by
  rw [copy_eq hg hi (hg.textual_of_unfold hi ht).uncopied, walk, ht]
  rfl

end Graph

end TypedModule
