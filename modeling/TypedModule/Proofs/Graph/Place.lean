import TypedModule.Proofs.Graph.Foreign

/-!
# Places below a node

A place tells a position in each list of children on the way down, so a child of a shared node has
several places. Whoever goes down from a node, and from left to right, comes to the children in the
order of their places: a place comes after the places above it, and otherwise the first position
that differs decides. A walk stops at a foreign child if there is one below, and it is the one whose
place comes first.
-/

namespace TypedModule.Graph

variable {g : Graph} {i n : NodeId} {c d : Child} {v w : Foreign} {e : WalkFault}

/-- What is at a place below a child. The child itself is at the empty place. -/
def childAt (g : Graph) : Child → List Nat → Option Child
  | c, [] => some c
  | .node i, p :: place => (g.children i)[p]?.bind fun c => g.childAt c place
  | _, _ :: _ => none

/-- The value is foreign and below the child, or the child itself, and no other foreign value has a
place that comes before. -/
def FirstForeign (g : Graph) (c : Child) (v : Foreign) : Prop :=
  ∃ place, g.childAt c place = some (.foreign v) ∧
    ∀ other w, g.childAt c other = some (.foreign w) → ¬ other < place

@[simp] theorem childAt_nil (g : Graph) (c : Child) : g.childAt c [] = some c := by
  cases c <;> rfl

theorem childAt_node_cons (g : Graph) (i : NodeId) (p : Nat) (place : List Nat) :
    g.childAt (.node i) (p :: place) = (g.children i)[p]?.bind fun c => g.childAt c place := rfl

theorem childAt_append (a b : List Nat) :
    g.childAt c (a ++ b) = (g.childAt c a).bind fun d => g.childAt d b := by
  induction a generalizing c with
  | nil => rw [List.nil_append, childAt_nil, Option.bind_some]
  | cons p a ih =>
    cases c with
    | text s => rfl
    | node i =>
      rw [List.cons_append, childAt_node_cons, childAt_node_cons, Option.bind_assoc]
      exact congrArg _ (funext fun d => ih)
    | foreign v => rfl

/-- A child that is no node has nothing below it. -/
theorem childAt_leaf {place : List Nat} (hc : ∀ k, c ≠ .node k)
    (h : g.childAt c place = some d) : place = [] ∧ d = c := by
  cases place with
  | nil =>
    rw [childAt_nil] at h
    exact ⟨rfl, (Option.some.inj h).symm⟩
  | cons p place =>
    cases c with
    | text s => cases h
    | node k => exact absurd rfl (hc k)
    | foreign v => cases h

theorem reaches_of_childAt {place : List Nat} (h : g.childAt (.node i) place = some (.node n)) :
    g.Reaches i n := by
  induction place generalizing i with
  | nil =>
    rw [childAt_nil] at h
    obtain rfl := Child.node.inj (Option.some.inj h)
    exact Reaches.refl g i
  | cons p place ih =>
    obtain ⟨c, hc, hrest⟩ := Option.bind_eq_some_iff.1 h
    cases c with
    | text s => cases (childAt_leaf (by simp) hrest).2
    | node k =>
      have hk : k ∈ g.kids i := mem_childIds_iff.2 (List.mem_of_getElem? hc)
      exact (Reaches.of_mem_kids hk).trans (ih hrest)
    | foreign v => cases (childAt_leaf (by simp) hrest).2

theorem childAt_concat {place : List Nat} (hn : g.childAt (.node i) place = some (.node n))
    (hc : c ∈ g.children n) : ∃ p, g.childAt (.node i) (place ++ [p]) = some c := by
  obtain ⟨p, hp⟩ := List.getElem?_of_mem hc
  refine ⟨p, ?_⟩
  rw [childAt_append, hn, Option.bind_some, childAt_node_cons, hp, Option.bind_some, childAt_nil]

theorem exists_childAt (h : g.Reaches i n) :
    ∃ place, g.childAt (.node i) place = some (.node n) := by
  apply h.mem_of_closed (P := fun m => ∃ place, g.childAt (.node i) place = some (.node m))
  · rintro m k ⟨place, hplace⟩ hk
    obtain ⟨p, hp⟩ := childAt_concat hplace (mem_childIds_iff.1 hk)
    exact ⟨place ++ [p], hp⟩
  · exact ⟨[], rfl⟩

theorem textual_iff :
    g.Textual i ↔ ∀ place v, g.childAt (.node i) place ≠ some (.foreign v) := by
  constructor
  · intro ht place v hv
    induction place generalizing i with
    | nil => cases hv
    | cons p place ih =>
      obtain ⟨c, hc, hrest⟩ := Option.bind_eq_some_iff.1 hv
      have hmem : c ∈ g.children i := List.mem_of_getElem? hc
      cases c with
      | text s => cases (childAt_leaf (by simp) hrest).2
      | node k => exact ih (ht.kid (mem_childIds_iff.2 hmem)) hrest
      | foreign w => exact ht i (Reaches.refl g i) w hmem
  · intro h n hn v hv
    obtain ⟨place, hplace⟩ := exists_childAt hn
    obtain ⟨p, hp⟩ := childAt_concat hplace hv
    exact h (place ++ [p]) v hp

theorem FirstForeign.unique (hv : g.FirstForeign c v) (hw : g.FirstForeign c w) : v = w := by
  obtain ⟨place, hplace, hfirst⟩ := hv
  obtain ⟨other, hother, hleast⟩ := hw
  have heq : place = other := List.le_antisymm (hfirst other w hother) (hleast place v hplace)
  rw [heq, hother] at hplace
  exact (Child.foreign.inj (Option.some.inj hplace)).symm

/-- What is first below a child is first below a node with that child if all children before it have
nothing foreign below them. -/
theorem FirstForeign.below {before rest : List Child} (hv : g.FirstForeign c v)
    (hcs : g.children i = before ++ c :: rest)
    (hbefore : ∀ d ∈ before, ∀ place w, g.childAt d place ≠ some (.foreign w)) :
    g.FirstForeign (.node i) v := by
  obtain ⟨place, hplace, hfirst⟩ := hv
  have hc : (g.children i)[before.length]? = some c := by
    rw [hcs, List.getElem?_append_right le_rfl, Nat.sub_self]
    rfl
  refine ⟨before.length :: place, ?_, ?_⟩
  · rw [childAt_node_cons, hc, Option.bind_some, hplace]
  · intro other w hother hlt
    cases other with
    | nil => cases hother
    | cons q other =>
      obtain ⟨d, hd, hdw⟩ := Option.bind_eq_some_iff.1 hother
      rcases List.cons_lt_cons_iff.1 hlt with hq | ⟨rfl, hrest⟩
      · rw [hcs, List.getElem?_append_left hq] at hd
        exact hbefore d (List.mem_of_getElem? hd) other w hdw
      · obtain rfl := Option.some.inj (hc.symm.trans hd)
        exact hfirst other w hdw hrest

namespace WellFormed

variable (hg : g.WellFormed)

include hg

theorem firstForeign_of_unfold (hi : i < g.size) (h : g.unfold i = .error e) :
    ∃ v, g.FirstForeign (.node i) v ∧ e = .foreign v := by
  induction i using hg.induct generalizing e with
  | step i ih =>
    rw [hg.unfold_eq hi] at h
    cases hf : forestOf g.unfold (g.children i) with
    | ok f => rw [hf] at h; cases h
    | error e' =>
      rw [hf] at h
      obtain rfl := Except.error.inj h
      obtain ⟨before, c, rest, f, hcs, hbefore, hstop⟩ := forestOf_stops hf
      have hclean : ∀ d ∈ before, ∀ place w, g.childAt d place ≠ some (.foreign w) := by
        intro d hd place w hw
        obtain ⟨hforeign, hnodes⟩ := forestOf_eq_ok hbefore
        cases d with
        | text s => cases (childAt_leaf (by simp) hw).2
        | node k =>
          obtain ⟨t, ht⟩ := hnodes k (mem_childIds_iff.2 hd)
          have hk : k ∈ g.kids i := mem_childIds_iff.2 (hcs ▸ List.mem_append_left _ hd)
          exact textual_iff.1 (hg.textual_of_unfold (hg.closed hk) ht) place w hw
        | foreign v => exact hforeign v hd
      rcases hstop with ⟨v, rfl, rfl⟩ | ⟨k, rfl, hk⟩
      · have hv : g.FirstForeign (.foreign v) v :=
          ⟨[], rfl, fun other w _ => List.not_lt_nil other⟩
        exact ⟨v, hv.below hcs hclean, rfl⟩
      · have hkid : k ∈ g.kids i :=
          mem_childIds_iff.2 (hcs ▸ List.mem_append_right _ List.mem_cons_self)
        obtain ⟨v, hv, rfl⟩ := ih k hkid (hg.closed hkid) hk
        exact ⟨v, hv.below hcs hclean, rfl⟩

theorem unfold_eq_error_iff (hi : i < g.size) :
    g.unfold i = .error e ↔ ∃ v, g.FirstForeign (.node i) v ∧ e = .foreign v := by
  constructor
  · exact hg.firstForeign_of_unfold hi
  · rintro ⟨v, hv, rfl⟩
    cases hunfold : g.unfold i with
    | ok t =>
      obtain ⟨place, hplace, -⟩ := hv
      exact absurd hplace (textual_iff.1 (hg.textual_of_unfold hi hunfold) place v)
    | error e =>
      obtain ⟨w, hw, rfl⟩ := hg.firstForeign_of_unfold hi hunfold
      rw [hv.unique hw]

theorem unfold_ok_iff (hi : i < g.size) : (∃ t, g.unfold i = .ok t) ↔ g.Textual i :=
  ⟨fun ⟨_, ht⟩ => hg.textual_of_unfold hi ht, hg.exists_unfold hi⟩

end WellFormed

end TypedModule.Graph
