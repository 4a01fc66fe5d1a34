import Mathlib.Algebra.BigOperators.Group.List.Basic
import Mathlib.Data.Set.Card
import TypedModule.Graph.Basic

/-!
# Paths in a graph

A path goes down from a node, each of its steps to the child node at one position. A node that is
a child in several places is met on as many paths. In a well formed graph all children are nodes
of the graph and no path comes back to where it began; there every node has a rank, smaller than
the size of the graph, that falls along the steps of a path.
-/

namespace TypedModule.Graph

variable {g h : Graph} {i j k : NodeId}

/-- The node that a path leads to. -/
def follow (g : Graph) : NodeId → List Nat → Option NodeId
  | i, [] => some i
  | i, p :: path => (g.kids i)[p]?.bind fun k => g.follow k path

def paths (g : Graph) (i j : NodeId) : Set (List Nat) := {path | g.follow i path = some j}

noncomputable def pathCount (g : Graph) (i j : NodeId) : Nat := (g.paths i j).ncard

def Reaches (g : Graph) (i j : NodeId) : Prop := ∃ path, g.follow i path = some j

/-- Each node that is reached is reached on one path only. -/
def Strict (g : Graph) (i : NodeId) : Prop := ∀ j, g.Reaches i j → g.pathCount i j = 1

def Acyclic (g : Graph) : Prop := ∀ i path, g.follow i path = some i → path = []

structure WellFormed (g : Graph) : Prop where
  closed : ∀ {i k}, k ∈ g.kids i → k < g.size
  acyclic : g.Acyclic

theorem mem_childIds_iff {cs : List Child} : k ∈ childIds cs ↔ .node k ∈ cs := by
  induction cs with
  | nil => simp [childIds]
  | cons c rest ih => cases c <;> simp [childIds, ih]

theorem follow_append (a b : List Nat) :
    g.follow i (a ++ b) = (g.follow i a).bind fun k => g.follow k b := by
  induction a generalizing i with
  | nil => rfl
  | cons p a ih =>
    rw [List.cons_append, follow, follow, Option.bind_assoc]
    exact congrArg _ (funext fun k => ih)

namespace Reaches

@[simp] theorem refl (g : Graph) (i : NodeId) : g.Reaches i i := ⟨[], rfl⟩

theorem trans (hij : g.Reaches i j) (hjk : g.Reaches j k) : g.Reaches i k := by
  obtain ⟨a, ha⟩ := hij
  obtain ⟨b, hb⟩ := hjk
  refine ⟨a ++ b, ?_⟩
  rw [follow_append, ha]
  exact hb

theorem of_mem_kids (hk : k ∈ g.kids i) : g.Reaches i k := by
  obtain ⟨p, hp⟩ := List.getElem?_of_mem hk
  exact ⟨[p], by rw [follow, hp]; rfl⟩

/-- A set of nodes that is closed under taking child nodes holds all that is below its nodes. -/
theorem mem_of_closed {P : NodeId → Prop} (hP : ∀ {n k}, P n → k ∈ g.kids n → P k)
    (hij : g.Reaches i j) (hi : P i) : P j := by
  obtain ⟨path, hpath⟩ := hij
  induction path generalizing i with
  | nil =>
    obtain rfl := Option.some.inj hpath
    exact hi
  | cons p path ih =>
    obtain ⟨k, hk, hrest⟩ := Option.bind_eq_some_iff.1 hpath
    exact ih (hP hi (List.mem_of_getElem? hk)) hrest

end Reaches

theorem reaches_iff : g.Reaches i j ↔ i = j ∨ ∃ k ∈ g.kids i, g.Reaches k j := by
  constructor
  · rintro ⟨path, hpath⟩
    cases path with
    | nil => exact Or.inl (Option.some.inj hpath)
    | cons p path =>
      obtain ⟨k, hk, hrest⟩ := Option.bind_eq_some_iff.1 hpath
      exact Or.inr ⟨k, List.mem_of_getElem? hk, path, hrest⟩
  · rintro (rfl | ⟨k, hk, hkj⟩)
    · exact Reaches.refl g i
    · exact (Reaches.of_mem_kids hk).trans hkj

/-- Paths depend only on the child nodes of the nodes that they meet. -/
theorem follow_congr (hkids : ∀ n, g.Reaches i n → h.kids n = g.kids n) (path : List Nat) :
    h.follow i path = g.follow i path := by
  induction path generalizing i with
  | nil => rfl
  | cons p path ih =>
    rw [follow, follow, hkids i (Reaches.refl g i)]
    refine Option.bind_congr fun k hk => ih fun n hn => hkids n ?_
    exact (Reaches.of_mem_kids (List.mem_of_getElem? hk)).trans hn

theorem reaches_congr (hkids : ∀ n, g.Reaches i n → h.kids n = g.kids n) (j : NodeId) :
    h.Reaches i j ↔ g.Reaches i j := by
  simp only [Reaches, follow_congr hkids]

theorem pathCount_congr (hkids : ∀ n, g.Reaches i n → h.kids n = g.kids n) (j : NodeId) :
    h.pathCount i j = g.pathCount i j := by
  simp only [pathCount, paths, follow_congr hkids]

theorem kids_of_size_le (hi : g.size ≤ i) : g.kids i = [] := by
  have hi' : g.nodes.size ≤ i := hi
  simp [kids, children, node, hi', childIds]

/-- The nodes of the graph that a node reaches, without itself. -/
def below (g : Graph) (i : NodeId) : Set NodeId := {j | j < g.size ∧ j ≠ i ∧ g.Reaches i j}

noncomputable def rank (g : Graph) (i : NodeId) : Nat := (g.below i).ncard

theorem below_finite (g : Graph) (i : NodeId) : (g.below i).Finite :=
  (Set.finite_lt_nat g.size).subset fun _ hj => hj.1

theorem rank_lt_size (hi : i < g.size) : g.rank i < g.size := by
  have hsub : g.below i ⊆ (Finset.range g.size : Set NodeId) := fun j hj =>
    Finset.mem_coe.2 (Finset.mem_range.2 hj.1)
  have hlt : (g.below i).ncard < (Finset.range g.size : Set NodeId).ncard := by
    apply Set.ncard_lt_ncard _ (Finset.finite_toSet _)
    refine (Set.ssubset_iff_of_subset hsub).2 ⟨i, ?_, fun h => h.2.1 rfl⟩
    exact Finset.mem_coe.2 (Finset.mem_range.2 hi)
  rwa [Set.ncard_coe_finset, Finset.card_range] at hlt

namespace WellFormed

variable (hg : g.WellFormed)

include hg

theorem not_reaches_of_mem_kids (hk : k ∈ g.kids i) : ¬ g.Reaches k i := by
  rintro ⟨path, hpath⟩
  obtain ⟨p, hp⟩ := List.getElem?_of_mem hk
  have hloop : g.follow i (p :: path) = some i := by rw [follow, hp]; exact hpath
  exact List.cons_ne_nil p path (hg.acyclic i _ hloop)

theorem ne_of_mem_kids (hk : k ∈ g.kids i) : k ≠ i := by
  rintro rfl
  exact hg.not_reaches_of_mem_kids hk (Reaches.refl g k)

theorem lt_of_reaches (hi : i < g.size) (hij : g.Reaches i j) : j < g.size :=
  hij.mem_of_closed (P := fun n => n < g.size) (fun _ hk => hg.closed hk) hi

theorem rank_lt_of_mem_kids (hk : k ∈ g.kids i) : g.rank k < g.rank i := by
  apply Set.ncard_lt_ncard _ (g.below_finite i)
  refine Set.ssubset_iff_of_subset ?_ |>.2 ⟨k, ?_, fun h => h.2.1 rfl⟩
  · rintro j ⟨hj, -, hkj⟩
    refine ⟨hj, ?_, (Reaches.of_mem_kids hk).trans hkj⟩
    rintro rfl
    exact hg.not_reaches_of_mem_kids hk hkj
  · exact ⟨hg.closed hk, hg.ne_of_mem_kids hk, Reaches.of_mem_kids hk⟩

/-- Induction from the child nodes up. -/
theorem induct {P : NodeId → Prop} (step : ∀ i, (∀ k ∈ g.kids i, P k) → P i) (i : NodeId) :
    P i := by
  induction hr : g.rank i using Nat.strong_induction_on generalizing i with
  | h r ih =>
    subst hr
    exact step i fun k hk => ih _ (hg.rank_lt_of_mem_kids hk) k rfl

end WellFormed

theorem le_of_reaches {m : NodeId → Nat} (hm : ∀ {i k}, k ∈ g.kids i → m k < m i)
    (hij : g.Reaches i j) : m j ≤ m i :=
  Reaches.mem_of_closed (P := fun n => m n ≤ m i)
    (fun hn hk => (Nat.le_of_lt (hm hk)).trans hn) hij le_rfl

theorem WellFormed.of_measure (m : NodeId → Nat) (hclosed : ∀ {i k}, k ∈ g.kids i → k < g.size)
    (hm : ∀ {i k}, k ∈ g.kids i → m k < m i) : g.WellFormed := by
  refine ⟨hclosed, fun i path hpath => ?_⟩
  cases path with
  | nil => rfl
  | cons p path =>
    obtain ⟨k, hk, hrest⟩ := Option.bind_eq_some_iff.1 hpath
    have hlt : m k < m i := hm (List.mem_of_getElem? hk)
    have hle : m i ≤ m k := le_of_reaches hm ⟨path, hrest⟩
    omega

/-- It is enough that child nodes come later. -/
theorem WellFormed.of_later (hg : ∀ i < g.size, ∀ k ∈ g.kids i, i < k ∧ k < g.size) :
    g.WellFormed := by
  have hlt {i k : NodeId} (hk : k ∈ g.kids i) : i < k ∧ k < g.size := by
    by_cases hi : i < g.size
    · exact hg i hi k hk
    · rw [kids_of_size_le (Nat.le_of_not_lt hi)] at hk
      cases hk
  refine WellFormed.of_measure (fun i => g.size - i) (fun hk => (hlt hk).2) fun {i k} hk => ?_
  obtain ⟨hik, hk'⟩ := hlt hk
  exact Nat.sub_lt_sub_left (hik.trans hk') hik

/-- The paths to a node that begin with a step to one of the listed nodes. -/
def pathsVia (g : Graph) (ks : List NodeId) (j : NodeId) : Set (List Nat) :=
  {path | ∃ p rest, path = p :: rest ∧ (ks[p]?.bind fun k => g.follow k rest) = some j}

/-- Moves the first step of a path to the next position. -/
def bump : List Nat → List Nat
  | [] => []
  | p :: rest => (p + 1) :: rest

theorem bump_injective : Function.Injective bump := by
  intro a b hab
  cases a with
  | nil => cases b with
    | nil => rfl
    | cons q b => simp [bump] at hab
  | cons p a => cases b with
    | nil => simp [bump] at hab
    | cons q b =>
      simp only [bump, List.cons.injEq, Nat.add_right_cancel_iff] at hab
      rw [hab.1, hab.2]

theorem pathsVia_nil (j : NodeId) : g.pathsVia [] j = ∅ := by
  ext path
  simp [pathsVia]

theorem pathsVia_cons (k : NodeId) (ks : List NodeId) (j : NodeId) :
    g.pathsVia (k :: ks) j = List.cons 0 '' g.paths k j ∪ bump '' g.pathsVia ks j := by
  ext path
  constructor
  · rintro ⟨p, rest, rfl, hrest⟩
    cases p with
    | zero => exact Or.inl ⟨rest, hrest, rfl⟩
    | succ p => exact Or.inr ⟨p :: rest, ⟨p, rest, rfl, hrest⟩, rfl⟩
  · rintro (⟨rest, hrest, rfl⟩ | ⟨_, ⟨p, rest, rfl, hrest⟩, rfl⟩)
    · exact ⟨0, rest, rfl, hrest⟩
    · exact ⟨p + 1, rest, rfl, hrest⟩

theorem paths_eq (i j : NodeId) :
    g.paths i j = {path | path = [] ∧ i = j} ∪ g.pathsVia (g.kids i) j := by
  ext path
  cases path with
  | nil => simp [paths, pathsVia, follow]
  | cons p path => simp [paths, pathsVia, follow]

theorem pathsVia_finite {ks : List NodeId} (hks : ∀ k ∈ ks, (g.paths k j).Finite) :
    (g.pathsVia ks j).Finite := by
  induction ks with
  | nil => simp [pathsVia_nil]
  | cons k ks ih =>
    rw [pathsVia_cons]
    exact ((hks k (by simp)).image _).union ((ih fun n hn => hks n (by simp [hn])).image _)

theorem pathsVia_ncard {ks : List NodeId} (hks : ∀ k ∈ ks, (g.paths k j).Finite) :
    (g.pathsVia ks j).ncard = (ks.map fun k => g.pathCount k j).sum := by
  induction ks with
  | nil => simp [pathsVia_nil]
  | cons k ks ih =>
    have htail : ∀ n ∈ ks, (g.paths n j).Finite := fun n hn => hks n (by simp [hn])
    have hdisjoint : Disjoint (List.cons 0 '' g.paths k j) (bump '' g.pathsVia ks j) := by
      rw [Set.disjoint_left]
      rintro _ ⟨rest, _, rfl⟩ ⟨_, ⟨p, rest', rfl, _⟩, hbump⟩
      simp [bump] at hbump
    rw [pathsVia_cons, Set.ncard_union_eq hdisjoint ((hks k (by simp)).image _)
      ((pathsVia_finite htail).image _), Set.ncard_image_of_injective _ (List.cons_injective),
      Set.ncard_image_of_injective _ bump_injective, ih htail, List.map_cons, List.sum_cons]
    rfl

namespace WellFormed

variable (hg : g.WellFormed)

include hg

theorem paths_finite (i j : NodeId) : (g.paths i j).Finite := by
  induction i using hg.induct with
  | step i ih =>
    rw [paths_eq]
    refine Set.Finite.union ?_ (pathsVia_finite ih)
    exact (Set.finite_singleton []).subset fun path hpath => hpath.1

@[simp] theorem pathCount_self (i : NodeId) : g.pathCount i i = 1 := by
  have hself : g.paths i i = {[]} := by
    ext path
    refine ⟨hg.acyclic i path, ?_⟩
    rintro rfl
    rfl
  rw [pathCount, hself, Set.ncard_singleton]

theorem pathCount_of_ne (hij : i ≠ j) :
    g.pathCount i j = ((g.kids i).map fun k => g.pathCount k j).sum := by
  have hempty : {path : List Nat | path = [] ∧ i = j} = ∅ := by
    ext path
    simp [hij]
  rw [pathCount, paths_eq, hempty, Set.empty_union,
    pathsVia_ncard fun k _ => hg.paths_finite k j]

theorem pathCount_pos_iff : 0 < g.pathCount i j ↔ g.Reaches i j := by
  rw [pathCount, Set.ncard_pos (hg.paths_finite i j)]
  rfl

theorem pathCount_eq_zero_iff : g.pathCount i j = 0 ↔ ¬ g.Reaches i j := by
  rw [← hg.pathCount_pos_iff, Nat.pos_iff_ne_zero, not_not]

end WellFormed

end TypedModule.Graph
