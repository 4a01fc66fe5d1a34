import Mathlib.Data.List.TakeWhile
import TypedModule.Graph.Edit

/-!
# Nodes built from both ends

Calls on a node put items in front of its children or behind them, and each call contributes one
block. Blocks stay whole: those in front stand in reverse, the last one first, and those behind
stand in order. A call is refused at the first item that does not fit. Behind the children it has
then put the items before that one, and in front of them nothing. All this goes by what the
arguments hold at the time of the call. It goes wrong in one case only: a node told to put its own
children behind them never comes to an end, if it has any and all of them fit.
-/

namespace TypedModule

/-- The end of the children at which a call puts its items. -/
inductive Side
  | front
  | back
deriving DecidableEq

/-- A call as it is made. -/
structure Request where
  side : Side
  argument : Argument

/-- A call by what its argument holds. -/
structure Call where
  side : Side
  item : Item

def Request.held (g : Graph) (r : Request) : Call := ⟨r.side, r.argument.held g⟩

namespace Item

/-- A fragment fits any node, and a node fits every node but itself. -/
def Fits (target : NodeId) : Item → Prop
  | .text _ => True
  | .node i => i ≠ target
  | _ => False

instance (target : NodeId) : DecidablePred (Fits target)
  | .text _ => isTrue trivial
  | .node i => inferInstanceAs (Decidable (i ≠ target))
  | .foreign _ | .list _ => isFalse id

def child? : Item → Option Child
  | .text s => some (.text s)
  | .node i => some (.node i)
  | _ => none

/-- The complaint about an item that does not fit: of nodes, only the target does not. -/
def refusal : Item → Refusal
  | .node _ => .itself
  | item => .unfit item

end Item

namespace Call

variable (target : NodeId) (c : Call)

def AllFit : Prop := ∀ item ∈ c.item.parts, item.Fits target

instance : Decidable (c.AllFit target) :=
  inferInstanceAs (Decidable (∀ item ∈ c.item.parts, item.Fits target))

/-- What a call contributes to the children of the target. -/
def block : List Child :=
  match c.side with
  | .front => if c.AllFit target then c.item.parts.filterMap Item.child? else []
  | .back => (c.item.parts.takeWhile fun item => item.Fits target).filterMap Item.child?

/-- The complaint about the first item that does not fit, if there is one. -/
def refusal? : Option Refusal :=
  (c.item.parts.find? fun item => ¬ item.Fits target).map Item.refusal

end Call

/-- The blocks of the calls at one end, in the order of the calls. -/
def blocksAt (target : NodeId) (side : Side) (calls : List Call) : List (List Child) :=
  (calls.filter fun c => c.side = side).map fun c => c.block target

namespace Graph

def call (g : Graph) (target : NodeId) (c : Call) : Graph × Option Refusal :=
  match c.side with
  | .front => g.prepend target c.item
  | .back => g.add target c.item

/-- Calls one after another, whether or not some of them are refused. -/
def build (target : NodeId) : Graph → List Call → Graph × List (Option Refusal)
  | g, [] => (g, [])
  | g, c :: rest =>
    let called := g.call target c
    let built := build target called.1 rest
    (built.1, called.2 :: built.2)

/-- There is no answer to a call that never comes back. -/
def answer (g : Graph) (target : NodeId) (r : Request) : Option (Graph × Option Refusal) :=
  match r.side with
  | .front => some (g.prependGiven target r.argument)
  | .back => g.addGiven target r.argument

/-- Calls one after another, each of which has to be answered before the next one is made. -/
def answers (target : NodeId) : Graph → List Request → Option (Graph × List (Option Refusal))
  | g, [] => some (g, [])
  | g, r :: rest =>
    (g.answer target r).bind fun answered =>
      (answers target answered.1 rest).map fun others => (others.1, answered.2 :: others.2)

/-- What the arguments hold, each at the time of its call. -/
def held (target : NodeId) : Graph → List Request → List Call
  | _, [] => []
  | g, r :: rest => r.held g :: held target (g.call target (r.held g)).1 rest

end Graph

/-- The node is to put its own children behind them, and however many steps it takes, it does not
come to the end of them. -/
def Request.Endless (g : Graph) (target : NodeId) (r : Request) : Prop :=
  r.side = .back ∧ r.argument = .childrenOf target ∧
    ∀ steps, appendOwn target steps (g.children target) 0 = none

variable {g h : Graph} {target : NodeId} {item : Item} {c : Call} {r : Request} {cs : List Child}

theorem accept_of_fits (h : item.Fits target) :
    ∃ child, accept target item = .ok child ∧ item.child? = some child := by
  cases item with
  | text s => exact ⟨.text s, rfl, rfl⟩
  | node i => exact ⟨.node i, if_neg h, rfl⟩
  | foreign v => exact absurd h id
  | list items => exact absurd h id

theorem accept_of_not_fits (h : ¬ item.Fits target) :
    accept target item = .error item.refusal := by
  cases item with
  | text s => exact absurd trivial h
  | node i => exact if_pos (not_not.1 h)
  | foreign v => rfl
  | list items => rfl

theorem acceptAll_eq (target : NodeId) (items : List Item) :
    acceptAll target items =
      ((items.takeWhile fun item => item.Fits target).filterMap Item.child?,
        (items.find? fun item => ¬ item.Fits target).map Item.refusal) := by
  induction items with
  | nil => rfl
  | cons item rest ih =>
    by_cases h : item.Fits target
    · obtain ⟨child, haccept, hchild⟩ := accept_of_fits h
      simp [acceptAll, haccept, hchild, h, ih]
    · simp [acceptAll, accept_of_not_fits h, h]

theorem refusal?_eq_none_iff : c.refusal? target = none ↔ c.AllFit target := by
  simp [Call.refusal?, Call.AllFit]

theorem block_of_allFit (h : c.AllFit target) :
    c.block target = c.item.parts.filterMap Item.child? := by
  have htake : (c.item.parts.takeWhile fun item => item.Fits target) = c.item.parts := by
    apply List.takeWhile_eq_self_iff.2
    intro item hitem
    exact decide_eq_true (h item hitem)
  rw [Call.block]
  cases c.side with
  | front => exact if_pos h
  | back => exact congrArg (List.filterMap Item.child?) htake

/-- Where a call that is refused has come to. -/
theorem refused_at (h : ¬ c.AllFit target) :
    ∃ before bad after, c.item.parts = before ++ bad :: after ∧
      (∀ item ∈ before, item.Fits target) ∧ ¬ bad.Fits target ∧
      c.refusal? target = some bad.refusal ∧
      c.block target = match c.side with
        | .front => []
        | .back => before.filterMap Item.child? := by
  have hsome : c.refusal? target ≠ none := mt refusal?_eq_none_iff.1 h
  obtain ⟨r, hr⟩ := Option.ne_none_iff_exists'.1 hsome
  obtain ⟨bad, hbad, rfl⟩ := Option.map_eq_some_iff.1 hr
  obtain ⟨hfits, before, after, hparts, hbefore⟩ := List.find?_eq_some_iff_append.1 hbad
  have hfits' : ¬ bad.Fits target := by simpa using hfits
  have hbefore' : ∀ item ∈ before, item.Fits target := by simpa using hbefore
  have htake : (c.item.parts.takeWhile fun item => item.Fits target) = before := by
    rw [hparts, List.takeWhile_append_of_pos (by simpa using hbefore'),
      List.takeWhile_cons_of_neg (by simpa using hfits'), List.append_nil]
  refine ⟨before, bad, after, hparts, hbefore', hfits', hr, ?_⟩
  rw [Call.block, htake, if_neg h]

/-- A refused call has put nothing in front. -/
theorem call_front (g : Graph) (target : NodeId) (item : Item) :
    g.call target ⟨.front, item⟩ =
      (if Call.AllFit target ⟨.front, item⟩ then
          g.update target fun n => ⟨n.tag, Call.block target ⟨.front, item⟩ ++ n.children⟩
        else g, Call.refusal? target ⟨.front, item⟩) := by
  have hrefusal : (acceptAll target item.parts).2 = Call.refusal? target ⟨.front, item⟩ := by
    rw [acceptAll_eq]
    rfl
  have hblock : (acceptAll target item.parts).1 = Call.block target ⟨.back, item⟩ := by
    rw [acceptAll_eq]
    rfl
  by_cases h : Call.AllFit target ⟨.front, item⟩
  · have hnone := refusal?_eq_none_iff.2 h
    have hsame : Call.block target ⟨.back, item⟩ = Call.block target ⟨.front, item⟩ :=
      (block_of_allFit (c := ⟨.back, item⟩) h).trans (block_of_allFit h).symm
    rw [if_pos h, hnone, ← hsame, ← hblock]
    simp only [Graph.call, Graph.prepend]
    rw [← Prod.eta (acceptAll target item.parts), hrefusal, hnone]
  · obtain ⟨r, hr⟩ := Option.ne_none_iff_exists'.1 (mt refusal?_eq_none_iff.1 h)
    rw [if_neg h, hr]
    simp only [Graph.call, Graph.prepend]
    rw [← Prod.eta (acceptAll target item.parts), hrefusal, hr]

theorem call_back (g : Graph) (target : NodeId) (item : Item) :
    g.call target ⟨.back, item⟩ =
      (g.update target fun n => ⟨n.tag, n.children ++ Call.block target ⟨.back, item⟩⟩,
        Call.refusal? target ⟨.back, item⟩) := by
  simp only [Graph.call, Graph.add, acceptAll_eq]
  rfl

theorem call_refusal (g : Graph) (target : NodeId) (c : Call) :
    (g.call target c).2 = c.refusal? target := by
  obtain ⟨_ | _, item⟩ := c
  · rw [call_front]
  · rw [call_back]

theorem size_call (g : Graph) (target : NodeId) (c : Call) :
    (g.call target c).1.size = g.size := by
  obtain ⟨_ | _, item⟩ := c
  · rw [call_front]
    split <;> simp
  · rw [call_back, Graph.size_update]

theorem node_call_of_ne {m : NodeId} (hm : m ≠ target) (c : Call) :
    (g.call target c).1.node m = g.node m := by
  obtain ⟨_ | _, item⟩ := c
  · rw [call_front]
    split
    · exact g.node_update_of_ne hm.symm _
    · rfl
  · rw [call_back]
    exact g.node_update_of_ne hm.symm _

theorem node_call_front (ht : target < g.size) (item : Item) :
    (g.call target ⟨.front, item⟩).1.node target =
      ⟨(g.node target).tag, Call.block target ⟨.front, item⟩ ++ g.children target⟩ := by
  rw [call_front]
  by_cases h : Call.AllFit target ⟨.front, item⟩
  · rw [if_pos h]
    exact g.node_update_self ht _
  · have hblock : Call.block target ⟨.front, item⟩ = [] := if_neg h
    rw [if_neg h, hblock]
    rfl

theorem node_call_back (ht : target < g.size) (item : Item) :
    (g.call target ⟨.back, item⟩).1.node target =
      ⟨(g.node target).tag, g.children target ++ Call.block target ⟨.back, item⟩⟩ := by
  rw [call_back]
  exact g.node_update_self ht _

theorem accept_item {child : Child} (h : child.item.Fits target) :
    accept target child.item = .ok child := by
  cases child with
  | text s => rfl
  | node i => exact if_neg h
  | foreign v => exact absurd h id

theorem filterMap_item (h : ∀ child ∈ cs, child.item.Fits target) :
    (cs.map Child.item).filterMap Item.child? = cs := by
  induction cs with
  | nil => rfl
  | cons child rest ih =>
    have hchild : child.item.child? = some child := by
      obtain ⟨found, haccept, hfound⟩ := accept_of_fits (h child List.mem_cons_self)
      rw [hfound, Except.ok.inj (haccept.symm.trans (accept_item (h child List.mem_cons_self)))]
    rw [List.map_cons, List.filterMap_cons_some hchild,
      ih fun other hother => h other (List.mem_cons_of_mem child hother)]

/-- What is appended fits as well, so there is always one more to come. -/
theorem appendOwn_eq_none {position : Nat} (hposition : position < cs.length)
    (hfits : ∀ child ∈ cs, child.item.Fits target) (steps : Nat) :
    appendOwn target steps cs position = none := by
  induction steps generalizing cs position with
  | zero => rfl
  | succ steps ih =>
    have hfit := hfits _ (List.getElem_mem hposition)
    simp only [appendOwn, List.getElem?_eq_getElem hposition, accept_item hfit]
    apply ih
    · rw [List.length_append, List.length_singleton]
      omega
    · intro child hchild
      rcases List.mem_append.1 hchild with hchild | hchild
      · exact hfits child hchild
      · rwa [List.mem_singleton.1 hchild]

/-- The children that were appended stand behind the one that is refused, which is come to first. -/
theorem appendOwn_eq_some (before : List Child) {rest : List Child} {bad : Child}
    (after : List Child) (hrest : ∀ child ∈ rest, child.item.Fits target)
    (hbad : ¬ bad.item.Fits target) {steps : Nat} (hsteps : rest.length < steps) :
    appendOwn target steps (before ++ rest ++ bad :: after) before.length =
      some (before ++ rest ++ bad :: after ++ rest, some bad.item.refusal) := by
  obtain ⟨steps, rfl⟩ := Nat.exists_eq_add_one_of_ne_zero (Nat.ne_zero_of_lt hsteps)
  induction rest generalizing before after steps with
  | nil =>
    rw [appendOwn]
    simp [accept_of_not_fits hbad]
  | cons child rest ih =>
    have hlt : rest.length < steps := Nat.lt_of_succ_lt_succ hsteps
    obtain ⟨steps, rfl⟩ := Nat.exists_eq_add_one_of_ne_zero (Nat.ne_zero_of_lt hlt)
    have hstep := ih (before ++ [child]) (after ++ [child])
      (fun other hother => hrest other (List.mem_cons_of_mem child hother)) steps hlt
    rw [appendOwn]
    simpa [accept_item (hrest child List.mem_cons_self)] using hstep

/-- A change of a node counts for what it makes of the node as it is. -/
theorem update_congr {f f' : Node → Node} (h : f (g.node target) = f' (g.node target)) :
    g.update target f = g.update target f' := by
  apply congrArg Graph.mk
  apply Array.ext_getElem?
  intro j
  rw [Array.getElem?_modify, Array.getElem?_modify]
  split
  · next heq =>
    subst heq
    rw [Graph.node, Array.getD_eq_getD_getElem?] at h
    cases hnode : g.nodes[target]? with
    | none => rfl
    | some n =>
      rw [hnode] at h
      exact congrArg some h
  · rfl

theorem appendOwn_children (h : cs = [] ∨ ¬ Call.AllFit target ⟨.back, .list (cs.map Child.item)⟩) :
    appendOwn target (cs.length + 1) cs 0 =
      some (cs ++ Call.block target ⟨.back, .list (cs.map Child.item)⟩,
        Call.refusal? target ⟨.back, .list (cs.map Child.item)⟩) := by
  rcases h with rfl | hfits
  · rfl
  · obtain ⟨before, bad, after, hparts, hbefore, hbad, hrefusal, hblock⟩ := refused_at hfits
    obtain ⟨front, rest, rfl, rfl, hrest⟩ := List.map_eq_append_iff.1 hparts
    obtain ⟨child, back, rfl, rfl, rfl⟩ := List.map_eq_cons_iff.1 hrest
    have hfront : ∀ child ∈ front, child.item.Fits target :=
      fun child hchild => hbefore _ (List.mem_map_of_mem hchild)
    rw [hblock, hrefusal, filterMap_item hfront]
    apply appendOwn_eq_some [] back hfront hbad
    rw [List.length_append]
    omega

/-- A call has no end if the node has children and none of them stops it. -/
theorem endless_iff : r.Endless g target ↔ r.side = .back ∧ r.argument = .childrenOf target ∧
    g.children target ≠ [] ∧ (r.held g).AllFit target := by
  obtain ⟨side, argument⟩ := r
  constructor
  · rintro ⟨rfl, rfl, hendless⟩
    by_contra h
    have hstops : g.children target = [] ∨
        ¬ Call.AllFit target ⟨.back, .list ((g.children target).map Child.item)⟩ :=
      or_iff_not_imp_left.2 fun hne hfits => h ⟨rfl, rfl, hne, hfits⟩
    cases (hendless _).symm.trans (appendOwn_children hstops)
  · rintro ⟨rfl, rfl, hne, hfits⟩
    refine ⟨rfl, rfl, appendOwn_eq_none (List.length_pos_iff.2 hne) ?_⟩
    intro child hchild
    exact hfits child.item (List.mem_map_of_mem hchild)

theorem answer_of_endless (h : r.Endless g target) : g.answer target r = none := by
  obtain ⟨side, argument⟩ := r
  obtain ⟨rfl, rfl, hnone⟩ := h
  simp only [Graph.answer, Graph.addGiven, if_pos, hnone, Option.map_none]

theorem answer_of_not_endless (h : ¬ r.Endless g target) :
    g.answer target r = some (g.call target (r.held g)) := by
  obtain ⟨side, argument⟩ := r
  cases side with
  | front => rfl
  | back =>
    cases argument with
    | item item => rfl
    | childrenOf source =>
      by_cases hsource : source = target
      · subst hsource
        have hown := appendOwn_children
          (or_iff_not_imp_left.2 fun hne hfits => h (endless_iff.2 ⟨rfl, rfl, hne, hfits⟩))
        rw [Request.held, Argument.held, call_back]
        simp only [Graph.answer, Graph.addGiven, if_pos, hown, Option.map_some]
        exact congrArg (fun g => some (g, _)) (update_congr rfl)
      · simp only [Graph.answer, Graph.addGiven, if_neg hsource]
        rfl

theorem blocksAt_cons_self (target : NodeId) (c : Call) (rest : List Call) :
    blocksAt target c.side (c :: rest) = c.block target :: blocksAt target c.side rest := by
  simp [blocksAt]

theorem blocksAt_cons_of_ne {side : Side} (h : c.side ≠ side) (target : NodeId)
    (rest : List Call) : blocksAt target side (c :: rest) = blocksAt target side rest := by
  simp [blocksAt, h]

namespace Graph

theorem build_refusals (g : Graph) (target : NodeId) (calls : List Call) :
    (g.build target calls).2 = calls.map (Call.refusal? target) := by
  induction calls generalizing g with
  | nil => rfl
  | cons c rest ih => rw [build, List.map_cons, call_refusal, ih]

theorem node_build_of_ne {m : NodeId} (hm : m ≠ target) (g : Graph) (calls : List Call) :
    (g.build target calls).1.node m = g.node m := by
  induction calls generalizing g with
  | nil => rfl
  | cons c rest ih =>
    rw [build, ih]
    exact node_call_of_ne hm c

theorem size_build (g : Graph) (target : NodeId) (calls : List Call) :
    (g.build target calls).1.size = g.size := by
  induction calls generalizing g with
  | nil => rfl
  | cons c rest ih =>
    rw [build, ih]
    exact size_call g target c

/-- Each block in front comes before all that was there when it was put. -/
theorem node_build (ht : target < g.size) (calls : List Call) :
    (g.build target calls).1.node target =
      ⟨(g.node target).tag, (blocksAt target .front calls).reverse.flatten ++
        g.children target ++ (blocksAt target .back calls).flatten⟩ := by
  induction calls generalizing g with
  | nil => simp [build, blocksAt, children]
  | cons c rest ih =>
    have ht' : target < (g.call target c).1.size := by rwa [size_call]
    rw [build, ih ht']
    obtain ⟨_ | _, item⟩ := c
    · have hfront := blocksAt_cons_self target ⟨.front, item⟩ rest
      have hback : blocksAt target .back (⟨.front, item⟩ :: rest) = blocksAt target .back rest := by
        apply blocksAt_cons_of_ne
        exact nofun
      rw [hfront, hback, children, node_call_front ht]
      simp
    · have hback := blocksAt_cons_self target ⟨.back, item⟩ rest
      have hfront : blocksAt target .front (⟨.back, item⟩ :: rest) = blocksAt target .front rest := by
        apply blocksAt_cons_of_ne
        exact nofun
      rw [hfront, hback, children, node_call_back ht]
      simp

theorem answers_of_endless (h : r.Endless g target) (rest : List Request) :
    g.answers target (r :: rest) = none := by
  rw [answers, answer_of_endless h]
  rfl

theorem answers_of_not_endless (h : ¬ r.Endless g target) (rest : List Request) :
    g.answers target (r :: rest) =
      ((g.call target (r.held g)).1.answers target rest).map fun others =>
        (others.1, (g.call target (r.held g)).2 :: others.2) := by
  rw [answers, answer_of_not_endless h]
  rfl

theorem eq_build_of_answers {requests : List Request} {answered : Graph × List (Option Refusal)}
    (h : g.answers target requests = some answered) :
    answered = g.build target (g.held target requests) := by
  induction requests generalizing g answered with
  | nil => exact (Option.some.inj h).symm
  | cons r rest ih =>
    by_cases hendless : r.Endless g target
    · rw [answers_of_endless hendless] at h
      cases h
    · rw [answers_of_not_endless hendless] at h
      obtain ⟨others, hothers, rfl⟩ := Option.map_eq_some_iff.1 h
      rw [held, build, ← ih hothers]

/-- Calls are all answered up to the first that is endless at its time. -/
theorem answers_eq_none_iff {requests : List Request} :
    g.answers target requests = none ↔ ∃ before r after h refusals,
      requests = before ++ r :: after ∧ g.answers target before = some (h, refusals) ∧
      r.Endless h target := by
  induction requests generalizing g with
  | nil =>
    constructor
    · intro h
      cases h
    · rintro ⟨before, r, after, h, refusals, hnil, -⟩
      exact absurd hnil.symm (List.append_ne_nil_of_right_ne_nil _ (List.cons_ne_nil r after))
  | cons r rest ih =>
    by_cases hendless : r.Endless g target
    · rw [answers_of_endless hendless]
      exact iff_of_true rfl ⟨[], r, rest, g, [], rfl, rfl, hendless⟩
    · rw [answers_of_not_endless hendless, Option.map_eq_none_iff, ih]
      constructor
      · rintro ⟨before, r', after, h, refusals, rfl, hbefore, hr'⟩
        refine ⟨r :: before, r', after, h, (g.call target (r.held g)).2 :: refusals, rfl, ?_, hr'⟩
        rw [answers_of_not_endless hendless, hbefore]
        rfl
      · rintro ⟨before, r', after, h, refusals, heq, hbefore, hr'⟩
        cases before with
        | nil =>
          obtain ⟨rfl, rfl⟩ := List.cons.inj heq
          obtain ⟨rfl, -⟩ := Prod.mk.inj (Option.some.inj hbefore)
          exact absurd hr' hendless
        | cons first before =>
          obtain ⟨rfl, rfl⟩ := List.cons.inj heq
          rw [answers_of_not_endless hendless] at hbefore
          obtain ⟨answered, hanswered, hsame⟩ := Option.map_eq_some_iff.1 hbefore
          obtain ⟨rfl, -⟩ := Prod.mk.inj hsame
          exact ⟨before, r', after, answered.1, answered.2, rfl, hanswered, hr'⟩

/-- Calls on a node are all answered, unless one of them has no end: that is one that puts the
node's own children behind them when it has some and all of them fit. Calls that are answered leave
the blocks put in front in reverse, the old children, and the blocks put behind in order, and they
leave every other node as it was. A call goes through if and only if all its items fit, and then its
block is these items. Otherwise the first item that does not fit decides the complaint, and the
block is what came before it, or nothing in front. -/
theorem build_blocks (ht : target < g.size) (requests : List Request) :
    (g.answers target requests = none ↔ ∃ before r after h refusals,
      requests = before ++ r :: after ∧ g.answers target before = some (h, refusals) ∧
      r.Endless h target) ∧
    (∀ (h : Graph) (r : Request), r.Endless h target ↔ r.side = .back ∧
      r.argument = .childrenOf target ∧ h.children target ≠ [] ∧ (r.held h).AllFit target) ∧
    ∀ h refusals, g.answers target requests = some (h, refusals) →
      h.node target =
        ⟨(g.node target).tag, (blocksAt target .front (g.held target requests)).reverse.flatten ++
          g.children target ++ (blocksAt target .back (g.held target requests)).flatten⟩ ∧
      refusals = (g.held target requests).map (Call.refusal? target) ∧
      (∀ c ∈ g.held target requests, (c.refusal? target = none ↔ c.AllFit target) ∧
        (c.AllFit target → c.block target = c.item.parts.filterMap Item.child?) ∧
        (¬ c.AllFit target → ∃ before bad after, c.item.parts = before ++ bad :: after ∧
          (∀ item ∈ before, item.Fits target) ∧ ¬ bad.Fits target ∧
          c.refusal? target = some bad.refusal ∧
          c.block target = match c.side with
            | .front => []
            | .back => before.filterMap Item.child?)) ∧
      h.size = g.size ∧
      ∀ m, m ≠ target → h.node m = g.node m := by
  refine ⟨answers_eq_none_iff, fun h r => endless_iff, fun h refusals hanswers => ?_⟩
  obtain ⟨rfl, rfl⟩ := Prod.mk.inj (eq_build_of_answers hanswers)
  refine ⟨node_build ht _, build_refusals g target _, ?_, size_build g target _, ?_⟩
  · intro c _
    exact ⟨refusal?_eq_none_iff, block_of_allFit, refused_at⟩
  · intro m hm
    exact node_build_of_ne hm g _

/-- A node with a child, and a node to be put into it. -/
def pairGraph : Graph := ⟨#[⟨{}, [.text "old"]⟩, ⟨{ line := some 1 }, [.text "x"]⟩]⟩

/-- Blocks at both ends. One call in front and one behind meet an item that does not fit, and the
last two calls are given what is in the other node and what is in the node itself. -/
def mixedRequests : List Request := [
  ⟨.front, .item (.list [.text "a", .node 1])⟩,
  ⟨.back, .item (.list [.text "b", .node 1, .node 0, .text "lost"])⟩,
  ⟨.front, .item (.list [.text "lost", .list [.text "deep"]])⟩,
  ⟨.front, .item (.foreign (.scalar .null))⟩,
  ⟨.back, .childrenOf 1⟩,
  ⟨.front, .childrenOf 0⟩]

theorem build_mixedRequests :
    0 < pairGraph.size ∧
      (∃ h, pairGraph.answers 0 mixedRequests = some (h, [none, some .itself,
          some (.unfit (.list [.text "deep"])), some (.unfit (.foreign (.scalar .null))),
          none, none]) ∧
        h.children 0 = [.text "a", .node 1, .text "old", .text "b", .node 1, .text "x",
          .text "a", .node 1, .text "old", .text "b", .node 1, .text "x"] ∧
        h.node 1 = ⟨{ line := some 1 }, [.text "x"]⟩) ∧
      pairGraph.answers 0 (mixedRequests ++ [⟨.back, .childrenOf 0⟩]) = none := by
  have ht : 0 < pairGraph.size := by decide
  obtain ⟨h, refusals, hanswers⟩ :
      ∃ h refusals, pairGraph.answers 0 mixedRequests = some (h, refusals) := ⟨_, _, rfl⟩
  obtain ⟨hnode, hrefusals, -, -, hothers⟩ := (build_blocks ht mixedRequests).2.2 h refusals hanswers
  have hchildren : h.children 0 = [.text "a", .node 1, .text "old", .text "b", .node 1, .text "x",
      .text "a", .node 1, .text "old", .text "b", .node 1, .text "x"] := by
    rw [children, hnode]
    rfl
  have hfits : ∀ item ∈ (h.children 0).map Child.item, item.Fits 0 := by
    rw [hchildren]
    decide
  have hne : h.children 0 ≠ [] := by
    rw [hchildren]
    exact List.cons_ne_nil _ _
  refine ⟨ht, ⟨h, ?_, hchildren, ?_⟩, ?_⟩
  · rw [hanswers, hrefusals]
    rfl
  · rw [hothers 1 Nat.one_ne_zero]
    rfl
  · obtain ⟨hnone, hendless, -⟩ := build_blocks ht (mixedRequests ++ [⟨.back, .childrenOf 0⟩])
    exact hnone.2 ⟨mixedRequests, ⟨.back, .childrenOf 0⟩, [], h, refusals, rfl, hanswers,
      (hendless h _).2 ⟨rfl, rfl, hne, hfits⟩⟩

/-- Each item fits, and still the call has no end. -/
theorem addGiven_ownChildren :
    (∀ item ∈ (Argument.held pairGraph (.childrenOf 0)).parts, item.Fits 0) ∧
      (∀ steps, appendOwn 0 steps (pairGraph.children 0) 0 = none) ∧
      pairGraph.addGiven 0 (.childrenOf 0) = none := by
  have hfits : ∀ item ∈ (Argument.held pairGraph (.childrenOf 0)).parts, item.Fits 0 := by decide
  have hendless : Request.Endless pairGraph 0 ⟨.back, .childrenOf 0⟩ :=
    endless_iff.2 ⟨rfl, rfl, by decide, hfits⟩
  exact ⟨hfits, hendless.2.2, answer_of_endless hendless⟩

end Graph

end TypedModule
