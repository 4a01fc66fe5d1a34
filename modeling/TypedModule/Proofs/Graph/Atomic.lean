import TypedModule.Proofs.Graph.Foreign
import TypedModule.Proofs.Graph.Module

/-!
# All or nothing

A run of the pass works on the graph step by step, and a failure undoes none of the steps. Still
nothing is lost: all checks come before the first step, copying makes new nodes only, and what
changes nodes in place comes when nothing can fail any more. So a run that fails leaves the record
and the nodes that were there as they were, and there are five cases in which it does. Foreign
children that have a copy are none of these: the module is that of the code without them.
-/

open TypedModule.Graph

namespace TypedModule

variable {g h : Graph} {i : NodeId} {s : Settings} {strict : Bool}

namespace Work

/-- What the pass has come to is the outcome. If that is a failure, the nodes of `g` are in the
graph that is left as they were. -/
def EndsIn (ended : Except PassFault Outcome × Graph) (g : Graph) :
    Except PassFault Outcome → Prop
  | .ok out => ended = (.ok out, out.graph)
  | .error e => ∃ h, ended = (.error e, h) ∧ Extends g h

theorem endsIn_wrap (s : Settings) (strict : Bool) (code : Option NodeId) (g : Graph) :
    EndsIn ((wrap s strict code).on g) g (g.wrap s strict code) := by
  cases code with
  | none => exact ⟨g, rfl, Extends.refl g⟩
  | some i =>
    rw [Graph.wrap]
    cases hname : s.checkedName strict with
    | error fault =>
      refine ⟨g, ?_, Extends.refl g⟩
      rw [wrap, on_bind, on_ofExcept, hname]
      rfl
    | ok name =>
      have hcopy := (follows_copy i g).adapt PassFault.walk
      cases hc : g.copy i with
      | error obstacle =>
        rw [hc] at hcopy
        obtain ⟨h, hon, hext⟩ := hcopy
        refine ⟨h, ?_, hext⟩
        simp only [wrap, on_bind, on_ofExcept, hname, Except.mapError, hon]
      | ok r =>
        rw [hc] at hcopy
        have hon : (adapt PassFault.walk (copy i)).on g = (.ok r.2, r.1) := hcopy.1
        simp only [EndsIn, wrap, on_bind, on_ofExcept, hname, Except.mapError, hon, on_modify,
          on_modifyGet, on_get, on_pure, Prod.fst_swap, Prod.snd_swap]

end Work

/-- The settings that an argument stands for. No argument stands for the usual ones. -/
def SettingsFrom (argument : Json) (s : Settings) : Prop :=
  argument = .null ∧ s = {} ∨
    ∃ fields, argument = .object fields ∧ Settings.ofJson argument = .ok s

def Rejected (argument : Json) (fault : SettingsFault) : Prop :=
  ∃ fields, argument = .object fields ∧ Settings.ofJson argument = .error fault

def NoSettings (argument : Json) : Prop :=
  argument ≠ .null ∧ ∀ fields, argument ≠ .object fields

theorem argument_cases (argument : Json) :
    (∃ s, SettingsFrom argument s) ∨ (∃ fault, Rejected argument fault) ∨
      NoSettings argument := by
  cases argument with
  | scalar v =>
    cases v with
    | null => exact Or.inl ⟨{}, Or.inl ⟨rfl, rfl⟩⟩
    | bool b => exact Or.inr (Or.inr ⟨nofun, nofun⟩)
    | int n => exact Or.inr (Or.inr ⟨nofun, nofun⟩)
    | real x => exact Or.inr (Or.inr ⟨nofun, nofun⟩)
  | text t => exact Or.inr (Or.inr ⟨nofun, nofun⟩)
  | array items => exact Or.inr (Or.inr ⟨nofun, nofun⟩)
  | object fields =>
    cases hs : Settings.ofJson (.object fields) with
    | error fault => exact Or.inr (Or.inl ⟨fault, fields, rfl, hs⟩)
    | ok s => exact Or.inl ⟨s, Or.inr ⟨fields, rfl, hs⟩⟩

namespace SettingsFrom

variable {argument : Json} (hs : SettingsFrom argument s)

include hs

theorem not_rejected {fault : SettingsFault} : ¬ Rejected argument fault := by
  rintro ⟨fields, rfl, hfault⟩
  rcases hs with ⟨hnull, -⟩ | ⟨fields', -, hok⟩
  · cases hnull
  · cases hok.symm.trans hfault

theorem not_noSettings : ¬ NoSettings argument := by
  rintro ⟨hnull, hobject⟩
  rcases hs with ⟨heq, -⟩ | ⟨fields, heq, -⟩
  · exact hnull heq
  · exact hobject fields heq

theorem unique {s' : Settings} (hs' : SettingsFrom argument s') : s' = s := by
  rcases hs with ⟨rfl, rfl⟩ | ⟨fields, rfl, hok⟩
  · rcases hs' with ⟨-, rfl⟩ | ⟨fields, hobject, -⟩
    · rfl
    · cases hobject
  · rcases hs' with ⟨hnull, -⟩ | ⟨fields', -, hok'⟩
    · cases hnull
    · exact Except.ok.inj (hok'.symm.trans hok)

theorem not_bad_name {name : String} (hname : s.checkedName strict = .ok name) :
    ¬ ∃ s fault, SettingsFrom argument s ∧
      checkErrorName strict s.effectiveName = .error fault := by
  rintro ⟨s', fault, hs', hbad⟩
  obtain rfl := hs.unique hs'
  cases hname.symm.trans hbad

theorem endsIn_pass (strict : Bool) (code : Option NodeId) (g : Graph) :
    Work.EndsIn ((Work.pass argument strict code).on g) g (g.wrap s strict code) := by
  rcases hs with ⟨rfl, rfl⟩ | ⟨fields, rfl, hok⟩
  · exact Work.endsIn_wrap {} strict code g
  · rw [Work.pass, Work.on_bind, Work.on_ofExcept, hok]
    exact Work.endsIn_wrap s strict code g

end SettingsFrom

theorem endsIn_pass_rejected {argument : Json} {fault : SettingsFault}
    (h : Rejected argument fault) (strict : Bool) (code : Option NodeId) (g : Graph) :
    Work.EndsIn ((Work.pass argument strict code).on g) g (.error (.settings fault)) := by
  obtain ⟨fields, rfl, hfault⟩ := h
  refine ⟨g, ?_, Extends.refl g⟩
  rw [Work.pass, Work.on_bind, Work.on_ofExcept, hfault]
  rfl

theorem endsIn_pass_noSettings {argument : Json} (h : NoSettings argument) (strict : Bool)
    (code : Option NodeId) (g : Graph) :
    Work.EndsIn ((Work.pass argument strict code).on g) g
      (.error (if code = none then .missingCode else .notSettings argument.kind)) := by
  refine ⟨g, ?_, Extends.refl g⟩
  unfold Work.pass
  split
  · exact absurd rfl h.1
  · exact absurd rfl (h.2 _)
  · cases code <;> rfl

namespace Record

variable {r : Record} {argument : Json} {result : Except PassFault String}

open Classical in
/-- What a run comes to, told by the first of the five cases of failure that applies. -/
def Verdict (r : Record) (g : Graph) (argument : Json) (strict : Bool)
    (result : Except PassFault String) : Prop :=
  if ∃ fault, Rejected argument fault then
    ∃ fault, Rejected argument fault ∧ result = .error (.settings fault)
  else if r.code = none then
    result = .error .missingCode
  else if NoSettings argument then
    result = .error (.notSettings argument.kind)
  else if ∃ s fault, SettingsFrom argument s ∧
      checkErrorName strict s.effectiveName = .error fault then
    ∃ s fault, SettingsFrom argument s ∧ checkErrorName strict s.effectiveName = .error fault ∧
      result = .error (.name fault)
  else if ∃ i n v, r.code = some i ∧ g.Reaches i n ∧ .foreign v ∈ g.children n ∧
      v.copies = false then
    ∃ i n v, r.code = some i ∧ g.Reaches i n ∧ .foreign v ∈ g.children n ∧ v.copies = false ∧
      result = .error (.walk ⟨.copying, .foreign v⟩)
  else ∃ told, result = .ok told

namespace Verdict

theorem of_rejected {fault : SettingsFault} (h : Rejected argument fault) :
    r.Verdict g argument strict (.error (.settings fault)) := by
  rw [Verdict, if_pos ⟨fault, h⟩]
  exact ⟨fault, h, rfl⟩

theorem of_none (hrejected : ∀ fault, ¬ Rejected argument fault) (hcode : r.code = none) :
    r.Verdict g argument strict (.error .missingCode) := by
  rw [Verdict, if_neg (not_exists.2 hrejected), if_pos hcode]

theorem of_noSettings (h : NoSettings argument) (hcode : r.code ≠ none) :
    r.Verdict g argument strict (.error (.notSettings argument.kind)) := by
  have hrejected : ¬ ∃ fault, Rejected argument fault := by
    rintro ⟨fault, fields, hobject, -⟩
    exact h.2 fields hobject
  rw [Verdict, if_neg hrejected, if_neg hcode, if_pos h]

section

variable (hs : SettingsFrom argument s) (hcode : r.code = some i)

include hs hcode

theorem of_name {fault : NameFault} (hname : s.checkedName strict = .error fault) :
    r.Verdict g argument strict (.error (.name fault)) := by
  have hbad : ∃ s fault, SettingsFrom argument s ∧
      checkErrorName strict s.effectiveName = .error fault := ⟨s, fault, hs, hname⟩
  rw [Verdict, if_neg (not_exists.2 fun _ => hs.not_rejected), if_neg (by simp [hcode]),
    if_neg hs.not_noSettings, if_pos hbad]
  exact ⟨s, fault, hs, hname, rfl⟩

section

variable {name : String} (hname : s.checkedName strict = .ok name)

include hname

/-- With settings, code and a good name there is only the code to be looked at. -/
theorem iff_told (ht : (g.without Foreign.copies).Textual i) :
    r.Verdict g argument strict result ↔ ∃ told, result = .ok told := by
  have hnone : ¬ ∃ j n v, r.code = some j ∧ g.Reaches j n ∧ .foreign v ∈ g.children n ∧
      v.copies = false := by
    rintro ⟨j, n, v, hj, hv⟩
    obtain rfl := Option.some.inj (hcode.symm.trans hj)
    exact not_textual_without_iff.2 ⟨n, v, hv⟩ ht
  rw [Verdict, if_neg (not_exists.2 fun _ => hs.not_rejected), if_neg (by simp [hcode]),
    if_neg hs.not_noSettings, if_neg (hs.not_bad_name hname), if_neg hnone]

theorem of_uncopied {n : NodeId} {v : Foreign} (hn : g.Reaches i n)
    (hv : .foreign v ∈ g.children n) (hcopies : v.copies = false) :
    r.Verdict g argument strict (.error (.walk ⟨.copying, .foreign v⟩)) := by
  rw [Verdict, if_neg (not_exists.2 fun _ => hs.not_rejected), if_neg (by simp [hcode]),
    if_neg hs.not_noSettings, if_neg (hs.not_bad_name hname),
    if_pos ⟨i, n, v, hcode, hn, hv, hcopies⟩]
  exact ⟨i, n, v, hcode, hn, hv, hcopies, rfl⟩

end

end

end Verdict

theorem run_eq {x : Except PassFault Outcome}
    (h : Work.EndsIn ((Work.pass argument strict r.code).on g) g x) :
    match x with
    | .ok out => r.run g argument strict =
        ((out.graph, { r with code := some out.root }), .ok out.report)
    | .error fault => ∃ h, r.run g argument strict = ((h, r), .error fault) ∧ Extends g h := by
  cases x with
  | ok out =>
    have hon : (Work.pass argument strict r.code).on g = (.ok out, out.graph) := h
    simp only [run, hon]
  | error fault =>
    obtain ⟨h, hon, hext⟩ := h
    exact ⟨h, by simp only [run, hon], hext⟩

theorem wrap_eq_error_walk (hg : g.WellFormed) (hi : i < g.size) {name : String}
    (hname : s.checkedName strict = .ok name) (ht : ¬ (g.without Foreign.copies).Textual i) :
    ∃ n v, g.Reaches i n ∧ .foreign v ∈ g.children n ∧ v.copies = false ∧
      g.wrap s strict (some i) = .error (.walk ⟨.copying, .foreign v⟩) := by
  have hg' := hg.without Foreign.copies
  have hi' : i < (g.without Foreign.copies).size := by rwa [size_without]
  cases hunfold : (g.without Foreign.copies).unfold i with
  | ok t => exact absurd (hg'.textual_of_unfold hi' hunfold) ht
  | error e =>
    obtain ⟨n, v, hn, hv, rfl⟩ := hg'.foreign_of_unfold hi' hunfold
    rw [children_without] at hv
    obtain ⟨hv, hcopies⟩ := foreign_mem_leaveOut.1 hv
    exact ⟨n, v, reaches_without.1 hn, hv, hcopies,
      wrap_eq_error_of_copy hname (copy_eq_error hg hi hunfold)⟩

/-- What a run of the pass leaves of a record and its graph, and what it comes to. -/
structure AllOrNothing (r : Record) (g : Graph) (argument : Json) (strict : Bool) (h : Graph)
    (r' : Record) (result : Except PassFault String) : Prop where
  verdict : r.Verdict g argument strict result
  nodes : ∀ n < g.size, h.node n = g.node n
  others : r'.others = r.others
  failure : ∀ fault, result = .error fault → r'.code = r.code
  success : ∀ told, result = .ok told → ∃ s i out, SettingsFrom argument s ∧ r.code = some i ∧
    g.wrap s strict (some i) = .ok out ∧ h = out.graph ∧ r'.code = some out.root ∧
    g.size ≤ out.root ∧ told = out.report ∧
    -- The module is the same as if what is foreign had not been there at all.
    ∃ out' t, (g.without Foreign.copies).wrap s strict (some i) = .ok out' ∧
      out.graph.unfold out.root = .ok t ∧ out'.graph.unfold out'.root = .ok t

theorem AllOrNothing.of_error {fault : PassFault} (hext : Extends g h)
    (hverdict : r.Verdict g argument strict (.error fault)) :
    r.AllOrNothing g argument strict h r (.error fault) where
  verdict := hverdict
  nodes := hext.node_eq
  others := rfl
  failure _ _ := rfl
  success _ htold := by cases htold

section

variable (hg : g.WellFormed) (hi : i < g.size) (hcode : r.code = some i)
  (hs : SettingsFrom argument s)

include hg hi hcode hs

/-- A run for settings that fit, on code that is there. -/
theorem allOrNothing_of_settings :
    ∃ h r' result, r.run g argument strict = ((h, r'), result) ∧
      r.AllOrNothing g argument strict h r' result := by
  have hwrap : g.wrap s strict r.code = g.wrap s strict (some i) := by rw [hcode]
  have hends := hs.endsIn_pass strict r.code g
  rw [hwrap] at hends
  cases hname : s.checkedName strict with
  | error fault =>
    rw [wrap_eq_error g i hname] at hends
    obtain ⟨h, hrun, hext⟩ := run_eq hends
    exact ⟨h, r, _, hrun, AllOrNothing.of_error hext (Verdict.of_name hs hcode hname)⟩
  | ok name =>
    by_cases ht : (g.without Foreign.copies).Textual i
    · have hg' := hg.without Foreign.copies
      have hi' : i < (g.without Foreign.copies).size := by rwa [size_without]
      obtain ⟨t, hunfold⟩ := hg'.exists_unfold hi' ht
      obtain ⟨out, hout, hw⟩ := wrap_eq_ok_of_without hg hi hname hunfold
      obtain ⟨out', hout', hw'⟩ := wrap_eq_ok hg' hi' hname hunfold
      rw [hout] at hends
      refine ⟨_, _, _, run_eq hends, ?_, hw.sprouted.kept.node_eq, rfl, nofun, ?_⟩
      · exact (Verdict.iff_told hs hcode hname ht).2 ⟨out.report, rfl⟩
      · intro told htold
        have hroot := hw.sprouted.fresh _ (Reaches.refl out.graph out.root)
        exact ⟨s, i, out, hs, hcode, hout, rfl, rfl, hroot, (Except.ok.inj htold).symm, out',
          s.assemble name t, hout', hw.sprouted.unfold, hw'.sprouted.unfold⟩
    · obtain ⟨n, v, hn, hv, hcopies, hout⟩ := wrap_eq_error_walk hg hi hname ht
      rw [hout] at hends
      obtain ⟨h, hrun, hext⟩ := run_eq hends
      refine ⟨h, r, _, hrun, AllOrNothing.of_error hext ?_⟩
      exact Verdict.of_uncopied hs hcode hname hn hv hcopies

end

/-- A run of the pass on a record. It fails in five cases, the first that applies deciding how.
Whatever it comes to, the nodes that were there and the other attributes of the record are as they
were. If it fails the code of the record is the same node as before, and if it succeeds the code is
a new root, the one that wrapping the old code gives, which unfolds to the same as if the foreign
children that have a copy had been left out before. -/
theorem run_all_or_nothing (hg : g.WellFormed) (hr : ∀ i, r.code = some i → i < g.size)
    (argument : Json) (strict : Bool) :
    ∃ h r' result, r.run g argument strict = ((h, r'), result) ∧
      r.AllOrNothing g argument strict h r' result := by
  rcases argument_cases argument with ⟨s, hs⟩ | ⟨fault, hrejected⟩ | hnone
  · cases hcode : r.code with
    | none =>
      have hwrap : g.wrap s strict r.code = .error .missingCode := by
        rw [hcode]
        rfl
      have hends := hs.endsIn_pass strict r.code g
      rw [hwrap] at hends
      obtain ⟨h, hrun, hext⟩ := run_eq hends
      refine ⟨h, r, _, hrun, AllOrNothing.of_error hext ?_⟩
      exact Verdict.of_none (fun _ => hs.not_rejected) hcode
    | some i => exact allOrNothing_of_settings hg (hr i hcode) hcode hs
  · obtain ⟨h, hrun, hext⟩ := run_eq (endsIn_pass_rejected hrejected strict r.code g)
    exact ⟨h, r, _, hrun, AllOrNothing.of_error hext (Verdict.of_rejected hrejected)⟩
  · obtain ⟨h, hrun, hext⟩ := run_eq (endsIn_pass_noSettings hnone strict r.code g)
    refine ⟨h, r, _, hrun, AllOrNothing.of_error hext ?_⟩
    split
    · next hcode =>
      refine Verdict.of_none ?_ hcode
      rintro fault ⟨fields, hobject, -⟩
      exact hnone.2 fields hobject
    · next hcode => exact Verdict.of_noSettings hnone hcode

/-- The first code has a foreign child that has a copy and one that has none, and the second code
has only the former. Copying gets past two children of the first. -/
def flawedCode : Graph := ⟨#[
  ⟨{}, [.node 2, .foreign (.other "list" true "[]"), .foreign (.scalar .null)]⟩,
  ⟨{}, [.node 2, .foreign (.other "list" true "[]")]⟩,
  ⟨{ line := some 1 }, [.text "f(\n"]⟩]⟩

theorem flawedCode_wellFormed : flawedCode.WellFormed := WellFormed.of_later (by decide)

theorem unfold_flawedCode : (flawedCode.without Foreign.copies).unfold 1 =
    .ok ⟨{}, .node { line := some 1 } (.text "f(\n" .nil) .nil⟩ := by
  have hwithout : flawedCode.without Foreign.copies = ⟨#[
      ⟨{}, [.node 2, .foreign (.scalar .null)]⟩,
      ⟨{}, [.node 2]⟩,
      ⟨{ line := some 1 }, [.text "f(\n"]⟩]⟩ := by
    rw [without, flawedCode, List.map_toArray]
    rfl
  rw [hwithout]
  rfl

def flawedRecord (code : Option NodeId) : Record := ⟨code, [("kind", .text "x")]⟩

def quotedName : Json := .object [("tspegjs", .object [("errorName", .text "a\"b")])]

theorem run_flawedCode :
    (∃ h, (flawedRecord (some 0)).run flawedCode .null true =
        ((h, flawedRecord (some 0)), .error (.walk ⟨.copying, .foreign (.scalar .null)⟩)) ∧
      ∀ n < 3, h.node n = flawedCode.node n) ∧
    (∃ h, (flawedRecord none).run flawedCode (.object [("trace", .text "yes")]) true =
        ((h, flawedRecord none), .error (.settings (.wrongKind "trace" "bool" (.text "yes")))) ∧
      ∀ n < 3, h.node n = flawedCode.node n) ∧
    (∃ h, (flawedRecord none).run flawedCode (.array []) true =
        ((h, flawedRecord none), .error .missingCode) ∧
      ∀ n < 3, h.node n = flawedCode.node n) ∧
    (∃ h, (flawedRecord (some 1)).run flawedCode (.array []) true =
        ((h, flawedRecord (some 1)), .error (.notSettings "list")) ∧
      ∀ n < 3, h.node n = flawedCode.node n) ∧
    (∃ h fault, (flawedRecord (some 1)).run flawedCode quotedName true =
        ((h, flawedRecord (some 1)), .error (.name fault)) ∧
      ∀ n < 3, h.node n = flawedCode.node n) ∧
    ∃ h root told out t, (flawedRecord (some 1)).run flawedCode (.object []) true =
        ((h, flawedRecord (some root)), .ok told) ∧ 3 ≤ root ∧
      (∀ n < 3, h.node n = flawedCode.node n) ∧
      (flawedCode.without Foreign.copies).wrap {} true (some 1) = .ok out ∧
      h.unfold root = .ok t ∧ out.graph.unfold out.root = .ok t := by
  have fails (code : Option NodeId) (argument : Json) (fault : PassFault)
      (hcode : ∀ i, code = some i → i < flawedCode.size)
      (hfault : ((flawedRecord code).run flawedCode argument true).2 = .error fault) :
      ∃ h, (flawedRecord code).run flawedCode argument true =
          ((h, flawedRecord code), .error fault) ∧
        ∀ n < 3, h.node n = flawedCode.node n := by
    obtain ⟨h, ⟨code', others⟩, result, hrun, hall⟩ :=
      run_all_or_nothing (r := flawedRecord code) flawedCode_wellFormed hcode argument true
    rw [hrun] at hfault ⊢
    obtain rfl : result = .error fault := hfault
    obtain rfl : code' = code := hall.failure fault rfl
    obtain rfl : others = _ := hall.others
    exact ⟨h, rfl, hall.nodes⟩
  have hfirst : ∀ i, some 0 = some i → i < flawedCode.size := by
    rintro i ⟨⟩
    decide
  have hsecond : ∀ i, some 1 = some i → i < flawedCode.size := by
    rintro i ⟨⟩
    decide
  refine ⟨fails (some 0) _ _ hfirst rfl, fails none _ _ nofun rfl, fails none _ _ nofun rfl,
    fails (some 1) _ _ hsecond rfl, ?_, ?_⟩
  · obtain ⟨h, hrun⟩ := fails (some 1) quotedName _ hsecond rfl
    exact ⟨h, _, hrun⟩
  · obtain ⟨h, ⟨code, others⟩, result, hrun, hall⟩ :=
      run_all_or_nothing (r := flawedRecord (some 1)) flawedCode_wellFormed hsecond (.object []) true
    have hs : SettingsFrom (.object []) {} := Or.inr ⟨[], rfl, rfl⟩
    have hname : Settings.checkedName {} true = .ok defaultErrorName := by decide +kernel
    have ht : (flawedCode.without Foreign.copies).Textual 1 :=
      (flawedCode_wellFormed.without _).textual_of_unfold (by rw [size_without]; decide)
        unfold_flawedCode
    obtain ⟨told, rfl⟩ := (Verdict.iff_told hs rfl hname ht).1 hall.verdict
    obtain ⟨s, i, out, hs', hi, hout, rfl, hcode, hroot, rfl, out', t, hout', hunfold, hunfold'⟩ :=
      hall.success told rfl
    obtain rfl := hs.unique hs'
    obtain rfl := Option.some.inj hi
    obtain rfl : code = some out.root := hcode
    obtain rfl : others = _ := hall.others
    exact ⟨out.graph, out.root, out.report, out', t, hrun, hroot, hall.nodes, hout', hunfold,
      hunfold'⟩

/-- A child that is neither a fragment nor a node need not make a run fail. -/
theorem run_listedCode : ∃ told, .foreign (.other "list" true "[]") ∈ flawedCode.children 1 ∧
    ((flawedRecord (some 1)).run flawedCode .null true).2 = .ok told := by
  have hg := flawedCode_wellFormed
  have hname : Settings.checkedName {} true = .ok defaultErrorName := by decide +kernel
  obtain ⟨out, hout, -⟩ := wrap_eq_ok_of_without hg (by decide) hname unfold_flawedCode
  have hs : SettingsFrom .null {} := Or.inl ⟨rfl, rfl⟩
  have hends := hs.endsIn_pass true (flawedRecord (some 1)).code flawedCode
  have hwrap : flawedCode.wrap {} true (flawedRecord (some 1)).code = .ok out := hout
  rw [hwrap] at hends
  exact ⟨out.report, by decide, congrArg Prod.snd (run_eq hends)⟩

end Record

end TypedModule
