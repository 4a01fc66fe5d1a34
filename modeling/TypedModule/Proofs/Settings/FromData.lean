import TypedModule.Proofs.Settings.Overrides

/-!
# Settings from data

Settings are read from an object: the tracer flag from one of its fields, the header and the name
from the inner object in another. A field that is absent or nothing leaves the default, and a field
of a wrong type is a fault. The inner object is the exception: a false value, a zero and an empty
text or list stand for an object without fields. No other field makes a difference.
-/

namespace TypedModule

variable {fields : List (String × Json)}

namespace Json

/-- The value of a field, which is nothing if the field is absent. -/
def entry (key : String) (fields : List (String × Json)) : Json := (field? key fields).getD .null

/-- Values that are neither nothing nor objects, and empty for all that. -/
inductive Blank : Json → Prop
  | no : Blank (.scalar (.bool false))
  | zero : Blank (.scalar (.int 0))
  | realZero (negative : Bool) (exponent : Int) : Blank (.scalar (.real (.finite negative 0 exponent)))
  | text : Blank (.text "")
  | array : Blank (.array [])

theorem isEmpty_iff {j : Json} : j.isEmpty = true ↔ j = .null ∨ j = .object [] ∨ Blank j := by
  constructor
  · intro h
    cases j with
    | text s =>
      obtain rfl : s = "" := by simpa [isEmpty] using h
      exact Or.inr (Or.inr .text)
    | array items =>
      obtain rfl : items = [] := by simpa [isEmpty] using h
      exact Or.inr (Or.inr .array)
    | object fields =>
      obtain rfl : fields = [] := by simpa [isEmpty] using h
      exact Or.inr (Or.inl rfl)
    | scalar v =>
      cases v with
      | null => exact Or.inl rfl
      | bool b =>
        obtain rfl : b = false := by simpa [isEmpty] using h
        exact Or.inr (Or.inr .no)
      | int n =>
        obtain rfl : n = 0 := by simpa [isEmpty] using h
        exact Or.inr (Or.inr .zero)
      | real x =>
        cases x with
        | nan => cases h
        | infinite negative => cases h
        | finite negative mantissa exponent =>
          cases mantissa with
          | zero => exact Or.inr (Or.inr (.realZero negative exponent))
          | succ n => cases h
  · rintro (rfl | rfl | h)
    · rfl
    · rfl
    · cases h <;> rfl

end Json

namespace Settings

open Json

/-- Nothing, an object, or another value that is empty. -/
def InnerFits (inner : Json) : Prop :=
  inner = .null ∨ (∃ plugin, inner = .object plugin) ∨ Blank inner

/-- The fields of the inner object; what is no object has none. -/
def innerFields : Json → List (String × Json)
  | .object plugin => plugin
  | _ => []

/-- Settings from the inner value and the flag. -/
def ofEntries (inner trace : Json) : Except SettingsFault Settings :=
  match if inner.isEmpty then .object [] else inner with
  | .object plugin => ofFields ⟨entry "customHeader" plugin, entry "errorName" plugin, trace⟩
  | _ => .error .innerNotObject

theorem ofJson_object (fields : List (String × Json)) :
    ofJson (.object fields) = ofEntries (entry innerKey fields) (entry "trace" fields) := rfl

theorem ofEntries_of_fits {inner : Json} (h : InnerFits inner) (trace : Json) :
    ofEntries inner trace = ofFields
      ⟨entry "customHeader" (innerFields inner), entry "errorName" (innerFields inner), trace⟩ := by
  rcases h with rfl | ⟨plugin, rfl⟩ | h
  · rfl
  · cases plugin <;> rfl
  · have hempty : inner.isEmpty = true := isEmpty_iff.2 (Or.inr (Or.inr h))
    have hfields : innerFields inner = [] := by cases h <;> rfl
    rw [ofEntries, if_pos hempty, hfields]

theorem ofEntries_of_not_fits {inner : Json} (h : ¬ InnerFits inner) (trace : Json) :
    ofEntries inner trace = .error .innerNotObject := by
  have hempty : ¬ inner.isEmpty = true := by
    intro hinner
    rcases isEmpty_iff.1 hinner with hnull | hobject | hblank
    · exact h (Or.inl hnull)
    · exact h (Or.inr (Or.inl ⟨[], hobject⟩))
    · exact h (Or.inr (Or.inr hblank))
  rw [ofEntries, if_neg hempty]
  split
  · next plugin => exact absurd (Or.inr (Or.inl ⟨plugin, rfl⟩)) h
  · rfl

/-- The fields of the settings, each where it stands in the data. -/
def fieldsOf (fields : List (String × Json)) : Fields where
  header := entry "customHeader" (innerFields (entry innerKey fields))
  errorName := entry "errorName" (innerFields (entry innerKey fields))
  trace := entry "trace" fields

/-- The inner value and the fields are of the right types. -/
def Fitting (fields : List (String × Json)) : Prop :=
  InnerFits (entry innerKey fields) ∧ (fieldsOf fields).WellTyped

/-- The settings that the data give, with the defaults for what they leave open. -/
def givenBy (fields : List (String × Json)) : Settings where
  header := nonempty (givenText (fieldsOf fields).header)
  errorName := some (nameOrDefault (givenText (fieldsOf fields).errorName))
  trace := (givenFlag (fieldsOf fields).trace).getD false

theorem ofJson_object_eq_ok_iff {s : Settings} :
    ofJson (.object fields) = .ok s ↔ Fitting fields ∧ s = givenBy fields := by
  rw [ofJson_object]
  by_cases h : InnerFits (entry innerKey fields)
  · have hfields : ofEntries (entry innerKey fields) (entry "trace" fields) =
        ofFields (fieldsOf fields) := ofEntries_of_fits h _
    rw [hfields, ofFields_eq_ok_iff, Fitting, and_iff_right h]
    rfl
  · rw [ofEntries_of_not_fits h]
    exact iff_of_false nofun fun hall => h hall.1.1

theorem ofJson_eq_ok_iff {m : Json} {s : Settings} :
    ofJson m = .ok s ↔ ∃ fields, m = .object fields ∧ Fitting fields ∧ s = givenBy fields := by
  cases m with
  | object fields =>
    rw [ofJson_object_eq_ok_iff]
    constructor
    · intro h
      exact ⟨fields, rfl, h⟩
    · rintro ⟨others, hothers, h⟩
      obtain rfl := Json.object.inj hothers
      exact h
  | _ => exact iff_of_false nofun fun ⟨_, hfields, _⟩ => nomatch hfields

theorem ofJson_eq_error_iff {m : Json} :
    (∃ fault, ofJson m = .error fault) ↔ ¬ ∃ fields, m = .object fields ∧ Fitting fields := by
  cases hm : ofJson m with
  | ok s =>
    obtain ⟨fields, hfields, hfitting, -⟩ := ofJson_eq_ok_iff.1 hm
    exact iff_of_false nofun (not_not_intro ⟨fields, hfields, hfitting⟩)
  | error fault =>
    refine iff_of_true ⟨fault, rfl⟩ ?_
    rintro ⟨fields, hfields, hfitting⟩
    have hread := ofJson_eq_ok_iff.2 ⟨fields, hfields, hfitting, rfl⟩
    cases hm.symm.trans hread

/-- The same at the places where something is looked for: the flag, and the inner value or, in two
inner objects, the header and the name. -/
structure Agree (fields others : List (String × Json)) : Prop where
  trace : entry "trace" fields = entry "trace" others
  inner : entry innerKey fields = entry innerKey others ∨ ∃ plugin plugins,
    entry innerKey fields = .object plugin ∧ entry innerKey others = .object plugins ∧
      entry "customHeader" plugin = entry "customHeader" plugins ∧
      entry "errorName" plugin = entry "errorName" plugins

theorem ofJson_of_agree {others : List (String × Json)} (h : Agree fields others) :
    ofJson (.object fields) = ofJson (.object others) := by
  rw [ofJson_object, ofJson_object, h.trace]
  obtain heq | ⟨plugin, plugins, hplugin, hplugins, hheader, hname⟩ := h.inner
  · rw [heq]
  · rw [hplugin, hplugins, ofEntries_of_fits (Or.inr (Or.inl ⟨plugin, rfl⟩)),
      ofEntries_of_fits (Or.inr (Or.inl ⟨plugins, rfl⟩)), innerFields, innerFields, hheader, hname]

/-- Data are read if and only if they are an object, its inner value is absent, nothing, an object
or another empty value, and the header, the name and the flag are each absent, nothing or of the
right type; otherwise there is a fault. What is read are the header unless it is empty, the name or,
for an absent or empty one, the default name, and the flag, which is off by default. Fields with
other keys make no difference, in the object as in the inner object. -/
theorem ofJson_decides (m : Json) :
    (∀ s, ofJson m = .ok s ↔
        ∃ fields, m = .object fields ∧ Fitting fields ∧ s = givenBy fields) ∧
      ((∃ fault, ofJson m = .error fault) ↔ ¬ ∃ fields, m = .object fields ∧ Fitting fields) ∧
      ∀ fields others, m = .object fields → Agree fields others →
        ofJson (.object others) = ofJson m := by
  refine ⟨fun s => ofJson_eq_ok_iff, ofJson_eq_error_iff, ?_⟩
  rintro fields others rfl h
  exact (ofJson_of_agree h).symm

/-- An empty header and a name in the inner object, the flag beside it. -/
def namedData : List (String × Json) :=
  [("trace", .scalar (.bool true)),
    (innerKey, .object [("customHeader", .text ""), ("errorName", .text "Oops")])]

theorem ofJson_namedData :
    ofJson (.object namedData) = .ok ⟨none, some "Oops", true⟩ ∧
      (∃ fault, ofJson (.object (setField "trace" (.text "yes") namedData)) = .error fault) ∧
      ofJson (.object (("cache", .array []) :: namedData)) = ofJson (.object namedData) := by
  refine ⟨?_, ?_, ?_⟩
  · refine ((ofJson_decides (.object namedData)).1 _).2 ⟨namedData, rfl, ⟨?_, ?_, ?_, ?_⟩, rfl⟩
    · exact Or.inr (Or.inl ⟨_, rfl⟩)
    · exact Or.inr ⟨"", rfl⟩
    · exact Or.inr ⟨"Oops", rfl⟩
    · exact Or.inr ⟨true, rfl⟩
  · refine (ofJson_decides _).2.1.2 ?_
    rintro ⟨fields, hfields, -, htyped⟩
    obtain rfl := Json.object.inj hfields
    rcases htyped.trace with hnull | ⟨flag, hflag⟩
    · cases hnull
    · cases hflag
  · exact (ofJson_decides (.object namedData)).2.2 namedData _ rfl ⟨rfl, Or.inl rfl⟩

/-- An inner value that is false. -/
def falseInner : List (String × Json) := [(innerKey, .scalar (.bool false))]

/-- The inner value is neither absent nor nothing nor an object, and the data are read all the
same. -/
theorem ofJson_falseInner :
    ofJson (.object falseInner) = .ok {} ∧ entry innerKey falseInner ≠ .null ∧
      ∀ plugin, entry innerKey falseInner ≠ .object plugin :=
  ⟨rfl, nofun, nofun⟩

end Settings

end TypedModule
