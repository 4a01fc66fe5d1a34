import Mathlib.Data.List.Basic
import TypedModule.Json.Reader

/-!
# The grammar of data files

What stands at the front of a text is told by rules, one for each shape of a value, and without a
bound on how deep values are nested. Reading finds exactly what the rules allow: whatever it
returns follows from them, and a value that follows from them is read, since the steps that it
takes are no more than twice its characters.
-/

namespace TypedModule.Json

variable {cs rest : List Char} {v value : Json} {items : List Json}
  {known fields : List (String × Json)}

mutual

/-- A value at the front of a text, with the rest behind it. -/
inductive ValueAt : List Char → Json → List Char → Prop
  | text {cs rest : List Char} {s : String} (hread : readText cs = .ok (s, rest)) :
      ValueAt ('\x22' :: cs) (.text s) rest
  | noItems {cs rest : List Char} (hend : skipSpace cs = ']' :: rest) :
      ValueAt ('[' :: cs) (.array []) rest
  | items {cs rest : List Char} {items : List Json} (hitems : ItemsAt (skipSpace cs) items rest) :
      ValueAt ('[' :: cs) (.array items) rest
  | noFields {cs rest : List Char} (hend : skipSpace cs = '\x7d' :: rest) :
      ValueAt ('\x7b' :: cs) (.object []) rest
  | fields {cs rest : List Char} {fields : List (String × Json)}
      (hfields : FieldsAt [] (skipSpace cs) fields rest) :
      ValueAt ('\x7b' :: cs) (.object fields) rest
  | scalar {cs rest : List Char} {v : Json} (hread : readScalar cs = .ok (v, rest)) :
      ValueAt cs v rest

/-- Values with commas between them, up to the closing bracket. -/
inductive ItemsAt : List Char → List Json → List Char → Prop
  | last {cs mid rest : List Char} {v : Json} (hvalue : ValueAt cs v mid)
      (hend : skipSpace mid = ']' :: rest) : ItemsAt cs [v] rest
  | more {cs mid next rest : List Char} {v : Json} {items : List Json} (hvalue : ValueAt cs v mid)
      (hcomma : skipSpace mid = ',' :: next) (hitems : ItemsAt (skipSpace next) items rest) :
      ItemsAt cs (v :: items) rest

/-- Fields with commas between them, up to the closing brace. They are set one after another in the
fields that are known before. -/
inductive FieldsAt : List (String × Json) → List Char → List (String × Json) → List Char → Prop
  | last {cs behind body mid rest : List Char} {known : List (String × Json)} {key : String}
      {v : Json} (hkey : readText cs = .ok (key, behind)) (hcolon : skipSpace behind = ':' :: body)
      (hvalue : ValueAt (skipSpace body) v mid) (hend : skipSpace mid = '\x7d' :: rest) :
      FieldsAt known ('\x22' :: cs) (setField key v known) rest
  | more {cs behind body mid next rest : List Char} {known fields : List (String × Json)}
      {key : String} {v : Json} (hkey : readText cs = .ok (key, behind))
      (hcolon : skipSpace behind = ':' :: body) (hvalue : ValueAt (skipSpace body) v mid)
      (hcomma : skipSpace mid = ',' :: next)
      (hfields : FieldsAt (setField key v known) (skipSpace next) fields rest) :
      FieldsAt known ('\x22' :: cs) fields rest

end

/-- The whole text is one value, with nothing but blanks around it and no mark of the byte order in
front. -/
def Denotes (cs : List Char) (v : Json) : Prop :=
  cs.head? ≠ some '\uFEFF' ∧ ∃ rest, ValueAt (skipSpace cs) v rest ∧ skipSpace rest = []

theorem map_eq_ok_iff {ε α β : Type} {f : α → β} {r : Except ε α} {y : β} :
    r.map f = .ok y ↔ ∃ x, r = .ok x ∧ f x = y := by
  cases r with
  | error e => exact ⟨nofun, nofun⟩
  | ok x => simp [Except.map]

theorem itemsAt_of_readItems {fuel : Nat}
    (hvalues : ∀ {cs v rest}, readValue fuel cs = .ok (v, rest) → ValueAt cs v rest)
    (hitems : ∀ {cs items rest}, readItems fuel cs = .ok (items, rest) → ItemsAt cs items rest)
    (h : readItems (fuel + 1) cs = .ok (items, rest)) : ItemsAt cs items rest := by
  rw [readItems] at h
  split at h
  · cases h
  · next v mid hv =>
    split at h
    · next hend =>
      cases h
      exact .last (hvalues hv) hend
    · next next hcomma =>
      obtain ⟨⟨others, _⟩, hothers, heq⟩ := map_eq_ok_iff.1 h
      cases heq
      exact .more (hvalues hv) hcomma (hitems hothers)
    · cases h

theorem fieldsAt_of_readFields {fuel : Nat}
    (hvalues : ∀ {cs v rest}, readValue fuel cs = .ok (v, rest) → ValueAt cs v rest)
    (hfields : ∀ {known cs fields rest}, readFields fuel known cs = .ok (fields, rest) →
      FieldsAt known cs fields rest)
    (h : readFields (fuel + 1) known cs = .ok (fields, rest)) : FieldsAt known cs fields rest := by
  rw [readFields.eq_def] at h
  dsimp only at h
  split at h
  · split at h
    · cases h
    · next key behind hkey =>
      split at h
      · next body hcolon =>
        split at h
        · cases h
        · next v mid hv =>
          split at h
          · next hend =>
            cases h
            exact .last hkey hcolon (hvalues hv) hend
          · next next hcomma => exact .more hkey hcolon (hvalues hv) hcomma (hfields h)
          · cases h
      · cases h
  · cases h

theorem valueAt_of_readValue {fuel : Nat}
    (hitems : ∀ {cs items rest}, readItems fuel cs = .ok (items, rest) → ItemsAt cs items rest)
    (hfields : ∀ {known cs fields rest}, readFields fuel known cs = .ok (fields, rest) →
      FieldsAt known cs fields rest)
    (h : readValue (fuel + 1) cs = .ok (v, rest)) : ValueAt cs v rest := by
  cases cs with
  | nil => cases h
  | cons c cs =>
    rw [readValue] at h
    split at h
    · next hc =>
      subst hc
      obtain ⟨⟨s, _⟩, hs, heq⟩ := map_eq_ok_iff.1 h
      cases heq
      exact .text hs
    · split at h
      · next hc =>
        subst hc
        split at h
        · next hend =>
          cases h
          exact .noItems hend
        · obtain ⟨⟨items, _⟩, hread, heq⟩ := map_eq_ok_iff.1 h
          cases heq
          exact .items (hitems hread)
      · split at h
        · next hc =>
          subst hc
          split at h
          · next hend =>
            cases h
            exact .noFields hend
          · obtain ⟨⟨fields, _⟩, hread, heq⟩ := map_eq_ok_iff.1 h
            cases heq
            exact .fields (hfields hread)
        · exact .scalar h

/-- Whatever the number of steps, what is found follows from the rules. -/
theorem rules_of_reads (fuel : Nat) :
    (∀ {cs v rest}, readValue fuel cs = .ok (v, rest) → ValueAt cs v rest) ∧
      (∀ {cs items rest}, readItems fuel cs = .ok (items, rest) → ItemsAt cs items rest) ∧
      ∀ {known cs fields rest}, readFields fuel known cs = .ok (fields, rest) →
        FieldsAt known cs fields rest := by
  induction fuel with
  | zero => exact ⟨nofun, nofun, nofun⟩
  | succ fuel ih =>
    obtain ⟨hvalues, hitems, hfields⟩ := ih
    exact ⟨valueAt_of_readValue hitems hfields, itemsAt_of_readItems hvalues hitems,
      fieldsAt_of_readFields hvalues hfields⟩

theorem length_skipSpace_le (cs : List Char) : (skipSpace cs).length ≤ cs.length :=
  (List.dropWhile_sublist _).length_le

theorem length_lt_of_skipSpace {c : Char} (h : skipSpace cs = c :: rest) :
    rest.length < cs.length := by
  have hle := length_skipSpace_le cs
  rw [h, List.length_cons] at hle
  exact hle

theorem length_lt_of_readPieces {start : List Char} {ps : List Piece}
    (h : readPieces start cs = .ok (ps, rest)) : rest.length < cs.length := by
  fun_induction readPieces start cs generalizing ps with
  | case3 a b c d more n hn hempty ih =>
    obtain ⟨⟨ps, left⟩, hps, heq⟩ := map_eq_ok_iff.1 h
    cases heq
    have hlt : left.length < more.length := ih hps
    simp only [List.length_cons]
    omega
  | case6 c more _ _ e he ih =>
    obtain ⟨⟨ps, left⟩, hps, heq⟩ := map_eq_ok_iff.1 h
    cases heq
    have hlt : left.length < more.length := ih hps
    simp only [List.length_cons]
    omega
  | case8 more =>
    cases h
    exact Nat.lt_succ_self _
  | case11 c more _ _ _ _ _ _ ih =>
    obtain ⟨⟨ps, left⟩, hps, heq⟩ := map_eq_ok_iff.1 h
    cases heq
    have hlt : left.length < more.length := ih hps
    exact Nat.lt_succ_of_lt hlt
  | _ => cases h

theorem length_lt_of_readText {s : String} (h : readText cs = .ok (s, rest)) :
    rest.length < cs.length := by
  obtain ⟨⟨ps, _⟩, hps, heq⟩ := map_eq_ok_iff.1 h
  cases heq
  exact length_lt_of_readPieces hps

theorem length_lt_of_readWord {value : Scalar} (h : readWord cs = some (value, rest)) :
    rest.length < cs.length := by
  have hwords : ∀ p ∈ words, p.1 ≠ [] := by decide
  obtain ⟨⟨word, _⟩, hword, hrest⟩ := List.exists_of_findSome?_eq_some h
  obtain ⟨_, hprefix, heq⟩ := Option.map_eq_some_iff.1 hrest
  cases heq
  obtain rfl := List.isPrefixOf?_eq_some_iff_append_eq.1 hprefix
  have hpos : 0 < word.length := List.length_pos_iff.2 (hwords _ hword)
  rw [List.length_append]
  omega

theorem length_lt_of_takeWhole {digits : List Char} (h : takeWhole cs = some (digits, rest)) :
    rest.length < cs.length := by
  cases cs with
  | nil => cases h
  | cons c cs =>
    have hdrop := (List.dropWhile_sublist Char.isDigit (l := cs)).length_le
    rw [takeWhole] at h
    rw [List.length_cons]
    split at h
    · cases h
      omega
    · split at h
      · cases h
        omega
      · cases h

theorem length_takeFraction_le (cs : List Char) : (takeFraction cs).2.length ≤ cs.length := by
  rw [takeFraction.eq_def]
  split
  · next more =>
    have hdrop := (List.dropWhile_sublist Char.isDigit (l := more)).length_le
    split
    · exact Nat.le_refl _
    · exact Nat.le_succ_of_le hdrop
  · exact Nat.le_refl _

theorem length_takeSign_le (cs : List Char) : (takeSign cs).2.length ≤ cs.length := by
  rw [takeSign.eq_def]
  split <;> simp

theorem length_takeExponent_le (cs : List Char) : (takeExponent cs).2.length ≤ cs.length := by
  cases cs with
  | nil => exact Nat.le_refl _
  | cons c more =>
    have hsign := length_takeSign_le more
    have hdrop := (List.dropWhile_sublist Char.isDigit (l := (takeSign more).2)).length_le
    rw [takeExponent]
    dsimp only
    split
    · split
      · exact Nat.le_refl _
      · exact Nat.le_succ_of_le (Nat.le_trans hdrop hsign)
    · exact Nat.le_refl _

theorem length_lt_of_readNumber {value : Scalar} (h : readNumber cs = some (value, rest)) :
    rest.length < cs.length := by
  rw [readNumber.eq_def] at h
  obtain ⟨⟨whole, behind⟩, hwhole, heq⟩ := Option.map_eq_some_iff.1 h
  have hrest : (takeExponent (takeFraction behind).2).2 = rest := by
    have hsnd := congrArg Prod.snd heq
    dsimp only at hsnd
    rwa [apply_ite Prod.snd, ite_self] at hsnd
  have hfraction := length_takeFraction_le behind
  have hexponent := length_takeExponent_le (takeFraction behind).2
  rw [hrest] at hexponent
  have hlt := length_lt_of_takeWhole hwhole
  split at hlt
  · dsimp only at hlt
    rw [List.length_cons]
    omega
  · dsimp only at hlt
    omega

theorem length_lt_of_readScalar (h : readScalar cs = .ok (v, rest)) : rest.length < cs.length := by
  rw [readScalar] at h
  split at h
  · next value _ hread =>
    cases h
    rcases Option.or_eq_some_iff.1 hread with hword | ⟨-, hnumber⟩
    · exact length_lt_of_readWord hword
    · exact length_lt_of_readNumber hnumber
  · cases h

mutual

theorem ValueAt.shorter {cs rest : List Char} {v : Json} :
    ValueAt cs v rest → rest.length < cs.length
  | .text hread => Nat.lt_succ_of_lt (length_lt_of_readText hread)
  | .noItems hend => Nat.lt_succ_of_lt (length_lt_of_skipSpace hend)
  | .items hitems => Nat.lt_succ_of_lt (Nat.lt_of_lt_of_le hitems.shorter (length_skipSpace_le _))
  | .noFields hend => Nat.lt_succ_of_lt (length_lt_of_skipSpace hend)
  | .fields hfields => Nat.lt_succ_of_lt (Nat.lt_of_lt_of_le hfields.shorter (length_skipSpace_le _))
  | .scalar hread => length_lt_of_readScalar hread

theorem ItemsAt.shorter {cs rest : List Char} {items : List Json} :
    ItemsAt cs items rest → rest.length < cs.length
  | .last hvalue hend => Nat.lt_trans (length_lt_of_skipSpace hend) hvalue.shorter
  | .more hvalue hcomma hitems => by
    have hnext := length_lt_of_skipSpace hcomma
    have hskip := Nat.lt_of_lt_of_le hitems.shorter (length_skipSpace_le _)
    exact Nat.lt_trans (Nat.lt_trans hskip hnext) hvalue.shorter

theorem FieldsAt.shorter {cs rest : List Char} {known fields : List (String × Json)} :
    FieldsAt known cs fields rest → rest.length < cs.length
  | .last hkey hcolon hvalue hend => by
    have hbehind := length_lt_of_readText hkey
    have hbody := length_lt_of_skipSpace hcolon
    have hmid := Nat.lt_of_lt_of_le hvalue.shorter (length_skipSpace_le _)
    have hrest := length_lt_of_skipSpace hend
    rw [List.length_cons]
    omega
  | .more hkey hcolon hvalue hcomma hfields => by
    have hbehind := length_lt_of_readText hkey
    have hbody := length_lt_of_skipSpace hcolon
    have hmid := Nat.lt_of_lt_of_le hvalue.shorter (length_skipSpace_le _)
    have hnext := length_lt_of_skipSpace hcomma
    have hrest := Nat.lt_of_lt_of_le hfields.shorter (length_skipSpace_le _)
    rw [List.length_cons]
    omega

end

/-- No scalar begins with a quote, a bracket or a brace. -/
theorem readScalar_ne_ok {c : Char} (hc : c = '\x22' ∨ c = '[' ∨ c = '\x7b' ∨ c = ']') :
    readScalar (c :: cs) ≠ .ok (v, rest) := by
  rcases hc with rfl | rfl | rfl | rfl <;> exact nofun

theorem readValue_of_readScalar_eq_ok (h : readScalar cs = .ok (v, rest)) (fuel : Nat) :
    readValue (fuel + 1) cs = .ok (v, rest) := by
  cases cs with
  | nil => cases h
  | cons c cs =>
    rw [readValue, if_neg, if_neg, if_neg, h]
    all_goals
      rintro rfl
      exact readScalar_ne_ok (by simp) h

theorem ItemsAt.not_closed : ¬ ItemsAt (']' :: cs) items rest := by
  have hvalue {v : Json} {mid : List Char} : ¬ ValueAt (']' :: cs) v mid := by
    intro h
    cases h with
    | scalar hread => exact readScalar_ne_ok (by simp) hread
  intro h
  cases h with
  | last hv => exact hvalue hv
  | more hv => exact hvalue hv

theorem FieldsAt.not_closed : ¬ FieldsAt known ('\x7d' :: cs) fields rest := nofun

theorem readValue_items {fuel : Nat} (hopen : ∀ more, skipSpace cs ≠ ']' :: more) :
    readValue (fuel + 1) ('[' :: cs) =
      (readItems fuel (skipSpace cs)).map fun r => (.array r.1, r.2) := by
  rw [readValue, if_neg (by decide), if_pos rfl]
  split
  · next more hend => exact absurd hend (hopen more)
  · rfl

theorem readValue_fields {fuel : Nat} (hopen : ∀ more, skipSpace cs ≠ '\x7d' :: more) :
    readValue (fuel + 1) ('\x7b' :: cs) =
      (readFields fuel [] (skipSpace cs)).map fun r => (.object r.1, r.2) := by
  rw [readValue, if_neg (by decide), if_neg (by decide), if_pos rfl]
  split
  · next more hend => exact absurd hend (hopen more)
  · rfl

theorem readItems_last {fuel : Nat} {mid : List Char} (hread : readValue fuel cs = .ok (v, mid))
    (hend : skipSpace mid = ']' :: rest) : readItems (fuel + 1) cs = .ok ([v], rest) := by
  simp only [readItems, hread, hend]

theorem readItems_more {fuel : Nat} {mid next : List Char} (hread : readValue fuel cs = .ok (v, mid))
    (hcomma : skipSpace mid = ',' :: next) :
    readItems (fuel + 1) cs = (readItems fuel (skipSpace next)).map fun r => (v :: r.1, r.2) := by
  simp only [readItems, hread, hcomma]

theorem readFields_last {fuel : Nat} {behind body mid : List Char} {key : String}
    (hkey : readText cs = .ok (key, behind)) (hcolon : skipSpace behind = ':' :: body)
    (hread : readValue fuel (skipSpace body) = .ok (v, mid))
    (hend : skipSpace mid = '\x7d' :: rest) :
    readFields (fuel + 1) known ('\x22' :: cs) = .ok (setField key v known, rest) := by
  simp only [readFields, hkey, hcolon, hread, hend]

theorem readFields_more {fuel : Nat} {behind body mid next : List Char} {key : String}
    (hkey : readText cs = .ok (key, behind)) (hcolon : skipSpace behind = ':' :: body)
    (hread : readValue fuel (skipSpace body) = .ok (v, mid))
    (hcomma : skipSpace mid = ',' :: next) :
    readFields (fuel + 1) known ('\x22' :: cs) =
      readFields fuel (setField key v known) (skipSpace next) := by
  simp only [readFields, hkey, hcolon, hread, hcomma]

mutual

/-- A value takes a step, and two for every character behind its first. -/
theorem ValueAt.reads {cs rest : List Char} {v : Json} :
    ValueAt cs v rest → ∀ fuel, 2 * cs.length ≤ fuel + 2 + 2 * rest.length →
      readValue (fuel + 1) cs = .ok (v, rest)
  | .text hread, fuel, _ => by
    rw [readValue, if_pos rfl, hread]
    rfl
  | .noItems hend, fuel, _ => by
    rw [readValue, if_neg (by decide), if_pos rfl, hend]
    rfl
  | @ValueAt.items cs _ _ hitems, fuel, hfuel => by
    have hshorter := hitems.shorter
    have hskip := length_skipSpace_le cs
    rw [List.length_cons] at hfuel
    obtain ⟨fuel, rfl⟩ : ∃ k, fuel = k + 1 := ⟨fuel - 1, by omega⟩
    rw [readValue_items fun more hmore => (hmore ▸ hitems).not_closed, hitems.reads fuel (by omega)]
    rfl
  | .noFields hend, fuel, _ => by
    rw [readValue, if_neg (by decide), if_neg (by decide), if_pos rfl, hend]
    rfl
  | @ValueAt.fields cs _ _ hfields, fuel, hfuel => by
    have hshorter := hfields.shorter
    have hskip := length_skipSpace_le cs
    rw [List.length_cons] at hfuel
    obtain ⟨fuel, rfl⟩ : ∃ k, fuel = k + 1 := ⟨fuel - 1, by omega⟩
    rw [readValue_fields fun more hmore => (hmore ▸ hfields).not_closed,
      hfields.reads fuel (by omega)]
    rfl
  | .scalar hread, fuel, _ => readValue_of_readScalar_eq_ok hread fuel

/-- Values with commas take a step less for their characters than one value. -/
theorem ItemsAt.reads {cs rest : List Char} {items : List Json} :
    ItemsAt cs items rest → ∀ fuel, 2 * cs.length ≤ fuel + 1 + 2 * rest.length →
      readItems (fuel + 1) cs = .ok (items, rest)
  | .last hvalue hend, fuel, hfuel => by
    have hmid := hvalue.shorter
    have hrest := length_lt_of_skipSpace hend
    obtain ⟨fuel, rfl⟩ : ∃ k, fuel = k + 1 := ⟨fuel - 1, by omega⟩
    exact readItems_last (hvalue.reads fuel (by omega)) hend
  | @ItemsAt.more _ _ next _ _ _ hvalue hcomma hitems, fuel, hfuel => by
    have hmid := hvalue.shorter
    have hnext := length_lt_of_skipSpace hcomma
    have hrest := hitems.shorter
    have hskip := length_skipSpace_le next
    obtain ⟨fuel, rfl⟩ : ∃ k, fuel = k + 1 := ⟨fuel - 1, by omega⟩
    rw [readItems_more (hvalue.reads fuel (by omega)) hcomma, hitems.reads fuel (by omega)]
    rfl

theorem FieldsAt.reads {cs rest : List Char} {known fields : List (String × Json)} :
    FieldsAt known cs fields rest → ∀ fuel, 2 * cs.length ≤ fuel + 1 + 2 * rest.length →
      readFields (fuel + 1) known cs = .ok (fields, rest)
  | @FieldsAt.last _ _ body _ _ _ _ _ hkey hcolon hvalue hend, fuel, hfuel => by
    have hbehind := length_lt_of_readText hkey
    have hbody := length_lt_of_skipSpace hcolon
    have hskip := length_skipSpace_le body
    have hmid := hvalue.shorter
    have hrest := length_lt_of_skipSpace hend
    rw [List.length_cons] at hfuel
    obtain ⟨fuel, rfl⟩ : ∃ k, fuel = k + 1 := ⟨fuel - 1, by omega⟩
    exact readFields_last hkey hcolon (hvalue.reads fuel (by omega)) hend
  | @FieldsAt.more _ _ body _ next _ _ _ _ _ hkey hcolon hvalue hcomma hfields, fuel, hfuel => by
    have hbehind := length_lt_of_readText hkey
    have hbody := length_lt_of_skipSpace hcolon
    have hskipBody := length_skipSpace_le body
    have hmid := hvalue.shorter
    have hnext := length_lt_of_skipSpace hcomma
    have hskipNext := length_skipSpace_le next
    have hrest := hfields.shorter
    rw [List.length_cons] at hfuel
    obtain ⟨fuel, rfl⟩ : ∃ k, fuel = k + 1 := ⟨fuel - 1, by omega⟩
    rw [readFields_more hkey hcolon (hvalue.reads fuel (by omega)) hcomma]
    exact hfields.reads fuel (by omega)

end

/-- Reading a whole text gives the value that the rules allow for it, and fails if they allow
none. -/
theorem read_eq_ok_iff : read cs = .ok v ↔ Denotes cs v := by
  rw [read, Denotes]
  by_cases hmark : cs.head? = some '\uFEFF'
  · rw [if_pos hmark]
    exact iff_of_false nofun fun h => h.1 hmark
  · rw [if_neg hmark]
    constructor
    · intro h
      split at h
      · cases h
      · next value rest hread =>
        split at h
        · next hend =>
          cases h
          exact ⟨hmark, rest, (rules_of_reads _).1 hread, hend⟩
        · cases h
    · rintro ⟨-, rest, hvalue, hend⟩
      have hskip := length_skipSpace_le cs
      simp only [hvalue.reads (2 * cs.length + 1) (by omega), hend]

end TypedModule.Json
