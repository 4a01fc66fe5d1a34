import Mathlib.Data.List.Nodup
import TypedModule.Json.ReadBack
import TypedModule.Json.Writer
import TypedModule.Proofs.Json.Grammar

/-!
# Reading back written values

A value without numbers and with no key twice in an object comes back when its written form is read,
in both styles. Its written form is opened by a character that no blank is taken for, so reading
takes it off the front of any text that it stands before. Every character of it is visible.
-/

namespace TypedModule.Json

variable {style : Style} {v : Json} {items : List Json} {fields : List (String × Json)}

/-- Every scalar in the value is written as a word, and no object has a key twice. -/
inductive Worded : Json → Prop
  | word {value : Scalar} (hword : (value.written.toList, value) ∈ words) : Worded (.scalar value)
  | text (s : String) : Worded (.text s)
  | array {items : List Json} (hitems : ∀ item ∈ items, Worded item) : Worded (.array items)
  | object {fields : List (String × Json)} (hkeys : (fields.map Prod.fst).Nodup)
      (hfields : ∀ f ∈ fields, Worded f.2) : Worded (.object fields)

def writtenChars (style : Style) (v : Json) : List Char := (v.written style).toList

def fieldChars (style : Style) (f : String × Json) : List Char :=
  '\x22' :: escaped style f.1.toList ++ '\x22' :: ':' :: ' ' :: writtenChars style f.2

/-- The parts with a comma and a blank between them. -/
def commaChars (parts : List (List Char)) : List Char := [',', ' '].intercalate parts

theorem commaChars_singleton (part : List Char) : commaChars [part] = part := by
  simp [commaChars]

theorem commaChars_cons_cons (part next : List Char) (parts : List (List Char)) :
    commaChars (part :: next :: parts) = part ++ ',' :: ' ' :: commaChars (next :: parts) := by
  simp [commaChars]

theorem visible_commaChars {parts : List (List Char)} (h : ∀ part ∈ parts, ∀ c ∈ part, 0x20 ≤ c.toNat) :
    ∀ c ∈ commaChars parts, 0x20 ≤ c.toNat := by
  induction parts with
  | nil => exact nofun
  | cons part others ih =>
    cases others with
    | nil =>
      rw [commaChars_singleton]
      exact h part List.mem_cons_self
    | cons next others =>
      intro c hc
      rw [commaChars_cons_cons, List.mem_append, List.mem_cons, List.mem_cons] at hc
      obtain hc | rfl | rfl | hc := hc
      · exact h part List.mem_cons_self c hc
      · decide
      · decide
      · exact ih (fun other hother => h other (List.mem_cons_of_mem part hother)) c hc

theorem writtenItems_eq_map (style : Style) (items : List Json) :
    writtenItems style items = items.map (written style) := by
  induction items with
  | nil => rw [writtenItems, List.map_nil]
  | cons item rest ih => rw [writtenItems, List.map_cons, ih]

theorem writtenFields_eq_map (style : Style) (fields : List (String × Json)) :
    writtenFields style fields = fields.map fun f => quoted style f.1 ++ ": " ++ written style f.2 := by
  induction fields with
  | nil => rw [writtenFields, List.map_nil]
  | cons f rest ih => rw [writtenFields, List.map_cons, ih]

theorem toList_quoted (style : Style) (s : String) :
    (quoted style s).toList = '\x22' :: escaped style s.toList ++ ['\x22'] :=
  String.toList_ofList

theorem writtenChars_text (style : Style) (s : String) :
    writtenChars style (.text s) = '\x22' :: escaped style s.toList ++ ['\x22'] := by
  rw [writtenChars, written, toList_quoted]

theorem writtenChars_array (style : Style) (items : List Json) :
    writtenChars style (.array items) =
      '[' :: commaChars (items.map (writtenChars style)) ++ [']'] := by
  simp only [writtenChars, written, writtenItems_eq_map, String.toList_append,
    String.toList_intercalate, List.map_map]
  rfl

theorem writtenChars_object (style : Style) (fields : List (String × Json)) :
    writtenChars style (.object fields) =
      '\x7b' :: commaChars (fields.map (fieldChars style)) ++ ['\x7d'] := by
  have hfield (f : String × Json) :
      (quoted style f.1 ++ ": " ++ written style f.2).toList = fieldChars style f := by
    simp [quoted, fieldChars, writtenChars]
  simp only [writtenChars, written, writtenFields_eq_map, String.toList_append,
    String.toList_intercalate, List.map_map, Function.comp_def, hfield]
  rfl

/-- The character can be the first of a value: it is no blank, it closes no list and it is no mark of
the byte order. -/
def Opens (c : Char) : Prop := isSpace c = false ∧ c ≠ ']' ∧ c ≠ '\uFEFF'

instance (c : Char) : Decidable (Opens c) := inferInstanceAs (Decidable (_ ∧ _))

/-- A character that opens a value opens the written form, all characters of which are visible, and
reading takes the written form off whatever stands behind it. -/
structure ReadsBack (style : Style) (v : Json) : Prop where
  opened : ∃ c cs, writtenChars style v = c :: cs ∧ Opens c
  visible : ∀ c ∈ writtenChars style v, 0x20 ≤ c.toNat
  reads : ∀ (fuel : Nat) (rest : List Char), (writtenChars style v).length ≤ fuel →
    readValue fuel (writtenChars style v ++ rest) = .ok (v, rest)

theorem skipSpace_cons {c : Char} (h : isSpace c = false) (cs : List Char) :
    skipSpace (c :: cs) = c :: cs := by
  simp [skipSpace, h]

theorem ReadsBack.skipSpace_append (h : ReadsBack style v) (rest : List Char) :
    skipSpace (writtenChars style v ++ rest) = writtenChars style v ++ rest := by
  obtain ⟨c, cs, hchars, hopens⟩ := h.opened
  rw [hchars, List.cons_append, skipSpace_cons hopens.1]

theorem ReadsBack.skipSpace_blank (h : ReadsBack style v) (rest : List Char) :
    skipSpace (' ' :: (writtenChars style v ++ rest)) = writtenChars style v ++ rest :=
  h.skipSpace_append rest

theorem visible_enclosed {a b : Char} {cs : List Char} (ha : 0x20 ≤ a.toNat) (hb : 0x20 ≤ b.toNat)
    (h : ∀ c ∈ cs, 0x20 ≤ c.toNat) : ∀ c ∈ a :: cs ++ [b], 0x20 ≤ c.toNat := by
  intro c hc
  rw [List.cons_append, List.mem_cons, List.mem_append, List.mem_singleton] at hc
  obtain rfl | hc | rfl := hc
  · exact ha
  · exact h c hc
  · exact hb

theorem mem_letters_of_letterFor? {c letter : Char} (h : letterFor? c = some letter) :
    (c, letter) ∈ letters := by
  obtain ⟨p, hfound, rfl⟩ := Option.map_eq_some_iff.1 h
  have hkey : p.1 = c := by simpa using List.find?_some hfound
  exact hkey ▸ List.mem_of_find?_eq_some hfound

/-- What holds of the characters that escapes are made of, and of a character that stands for
itself, holds of all that is written for a character. -/
theorem forall_mem_escapedChar {P : Char → Prop} {c : Char} (hslash : P '\\')
    (hletter : ∀ letter, (c, letter) ∈ letters → P letter) (hunit : P 'u')
    (hdigit : ∀ k < 16, P (Nat.digitChar k))
    (hself : 0x20 ≤ c.toNat → (style = .ascii → c.toNat ≤ 0x7E) → P c) :
    ∀ x ∈ escapedChar style c, P x := by
  rw [escapedChar]
  split
  · next letter h =>
    have hP := hletter letter (mem_letters_of_letterFor? h)
    simpa using ⟨hslash, hP⟩
  · split
    · intro x hx
      obtain ⟨n, -, hn⟩ := List.mem_flatMap.1 hx
      simp only [escapedUnit, unitDigits, List.map_cons, List.map_nil, List.mem_cons,
        List.not_mem_nil, or_false] at hn
      rcases hn with rfl | rfl | rfl | rfl | rfl | rfl
      · exact hslash
      · exact hunit
      all_goals exact hdigit _ (Nat.mod_lt _ (by decide))
    · next hplain =>
      rw [not_or, not_and, Nat.not_lt] at hplain
      intro x hx
      obtain rfl := List.mem_singleton.1 hx
      exact hself hplain.1 fun hstyle => Nat.not_lt.1 (hplain.2 hstyle)

theorem visible_escapedChar (style : Style) (c : Char) :
    ∀ x ∈ escapedChar style c, 0x20 ≤ x.toNat := by
  have hletters : ∀ p ∈ letters, 0x20 ≤ p.2.toNat := by decide
  exact forall_mem_escapedChar (by decide) (fun letter h => hletters _ h) (by decide) (by decide)
    fun hvisible _ => hvisible

theorem visible_escaped (style : Style) (cs : List Char) :
    ∀ x ∈ escaped style cs, 0x20 ≤ x.toNat := by
  intro x hx
  obtain ⟨c, -, hc⟩ := List.mem_flatMap.1 hx
  exact visible_escapedChar style c x hc

theorem readsBack_text (style : Style) (s : String) : ReadsBack style (.text s) where
  opened := ⟨'\x22', _, writtenChars_text style s, by decide⟩
  visible := by
    rw [writtenChars_text]
    exact visible_enclosed (by decide) (by decide) (visible_escaped style s.toList)
  reads := by
    intro fuel rest hfuel
    rw [writtenChars_text] at hfuel ⊢
    cases fuel with
    | zero => simp at hfuel
    | succ fuel =>
      have hread := readText_escaped style s.toList rest
      rw [String.ofList_toList] at hread
      rw [List.cons_append, List.cons_append, List.append_assoc, readValue, if_pos rfl]
      rw [List.singleton_append, hread]
      rfl

theorem readWord_append {word : List Char} {value : Scalar} (h : (word, value) ∈ words)
    (rest : List Char) : readWord (word ++ rest) = some (value, rest) := by
  simp only [words, List.mem_cons, Prod.mk.injEq, List.not_mem_nil, or_false] at h
  obtain ⟨rfl, rfl⟩ | ⟨rfl, rfl⟩ | ⟨rfl, rfl⟩ | ⟨rfl, rfl⟩ | ⟨rfl, rfl⟩ | ⟨rfl, rfl⟩ := h
  all_goals rfl

theorem readValue_of_readScalar {c : Char} (h : c ∉ ['\x22', '[', '\x7b']) (fuel : Nat)
    (cs : List Char) : readValue (fuel + 1) (c :: cs) = readScalar (c :: cs) := by
  simp only [List.mem_cons, List.not_mem_nil, or_false, not_or] at h
  rw [readValue, if_neg h.1, if_neg h.2.1, if_neg h.2.2]

theorem readsBack_word {value : Scalar} (style : Style)
    (h : (value.written.toList, value) ∈ words) : ReadsBack style (.scalar value) := by
  have hchars : writtenChars style (.scalar value) = value.written.toList := by
    rw [writtenChars, written]
  have hfirst : ∀ p ∈ words,
      p.1.head?.any (fun c => decide (Opens c ∧ c ∉ ['\x22', '[', '\x7b'])) = true := by decide
  have hall : ∀ p ∈ words, p.1.all (fun c => 0x20 ≤ c.toNat) = true := by decide
  obtain ⟨c, hc, hdecided⟩ := (Option.any_eq_true _ _).1 (hfirst _ h)
  obtain ⟨hopens, hscalar⟩ := of_decide_eq_true hdecided
  obtain ⟨cs, hcs⟩ : ∃ cs, value.written.toList = c :: cs := List.head?_eq_some_iff.1 hc
  have hvisible : ∀ c ∈ value.written.toList, 0x20 ≤ c.toNat := by
    intro c hc
    exact of_decide_eq_true (List.all_eq_true.1 (hall _ h) c hc)
  refine ⟨⟨c, cs, hchars.trans hcs, hopens⟩, hchars ▸ hvisible, ?_⟩
  intro fuel rest hfuel
  have hword := readWord_append h rest
  rw [hchars, hcs] at hfuel ⊢
  rw [hcs] at hword
  cases fuel with
  | zero => simp at hfuel
  | succ fuel =>
    rw [List.cons_append, readValue_of_readScalar hscalar]
    rw [readScalar, ← List.cons_append, hword]
    rfl

theorem visible_fieldChars (f : String × Json) (h : ReadsBack style f.2) :
    ∀ c ∈ fieldChars style f, 0x20 ≤ c.toNat := by
  intro c hc
  simp only [fieldChars, List.cons_append, List.mem_cons, List.mem_append] at hc
  obtain rfl | hc | rfl | rfl | rfl | hc := hc
  · decide
  · exact visible_escaped style f.1.toList c hc
  · decide
  · decide
  · decide
  · exact h.visible c hc

/-- Parts in a row are opened as the first of them is. -/
theorem commaChars_opened {c : Char} {part cs : List Char} (h : part = c :: cs)
    (others : List (List Char)) (rest : List Char) :
    ∃ cs', commaChars (part :: others) ++ rest = c :: cs' := by
  cases others with
  | nil =>
    rw [commaChars_singleton, h]
    exact ⟨_, List.cons_append⟩
  | cons next others =>
    rw [commaChars_cons_cons, h]
    exact ⟨_, rfl⟩

theorem readItems_commaChars (hitems : ∀ item ∈ items, ReadsBack style item) (hne : items ≠ [])
    (fuel : Nat) (rest : List Char)
    (hfuel : (commaChars (items.map (writtenChars style))).length < fuel) :
    readItems fuel (commaChars (items.map (writtenChars style)) ++ ']' :: rest) =
      .ok (items, rest) := by
  induction items generalizing fuel with
  | nil => exact absurd rfl hne
  | cons item others ih =>
    have hitem := hitems item List.mem_cons_self
    have hothers : ∀ item ∈ others, ReadsBack style item :=
      fun other hother => hitems other (List.mem_cons_of_mem item hother)
    cases fuel with
    | zero => cases hfuel
    | succ fuel =>
      cases others with
      | nil =>
        rw [List.map_singleton, commaChars_singleton] at hfuel ⊢
        exact readItems_last (hitem.reads fuel _ (by omega)) (skipSpace_cons rfl rest)
      | cons next others =>
        rw [List.map_cons, List.map_cons, commaChars_cons_cons] at hfuel ⊢
        rw [← List.map_cons] at hfuel ⊢
        simp only [List.length_append, List.length_cons] at hfuel
        have hrest := ih hothers (List.cons_ne_nil _ _) fuel (by omega)
        rw [List.append_assoc, List.cons_append, List.cons_append,
          readItems_more (hitem.reads fuel _ (by omega)) (skipSpace_cons rfl _)]
        obtain ⟨c, cs, hnext, hopens⟩ := (hothers next List.mem_cons_self).opened
        obtain ⟨cs', hopened⟩ := commaChars_opened hnext (others.map (writtenChars style)) (']' :: rest)
        rw [List.map_cons, hopened] at hrest ⊢
        have hskip : skipSpace (' ' :: c :: cs') = c :: cs' := skipSpace_cons hopens.1 cs'
        rw [hskip, hrest]
        rfl

theorem readsBack_array (hitems : ∀ item ∈ items, ReadsBack style item) :
    ReadsBack style (.array items) where
  opened := ⟨'[', _, writtenChars_array style items, by decide⟩
  visible := by
    rw [writtenChars_array]
    apply visible_enclosed (by decide) (by decide)
    apply visible_commaChars
    intro part hpart
    obtain ⟨item, hitem, rfl⟩ := List.mem_map.1 hpart
    exact (hitems item hitem).visible
  reads := by
    intro fuel rest hfuel
    rw [writtenChars_array] at hfuel ⊢
    simp only [List.length_append, List.length_cons, List.length_nil] at hfuel
    cases fuel with
    | zero => cases hfuel
    | succ fuel =>
      rw [List.cons_append, List.cons_append, List.append_assoc, List.singleton_append, readValue,
        if_neg (by decide), if_pos rfl]
      cases items with
      | nil => rfl
      | cons item others =>
        have hread := readItems_commaChars hitems (List.cons_ne_nil _ _) fuel rest (by omega)
        obtain ⟨c, cs, hitem, hopens⟩ := (hitems item List.mem_cons_self).opened
        obtain ⟨cs', hopened⟩ :=
          commaChars_opened hitem (others.map (writtenChars style)) (']' :: rest)
        rw [List.map_cons, hopened] at hread
        rw [List.map_cons, hopened, skipSpace_cons hopens.1]
        split
        · next h => exact absurd (List.cons.inj h).1 hopens.2.1
        · rw [hread]
          rfl

theorem setField_of_notMem {key : String} (h : key ∉ fields.map Prod.fst) (value : Json) :
    setField key value fields = fields ++ [(key, value)] := by
  induction fields with
  | nil => rfl
  | cons f others ih =>
    rw [List.map_cons, List.mem_cons, not_or] at h
    rw [setField, if_neg (Ne.symm h.1), ih h.2]
    rfl

theorem readText_fieldChars (style : Style) (key : String) (value : Json) (rest : List Char) :
    ∃ cs, fieldChars style (key, value) ++ rest = '\x22' :: cs ∧
      readText cs = .ok (key, ':' :: ' ' :: (writtenChars style value ++ rest)) := by
  refine ⟨escaped style key.toList ++ '\x22' :: ':' :: ' ' :: (writtenChars style value ++ rest),
    ?_, ?_⟩
  · simp [fieldChars]
  · rw [readText_escaped, String.ofList_toList]

theorem readFields_fieldChars_last {fuel : Nat} (h : ReadsBack style v)
    (hfuel : (writtenChars style v).length ≤ fuel) (known : List (String × Json)) (key : String)
    (rest : List Char) :
    readFields (fuel + 1) known (fieldChars style (key, v) ++ '\x7d' :: rest) =
      .ok (setField key v known, rest) := by
  obtain ⟨cs, hchars, hkey⟩ := readText_fieldChars style key v ('\x7d' :: rest)
  have hread := h.reads fuel ('\x7d' :: rest) hfuel
  rw [← h.skipSpace_blank] at hread
  rw [hchars]
  exact readFields_last hkey (skipSpace_cons rfl _) hread (skipSpace_cons rfl rest)

theorem readFields_fieldChars_more {fuel : Nat} (h : ReadsBack style v)
    (hfuel : (writtenChars style v).length ≤ fuel) (known : List (String × Json)) (key : String)
    (rest : List Char) :
    readFields (fuel + 1) known (fieldChars style (key, v) ++ ',' :: rest) =
      readFields fuel (setField key v known) (skipSpace rest) := by
  obtain ⟨cs, hchars, hkey⟩ := readText_fieldChars style key v (',' :: rest)
  have hread := h.reads fuel (',' :: rest) hfuel
  rw [← h.skipSpace_blank] at hread
  rw [hchars]
  exact readFields_more hkey (skipSpace_cons rfl _) hread (skipSpace_cons rfl rest)

/-- Fields are read behind those that are known already. -/
theorem readFields_commaChars (hfields : ∀ f ∈ fields, ReadsBack style f.2) (hne : fields ≠ [])
    (known : List (String × Json)) (hkeys : ((known ++ fields).map Prod.fst).Nodup)
    (fuel : Nat) (rest : List Char)
    (hfuel : (commaChars (fields.map (fieldChars style))).length < fuel) :
    readFields fuel known (commaChars (fields.map (fieldChars style)) ++ '\x7d' :: rest) =
      .ok (known ++ fields, rest) := by
  induction fields generalizing fuel known with
  | nil => exact absurd rfl hne
  | cons f others ih =>
    obtain ⟨key, value⟩ := f
    have hvalue : ReadsBack style value := hfields (key, value) List.mem_cons_self
    have hothers : ∀ f ∈ others, ReadsBack style f.2 :=
      fun f hf => hfields f (List.mem_cons_of_mem _ hf)
    have hset : setField key value known = known ++ [(key, value)] := by
      apply setField_of_notMem
      intro hmem
      rw [List.map_append, List.map_cons] at hkeys
      exact List.disjoint_of_nodup_append hkeys hmem List.mem_cons_self
    have hlength : (writtenChars style value).length < (fieldChars style (key, value)).length := by
      simp [fieldChars]
      omega
    cases fuel with
    | zero => cases hfuel
    | succ fuel =>
      cases others with
      | nil =>
        rw [List.map_singleton, commaChars_singleton] at hfuel ⊢
        rw [readFields_fieldChars_last hvalue (by omega), hset]
      | cons next others =>
        rw [List.map_cons, List.map_cons, commaChars_cons_cons] at hfuel ⊢
        rw [← List.map_cons] at hfuel ⊢
        simp only [List.length_append, List.length_cons] at hfuel
        have hrest := ih hothers (List.cons_ne_nil _ _) (known ++ [(key, value)])
          (by simpa using hkeys) fuel (by omega)
        have hnext : fieldChars style next = '\x22' :: _ := rfl
        obtain ⟨cs, hopened⟩ := commaChars_opened hnext (others.map (fieldChars style))
          ('\x7d' :: rest)
        have hskip : skipSpace (' ' :: '\x22' :: cs) = '\x22' :: cs := rfl
        rw [List.append_assoc, List.cons_append, List.cons_append,
          readFields_fieldChars_more hvalue (by omega), hset]
        rw [List.map_cons, hopened] at hrest ⊢
        rw [hskip, hrest, List.append_assoc, List.singleton_append]

theorem readsBack_object (hkeys : (fields.map Prod.fst).Nodup)
    (hfields : ∀ f ∈ fields, ReadsBack style f.2) : ReadsBack style (.object fields) where
  opened := ⟨'\x7b', _, writtenChars_object style fields, by decide⟩
  visible := by
    rw [writtenChars_object]
    apply visible_enclosed (by decide) (by decide)
    apply visible_commaChars
    intro part hpart
    obtain ⟨f, hf, rfl⟩ := List.mem_map.1 hpart
    exact visible_fieldChars f (hfields f hf)
  reads := by
    intro fuel rest hfuel
    rw [writtenChars_object] at hfuel ⊢
    simp only [List.length_append, List.length_cons, List.length_nil] at hfuel
    cases fuel with
    | zero => cases hfuel
    | succ fuel =>
      rw [List.cons_append, List.cons_append, List.append_assoc, List.singleton_append, readValue,
        if_neg (by decide), if_neg (by decide), if_pos rfl]
      cases fields with
      | nil => rfl
      | cons f others =>
        have hread := readFields_commaChars hfields (List.cons_ne_nil _ _) [] hkeys fuel rest
          (by omega)
        have hfirst : fieldChars style f = '\x22' :: _ := rfl
        obtain ⟨cs, hopened⟩ :=
          commaChars_opened hfirst (others.map (fieldChars style)) ('\x7d' :: rest)
        rw [List.map_cons, hopened] at hread
        rw [List.map_cons, hopened, skipSpace_cons rfl]
        change (readFields fuel [] ('\x22' :: cs)).map _ = _
        rw [hread]
        rfl

theorem readsBack (style : Style) (h : Worded v) : ReadsBack style v := by
  induction h with
  | word hword => exact readsBack_word style hword
  | text s => exact readsBack_text style s
  | array _ ih => exact readsBack_array ih
  | object hkeys _ ih => exact readsBack_object hkeys ih

theorem carriageReturn_notMem_writtenChars (style : Style) (h : Worded v) :
    '\r' ∉ writtenChars style v := by
  intro hmem
  have hvisible : 0x20 ≤ '\r'.toNat := (readsBack style h).visible '\r' hmem
  exact absurd hvisible (by decide)

/-- Reading what was written for a value gives the value. -/
theorem read_writtenChars (style : Style) (h : Worded v) :
    Json.read (writtenChars style v) = .ok v := by
  have hback := readsBack style h
  obtain ⟨c, cs, hchars, hopens⟩ := hback.opened
  have hvalue := hback.reads (2 * (writtenChars style v).length + 2) [] (by omega)
  rw [List.append_nil] at hvalue
  have hskip := hback.skipSpace_append []
  rw [List.append_nil] at hskip
  have hmark : (writtenChars style v).head? ≠ some '\uFEFF' := by
    rw [hchars]
    exact fun h => hopens.2.2 (Option.some.inj h)
  rw [Json.read, if_neg hmark, hskip, hvalue]
  rfl

theorem read_quoted (style : Style) (s : String) :
    Json.read (quoted style s).toList = .ok (.text s) := by
  rw [toList_quoted, ← writtenChars_text]
  exact read_writtenChars style (Worded.text s)

end TypedModule.Json
