import Mathlib.Data.List.TakeWhile
import Mathlib.Order.Bounds.Defs
import TypedModule.Proofs.Name.Acceptance

/-!
# Pictures of rejected names

The picture of a rejected name has two lines, the quoted name and a caret below one of its
characters. The strict check puts the caret below the first character that ends the plain name. The
default check puts it where the quoted name parts from the name. That is at the first escape, unless
this is the escape of a backslash: then the two go on alike until the name has no more backslashes.
-/

namespace TypedModule

variable {c : Char} {cs : List Char} {name : String}

section

variable {α : Type} [DecidableEq α] {x y : α} {xs ys : List α}

theorem firstDifference_nil (xs : List α) : firstDifference xs [] = 0 := by
  cases xs <;> rfl

theorem firstDifference_cons_self (x : α) (xs ys : List α) :
    firstDifference (x :: xs) (x :: ys) = firstDifference xs ys + 1 :=
  if_pos rfl

theorem firstDifference_cons_of_ne (h : x ≠ y) (xs ys : List α) :
    firstDifference (x :: xs) (y :: ys) = 0 :=
  if_neg h

theorem firstDifference_le_right (xs ys : List α) : firstDifference xs ys ≤ ys.length := by
  induction xs generalizing ys with
  | nil => exact Nat.zero_le _
  | cons x xs ih =>
    cases ys with
    | nil => exact Nat.le_refl 0
    | cons y ys =>
      have hrest := ih ys
      rw [firstDifference, List.length_cons]
      split <;> omega

theorem take_firstDifference (xs ys : List α) :
    xs.take (firstDifference xs ys) = ys.take (firstDifference xs ys) := by
  induction xs generalizing ys with
  | nil => simp [firstDifference]
  | cons x xs ih =>
    cases ys with
    | nil => rw [firstDifference_nil, List.take_zero, List.take_zero]
    | cons y ys =>
      by_cases hxy : x = y
      · subst hxy
        rw [firstDifference_cons_self, List.take_succ_cons, List.take_succ_cons, ih]
      · rw [firstDifference_cons_of_ne hxy, List.take_zero, List.take_zero]

/-- The lists do differ there, or the second one has come to its end. -/
theorem getElem?_firstDifference_ne (h : firstDifference xs ys < ys.length) :
    xs[firstDifference xs ys]? ≠ ys[firstDifference xs ys]? := by
  induction xs generalizing ys with
  | nil =>
    cases ys with
    | nil => exact absurd h (Nat.not_lt_zero _)
    | cons y ys => simp [firstDifference]
  | cons x xs ih =>
    cases ys with
    | nil => exact absurd h (Nat.not_lt_zero _)
    | cons y ys =>
      by_cases hxy : x = y
      · subst hxy
        rw [firstDifference_cons_self, List.length_cons] at h
        rw [firstDifference_cons_self, List.getElem?_cons_succ, List.getElem?_cons_succ]
        exact ih (Nat.lt_of_succ_lt_succ h)
      · rw [firstDifference_cons_of_ne hxy]
        simpa using hxy

end

/-- The place of the first character that is escaped. -/
def firstEscaped (cs : List Char) : Nat := cs.findIdx fun c => !decide (Json.Bare c)

/-- The number of backslashes that a text begins with. -/
def slashes (cs : List Char) : Nat := (cs.takeWhile (· == '\\')).length

/-- The number of backslashes that stand together from the first escaped character on. -/
def firstSlashes (cs : List Char) : Nat := slashes (cs.drop (firstEscaped cs))

theorem slashes_cons_self (cs : List Char) : slashes ('\\' :: cs) = slashes cs + 1 := by
  simp [slashes]

theorem slashes_cons_of_ne (h : c ≠ '\\') (cs : List Char) : slashes (c :: cs) = 0 := by
  simp [slashes, h]

theorem firstEscaped_cons_of_bare (h : Json.Bare c) (cs : List Char) :
    firstEscaped (c :: cs) = firstEscaped cs + 1 := by
  simp [firstEscaped, List.findIdx_cons, h]

theorem firstEscaped_cons_of_not_bare (h : ¬ Json.Bare c) (cs : List Char) :
    firstEscaped (c :: cs) = 0 := by
  simp [firstEscaped, List.findIdx_cons, h]

theorem firstEscaped_lt (h : ¬ ∀ c ∈ cs, Json.Bare c) : firstEscaped cs < cs.length := by
  push Not at h
  obtain ⟨c, hc, hbad⟩ := h
  exact List.findIdx_lt_length_of_exists ⟨c, hc, by simpa using hbad⟩

theorem slashes_eq_zero_iff : slashes cs = 0 ↔ cs.head? ≠ some '\\' := by
  cases cs with
  | nil => simp [slashes]
  | cons c cs =>
    by_cases hc : c = '\\'
    · simp [hc, slashes_cons_self]
    · simp [hc, slashes_cons_of_ne]

theorem firstSlashes_eq_zero_iff : firstSlashes cs = 0 ↔ cs[firstEscaped cs]? ≠ some '\\' := by
  rw [firstSlashes, slashes_eq_zero_iff, List.head?_drop]

theorem escaped_cons (style : Json.Style) (c : Char) (cs : List Char) :
    Json.escaped style (c :: cs) = Json.escapedChar style c ++ Json.escaped style cs :=
  List.flatMap_cons

/-- Behind backslashes that are left over, the two part where the second has no more of them. -/
theorem firstDifference_slashes (k : Nat) (cs : List Char) :
    firstDifference (List.replicate (k + 1) '\\' ++ Json.escaped .plain cs) cs = slashes cs := by
  induction cs generalizing k with
  | nil => exact firstDifference_nil _
  | cons c cs ih =>
    by_cases hc : c = '\\'
    · subst hc
      -- The quoted text has two backslashes for one, so one more is left over.
      have htwo : Json.escaped .plain ('\\' :: cs) = '\\' :: '\\' :: Json.escaped .plain cs := rfl
      have hmore : List.replicate (k + 1) '\\' ++ '\\' :: '\\' :: Json.escaped .plain cs =
          '\\' :: (List.replicate (k + 1 + 1) '\\' ++ Json.escaped .plain cs) := by
        change _ = List.replicate (k + 1 + 2) '\\' ++ Json.escaped .plain cs
        rw [List.replicate_add (k + 1) 2, List.append_assoc]
        rfl
      rw [htwo, hmore, firstDifference_cons_self, ih, slashes_cons_self]
    · rw [List.replicate_succ, List.cons_append, firstDifference_cons_of_ne (Ne.symm hc),
        slashes_cons_of_ne hc]

/-- A text and its quoted form part at the first escape, or behind the backslashes there. -/
theorem firstDifference_escaped (cs : List Char) :
    firstDifference (Json.escaped .plain cs) cs = firstEscaped cs + firstSlashes cs := by
  induction cs with
  | nil => rfl
  | cons c cs ih =>
    by_cases hc : Json.Bare c
    · have hslashes : firstSlashes (c :: cs) = firstSlashes cs := by
        rw [firstSlashes, firstEscaped_cons_of_bare hc, List.drop_succ_cons, firstSlashes]
      rw [escaped_cons, Json.escapedChar_of_bare hc, List.singleton_append,
        firstDifference_cons_self, ih, firstEscaped_cons_of_bare hc, hslashes]
      omega
    · rw [firstSlashes, firstEscaped_cons_of_not_bare hc, List.drop_zero, Nat.zero_add]
      by_cases hslash : c = '\\'
      · subst hslash
        have htwo : Json.escaped .plain ('\\' :: cs) =
            '\\' :: (List.replicate (0 + 1) '\\' ++ Json.escaped .plain cs) := rfl
        rw [htwo, firstDifference_cons_self, firstDifference_slashes, slashes_cons_self]
      · obtain ⟨d, rest, hescape⟩ := Json.escapedChar_of_not_bare hc
        rw [escaped_cons, hescape, List.cons_append, firstDifference_cons_of_ne (Ne.symm hslash),
          slashes_cons_of_ne hslash]

/-- The first backslash of a quoted text is that of the first escape. -/
theorem escaped_eq_append (h : ¬ ∀ c ∈ cs, Json.Bare c) :
    ∃ rest, Json.escaped .plain cs = cs.take (firstEscaped cs) ++ '\\' :: rest ∧
      '\\' ∉ cs.take (firstEscaped cs) := by
  induction cs with
  | nil => exact absurd nofun h
  | cons c cs ih =>
    by_cases hc : Json.Bare c
    · rw [List.forall_mem_cons, and_iff_right hc] at h
      obtain ⟨rest, hescaped, hbefore⟩ := ih h
      refine ⟨rest, ?_, ?_⟩
      · rw [escaped_cons, Json.escapedChar_of_bare hc, hescaped, firstEscaped_cons_of_bare hc]
        rfl
      · rw [firstEscaped_cons_of_bare hc, List.take_succ_cons, List.mem_cons, not_or]
        exact ⟨Ne.symm hc.2.1, hbefore⟩
    · obtain ⟨d, rest, hescape⟩ := Json.escapedChar_of_not_bare hc
      refine ⟨d :: rest ++ Json.escaped .plain cs, ?_, ?_⟩
      · rw [escaped_cons, hescape, firstEscaped_cons_of_not_bare hc]
        rfl
      · rw [firstEscaped_cons_of_not_bare hc, List.take_zero]
        exact List.not_mem_nil

theorem identifierPart_isPrefix (cs : List Char) : identifierPart cs <+: cs := by
  cases cs with
  | nil => exact List.prefix_refl []
  | cons c rest =>
    rw [identifierPart]
    split
    · exact List.prefix_cons_inj c |>.2 (List.takeWhile_prefix _)
    · exact List.nil_prefix

theorem IsPrefix.identifierPart {p : List Char} (h : p <+: cs) :
    identifierPart p <+: identifierPart cs := by
  obtain ⟨rest, rfl⟩ := h
  cases p with
  | nil => exact List.nil_prefix
  | cons c p =>
    rw [List.cons_append, TypedModule.identifierPart, TypedModule.identifierPart]
    split
    · refine (List.prefix_cons_inj c).2 ?_
      rw [List.takeWhile_append]
      split
      · exact (List.takeWhile_prefix _).trans (List.prefix_append p _)
      · exact List.prefix_refl _
    · exact List.nil_prefix

theorem identifierPart_identifierPart (cs : List Char) :
    identifierPart (identifierPart cs) = identifierPart cs := by
  cases cs with
  | nil => rfl
  | cons c rest =>
    by_cases hc : isIdentifierStart c
    · rw [identifierPart, if_pos hc, identifierPart, if_pos hc, List.takeWhile_idem]
    · rw [identifierPart, if_neg hc, identifierPart]

/-- The name begins with a plain name of that length, or the length is zero. -/
def BeginsPlain (name : String) (k : Nat) : Prop :=
  k ≤ name.length ∧ (k = 0 ∨ PlainName (String.ofList (name.toList.take k)))

theorem isGreatest_identifierPart (name : String) :
    IsGreatest {k | BeginsPlain name k} (identifierPart name.toList).length := by
  have htake : name.toList.take (identifierPart name.toList).length = identifierPart name.toList :=
    (List.prefix_iff_eq_take.1 (identifierPart_isPrefix _)).symm
  constructor
  · refine ⟨(identifierPart_isPrefix _).length_le, ?_⟩
    by_cases hnil : identifierPart name.toList = []
    · exact Or.inl (List.length_eq_zero_iff.2 hnil)
    · right
      rw [htake, ← isPlainIdentifier_iff, String.toList_ofList, isPlainIdentifier,
        identifierPart_identifierPart]
      simpa using hnil
  · rintro k ⟨hk, rfl | hplain⟩
    · exact Nat.zero_le _
    · rw [← isPlainIdentifier_iff, String.toList_ofList, isPlainIdentifier, Bool.and_eq_true,
        beq_iff_eq] at hplain
      have hprefix := IsPrefix.identifierPart (List.take_prefix k name.toList)
      rw [hplain.2] at hprefix
      have hlength := hprefix.length_le
      rw [List.length_take_of_le hk] at hlength
      exact hlength

/-- The plain beginning of a name that is neither empty nor plain stops inside it. -/
theorem length_identifierPart_lt (hne : name ≠ "") (hplain : ¬ PlainName name) :
    (identifierPart name.toList).length < name.length := by
  obtain ⟨⟨hle, hbegins⟩, -⟩ := isGreatest_identifierPart name
  refine Nat.lt_of_le_of_ne hle fun hall => ?_
  rw [hall, String.length_eq_zero_iff, ← String.length_toList, List.take_length,
    String.ofList_toList] at hbegins
  exact hbegins.elim hne hplain

theorem idxOf?_append_cons {α : Type} [DecidableEq α] {x : α} {xs : List α} (h : x ∉ xs)
    (ys : List α) : (xs ++ x :: ys).idxOf? x = some xs.length := by
  induction xs with
  | nil => simp [List.idxOf?_cons]
  | cons y xs ih =>
    rw [List.mem_cons, not_or] at h
    rw [List.cons_append, List.idxOf?_cons, if_neg (by simpa using Ne.symm h.1), ih h.2]
    rfl

namespace NameFault

variable (f : NameFault)

theorem toList_quotedName :
    f.quotedName.toList = '\x22' :: Json.escaped .plain f.name.toList ++ ['\x22'] :=
  Json.toList_quoted .plain f.name

theorem dropLast_drop_quotedName :
    (f.quotedName.toList.drop 1).dropLast = Json.escaped .plain f.name.toList := by
  rw [toList_quotedName, List.cons_append, List.drop_succ_cons, List.drop_zero, List.dropLast_concat]

theorem length_quotedName :
    f.quotedName.length = (Json.escaped .plain f.name.toList).length + 2 := by
  rw [← String.length_toList, toList_quotedName, List.length_append, List.length_cons,
    List.length_singleton]

theorem visible_quotedName : ∀ c ∈ f.quotedName.toList, 0x20 ≤ c.toNat := by
  rw [toList_quotedName]
  exact Json.visible_enclosed (by decide) (by decide) (Json.visible_escaped .plain _)

theorem notMem_quotedName_of_lt (h : c.toNat < 0x20) : c ∉ f.quotedName.toList := fun hc =>
  absurd (f.visible_quotedName c hc) (Nat.not_le.2 h)

theorem trimEnd_quotedName : trimEnd f.quotedName.toList = f.quotedName.toList := by
  rw [toList_quotedName, trimEnd, dropEndWhile_append_singleton, if_neg (by decide)]

theorem place_le : f.place ≤ f.name.toList.length := by
  cases f with
  | unquotable name => exact firstDifference_le_right _ _
  | irregular name => exact (identifierPart_isPrefix name.toList).length_le

/-- The caret stands below a character of the quoted name. -/
theorem place_lt_length : f.place + 1 < f.quotedName.length := by
  have hplace := f.place_le
  have hescaped := Json.length_le_length_escaped f.name.toList
  rw [length_quotedName]
  omega

theorem blankOut_eq (h : ∀ c ∈ cs, c ≠ '\t') : blankOut cs = List.replicate cs.length ' ' := by
  rw [blankOut, List.map_congr_left fun c hc => if_neg (h c hc), List.map_const']

theorem blankOut_append (as bs : List Char) : blankOut (as ++ bs) = blankOut as ++ blankOut bs :=
  List.map_append

theorem carets_picture : f.picture.carets = 1 := by
  have hwidth : f.picture.width = 0 := rfl
  rw [Picture.carets, hwidth]
  omega

/-- A tab, the blanks below what stands in front of the place, the caret and the caption. -/
def caretLine : List Char :=
  '\t' :: (List.replicate (f.place + 1) ' ' ++ '^' :: ' ' :: f.caption.toList)

theorem toList_render_picture :
    f.picture.render.toList = '\t' :: f.quotedName.toList ++ '\n' :: f.caretLine := by
  have htab : "\t".toList = ['\t'] := rfl
  have hline : f.picture.line = f.quotedName := rfl
  have hlead : f.picture.lead = "\t" := rfl
  have hcaption : f.picture.caption = f.caption := rfl
  have hfront : takeTo f.picture.start f.quotedName.toList =
      f.quotedName.toList.take (f.place + 1) := rfl
  have hblank : blankOut (f.quotedName.toList.take (f.place + 1)) =
      List.replicate (f.place + 1) ' ' := by
    rw [blankOut_eq fun c hc htab =>
        f.notMem_quotedName_of_lt (by decide) (htab ▸ List.mem_of_mem_take hc),
      List.length_take_of_le (Nat.le_of_lt f.place_lt_length)]
  rw [Picture.render, String.toList_ofList, carets_picture, hline, hlead, hcaption, hfront, htab,
    trimEnd_quotedName, blankOut_append, hblank, caretLine]
  simp only [List.append_assoc, List.cons_append, List.nil_append]
  rfl

theorem feed_notMem_nameLine : '\n' ∉ '\t' :: f.quotedName.toList := by
  rw [List.mem_cons, not_or]
  exact ⟨by decide, f.notMem_quotedName_of_lt (by decide)⟩

theorem feed_notMem_caretLine : '\n' ∉ f.caretLine := by
  have hcaption : '\n' ∉ f.caption.toList := by
    cases f with
    | unquotable name =>
      change '\n' ∉ "does not survive quoting".toList
      decide
    | irregular name =>
      change '\n' ∉ "not allowed in an identifier".toList
      decide
  simp [caretLine, hcaption]

theorem lines_picture :
    f.picture.render.toList.splitOn '\n' = ['\t' :: f.quotedName.toList, f.caretLine] := by
  rw [toList_render_picture, List.splitOn_append_cons_self_of_not_mem f.feed_notMem_nameLine,
    List.splitOn_eq_singleton f.feed_notMem_caretLine]

theorem count_feed_picture : f.picture.render.toList.count '\n' = 1 := by
  rw [toList_render_picture, List.count_append, List.count_cons_self,
    List.count_eq_zero.2 f.feed_notMem_nameLine, List.count_eq_zero.2 f.feed_notMem_caretLine]

/-- The first backslash of the quoted name opens the first escape. -/
theorem idxOf?_nameLine (h : ¬ Quotable f.name) :
    ('\t' :: f.quotedName.toList).idxOf? '\\' = some (firstEscaped f.name.toList + 2) := by
  obtain ⟨rest, hescaped, hbefore⟩ := escaped_eq_append h
  have hfront : '\\' ∉ '\t' :: '\x22' :: f.name.toList.take (firstEscaped f.name.toList) := by
    rw [List.mem_cons, List.mem_cons, not_or, not_or]
    exact ⟨by decide, by decide, hbefore⟩
  have hline : '\t' :: f.quotedName.toList =
      '\t' :: '\x22' :: f.name.toList.take (firstEscaped f.name.toList) ++
        '\\' :: (rest ++ ['\x22']) := by
    rw [toList_quotedName, hescaped]
    simp only [List.cons_append, List.append_assoc]
  rw [hline, idxOf?_append_cons hfront, List.length_cons, List.length_cons,
    List.length_take_of_le (Nat.le_of_lt (firstEscaped_lt h))]

theorem idxOf?_caretLine : f.caretLine.idxOf? '^' = some (f.place + 2) := by
  have hblank : '^' ∉ '\t' :: List.replicate (f.place + 1) ' ' := by simp
  rw [caretLine, ← List.cons_append, idxOf?_append_cons hblank, List.length_cons,
    List.length_replicate]

end NameFault

theorem default_eq_error_iff {fault : NameFault} :
    checkErrorName false name = .error fault ↔ ¬ Quotable name ∧ fault = .unquotable name := by
  constructor
  · intro h
    rcases checkErrorName_eq_error h with ⟨hfault, hq⟩ | ⟨-, hq, -⟩
    · exact ⟨hq, hfault⟩
    · rw [(checkErrorName_eq_ok_iff false name).2 ⟨hq, nofun⟩] at h
      cases h
  · rintro ⟨hq, rfl⟩
    rw [checkErrorName_eq, if_pos hq]

/-- The default check rejects a name with a picture whose caret stands as many columns behind the
first backslash of the quoted name as there are backslashes from the first escaped character on. So
it is below the first escape if and only if that character is no backslash. -/
theorem caret_behind_backslashes {fault : NameFault} (h : checkErrorName false name = .error fault) :
    (∀ strict, checkErrorName strict name = .error fault) ∧
      firstEscaped name.toList < name.length ∧
      ∃ first second, fault.picture.render.toList.splitOn '\n' = [first, second] ∧
        first.idxOf? '\\' = some (firstEscaped name.toList + 2) ∧
        second.idxOf? '^' = some (firstEscaped name.toList + firstSlashes name.toList + 2) ∧
        (second.idxOf? '^' = first.idxOf? '\\' ↔
          name.toList[firstEscaped name.toList]? ≠ some '\\') := by
  obtain ⟨hq, rfl⟩ := default_eq_error_iff.1 h
  have hlt := firstEscaped_lt hq
  have hslash := (NameFault.unquotable name).idxOf?_nameLine hq
  have hcaret := (NameFault.unquotable name).idxOf?_caretLine
  have hplace : (NameFault.unquotable name).place =
      firstEscaped name.toList + firstSlashes name.toList := firstDifference_escaped name.toList
  rw [hplace] at hcaret
  refine ⟨fun strict => by rw [checkErrorName_eq, if_pos hq], hlt, _, _,
    (NameFault.unquotable name).lines_picture, hslash, hcaret, ?_⟩
  rw [hcaret, hslash, NameFault.name, ← firstSlashes_eq_zero_iff, Option.some.injEq]
  omega

/-- Three characters are escaped, two backslashes and a quote. -/
def slashedName : String := "é\\\\\x22"

theorem caret_slashedName :
    checkErrorName false slashedName = .error (.unquotable slashedName) ∧
      ∃ first second,
        (NameFault.unquotable slashedName).picture.render.toList.splitOn '\n' = [first, second] ∧
        first.idxOf? '\\' = some 3 ∧ second.idxOf? '^' = some 5 := by
  have h : checkErrorName false slashedName = .error (.unquotable slashedName) := by
    decide +kernel
  have hplaces : firstEscaped slashedName.toList = 1 ∧ firstSlashes slashedName.toList = 2 := by
    decide +kernel
  obtain ⟨-, -, first, second, hlines, hslash, hcaret, -⟩ := caret_behind_backslashes h
  rw [hplaces.1] at hslash
  rw [hplaces.1, hplaces.2] at hcaret
  exact ⟨h, first, second, hlines, hslash, hcaret⟩

/-- The caret stands two columns behind the first escape. -/
theorem caret_passes_backslash :
    checkErrorName false "a\\\\b" = .error (.unquotable "a\\\\b") ∧
      firstEscaped "a\\\\b".toList = 1 ∧
      ∃ first second,
        (NameFault.unquotable "a\\\\b").picture.render.toList.splitOn '\n' = [first, second] ∧
        first.idxOf? '\\' = some (1 + 2) ∧ second.idxOf? '^' = some (1 + 4) ∧
        second.idxOf? '^' ≠ some (1 + 2) := by
  have hplace : (NameFault.unquotable "a\\\\b").place = 3 := by decide +kernel
  have hcaret := (NameFault.unquotable "a\\\\b").idxOf?_caretLine
  rw [hplace] at hcaret
  refine ⟨by decide +kernel, by decide +kernel, _, _, NameFault.lines_picture _,
    by decide +kernel, hcaret, ?_⟩
  rw [hcaret]
  decide

/-- Whichever check rejects a name, its picture shows the quoted name behind a tab and below it a
caret under a character of the quoted name other than the opening quote. -/
theorem picture_within_line {strict : Bool} {fault : NameFault}
    (h : checkErrorName strict name = .error fault) :
    ∃ q c, q = Json.quoted .plain name ∧
      fault.picture.render.toList.count '\n' = 1 ∧
      fault.picture.render = "\t" ++ q ++ "\n" ++
        ("\t" ++ String.ofList (List.replicate c ' ') ++ "^ " ++ fault.caption) ∧
      1 ≤ c ∧ c < q.length ∧
      (checkErrorName false name = .error fault →
        fault.message = "The errorName " ++ q ++ " is not a valid Javascript identifier" ∧
        (q.toList.drop 1).dropLast.take (c - 1) = name.toList.take (c - 1) ∧
        (c - 1 = name.length ∨ (q.toList.drop 1).dropLast[c - 1]? ≠ name.toList[c - 1]?)) ∧
      (checkErrorName false name = .ok name →
        fault.message = "The errorName " ++ q ++ " is not a plain Javascript identifier" ∧
        IsGreatest {k | BeginsPlain name k} (c - 1) ∧
        (name = "" ∧ q = "\x22\x22" ∨
          c - 1 < name.length ∧ q.toList[c]? = name.toList[c - 1]?)) := by
  have hname : fault.name = name := by
    rcases checkErrorName_eq_error h with ⟨rfl, -⟩ | ⟨rfl, -⟩
    · rfl
    · rfl
  refine ⟨fault.quotedName, fault.place + 1, by rw [NameFault.quotedName, hname],
    fault.count_feed_picture, ?_, Nat.le_add_left 1 _, fault.place_lt_length, fun hdefault => ?_,
    fun hdefault => ?_⟩
  · apply String.toList_injective
    rw [fault.toList_render_picture]
    simp [NameFault.caretLine]
  · obtain ⟨-, rfl⟩ := default_eq_error_iff.1 hdefault
    rw [NameFault.dropLast_drop_quotedName, Nat.add_sub_cancel]
    refine ⟨rfl, take_firstDifference _ _, ?_⟩
    rcases Nat.eq_or_lt_of_le (NameFault.place_le (.unquotable name)) with hall | hpart
    · exact Or.inl hall
    · exact Or.inr (getElem?_firstDifference_ne hpart)
  · have hq : Quotable name := ((checkErrorName_eq_ok_iff false name).1 hdefault).1
    obtain ⟨rfl, hplain⟩ : fault = .irregular name ∧ ¬ PlainName name := by
      rcases checkErrorName_eq_error h with ⟨-, hbad⟩ | ⟨hfault, -, hplain⟩
      · exact absurd hq hbad
      · exact ⟨hfault, hplain⟩
    rw [Nat.add_sub_cancel]
    refine ⟨rfl, isGreatest_identifierPart name, ?_⟩
    by_cases hne : name = ""
    · subst hne
      exact Or.inl ⟨rfl, rfl⟩
    · have hinside : (NameFault.irregular name).place < name.toList.length :=
        length_identifierPart_lt hne hplain
      refine Or.inr ⟨hinside, ?_⟩
      rw [NameFault.toList_quotedName, NameFault.name, Json.escaped_eq_self_iff.2 hq,
        List.cons_append, List.getElem?_cons_succ, List.getElem?_append_left hinside]

/-- The blank behind the plain beginning is not allowed, and neither is the one at the end. -/
theorem picture_blankName :
    checkErrorName true "ab c " = .error (.irregular "ab c ") ∧
      ∃ c, (NameFault.irregular "ab c ").picture.render = "\t" ++ "\x22ab c \x22" ++ "\n" ++
          ("\t" ++ String.ofList (List.replicate c ' ') ++ "^ " ++
            "not allowed in an identifier") ∧
        1 ≤ c ∧ c < "\x22ab c \x22".length ∧ IsGreatest {k | BeginsPlain "ab c " k} (c - 1) := by
  have h : checkErrorName true "ab c " = .error (.irregular "ab c ") := by decide +kernel
  have hdefault : checkErrorName false "ab c " = .ok "ab c " := by decide +kernel
  have hquoted : Json.quoted .plain "ab c " = "\x22ab c \x22" := by decide +kernel
  obtain ⟨q, c, rfl, -, hrender, hpos, hlt, -, hstrict⟩ := picture_within_line h
  obtain ⟨-, hgreatest, -⟩ := hstrict hdefault
  rw [hquoted] at hrender hlt
  exact ⟨h, c, hrender, hpos, hlt, hgreatest⟩

end TypedModule
