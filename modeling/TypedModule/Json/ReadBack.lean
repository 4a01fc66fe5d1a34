import TypedModule.Json.Reader
/-!
# Reading back quoted text

Whatever a text is, reading its quoted form gives the text back, in the plain and in the ASCII
style. Each character is read back by itself, as one piece or as two surrogate units.
-/

namespace TypedModule.Json

theorem unitValue?_unitDigits {n : Nat} (h : n < 65536) :
    ∃ a b c d, unitDigits n = [a, b, c, d] ∧ unitValue? a b c d = some n := by
  refine ⟨_, _, _, _, rfl, ?_⟩
  have digit (k : Nat) (hk : k < 16) : hexValue? (Nat.digitChar k) = some k := by
    decide +revert
  simp only [unitValue?, digit _ (Nat.mod_lt _ (by decide : 0 < 16))]
  congr 1
  omega

/-- What a character is read as. -/
def piecesOf (style : Style) (c : Char) : List Piece :=
  match letterFor? c with
  | some _ => [.char c]
  | none =>
    if c.toNat < 0x20 ∨ (style = .ascii ∧ 0x7E < c.toNat) then (units c).map .unit else [.char c]

theorem code_bounds (c : Char) :
    c.toNat < 0xD800 ∨ (0xDFFF < c.toNat ∧ c.toNat < 0x110000) := c.valid

theorem units_lt (c : Char) : ∀ n ∈ units c, n < 65536 := by
  have bound := code_bounds c
  intro n hn
  by_cases h : c.toNat < 0x10000
  · simp only [units, h, if_true, List.mem_singleton] at hn
    omega
  · simp only [units, h, if_false, List.mem_cons, List.not_mem_nil, or_false] at hn
    omega

theorem readPieces_escapedUnit {n : Nat} (h : n < 65536) (start rest : List Char)
    (ne : rest ≠ []) : readPieces start (escapedUnit n ++ rest) =
      (readPieces start rest).map (consPiece (.unit n)) := by
  obtain ⟨a, b, c, d, digits, value⟩ := unitValue?_unitDigits h
  cases rest with
  | nil => exact absurd rfl ne
  | cons x xs => simp [escapedUnit, digits, readPieces, value]

theorem escapeValue?_letter {c e : Char} (h : letterFor? c = some e) :
    escapeValue? e = some c ∧ e ≠ 'u' := by
  have all : ∀ p ∈ letters, escapeValue? p.2 = some p.1 ∧ p.2 ≠ 'u' := by decide
  obtain ⟨p, found, rfl⟩ := Option.map_eq_some_iff.1 h
  have key : p.1 = c := by simpa using List.find?_some found
  exact key ▸ all p (List.mem_of_find?_eq_some found)

theorem readPieces_letter {c e : Char} (h : letterFor? c = some e) (start rest : List Char) :
    readPieces start ('\\' :: e :: rest) = (readPieces start rest).map (consPiece (.char c)) := by
  obtain ⟨value, unit⟩ := escapeValue?_letter h
  rw [readPieces]
  · simp [value]
  · rintro a b c d r rfl
    exact absurd rfl unit
  · rintro rfl
    exact absurd rfl unit

theorem readPieces_plain {c : Char} (h : letterFor? c = none) (visible : ¬ c.toNat < 0x20)
    (start rest : List Char) :
    readPieces start (c :: rest) = (readPieces start rest).map (consPiece (.char c)) := by
  have quote : c ≠ '\x22' := by
    rintro rfl
    exact absurd h (by decide)
  have slash : c ≠ '\\' := by
    rintro rfl
    exact absurd h (by decide)
  rw [readPieces]
  · simp [quote, slash, visible]
  all_goals intros; simp_all

/-- Puts pieces in front of what has been read. -/
def consPieces (ps : List Piece) (r : List Piece × List Char) : List Piece × List Char :=
  (ps ++ r.1, r.2)

theorem readPieces_units (ns : List Nat) (small : ∀ n ∈ ns, n < 65536) (start rest : List Char)
    (ne : rest ≠ []) : readPieces start (ns.flatMap escapedUnit ++ rest) =
      (readPieces start rest).map (consPieces (ns.map .unit)) := by
  induction ns with
  | nil => cases h : readPieces start rest <;> simp [h, Except.map, consPieces]
  | cons n ns ih =>
    have more : ns.flatMap escapedUnit ++ rest ≠ [] := by simp [ne]
    rw [List.flatMap_cons, List.append_assoc,
      readPieces_escapedUnit (small n (by simp)) start _ more,
      ih fun m hm => small m (by simp [hm])]
    cases readPieces start rest <;> rfl

theorem readPieces_escapedChar (style : Style) (c : Char) (start rest : List Char)
    (ne : rest ≠ []) : readPieces start (escapedChar style c ++ rest) =
      (readPieces start rest).map (consPieces (piecesOf style c)) := by
  cases letter : letterFor? c with
  | some e =>
    simp only [escapedChar, piecesOf, letter, List.cons_append, List.nil_append]
    rw [readPieces_letter letter]
    rfl
  | none =>
    simp only [escapedChar, piecesOf, letter]
    split
    · exact readPieces_units (units c) (units_lt c) start rest ne
    · next visible =>
      exact readPieces_plain letter (fun low => visible (Or.inl low)) start rest

theorem readPieces_escaped (style : Style) (cs start rest : List Char) :
    readPieces start (escaped style cs ++ '\x22' :: rest) =
      .ok (cs.flatMap (piecesOf style), rest) := by
  induction cs with
  | nil => simp [escaped, readPieces]
  | cons c cs ih =>
    have more : escaped style cs ++ '\x22' :: rest ≠ [] := by simp
    have step := readPieces_escapedChar style c start _ more
    rw [ih] at step
    rw [escaped, List.flatMap_cons, List.append_assoc, List.flatMap_cons]
    exact step

theorem joinUnits_unit {n : Nat} (h : n < 0xD800 ∨ 0xE000 ≤ n) (ps : List Piece) :
    joinUnits (.unit n :: ps) = Char.ofNat n :: joinUnits ps := by
  have alone : joinUnits.loneUnit n = Char.ofNat n := by
    rw [joinUnits.loneUnit, if_neg (by omega)]
  match ps with
  | [] => simp [joinUnits, alone]
  | .char c :: rest => simp [joinUnits, alone]
  | .unit low :: rest =>
    rw [joinUnits, if_neg (by omega), alone]

theorem joinUnits_units (c : Char) (ps : List Piece) :
    joinUnits ((units c).map .unit ++ ps) = c :: joinUnits ps := by
  have bound := code_bounds c
  have valid : c.toNat < 0xD800 ∨ 0xE000 ≤ c.toNat := by omega
  by_cases small : c.toNat < 0x10000
  · simp only [units, small, if_true, List.map_cons, List.map_nil, List.cons_append,
      List.nil_append]
    rw [joinUnits_unit valid, Char.ofNat_toNat]
  · simp only [units, small, if_false, List.map_cons, List.map_nil, List.cons_append,
      List.nil_append]
    have joined : 0x10000 + (0xD800 + (c.toNat - 0x10000) / 1024 - 0xD800) * 1024 +
        (0xDC00 + (c.toNat - 0x10000) % 1024 - 0xDC00) = c.toNat := by omega
    rw [joinUnits, if_pos (by omega), joined, Char.ofNat_toNat]

theorem joinUnits_piecesOf (style : Style) (c : Char) (ps : List Piece) :
    joinUnits (piecesOf style c ++ ps) = c :: joinUnits ps := by
  cases letter : letterFor? c with
  | some e => simp [piecesOf, letter, joinUnits]
  | none =>
    simp only [piecesOf, letter]
    split
    · exact joinUnits_units c ps
    · rfl

theorem joinUnits_flatMap_piecesOf (style : Style) (cs : List Char) :
    joinUnits (cs.flatMap (piecesOf style)) = cs := by
  induction cs with
  | nil => rfl
  | cons c cs ih => rw [List.flatMap_cons, joinUnits_piecesOf, ih]

theorem readText_escaped (style : Style) (cs rest : List Char) :
    readText (escaped style cs ++ '\x22' :: rest) = .ok (String.ofList cs, rest) := by
  rw [readText, readPieces_escaped]
  simp [Except.map, joinUnits_flatMap_piecesOf]

end TypedModule.Json
