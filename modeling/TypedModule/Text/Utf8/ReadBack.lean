import TypedModule.Text.Utf8

/-!
# Reading back UTF-8

Decoding the octets of a text gives the text back. A character is decoded from the octets of
its own code, whatever follows, so the position of a later fault moves by their number.
-/

namespace TypedModule.Utf8

theorem decodeFrom_begin {b : UInt8} {p : Begun} (high : ¬ b < 0x80) (begins : begin? b = some p)
    (position : Nat) (rest : List UInt8) :
    decodeFrom position none (b :: rest) = decodeFrom (position + 1) (some p) rest := by
  rw [decodeFrom, if_neg high, begins]

theorem decodeFrom_owing {p : Begun} {b : UInt8} {n : Nat} (owed : p.owed = n + 1)
    (above : p.low ≤ b) (below : b ≤ p.high) (position : Nat) (rest : List UInt8) :
    decodeFrom position (some p) (b :: rest) = decodeFrom (position + 1)
      (some ⟨p.octets ++ [b], n, 0x80, 0xBF, p.extend b⟩) rest := by
  rw [decodeFrom, if_pos ⟨above, below⟩, owed]

theorem decodeFrom_last {p : Begun} {b : UInt8} (owed : p.owed = 0)
    (above : p.low ≤ b) (below : b ≤ p.high) (position : Nat) (rest : List UInt8) :
    decodeFrom position (some p) (b :: rest) =
      (decodeFrom (position + 1) none rest).map (Char.ofNat (p.extend b) :: ·) := by
  rw [decodeFrom, if_pos ⟨above, below⟩, owed]

theorem decodeFrom_extend {b low high : UInt8} (above : low ≤ b) (below : b ≤ high)
    (position owed bits : Nat) (octets rest : List UInt8) :
    decodeFrom position (some ⟨octets, owed + 1, low, high, bits⟩) (b :: rest) =
      decodeFrom (position + 1)
        (some ⟨octets ++ [b], owed, 0x80, 0xBF, bits * 64 + (b.toNat - 0x80)⟩) rest :=
  decodeFrom_owing (p := ⟨octets, owed + 1, low, high, bits⟩) rfl above below position rest

theorem decodeFrom_finish {b low high : UInt8} (above : low ≤ b) (below : b ≤ high)
    (position bits : Nat) (octets rest : List UInt8) :
    decodeFrom position (some ⟨octets, 0, low, high, bits⟩) (b :: rest) =
      (decodeFrom (position + 1) none rest).map
        (Char.ofNat (bits * 64 + (b.toNat - 0x80)) :: ·) :=
  decodeFrom_last (p := ⟨octets, 0, low, high, bits⟩) rfl above below position rest

theorem toNat_octet {n : Nat} (h : n < 256) : (UInt8.ofNat n).toNat = n := by
  rw [UInt8.toNat_ofNat']
  exact Nat.mod_eq_of_lt h

theorem octet_le {n : Nat} {b : UInt8} (h : n < 256) (le : n ≤ b.toNat) :
    UInt8.ofNat n ≤ b := by
  rwa [UInt8.le_iff_toNat_le, toNat_octet h]

theorem le_octet {n : Nat} {b : UInt8} (h : n < 256) (le : b.toNat ≤ n) :
    b ≤ UInt8.ofNat n := by
  rwa [UInt8.le_iff_toNat_le, toNat_octet h]

theorem octet_not_lt {n : Nat} (h : n < 256) (high : 0x80 ≤ n) : ¬ UInt8.ofNat n < 0x80 := by
  rw [UInt8.lt_iff_toNat_lt, toNat_octet h]
  exact Nat.not_lt.2 high

theorem begin?_two : ∀ k < 30, begin? (UInt8.ofNat (0xC2 + k)) =
    some ⟨[UInt8.ofNat (0xC2 + k)], 0, 0x80, 0xBF, 2 + k⟩ := by decide

theorem begin?_three : ∀ k < 16, begin? (UInt8.ofNat (0xE0 + k)) =
    some ⟨[UInt8.ofNat (0xE0 + k)], 1, if k = 0 then 0xA0 else 0x80,
      if k = 0xD then 0x9F else 0xBF, k⟩ := by decide

theorem begin?_four : ∀ k < 5, begin? (UInt8.ofNat (0xF0 + k)) =
    some ⟨[UInt8.ofNat (0xF0 + k)], 2, if k = 0 then 0x90 else 0x80,
      if k = 4 then 0x8F else 0xBF, k⟩ := by decide

theorem decodeFrom_one {v : Nat} (h : v ≤ 127) (position : Nat) (rest : List UInt8) :
    decodeFrom position none (UInt8.ofNat v :: rest) =
      (decodeFrom (position + 1) none rest).map (Char.ofNat v :: ·) := by
  have low : UInt8.ofNat v < 0x80 := by
    rw [UInt8.lt_iff_toNat_lt, toNat_octet (by omega)]
    exact Nat.lt_succ_of_le h
  rw [decodeFrom, if_pos low, toNat_octet (by omega)]

theorem decodeFrom_two {v : Nat} (above : 127 < v) (h : v ≤ 2047) (position : Nat)
    (rest : List UInt8) :
    decodeFrom position none
        (UInt8.ofNat (v / 64 % 32 + 192) :: UInt8.ofNat (v % 64 + 128) :: rest) =
      (decodeFrom (position + 2) none rest).map (Char.ofNat v :: ·) := by
  obtain ⟨k, hk⟩ : ∃ k, v / 64 = k + 2 := ⟨v / 64 - 2, by omega⟩
  have first : v / 64 % 32 + 192 = 0xC2 + k := by omega
  have bits : (2 + k) * 64 + (v % 64 + 128 - 128) = v := by omega
  have low : (0x80 : UInt8) ≤ UInt8.ofNat (v % 64 + 128) :=
    le_octet (by omega) (Nat.le_add_left 128 _)
  have high : UInt8.ofNat (v % 64 + 128) ≤ (0xBF : UInt8) :=
    octet_le (by omega) (by change _ ≤ 191; omega)
  have lead : ¬ UInt8.ofNat (0xC2 + k) < 0x80 := octet_not_lt (by omega) (by omega)
  have begun := begin?_two (k) (by omega)
  rw [first, decodeFrom_begin lead begun,
    decodeFrom_finish low high, toNat_octet (by omega), bits]

theorem decodeFrom_three {v : Nat} (above : 2047 < v) (h : v ≤ 65535)
    (valid : v < 0xD800 ∨ 0xDFFF < v) (position : Nat) (rest : List UInt8) :
    decodeFrom position none (UInt8.ofNat (v / 4096 % 16 + 224) ::
        UInt8.ofNat (v / 64 % 64 + 128) :: UInt8.ofNat (v % 64 + 128) :: rest) =
      (decodeFrom (position + 3) none rest).map (Char.ofNat v :: ·) := by
  have first : v / 4096 % 16 + 224 = 0xE0 + v / 4096 := by omega
  have bits : (v / 4096 * 64 + (v / 64 % 64 + 128 - 128)) * 64 + (v % 64 + 128 - 128) = v := by
    omega
  have low₁ : (if v / 4096 = 0 then 0xA0 else 0x80 : UInt8) ≤ UInt8.ofNat (v / 64 % 64 + 128) := by
    split
    · exact le_octet (by omega) (by change 160 ≤ _; omega)
    · exact le_octet (by omega) (Nat.le_add_left 128 _)
  have high₁ : UInt8.ofNat (v / 64 % 64 + 128) ≤ (if v / 4096 = 0xD then 0x9F else 0xBF : UInt8) := by
    split
    · exact octet_le (by omega) (by change _ ≤ 159; omega)
    · exact octet_le (by omega) (by change _ ≤ 191; omega)
  have low₂ : (0x80 : UInt8) ≤ UInt8.ofNat (v % 64 + 128) :=
    le_octet (by omega) (Nat.le_add_left 128 _)
  have high₂ : UInt8.ofNat (v % 64 + 128) ≤ (0xBF : UInt8) :=
    octet_le (by omega) (by change _ ≤ 191; omega)
  have lead : ¬ UInt8.ofNat (0xE0 + v / 4096) < 0x80 := octet_not_lt (by omega) (by omega)
  have begun := begin?_three (v / 4096) (by omega)
  rw [first, decodeFrom_begin lead begun,
    decodeFrom_extend low₁ high₁, decodeFrom_finish low₂ high₂, toNat_octet (by omega),
    toNat_octet (by omega), bits]

theorem decodeFrom_four {v : Nat} (above : 65535 < v) (h : v < 0x110000) (position : Nat)
    (rest : List UInt8) :
    decodeFrom position none (UInt8.ofNat (v / 262144 % 8 + 240) ::
        UInt8.ofNat (v / 4096 % 64 + 128) :: UInt8.ofNat (v / 64 % 64 + 128) ::
        UInt8.ofNat (v % 64 + 128) :: rest) =
      (decodeFrom (position + 4) none rest).map (Char.ofNat v :: ·) := by
  have first : v / 262144 % 8 + 240 = 0xF0 + v / 262144 := by omega
  have bits : ((v / 262144 * 64 + (v / 4096 % 64 + 128 - 128)) * 64 +
      (v / 64 % 64 + 128 - 128)) * 64 + (v % 64 + 128 - 128) = v := by omega
  have low₁ : (if v / 262144 = 0 then 0x90 else 0x80 : UInt8) ≤
      UInt8.ofNat (v / 4096 % 64 + 128) := by
    split
    · exact le_octet (by omega) (by change 144 ≤ _; omega)
    · exact le_octet (by omega) (Nat.le_add_left 128 _)
  have high₁ : UInt8.ofNat (v / 4096 % 64 + 128) ≤
      (if v / 262144 = 4 then 0x8F else 0xBF : UInt8) := by
    split
    · exact octet_le (by omega) (by change _ ≤ 143; omega)
    · exact octet_le (by omega) (by change _ ≤ 191; omega)
  have low (n : Nat) : (0x80 : UInt8) ≤ UInt8.ofNat (n % 64 + 128) :=
    le_octet (by omega) (Nat.le_add_left 128 _)
  have high (n : Nat) : UInt8.ofNat (n % 64 + 128) ≤ (0xBF : UInt8) :=
    octet_le (by omega) (by change _ ≤ 191; omega)
  have lead : ¬ UInt8.ofNat (0xF0 + v / 262144) < 0x80 := octet_not_lt (by omega) (by omega)
  have begun := begin?_four (v / 262144) (by omega)
  rw [first, decodeFrom_begin lead begun,
    decodeFrom_extend low₁ high₁, decodeFrom_extend (low _) (high _),
    decodeFrom_finish (low _) (high _), toNat_octet (by omega), toNat_octet (by omega),
    toNat_octet (by omega), bits]

theorem decodeFrom_encodeChar (c : Char) (position : Nat) (rest : List UInt8) :
    decodeFrom position none (String.utf8EncodeChar c ++ rest) =
      (decodeFrom (position + (String.utf8EncodeChar c).length) none rest).map (c :: ·) := by
  have valid : c.toNat < 0xD800 ∨ (0xDFFF < c.toNat ∧ c.toNat < 0x110000) := c.valid
  have same : Char.ofNat c.toNat = c := Char.ofNat_toNat c
  have code : c.val.toNat = c.toNat := rfl
  rw [String.utf8EncodeChar.eq_1, code]
  split
  · have read := decodeFrom_one (v := c.toNat) (by omega) position rest
    rwa [same] at read
  · split
    · have read := decodeFrom_two (v := c.toNat) (by omega) (by omega) position rest
      rwa [same] at read
    · split
      · have read := decodeFrom_three (v := c.toNat) (by omega) (by omega) (by omega) position rest
        rwa [same] at read
      · have read := decodeFrom_four (v := c.toNat) (by omega) (by omega) position rest
        rwa [same] at read

theorem decodeFrom_encode (cs : List Char) (position : Nat) :
    decodeFrom position none (encode cs) = .ok cs := by
  induction cs generalizing position with
  | nil => rfl
  | cons c cs ih =>
    rw [encode, List.flatMap_cons, decodeFrom_encodeChar]
    exact congrArg (Except.map (c :: ·)) (ih _)

theorem decode_encode (cs : List Char) : decode (encode cs) = .ok cs := decodeFrom_encode cs 0

end TypedModule.Utf8
