import Mathlib.Data.List.Basic
import TypedModule.Text.Utf8.ReadBack

/-!
# What decodes is an encoding

Decoding accepts nothing but what encoding produces: octets that decode to a text are the octets
of that text. The octets of the first character are read off by the class of the first octet, which
fixes how many follow and, through the bounds of the second, that no shorter form would have done.
-/

namespace TypedModule.Utf8

variable {octets rest : List UInt8} {cs : List Char} {position : Nat} {b : UInt8}

/-- The octets of one character stand in front, and reading goes on behind them. -/
def ReadsOne (octets : List UInt8) (cs : List Char) : Prop :=
  ∃ c rest tail position, octets = String.utf8EncodeChar c ++ rest ∧
    decodeFrom position none rest = .ok tail ∧ cs = c :: tail

theorem decodeFrom_last_eq_ok {low high : UInt8} {bits : Nat} {begun : List UInt8}
    (h : decodeFrom position (some ⟨begun, 0, low, high, bits⟩) octets = .ok cs) :
    ∃ b rest tail, octets = b :: rest ∧ low ≤ b ∧ b ≤ high ∧
      decodeFrom (position + 1) none rest = .ok tail ∧
      cs = Char.ofNat (bits * 64 + (b.toNat - 0x80)) :: tail := by
  cases octets with
  | nil => cases h
  | cons b rest =>
    rw [decodeFrom] at h
    split at h
    · next hb =>
      change Except.map _ _ = _ at h
      cases hrest : decodeFrom (position + 1) none rest with
      | error fault => rw [hrest] at h; cases h
      | ok tail =>
        rw [hrest] at h
        exact ⟨b, rest, tail, rfl, hb.1, hb.2, hrest, (Except.ok.inj h).symm⟩
    · cases h

theorem decodeFrom_owing_eq_ok {low high : UInt8} {owed bits : Nat} {begun : List UInt8}
    (h : decodeFrom position (some ⟨begun, owed + 1, low, high, bits⟩) octets = .ok cs) :
    ∃ b rest, octets = b :: rest ∧ low ≤ b ∧ b ≤ high ∧
      decodeFrom (position + 1)
        (some ⟨begun ++ [b], owed, 0x80, 0xBF, bits * 64 + (b.toNat - 0x80)⟩) rest = .ok cs := by
  cases octets with
  | nil => cases h
  | cons b rest =>
    rw [decodeFrom] at h
    split at h
    · next hb => exact ⟨b, rest, rfl, hb.1, hb.2, h⟩
    · cases h

theorem utf8EncodeChar_ofNat {v : Nat} (hv : v.isValidChar) :
    String.utf8EncodeChar (Char.ofNat v) =
      if v ≤ 127 then [UInt8.ofNat v]
      else if v ≤ 2047 then [UInt8.ofNat (v / 64 % 32 + 192), UInt8.ofNat (v % 64 + 128)]
      else if v ≤ 65535 then [UInt8.ofNat (v / 4096 % 16 + 224), UInt8.ofNat (v / 64 % 64 + 128),
        UInt8.ofNat (v % 64 + 128)]
      else [UInt8.ofNat (v / 262144 % 8 + 240), UInt8.ofNat (v / 4096 % 64 + 128),
        UInt8.ofNat (v / 64 % 64 + 128), UInt8.ofNat (v % 64 + 128)] := by
  have hcode : (Char.ofNat v).val.toNat = v := by
    change (Char.ofNat v).toNat = v
    rw [Char.ofNat, dif_pos hv]
    rfl
  rw [String.utf8EncodeChar.eq_1, hcode]

theorem ofNat_eq {n : Nat} (h : n = b.toNat) : UInt8.ofNat n = b := by
  rw [h, UInt8.ofNat_toNat]

/-- A lower bound that is tighter in one class of characters. -/
theorem toNat_of_ite_le {p : Prop} [Decidable p] {tight loose : UInt8} (hloose : loose ≤ tight)
    (h : (if p then tight else loose) ≤ b) :
    loose.toNat ≤ b.toNat ∧ (p → tight.toNat ≤ b.toNat) := by
  by_cases hp : p
  · rw [if_pos hp] at h
    exact ⟨UInt8.le_iff_toNat_le.1 (UInt8.le_trans hloose h), fun _ => UInt8.le_iff_toNat_le.1 h⟩
  · rw [if_neg hp] at h
    exact ⟨UInt8.le_iff_toNat_le.1 h, fun h' => absurd h' hp⟩

/-- An upper bound that is tighter in one class of characters. -/
theorem toNat_of_le_ite {p : Prop} [Decidable p] {tight loose : UInt8} (hloose : tight ≤ loose)
    (h : b ≤ if p then tight else loose) :
    b.toNat ≤ loose.toNat ∧ (p → b.toNat ≤ tight.toNat) := by
  by_cases hp : p
  · rw [if_pos hp] at h
    exact ⟨UInt8.le_iff_toNat_le.1 (UInt8.le_trans h hloose), fun _ => UInt8.le_iff_toNat_le.1 h⟩
  · rw [if_neg hp] at h
    exact ⟨UInt8.le_iff_toNat_le.1 h, fun h' => absurd h' hp⟩

theorem ReadsOne.one (hb : b < 0x80)
    (h : (decodeFrom (position + 1) none rest).map (Char.ofNat b.toNat :: ·) = .ok cs) :
    ReadsOne (b :: rest) cs := by
  have hlow : b.toNat < 128 := UInt8.lt_iff_toNat_lt.1 hb
  cases hrest : decodeFrom (position + 1) none rest with
  | error fault => rw [hrest] at h; cases h
  | ok tail =>
    rw [hrest] at h
    refine ⟨Char.ofNat b.toNat, rest, tail, position + 1, ?_, hrest, (Except.ok.inj h).symm⟩
    rw [utf8EncodeChar_ofNat (Or.inl (by omega)), if_pos (by omega), UInt8.ofNat_toNat]
    rfl

theorem ReadsOne.two {k : Nat} (hk : k < 30)
    (h : decodeFrom position
      (some ⟨[UInt8.ofNat (0xC2 + k)], 0, 0x80, 0xBF, 2 + k⟩) rest = .ok cs) :
    ReadsOne (UInt8.ofNat (0xC2 + k) :: rest) cs := by
  obtain ⟨b, rest, tail, rfl, above, below, hrest, rfl⟩ := decodeFrom_last_eq_ok h
  have hlow : 128 ≤ b.toNat := UInt8.le_iff_toNat_le.1 above
  have hhigh : b.toNat ≤ 191 := UInt8.le_iff_toNat_le.1 below
  generalize hv : (2 + k) * 64 + (b.toNat - 0x80) = v
  refine ⟨Char.ofNat v, rest, tail, position + 1, ?_, hrest, rfl⟩
  have hfirst : v / 64 % 32 + 192 = 0xC2 + k := by omega
  have hlast : UInt8.ofNat (v % 64 + 128) = b := ofNat_eq (by omega)
  rw [utf8EncodeChar_ofNat (Or.inl (by omega)), if_neg (by omega), if_pos (by omega), hfirst, hlast]
  rfl

theorem ReadsOne.three {k : Nat} (hk : k < 16)
    (h : decodeFrom position
      (some ⟨[UInt8.ofNat (0xE0 + k)], 1, if k = 0 then 0xA0 else 0x80,
        if k = 0xD then 0x9F else 0xBF, k⟩) rest = .ok cs) :
    ReadsOne (UInt8.ofNat (0xE0 + k) :: rest) cs := by
  obtain ⟨b₁, rest, rfl, above₁, below₁, h⟩ := decodeFrom_owing_eq_ok h
  obtain ⟨b₂, rest, tail, rfl, above₂, below₂, hrest, rfl⟩ := decodeFrom_last_eq_ok h
  have hlow₁ : 128 ≤ b₁.toNat ∧ (k = 0 → 160 ≤ b₁.toNat) := toNat_of_ite_le (by decide) above₁
  have hhigh₁ : b₁.toNat ≤ 191 ∧ (k = 0xD → b₁.toNat ≤ 159) := toNat_of_le_ite (by decide) below₁
  have hlow₂ : 128 ≤ b₂.toNat := UInt8.le_iff_toNat_le.1 above₂
  have hhigh₂ : b₂.toNat ≤ 191 := UInt8.le_iff_toNat_le.1 below₂
  generalize hv : (k * 64 + (b₁.toNat - 0x80)) * 64 + (b₂.toNat - 0x80) = v
  have hvalid : v.isValidChar := by
    change v < 0xD800 ∨ (0xDFFF < v ∧ v < 0x110000)
    omega
  refine ⟨Char.ofNat v, rest, tail, _, ?_, hrest, rfl⟩
  have hfirst : v / 4096 % 16 + 224 = 0xE0 + k := by omega
  have hsecond : UInt8.ofNat (v / 64 % 64 + 128) = b₁ := ofNat_eq (by omega)
  have hlast : UInt8.ofNat (v % 64 + 128) = b₂ := ofNat_eq (by omega)
  rw [utf8EncodeChar_ofNat hvalid, if_neg (by omega), if_neg (by omega), if_pos (by omega),
    hfirst, hsecond, hlast]
  rfl

theorem ReadsOne.four {k : Nat} (hk : k < 5)
    (h : decodeFrom position
      (some ⟨[UInt8.ofNat (0xF0 + k)], 2, if k = 0 then 0x90 else 0x80,
        if k = 4 then 0x8F else 0xBF, k⟩) rest = .ok cs) :
    ReadsOne (UInt8.ofNat (0xF0 + k) :: rest) cs := by
  obtain ⟨b₁, rest, rfl, above₁, below₁, h⟩ := decodeFrom_owing_eq_ok h
  obtain ⟨b₂, rest, rfl, above₂, below₂, h⟩ := decodeFrom_owing_eq_ok h
  obtain ⟨b₃, rest, tail, rfl, above₃, below₃, hrest, rfl⟩ := decodeFrom_last_eq_ok h
  have hlow₁ : 128 ≤ b₁.toNat ∧ (k = 0 → 144 ≤ b₁.toNat) := toNat_of_ite_le (by decide) above₁
  have hhigh₁ : b₁.toNat ≤ 191 ∧ (k = 4 → b₁.toNat ≤ 143) := toNat_of_le_ite (by decide) below₁
  have hlow₂ : 128 ≤ b₂.toNat := UInt8.le_iff_toNat_le.1 above₂
  have hhigh₂ : b₂.toNat ≤ 191 := UInt8.le_iff_toNat_le.1 below₂
  have hlow₃ : 128 ≤ b₃.toNat := UInt8.le_iff_toNat_le.1 above₃
  have hhigh₃ : b₃.toNat ≤ 191 := UInt8.le_iff_toNat_le.1 below₃
  generalize hv :
    ((k * 64 + (b₁.toNat - 0x80)) * 64 + (b₂.toNat - 0x80)) * 64 + (b₃.toNat - 0x80) = v
  have hvalid : v.isValidChar := by
    change v < 0xD800 ∨ (0xDFFF < v ∧ v < 0x110000)
    omega
  refine ⟨Char.ofNat v, rest, tail, _, ?_, hrest, rfl⟩
  have hfirst : v / 262144 % 8 + 240 = 0xF0 + k := by omega
  have hsecond : UInt8.ofNat (v / 4096 % 64 + 128) = b₁ := ofNat_eq (by omega)
  have hthird : UInt8.ofNat (v / 64 % 64 + 128) = b₂ := ofNat_eq (by omega)
  have hlast : UInt8.ofNat (v % 64 + 128) = b₃ := ofNat_eq (by omega)
  rw [utf8EncodeChar_ofNat hvalid, if_neg (by omega), if_neg (by omega), if_neg (by omega),
    hfirst, hsecond, hthird, hlast]
  rfl

theorem begin?_bounds : ∀ n < 256, (begin? (UInt8.ofNat n)).isSome → 0xC2 ≤ n ∧ n < 0xF5 := by
  decide +kernel

theorem readsOne_of_decodeFrom (h : decodeFrom position none (b :: rest) = .ok cs) :
    ReadsOne (b :: rest) cs := by
  by_cases hb : b < 0x80
  · rw [decodeFrom, if_pos hb] at h
    exact ReadsOne.one hb h
  · cases hbegin : begin? b with
    | none =>
      rw [decodeFrom, if_neg hb, hbegin] at h
      cases h
    | some p =>
      rw [decodeFrom_begin hb hbegin] at h
      have hbounds : 0xC2 ≤ b.toNat ∧ b.toNat < 0xF5 :=
        begin?_bounds b.toNat b.toNat_lt (by rw [UInt8.ofNat_toNat, hbegin]; rfl)
      -- the class of the octet: how many follow it
      obtain ⟨k, hk, hclass⟩ | ⟨k, hk, hclass⟩ | ⟨k, hk, hclass⟩ :
          (∃ k < 30, 0xC2 + k = b.toNat) ∨ (∃ k < 16, 0xE0 + k = b.toNat) ∨
            ∃ k < 5, 0xF0 + k = b.toNat := by
        rcases Nat.lt_or_ge b.toNat 0xE0 with h₁ | h₁
        · exact Or.inl ⟨b.toNat - 0xC2, by omega, by omega⟩
        · rcases Nat.lt_or_ge b.toNat 0xF0 with h₂ | h₂
          · exact Or.inr (Or.inl ⟨b.toNat - 0xE0, by omega, by omega⟩)
          · exact Or.inr (Or.inr ⟨b.toNat - 0xF0, by omega, by omega⟩)
      · obtain rfl := ofNat_eq hclass
        obtain rfl := Option.some.inj ((begin?_two k hk).symm.trans hbegin)
        exact ReadsOne.two hk h
      · obtain rfl := ofNat_eq hclass
        obtain rfl := Option.some.inj ((begin?_three k hk).symm.trans hbegin)
        exact ReadsOne.three hk h
      · obtain rfl := ofNat_eq hclass
        obtain rfl := Option.some.inj ((begin?_four k hk).symm.trans hbegin)
        exact ReadsOne.four hk h

theorem eq_encode_of_decodeFrom (h : decodeFrom position none octets = .ok cs) :
    octets = encode cs := by
  -- a character takes one octet or more, so what is left over is shorter
  induction hn : octets.length using Nat.strongRecOn generalizing octets cs position with
  | ind n ih =>
    cases octets with
    | nil =>
      obtain rfl := Except.ok.inj h
      rfl
    | cons b rest =>
      obtain ⟨c, left, tail, next, hoctets, hleft, rfl⟩ := readsOne_of_decodeFrom h
      have hpos : 0 < (String.utf8EncodeChar c).length := by
        rw [String.length_utf8EncodeChar]
        exact Char.utf8Size_pos c
      have hlen : left.length < n := by
        rw [← hn, hoctets, List.length_append]
        omega
      rw [hoctets, ih _ hlen hleft rfl]
      rfl

/-- Decoding and encoding are inverse to each other. -/
theorem decode_eq_ok_iff : decode octets = .ok cs ↔ octets = encode cs := by
  constructor
  · exact eq_encode_of_decodeFrom
  · rintro rfl
    exact decode_encode cs

end TypedModule.Utf8
