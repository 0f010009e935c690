import Longhand.Text.Utf8

/-!
# Reading what was written

The bytes of a text are read back as that text, so different texts have different bytes.  Each
character is read on its own: its first byte announces how many follow, and the bounds for the second
one let the bits of every character pass.
-/

namespace Longhand.Text

variable {index : Nat} {rest : List UInt8} {p : PartialChar} {n : Nat}

/-! ## Single bytes -/

theorem toNat_ofNat_of_lt (h : n < 256) : (UInt8.ofNat n).toNat = n := by
  simp
  omega

theorem toNat_continuation (n : Nat) : (continuation n).toNat = 0x80 + n % 64 := by
  apply toNat_ofNat_of_lt
  omega

theorem passes_bounds (hlow : p.low ≤ 0x80 + n % 64) (hhigh : 0x80 + n % 64 ≤ p.high) :
    (decide (p.low ≤ (continuation n).toNat) && decide ((continuation n).toNat ≤ p.high)) = true := by
  rw [toNat_continuation, Bool.and_eq_true, decide_eq_true_eq, decide_eq_true_eq]
  exact ⟨hlow, hhigh⟩

theorem take_continuation (p : PartialChar) (n : Nat) :
    p.take (continuation n).toNat
      = ⟨p.code * 64 + n % 64, p.taken + 1, p.due - 1, 0x80, 0xbf⟩ := by
  have hbits : (continuation n).toNat - 0x80 = n % 64 := by
    have hbyte := toNat_continuation n
    omega
  unfold PartialChar.take
  rw [hbits]

/-- The last byte of a character ends it. -/
theorem charsFrom_last (hdue : p.due = 1) (hlow : p.low ≤ 0x80 + n % 64)
    (hhigh : 0x80 + n % 64 ≤ p.high) :
    charsFrom index (some p) (continuation n :: rest)
      = (charsFrom (index + (p.taken + 1)) none rest).map
          (Char.ofNat (p.code * 64 + n % 64) :: ·) := by
  have hpass := passes_bounds hlow hhigh
  have hends : p.due - 1 = 0 := by omega
  rw [charsFrom, if_pos hpass, take_continuation, if_pos hends]
  cases charsFrom (index + (p.taken + 1)) none rest <;> rfl

/-- A byte in between adds its six bits. -/
theorem charsFrom_between (hdue : 1 < p.due) (hlow : p.low ≤ 0x80 + n % 64)
    (hhigh : 0x80 + n % 64 ≤ p.high) :
    charsFrom index (some p) (continuation n :: rest)
      = charsFrom index (some ⟨p.code * 64 + n % 64, p.taken + 1, p.due - 1, 0x80, 0xbf⟩) rest := by
  have hpass := passes_bounds hlow hhigh
  have hmore : p.due - 1 ≠ 0 := by omega
  rw [charsFrom, if_pos hpass, take_continuation, if_neg hmore]

theorem charsFrom_first {b : UInt8} (hb : 0x80 ≤ b.toNat)
    (hp : PartialChar.ofFirst? b.toNat = some p) :
    charsFrom index none (b :: rest) = charsFrom index (some p) rest := by
  rw [charsFrom]
  rw [if_neg (by omega), hp]

/-! ## Characters and texts -/

theorem toNat_valid (c : Char) : c.toNat < 0xd800 ∨ 0xdfff < c.toNat ∧ c.toNat < 0x110000 :=
  c.valid

/-- The first of three bytes, with bounds of their own for the byte behind the lowest first one and
behind the one that announces no more than half of its range. -/
theorem exists_ofFirst_three (hlow : 0x800 ≤ n) (hhigh : n < 0x10000)
    (hvalid : n < 0xd800 ∨ 0xdfff < n) :
    ∃ low high, PartialChar.ofFirst? (0xe0 + n / 4096) = some ⟨n / 4096, 1, 2, low, high⟩ ∧
      low ≤ 0x80 + n / 64 % 64 ∧ 0x80 + n / 64 % 64 ≤ high := by
  unfold PartialChar.ofFirst?
  rw [if_neg (by omega), if_neg (by omega)]
  by_cases hlowest : 0xe0 + n / 4096 = 0xe0
  · refine ⟨0xa0, 0xbf, ?_, by omega, by omega⟩
    rw [if_pos hlowest, show n / 4096 = 0 by omega]
  by_cases hhalf : 0xe0 + n / 4096 = 0xed
  · refine ⟨0x80, 0x9f, ?_, by omega, by omega⟩
    rw [if_neg hlowest, if_pos hhalf, show n / 4096 = 0xd by omega]
  · refine ⟨0x80, 0xbf, ?_, by omega, by omega⟩
    rw [if_neg hlowest, if_neg hhalf, if_pos (by omega)]
    simp

/-- The first of four bytes, with bounds of their own for the byte behind the lowest and the highest
first one. -/
theorem exists_ofFirst_four (hlow : 0x10000 ≤ n) (hhigh : n < 0x110000) :
    ∃ low high, PartialChar.ofFirst? (0xf0 + n / 262144) = some ⟨n / 262144, 1, 3, low, high⟩ ∧
      low ≤ 0x80 + n / 4096 % 64 ∧ 0x80 + n / 4096 % 64 ≤ high := by
  unfold PartialChar.ofFirst?
  rw [if_neg (by omega), if_neg (by omega), if_neg (by omega), if_neg (by omega), if_neg (by omega)]
  by_cases hlowest : 0xf0 + n / 262144 = 0xf0
  · refine ⟨0x90, 0xbf, ?_, by omega, by omega⟩
    rw [if_pos hlowest, show n / 262144 = 0 by omega]
  by_cases hhighest : 0xf0 + n / 262144 < 0xf4
  · refine ⟨0x80, 0xbf, ?_, by omega, by omega⟩
    rw [if_neg hlowest, if_pos hhighest]
    simp
  · refine ⟨0x80, 0x8f, ?_, by omega, by omega⟩
    rw [if_neg hlowest, if_neg hhighest, if_pos (by omega), show n / 262144 = 4 by omega]

/-- The bytes of a character are read as that character. -/
theorem charsFrom_charBytes (c : Char) (index : Nat) (rest : List UInt8) :
    charsFrom index none (charBytes c ++ rest)
      = (charsFrom (index + (charBytes c).length) none rest).map (c :: ·) := by
  have hvalid := toNat_valid c
  have hofNat : Char.ofNat c.toNat = c := Char.ofNat_toNat c
  unfold charBytes
  generalize c.toNat = n at hvalid hofNat
  dsimp only
  split
  · -- One byte.
    rename_i hn
    have hbyte := toNat_ofNat_of_lt (n := n) (by omega)
    rw [List.singleton_append, charsFrom, hbyte]
    simp only [hn, if_true, hofNat, List.length_singleton]
    cases charsFrom (index + 1) none rest <;> rfl
  · split
    · -- Two bytes.
      have hbyte := toNat_ofNat_of_lt (n := 0xc0 + n / 64) (by omega)
      have hfirst : PartialChar.ofFirst? (0xc0 + n / 64) = some ⟨n / 64, 1, 1, 0x80, 0xbf⟩ := by
        unfold PartialChar.ofFirst?
        rw [if_neg (by omega), if_pos (by omega)]
        simp
      simp only [List.cons_append, List.nil_append]
      rw [charsFrom_first (by omega) (hbyte.symm ▸ hfirst),
        charsFrom_last rfl (by simp) (by simp; omega),
        show n / 64 * 64 + n % 64 = n by omega, hofNat]
      rfl
    · split
      · -- Three bytes.
        have hbyte := toNat_ofNat_of_lt (n := 0xe0 + n / 4096) (by omega)
        obtain ⟨low, high, hfirst, hlow, hhigh⟩ :=
          exists_ofFirst_three (n := n) (by omega) (by omega) (by omega)
        simp only [List.cons_append, List.nil_append]
        rw [charsFrom_first (by omega) (hbyte.symm ▸ hfirst),
          charsFrom_between (by simp) hlow hhigh, charsFrom_last rfl (by simp) (by simp; omega),
          show (n / 4096 * 64 + n / 64 % 64) * 64 + n % 64 = n by omega, hofNat]
        rfl
      · -- Four bytes.
        have hbyte := toNat_ofNat_of_lt (n := 0xf0 + n / 262144) (by omega)
        obtain ⟨low, high, hfirst, hlow, hhigh⟩ := exists_ofFirst_four (n := n) (by omega) (by omega)
        simp only [List.cons_append, List.nil_append]
        rw [charsFrom_first (by omega) (hbyte.symm ▸ hfirst),
          charsFrom_between (by simp) hlow hhigh,
          charsFrom_between (by simp) (by simp) (by simp; omega),
          charsFrom_last rfl (by simp) (by simp; omega),
          show ((n / 262144 * 64 + n / 4096 % 64) * 64 + n / 64 % 64) * 64 + n % 64 = n by omega,
          hofNat]
        rfl

theorem charsFrom_flatMap (cs : List Char) (index : Nat) :
    charsFrom index none (cs.flatMap charBytes) = .ok cs := by
  induction cs generalizing index with
  | nil => rfl
  | cons c cs ih =>
      rw [List.flatMap_cons, charsFrom_charBytes, ih]
      rfl

/-- The bytes of a text are read as that text. -/
theorem ofBytes_bytes (text : String) : ofBytes (bytes text) = .ok text := by
  rw [ofBytes, bytes, charsFrom_flatMap]
  simp [Except.map]

theorem bytes_injective {a b : String} (h : bytes a = bytes b) : a = b := by
  have hread := ofBytes_bytes a
  rw [h, ofBytes_bytes] at hread
  cases hread
  rfl

end Longhand.Text
