import Aosp.Libutils.Unicode

namespace Aosp.Libutils

open BitVec List
open Layout (Byte)

variable (c : Char32)

theorem utf32CodepointUtf8Length_eq :
    utf32CodepointUtf8Length c = if c.toNat < 0x80 then 1
    else if c.toNat < 0x800 then 2 else if c.toNat < 0x10000
    then if c.toNat < 0xD800 ∨ 0xDFFF < c.toNat then 3 else 0
    else if c.toNat ≤ 0x10FFFF then 4 else 0 :=
  rfl

theorem utf32CodepointUtf8Length_le : utf32CodepointUtf8Length c ≤ 4 := by
  rw [utf32CodepointUtf8Length_eq]
  split
  · decide
  · split
    · decide
    · split
      · split <;> decide
      · split <;> decide

theorem length_utf32CodepointToUtf8 :
    (utf32CodepointToUtf8 c (utf32CodepointUtf8Length c)).length = utf32CodepointUtf8Length c := by
  rw [utf32CodepointUtf8Length_eq]
  split
  · rfl
  · split
    · rfl
    · split
      · split <;> rfl
      · split <;> rfl

theorem utf8CodepointLen_eq :
    ∀ ch : Byte, utf8CodepointLen ch =
    if ch.toNat < 0xC0 then 1 else if ch.toNat < 0xE0 then 2 else if ch.toNat < 0xF0 then 3
    else 4 := by
  decide

theorem utf8CodepointLen_pos (ch : Byte) : 1 ≤ utf8CodepointLen ch := Nat.le_add_left 1 _

theorem tailByte_eq : tailByte c = BitVec.ofNat 8 (0x80 + c.toNat % 64) := by
  have low : ∀ b : Byte, (b ||| 0x80) &&& 0xBF = BitVec.ofNat 8 (0x80 + b.toNat % 64) := by decide
  have cut : tailByte c = (c.setWidth 8 ||| 0x80) &&& 0xBF := by
    unfold tailByte
    rw [setWidth_and, setWidth_or]
    rfl
  have same : c.toNat % 2 ^ 8 % 64 = c.toNat % 64 := by omega
  rw [cut, low, toNat_setWidth, same]

/-- The bits of the mark are above those of the character. -/
theorem firstByte_eq {bytes room : Nat} {c : Char32} (small : c.toNat < room)
    (mark : (bytes, room) ∈ [(1, 0x80), (2, 0x20), (3, 0x10), (4, 0x08)]) :
    firstByte bytes c = BitVec.ofNat 8 ((kFirstByteMark bytes).toNat + c.toNat) := by
  have cut : firstByte bytes c = c.setWidth 8 ||| (kFirstByteMark bytes).setWidth 8 := setWidth_or
  have value : (c.setWidth 8).toNat = c.toNat := by
    rw [toNat_setWidth]
    simp only [mem_cons, Prod.mk.injEq, not_mem_nil, or_false] at mark
    omega
  rw [cut, ← value]
  rw [← value] at small
  generalize (c.setWidth 8 : Byte) = b at small
  simp only [mem_cons, not_mem_nil, or_false] at mark
  rcases mark with ⟨rfl, rfl⟩ | ⟨rfl, rfl⟩ | ⟨rfl, rfl⟩ | ⟨rfl, rfl⟩
  · decide +revert
  · decide +revert
  · decide +revert
  · decide +revert

theorem toNat_shiftRight_six : (c >>> 6).toNat = c.toNat / 64 := by
  rw [toNat_ushiftRight, Nat.shiftRight_eq_div_pow]

/-- The code points that fit the four forms. -/
theorem utf32CodepointToUtf8_eq :
    utf32CodepointToUtf8 c (utf32CodepointUtf8Length c) =
    (if c.toNat < 0x80 then [c.toNat] else if c.toNat < 0x800
    then [0xC0 + c.toNat / 64, 0x80 + c.toNat % 64]
    else if c.toNat < 0x10000 then if c.toNat < 0xD800 ∨ 0xDFFF < c.toNat then
        [0xE0 + c.toNat / 4096, 0x80 + c.toNat / 64 % 64, 0x80 + c.toNat % 64] else []
        else if c.toNat ≤ 0x10FFFF then
      [0xF0 + c.toNat / 262144, 0x80 + c.toNat / 4096 % 64, 0x80 + c.toNat / 64 % 64,
      0x80 + c.toNat % 64]
    else []).map (BitVec.ofNat 8) := by
  have once := toNat_shiftRight_six c
  have twice := toNat_shiftRight_six (c >>> 6)
  have thrice := toNat_shiftRight_six (c >>> 6 >>> 6)
  rw [once, Nat.div_div_eq_div_mul] at twice
  rw [twice, Nat.div_div_eq_div_mul] at thrice
  rw [utf32CodepointUtf8Length_eq]
  split
  · rename_i small
    rw [utf32CodepointToUtf8, firstByte_eq small (by simp)]
    simp [kFirstByteMark]
  · split
    · have head : (c >>> 6).toNat < 0x20 := by omega
      rw [utf32CodepointToUtf8, firstByte_eq head (by simp), tailByte_eq, once]
      rfl
    · split
      · split
        · have head : (c >>> 6 >>> 6).toNat < 0x10 := by omega
          rw [utf32CodepointToUtf8, firstByte_eq head (by simp), tailByte_eq, tailByte_eq,
            once, twice]
          rfl
        · rfl
      · split
        · have head : (c >>> 6 >>> 6 >>> 6).toNat < 0x08 := by omega
          rw [utf32CodepointToUtf8, firstByte_eq head (by simp), tailByte_eq, tailByte_eq,
            tailByte_eq, once, twice, thrice]
          rfl
        · rfl

theorem and_surrogateMask (unit : Char16) : (unit &&& 0xFC00).toNat = unit.toNat / 1024 * 1024 := by
  have high : (unit.toNat &&& 0xFC00) / 2 ^ 10 = unit.toNat / 1024 := by
    rw [Nat.and_div_two_pow]
    change unit.toNat / 2 ^ 10 &&& 2 ^ 6 - 1 = _
    rw [Nat.and_two_pow_sub_one_eq_mod]
    omega
  have low : (unit.toNat &&& 0xFC00) % 2 ^ 10 = 0 := by
    rw [Nat.and_mod_two_pow]
    exact Nat.and_zero _
  change unit.toNat &&& 0xFC00 = _
  omega

theorem isHighSurrogate_iff (unit : Char16) :
    isHighSurrogate unit = true ↔ 0xD800 ≤ unit.toNat ∧ unit.toNat < 0xDC00 := by
  rw [isHighSurrogate, beq_iff_eq, ← toNat_inj, and_surrogateMask]
  change unit.toNat / 1024 * 1024 = 0xD800 ↔ _
  omega

theorem isLowSurrogate_iff (unit : Char16) :
    isLowSurrogate unit = true ↔ 0xDC00 ≤ unit.toNat ∧ unit.toNat < 0xE000 := by
  rw [isLowSurrogate, beq_iff_eq, ← toNat_inj, and_surrogateMask]
  change unit.toNat / 1024 * 1024 = 0xDC00 ↔ _
  omega

theorem toNat_fromSurrogates {high low : Char16} (isHigh : isHighSurrogate high = true)
    (isLow : isLowSurrogate low = true) :
    (fromSurrogates high low).toNat =
      (high.toNat - 0xD800) * 1024 + (low.toNat - 0xDC00) + 0x10000 := by
  rw [isHighSurrogate_iff] at isHigh
  rw [isLowSurrogate_iff] at isLow
  have highBits : (high.setWidth 32 - 0xD800#32).toNat = high.toNat - 0xD800 := by
    rw [toNat_sub, toNat_setWidth]
    change (2 ^ 32 - 0xD800 + high.toNat % 2 ^ 32) % 2 ^ 32 = _
    omega
  have lowBits : (low.setWidth 32 - 0xDC00#32).toNat = low.toNat - 0xDC00 := by
    rw [toNat_sub, toNat_setWidth]
    change (2 ^ 32 - 0xDC00 + low.toNat % 2 ^ 32) % 2 ^ 32 = _
    omega
  have joined : (((high.setWidth 32 - 0xD800#32) <<< 10) ||| (low.setWidth 32 - 0xDC00#32)).toNat =
      (high.toNat - 0xD800) * 1024 + (low.toNat - 0xDC00) := by
    have below : low.toNat - 0xDC00 < 2 ^ 10 := by omega
    rw [toNat_or, toNat_shiftLeft, highBits, lowBits, Nat.shiftLeft_eq,
      Nat.mod_eq_of_lt (by omega), ← Nat.shiftLeft_eq, ← Nat.shiftLeft_add_eq_or_of_lt below]
  unfold fromSurrogates
  rw [toNat_add]
  change ((((high.setWidth 32 - 0xD800#32) <<< 10) ||| (low.setWidth 32 - 0xDC00#32)).toNat +
      0x10000) % 2 ^ 32 = _
  omega

end Aosp.Libutils
