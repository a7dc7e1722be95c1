import Aosp.Libutils.UnicodeLengths

/- The conversions between UTF-8, UTF-16 and UTF-32 are inverse to each other. A Unicode scalar
value is a `Char`, and well-formed UTF-8 is what `String.utf8EncodeChar` makes of some of them. -/
namespace Aosp.Libutils

open List
open Except (ok)
open BitVec (toNat_and toNat_setWidth ofNat eq_of_toNat_eq toNat_add)
open Layout (Byte)

section Scalars

/-- The values that are characters. -/
def Scalar (c : Char32) : Prop := c.toNat.isValidChar

theorem toNat_shiftAndMask {codePoint : Char32} (small : codePoint.toNat < 2 ^ 26) (byte : Byte) :
    (utf8ShiftAndMask codePoint byte).toNat = codePoint.toNat * 64 + byte.toNat % 64 := by
  have low : (0x3F &&& byte.setWidth 32 : Char32).toNat = byte.toNat % 64 := by
    rw [BitVec.and_comm, toNat_and, toNat_setWidth]
    change byte.toNat % 2 ^ 32 &&& 2 ^ 6 - 1 = _
    rw [Nat.and_two_pow_sub_one_eq_mod]
    omega
  have below : byte.toNat % 64 < 2 ^ 6 := Nat.mod_lt _ (by decide)
  have shifted : (codePoint <<< 6).toNat = codePoint.toNat <<< 6 := by
    exact Nat.mod_eq_of_lt (by omega)
  rw [utf8ShiftAndMask, BitVec.toNat_or, shifted, low, ← Nat.shiftLeft_add_eq_or_of_lt below,
    Nat.shiftLeft_eq]

theorem toNat_and_ones (byte : Byte) (mask : Char32) {k : Nat} (ones : mask.toNat = 2 ^ k - 1) :
    (byte.setWidth 32 &&& mask).toNat = byte.toNat % 2 ^ k := by
  rw [toNat_and, ones, Nat.and_two_pow_sub_one_eq_mod, toNat_setWidth]
  congr 1
  exact Nat.mod_eq_of_lt (lt_trans byte.isLt (by decide))

theorem toNat_ofNat_byte {value : Nat} (small : value < 256) : (ofNat 8 value).toNat = value :=
  Nat.mod_eq_of_lt small

/-- The four forms of a scalar value, by the bytes of its encoding. -/
inductive Form (c : Char32) : Prop where
  | one (small : c.toNat < 0x80) (bytes : encode c = [ofNat 8 c.toNat])
  | two (lower : 0x80 ≤ c.toNat) (upper : c.toNat < 0x800)
      (bytes : encode c = [ofNat 8 (0xC0 + c.toNat / 64), ofNat 8 (0x80 + c.toNat % 64)])
  | three (lower : 0x800 ≤ c.toNat) (upper : c.toNat < 0x10000)
      (bytes : encode c = [ofNat 8 (0xE0 + c.toNat / 4096), ofNat 8 (0x80 + c.toNat / 64 % 64),
        ofNat 8 (0x80 + c.toNat % 64)])
  | four (lower : 0x10000 ≤ c.toNat) (upper : c.toNat ≤ 0x10FFFF)
      (bytes : encode c = [ofNat 8 (0xF0 + c.toNat / 262144), ofNat 8 (0x80 + c.toNat / 4096 % 64),
        ofNat 8 (0x80 + c.toNat / 64 % 64), ofNat 8 (0x80 + c.toNat % 64)])

variable {c : Char32}

theorem Scalar.form (scalar : Scalar c) : Form c := by
  have bytes := utf32CodepointToUtf8_eq c
  unfold Scalar Nat.isValidChar at scalar
  by_cases one : c.toNat < 0x80
  · rw [if_pos one] at bytes
    exact .one one bytes
  · rw [if_neg one] at bytes
    by_cases two : c.toNat < 0x800
    · rw [if_pos two] at bytes
      exact .two (Nat.le_of_not_lt one) two bytes
    · rw [if_neg two] at bytes
      by_cases three : c.toNat < 0x10000
      · rw [if_pos three, if_pos (by omega)] at bytes
        exact .three (Nat.le_of_not_lt two) three bytes
      · rw [if_neg three, if_pos (by omega)] at bytes
        exact .four (Nat.le_of_not_lt three) (by omega) bytes

/-- The bytes of a scalar value, by what they are as numbers. -/
theorem Scalar.values (scalar : Scalar c) :
    (c.toNat < 0x80 ∧ ∃ a : Byte, encode c = [a] ∧ a.toNat = c.toNat) ∨
    (0x80 ≤ c.toNat ∧ c.toNat < 0x800 ∧ ∃ a b : Byte, encode c = [a, b] ∧
      a.toNat = 0xC0 + c.toNat / 64 ∧ b.toNat = 0x80 + c.toNat % 64) ∨
    (0x800 ≤ c.toNat ∧ c.toNat < 0x10000 ∧ ∃ a b d : Byte, encode c = [a, b, d] ∧
      a.toNat = 0xE0 + c.toNat / 4096 ∧ b.toNat = 0x80 + c.toNat / 64 % 64 ∧
      d.toNat = 0x80 + c.toNat % 64) ∨
    0x10000 ≤ c.toNat ∧ c.toNat ≤ 0x10FFFF ∧ ∃ a b d e : Byte, encode c = [a, b, d, e] ∧
      a.toNat = 0xF0 + c.toNat / 262144 ∧ b.toNat = 0x80 + c.toNat / 4096 % 64 ∧
      d.toNat = 0x80 + c.toNat / 64 % 64 ∧ e.toNat = 0x80 + c.toNat % 64 := by
  cases scalar.form with
  | one small bytes => exact .inl ⟨small, _, bytes, toNat_ofNat_byte (by omega)⟩
  | two lower upper bytes =>
    exact .inr (.inl ⟨lower, upper, _, _, bytes, toNat_ofNat_byte (by omega),
      toNat_ofNat_byte (by omega)⟩)
  | three lower upper bytes =>
    exact .inr (.inr (.inl ⟨lower, upper, _, _, _, bytes, toNat_ofNat_byte (by omega),
      toNat_ofNat_byte (by omega), toNat_ofNat_byte (by omega)⟩))
  | four lower upper bytes =>
    exact .inr (.inr (.inr ⟨lower, upper, _, _, _, _, bytes, toNat_ofNat_byte (by omega),
      toNat_ofNat_byte (by omega), toNat_ofNat_byte (by omega), toNat_ofNat_byte (by omega)⟩))

/-- A code point is read back from the front of its bytes. -/
structure ReadsBack (c : Char32) (ch : Byte) (tail : List Byte) : Prop where
  bytes : encode c = ch :: tail
  length : utf8CodepointLen ch = tail.length + 1
  codepoint : ∀ rest, utf8ToUtf32Codepoint (ch :: tail ++ rest) (tail.length + 1) = .ok c

theorem Scalar.readsBack (scalar : Scalar c) : ∃ ch tail, ReadsBack c ch tail := by
  rcases scalar.values with ⟨small, a, bytes, value⟩ | ⟨lower, upper, a, b, bytes, first, second⟩ |
    ⟨lower, upper, a, b, d, bytes, first, second, third⟩ |
    ⟨lower, upper, a, b, d, e, bytes, first, second, third, fourth⟩
  · refine ⟨_, _, bytes, ?_, ?_⟩
    · rw [utf8CodepointLen_eq, if_pos (by omega)]
      rfl
    · intro rest
      refine congrArg ok (eq_of_toNat_eq ?_)
      rw [toNat_setWidth]
      omega
  · refine ⟨_, _, bytes, ?_, ?_⟩
    · rw [utf8CodepointLen_eq, if_neg (by omega), if_pos (by omega)]
      rfl
    · intro rest
      have lead := toNat_and_ones a 0x1f (k := 5) rfl
      refine congrArg ok (eq_of_toNat_eq ?_)
      rw [toNat_shiftAndMask (by omega)]
      omega
  · refine ⟨_, _, bytes, ?_, ?_⟩
    · rw [utf8CodepointLen_eq, if_neg (by omega), if_neg (by omega), if_pos (by omega)]
      rfl
    · intro rest
      have lead := toNat_and_ones a 0x0f (k := 4) rfl
      have next : (utf8ShiftAndMask (a.setWidth 32 &&& 0x0f) b).toNat = _ :=
        toNat_shiftAndMask (by omega) _
      refine congrArg ok (eq_of_toNat_eq ?_)
      rw [toNat_shiftAndMask (by omega)]
      omega
  · refine ⟨_, _, bytes, ?_, ?_⟩
    · rw [utf8CodepointLen_eq, if_neg (by omega), if_neg (by omega), if_neg (by omega)]
      rfl
    · intro rest
      have lead := toNat_and_ones a 0x07 (k := 3) rfl
      have next : (utf8ShiftAndMask (a.setWidth 32 &&& 0x07) b).toNat = _ :=
        toNat_shiftAndMask (by omega) _
      have last : (utf8ShiftAndMask (utf8ShiftAndMask (a.setWidth 32 &&& 0x07) b) d).toNat = _ :=
        toNat_shiftAndMask (by omega) _
      refine congrArg ok (eq_of_toNat_eq ?_)
      rw [toNat_shiftAndMask (by omega)]
      omega

variable {cs : List Char32} {fuel : Nat}

theorem utf8Codepoints_encode (scalars : ∀ c ∈ cs, Scalar c)
    (enough : (cs.flatMap encode).length ≤ fuel) :
    utf8Codepoints fuel (cs.flatMap encode) = cs := by
  induction cs generalizing fuel with
  | nil =>
    cases fuel with
    | zero => rfl
    | succ fuel => rfl
  | cons c cs ih =>
    obtain ⟨ch, tail, back⟩ := (scalars c mem_cons_self).readsBack
    rw [flatMap_cons, back.bytes] at enough ⊢
    rw [length_append, length_cons] at enough
    cases fuel with
    | zero => omega
    | succ fuel =>
      change utf8Codepoints (fuel + 1) (ch :: (tail ++ cs.flatMap encode)) = _
      rw [utf8Codepoints, back.length, ← cons_append, back.codepoint, cons_append, drop_succ_cons,
        drop_left]
      exact congrArg _ (ih (fun c member => scalars c (mem_cons_of_mem _ member)) (by omega))

theorem utf8ToUtf16LengthLoop_encode (overreadIsFatal : Bool)
    (scalars : ∀ c ∈ cs, Scalar c) (enough : (cs.flatMap encode).length ≤ fuel) (start : Nat) :
    utf8ToUtf16LengthLoop overreadIsFatal fuel (cs.flatMap encode) start =
      .ok (start + (cs.flatMap utf16Units).length : Nat) := by
  induction cs generalizing fuel start with
  | nil =>
    cases fuel with
    | zero => rfl
    | succ fuel => rfl
  | cons c cs ih =>
    obtain ⟨ch, tail, back⟩ := (scalars c mem_cons_self).readsBack
    rw [flatMap_cons, back.bytes] at enough ⊢
    rw [length_append, length_cons] at enough
    cases fuel with
    | zero => omega
    | succ fuel =>
      have inside : ¬ (ch :: (tail ++ cs.flatMap encode)).length < tail.length + 1 := by
        rw [length_cons, length_append]
        omega
      change utf8ToUtf16LengthLoop overreadIsFatal (fuel + 1)
          (ch :: (tail ++ cs.flatMap encode)) start = _
      rw [utf8ToUtf16LengthLoop, back.length, if_neg inside]
      change (utf8ToUtf32Codepoint (ch :: tail ++ cs.flatMap encode) (tail.length + 1)).bind _ = _
      rw [back.codepoint]
      change utf8ToUtf16LengthLoop overreadIsFatal fuel
        ((ch :: (tail ++ cs.flatMap encode)).drop (tail.length + 1)) _ = _
      rw [drop_succ_cons, drop_left,
        ih (fun c member => scalars c (mem_cons_of_mem _ member)) (by omega), flatMap_cons,
        length_append, length_utf16Units]
      congr 2
      omega

variable {unit : Char16}

theorem codepoints_cons_single (single : isHighSurrogate unit = false) (rest : List Char16) :
    codepoints (unit :: rest) = unit.setWidth 32 :: codepoints rest := by
  cases rest with
  | nil => rfl
  | cons second rest =>
    rw [codepoints, single]
    exact if_neg Bool.false_ne_true

variable {high low : Char16}

theorem codepoints_cons_pair (isHigh : isHighSurrogate high = true)
    (isLow : isLowSurrogate low = true) (rest : List Char16) :
    codepoints (high :: low :: rest) = fromSurrogates high low :: codepoints rest := by
  rw [codepoints, isHigh, isLow]
  exact if_pos rfl

theorem le_ffff (c : Char32) : c ≤ 0xFFFF ↔ c.toNat ≤ 0xFFFF := Iff.rfl

variable {c : Char32}

theorem surrogates_of (lower : 0x10000 ≤ c.toNat) (upper : c.toNat ≤ 0x10FFFF) :
    ∃ high low, utf16Units c = [high, low] ∧ isHighSurrogate high = true ∧
      isLowSurrogate low = true ∧
      fromSurrogates high low = c := by
  have offset : (c - 0x10000).toNat = c.toNat - 0x10000 := by
    change (2 ^ 32 - 0x10000 + c.toNat) % 2 ^ 32 = _
    omega
  have upperBits : ((c - 0x10000) >>> 10).toNat = (c.toNat - 0x10000) / 1024 := by
    rw [BitVec.toNat_ushiftRight, offset, Nat.shiftRight_eq_div_pow]
  have lowerBits : ((c - 0x10000) &&& 0x3FF).toNat = (c.toNat - 0x10000) % 1024 := by
    rw [toNat_and, offset]
    exact Nat.and_two_pow_sub_one_eq_mod _ 10
  have high : ((((c - 0x10000) >>> 10) + 0xD800).setWidth 16 : Char16).toNat =
      (c.toNat - 0x10000) / 1024 + 0xD800 := by
    rw [toNat_setWidth, toNat_add, upperBits]
    change ((c.toNat - 0x10000) / 1024 + 0xD800) % 2 ^ 32 % 2 ^ 16 = _
    omega
  have low : ((((c - 0x10000) &&& 0x3FF) + 0xDC00).setWidth 16 : Char16).toNat =
      (c.toNat - 0x10000) % 1024 + 0xDC00 := by
    rw [toNat_setWidth, toNat_add, lowerBits]
    change ((c.toNat - 0x10000) % 1024 + 0xDC00) % 2 ^ 32 % 2 ^ 16 = _
    omega
  have units : utf16Units c = _ := if_neg (by rw [le_ffff]; omega)
  generalize (((c - 0x10000) >>> 10) + 0xD800).setWidth 16 = first at high units
  generalize (((c - 0x10000) &&& 0x3FF) + 0xDC00).setWidth 16 = second at low units
  have isHigh : isHighSurrogate first = true := by
    rw [isHighSurrogate_iff]
    omega
  have isLow : isLowSurrogate second = true := by
    rw [isLowSurrogate_iff]
    omega
  refine ⟨first, second, units, isHigh, isLow, eq_of_toNat_eq ?_⟩
  rw [toNat_fromSurrogates isHigh isLow]
  omega

theorem Scalar.codepoints (scalar : Scalar c) (rest : List Char16) :
    codepoints (utf16Units c ++ rest) = c :: codepoints rest := by
  unfold Scalar Nat.isValidChar at scalar
  by_cases small : c.toNat ≤ 0xFFFF
  · have units : utf16Units c = [c.setWidth 16] := if_pos small
    have value : (c.setWidth 16 : Char16).toNat = c.toNat := by
      rw [toNat_setWidth]
      omega
    have single : isHighSurrogate (c.setWidth 16) = false := by
      rw [← Bool.not_eq_true, isHighSurrogate_iff]
      omega
    rw [units, singleton_append, codepoints_cons_single single]
    congr 1
    apply eq_of_toNat_eq
    rw [toNat_setWidth]
    omega
  · obtain ⟨high, low, units, isHigh, isLow, back⟩ := surrogates_of (c := c) (by omega) (by omega)
    rw [units]
    change Libutils.codepoints (high :: low :: rest) = _
    rw [codepoints_cons_pair isHigh isLow, back]

theorem codepoints_utf16Units (scalars : ∀ c ∈ cs, Scalar c) :
    codepoints (cs.flatMap utf16Units) = cs := by
  induction cs with
  | nil => rfl
  | cons c cs ih =>
    rw [flatMap_cons, (scalars c mem_cons_self).codepoints, ih fun c member =>
      scalars c (mem_cons_of_mem _ member)]

/-- Every surrogate has its other half. -/
def wellPaired : List Char16 → Bool
  | [] => true
  | [unit] => !isHighSurrogate unit && !isLowSurrogate unit
  | unit :: second :: rest =>
    if isHighSurrogate unit then isLowSurrogate second && wellPaired rest
    else !isLowSurrogate unit && wellPaired (second :: rest)

theorem scalar_unit (notHigh : isHighSurrogate unit = false)
    (notLow : isLowSurrogate unit = false) :
    Scalar (unit.setWidth 32) ∧ utf16Units (unit.setWidth 32) = [unit] := by
  have value : (unit.setWidth 32 : Char32).toNat = unit.toNat := by
    rw [toNat_setWidth]
    omega
  rw [← Bool.not_eq_true, isHighSurrogate_iff] at notHigh
  rw [← Bool.not_eq_true, isLowSurrogate_iff] at notLow
  constructor
  · unfold Scalar Nat.isValidChar
    omega
  · have units : utf16Units (unit.setWidth 32) = [(unit.setWidth 32 : Char32).setWidth 16] :=
      if_pos (by rw [le_ffff]; omega)
    rw [units]
    congr 1
    apply eq_of_toNat_eq
    rw [toNat_setWidth]
    omega

theorem scalar_pair (isHigh : isHighSurrogate high = true) (isLow : isLowSurrogate low = true) :
    Scalar (fromSurrogates high low) ∧ utf16Units (fromSurrogates high low) = [high, low] := by
  have value := toNat_fromSurrogates isHigh isLow
  have highRange := (isHighSurrogate_iff high).mp isHigh
  have lowRange := (isLowSurrogate_iff low).mp isLow
  constructor
  · unfold Scalar Nat.isValidChar
    omega
  · obtain ⟨high', low', units, isHigh', isLow', back⟩ :=
      surrogates_of (c := fromSurrogates high low) (by omega) (by omega)
    have value' := toNat_fromSurrogates isHigh' isLow'
    rw [back] at value'
    have highRange' := (isHighSurrogate_iff high').mp isHigh'
    have lowRange' := (isLowSurrogate_iff low').mp isLow'
    have sameHigh : high' = high := eq_of_toNat_eq (by omega)
    have sameLow : low' = low := eq_of_toNat_eq (by omega)
    rw [units, sameHigh, sameLow]

theorem utf16Units_codepoints {s : List Char16} (paired : wellPaired s = true) :
    (∀ c ∈ codepoints s, Scalar c) ∧ (codepoints s).flatMap utf16Units = s := by
  fun_induction wellPaired s with
  | case1 => exact ⟨by simp [codepoints], rfl⟩
  | case2 unit =>
    rw [Bool.and_eq_true, Bool.not_eq_true', Bool.not_eq_true'] at paired
    obtain ⟨scalar, units⟩ := scalar_unit paired.1 paired.2
    rw [codepoints_cons_single paired.1, flatMap_cons, units]
    exact ⟨forall_mem_cons.mpr ⟨scalar, by simp [codepoints]⟩, rfl⟩
  | case3 high low rest isHigh ih =>
    rw [Bool.and_eq_true] at paired
    obtain ⟨scalar, units⟩ := scalar_pair isHigh paired.1
    obtain ⟨scalars, same⟩ := ih paired.2
    rw [codepoints_cons_pair isHigh paired.1, flatMap_cons, units, same]
    exact ⟨forall_mem_cons.mpr ⟨scalar, scalars⟩, rfl⟩
  | case4 unit second rest notHigh ih =>
    rw [Bool.and_eq_true, Bool.not_eq_true'] at paired
    rw [Bool.not_eq_true] at notHigh
    obtain ⟨scalar, units⟩ := scalar_unit notHigh paired.1
    obtain ⟨scalars, same⟩ := ih paired.2
    rw [codepoints_cons_single notHigh, flatMap_cons, units, same]
    exact ⟨forall_mem_cons.mpr ⟨scalar, scalars⟩, rfl⟩

/-- Going through a string with `utf32_from_utf8_at`: the values, and the index where it ended. -/
def utf32Iterate (charIsSigned : Bool) (src : List Byte) : Nat → Nat → Except Stop (List Int × Nat)
  | 0, index => .ok ([], index)
  | fuel + 1, index => do
      match ← utf32FromUtf8At charIsSigned src index with
      | (value, some next) =>
        let (values, last) ← utf32Iterate charIsSigned src fuel next
        .ok (value :: values, last)
      | (_, none) => .ok ([], index)

variable (charIsSigned : Bool)

/-- The first byte as `utf32_at_internal` sees it. -/
def leadOf (byte : Byte) : Char32 :=
  if charIsSigned then byte.signExtend 32 else byte.setWidth 32

theorem leadOf_mod :
    ∀ (charIsSigned : Bool) (byte : Byte), (leadOf charIsSigned byte).toNat % 256 = byte.toNat := by
  decide

theorem leadOf_bit : ∀ (charIsSigned : Bool) (byte : Byte) (k : Fin 8),
    leadOf charIsSigned byte &&& (1#32 <<< k.val) = 0 ↔ byte.toNat / 2 ^ k.val % 2 = 0 := by
  decide +kernel

theorem leadOf_ascii : ∀ (charIsSigned : Bool) (byte : Byte), byte.toNat < 0x80 →
    leadOf charIsSigned byte = byte.setWidth 32 := by
  decide

variable {first mask toIgnoreMask utf32 : Char32} {fuel numToRead : Nat}

theorem utf32AtLoop_more (set : first &&& mask ≠ 0) (byte : Byte) (cur : List Byte) :
    utf32AtLoop first (fuel + 1) mask toIgnoreMask numToRead utf32 (byte :: cur) =
      utf32AtLoop first fuel (mask >>> 1) (toIgnoreMask ||| mask) (numToRead + 1)
        ((utf32 <<< 6) + (byte.setWidth 32 &&& 0x3F)) cur := by
  rw [utf32AtLoop]
  simp only [set, ne_eq, not_false_eq_true, decide_true]

theorem utf32AtLoop_done (clear : first &&& mask = 0) (cur : List Byte) :
    utf32AtLoop first fuel mask toIgnoreMask numToRead utf32 cur =
      .ok (utf32 &&& ~~~((toIgnoreMask ||| mask) <<< (6 * (numToRead - 1))), numToRead) := by
  unfold utf32AtLoop
  simp [clear]

theorem toNat_shift_add (value : Char32) (byte : Byte) :
    ((value <<< 6) + (byte.setWidth 32 &&& 0x3F)).toNat =
      (value.toNat * 64 + byte.toNat % 64) % 2 ^ 32 := by
  rw [toNat_add, toNat_and_ones byte 0x3F (k := 6) rfl, BitVec.toNat_shiftLeft]
  omega

theorem toNat_and_mask (value mask : Char32) {k : Nat} (ones : mask.toNat = 2 ^ k - 1) :
    (value &&& mask).toNat = value.toNat % 2 ^ k := by
  rw [toNat_and, ones, Nat.and_two_pow_sub_one_eq_mod]

variable {c : Char32}

/-- The two highest bits of the first of several bytes. -/
theorem leadOf_several {a : Byte} (several : 0xC0 ≤ a.toNat) :
    leadOf charIsSigned a &&& 0x80 ≠ 0 ∧ leadOf charIsSigned a &&& 0x40 ≠ 0 := by
  exact ⟨mt (leadOf_bit charIsSigned a 7).mp (by change ¬ a.toNat / 128 % 2 = 0; omega),
    mt (leadOf_bit charIsSigned a 6).mp (by change ¬ a.toNat / 64 % 2 = 0; omega)⟩

/-- A scalar value is read back from the front of its bytes, whether `char` is signed or not. -/
theorem Scalar.utf32AtInternal (scalar : Scalar c) (rest : List Byte) :
    utf32AtInternal charIsSigned (encode c ++ rest) = .ok (c, (encode c).length) := by
  have lead (byte : Byte) (tail : List Byte) :
      Libutils.utf32AtInternal charIsSigned (byte :: tail) =
      if leadOf charIsSigned byte &&& 0x80 = 0 then .ok (leadOf charIsSigned byte, 1)
      else utf32AtLoop (leadOf charIsSigned byte) 7 0x40 0xFFFFFF80 1 (leadOf charIsSigned byte)
      tail := rfl
  rcases scalar.values with ⟨small, a, bytes, first⟩ | ⟨lower, upper, a, b, bytes, first, second⟩ |
    ⟨lower, upper, a, b, d, bytes, first, second, third⟩ |
    ⟨lower, upper, a, b, d, e, bytes, first, second, third, fourth⟩ <;> rw [bytes] <;>
    have whole := leadOf_mod charIsSigned a <;> have bit := leadOf_bit charIsSigned a
  · have clear : leadOf charIsSigned a &&& 0x80 = 0 :=
      (bit 7).mpr (by change a.toNat / 128 % 2 = 0; omega)
    rw [singleton_append, lead, if_pos clear, leadOf_ascii _ _ (by omega)]
    refine congrArg (fun value => ok (value, 1)) (eq_of_toNat_eq ?_)
    rw [toNat_setWidth]
    omega
  · change Libutils.utf32AtInternal charIsSigned (a :: b :: rest) = .ok (c, 2)
    obtain ⟨high, set⟩ := leadOf_several charIsSigned (a := a) (by omega)
    have clear := (bit 5).mpr (by change a.toNat / 32 % 2 = 0; omega)
    rw [lead, if_neg high]
    refine (utf32AtLoop_more set b rest).trans ((utf32AtLoop_done clear rest).trans ?_)
    refine congrArg (fun value => ok (value, 2)) (eq_of_toNat_eq ?_)
    rw [toNat_and_mask _ _ (k := 11) (by decide), toNat_shift_add]
    omega
  · change Libutils.utf32AtInternal charIsSigned (a :: b :: d :: rest) = .ok (c, 3)
    obtain ⟨high, set⟩ := leadOf_several charIsSigned (a := a) (by omega)
    have set' := mt (bit 5).mp (by change ¬ a.toNat / 32 % 2 = 0; omega)
    have clear := (bit 4).mpr (by change a.toNat / 16 % 2 = 0; omega)
    rw [lead, if_neg high]
    refine (utf32AtLoop_more set b (d :: rest)).trans ?_
    refine (utf32AtLoop_more set' d rest).trans ((utf32AtLoop_done clear rest).trans ?_)
    refine congrArg (fun value => ok (value, 3)) (eq_of_toNat_eq ?_)
    rw [toNat_and_mask _ _ (k := 16) (by decide), toNat_shift_add, toNat_shift_add]
    omega
  · change Libutils.utf32AtInternal charIsSigned (a :: b :: d :: e :: rest) = .ok (c, 4)
    obtain ⟨high, set⟩ := leadOf_several charIsSigned (a := a) (by omega)
    have set' := mt (bit 5).mp (by change ¬ a.toNat / 32 % 2 = 0; omega)
    have set'' := mt (bit 4).mp (by change ¬ a.toNat / 16 % 2 = 0; omega)
    have clear := (bit 3).mpr (by change a.toNat / 8 % 2 = 0; omega)
    rw [lead, if_neg high]
    refine (utf32AtLoop_more set b (d :: e :: rest)).trans ?_
    refine (utf32AtLoop_more set' d (e :: rest)).trans ?_
    refine (utf32AtLoop_more set'' e rest).trans ((utf32AtLoop_done clear rest).trans ?_)
    refine congrArg (fun value => ok (value, 4)) (eq_of_toNat_eq ?_)
    rw [toNat_and_mask _ _ (k := 21) (by decide), toNat_shift_add, toNat_shift_add, toNat_shift_add]
    omega

theorem utf32FromUtf8At_encode (front : List Byte) (scalar : Scalar c) (rest : List Byte) :
    utf32FromUtf8At charIsSigned (front ++ (encode c ++ rest)) front.length =
      .ok ((c.toNat : Int), some (front.length + (encode c).length)) := by
  have filled : 0 < (encode c).length := by
    obtain ⟨ch, tail, back⟩ := scalar.readsBack
    rw [back.bytes]
    exact Nat.succ_pos _
  have value : c.toInt = (c.toNat : Int) := by
    apply BitVec.toInt_eq_toNat_of_lt
    unfold Scalar Nat.isValidChar at scalar
    omega
  have inside : ¬ (front ++ (encode c ++ rest)).length ≤ front.length := by
    rw [length_append, length_append]
    omega
  rw [utf32FromUtf8At, if_neg inside, drop_left, scalar.utf32AtInternal]
  change ok (c.toInt, if 0 ≤ c.toInt then Option.some _ else none) = _
  rw [value, if_pos (Int.natCast_nonneg _)]

theorem utf32Iterate_encode {cs : List Char32} (scalars : ∀ c ∈ cs, Scalar c)
    (front : List Byte) (enough : cs.length < fuel) :
    utf32Iterate charIsSigned (front ++ cs.flatMap encode) fuel front.length =
      .ok (cs.map fun c => (c.toNat : Int), (front ++ cs.flatMap encode).length) := by
  induction cs generalizing front fuel with
  | nil =>
    cases fuel with
    | zero => cases enough
    | succ fuel =>
      rw [flatMap_nil, append_nil, utf32Iterate, utf32FromUtf8At, if_pos (le_refl _)]
      rfl
  | cons c cs ih =>
    rw [length_cons] at enough
    cases fuel with
    | zero => omega
    | succ fuel =>
      obtain ⟨scalar, scalars⟩ := forall_mem_cons.mp scalars
      have rest := ih scalars (front ++ encode c) (show cs.length < fuel by omega)
      rw [length_append, append_assoc] at rest
      rw [flatMap_cons, utf32Iterate, utf32FromUtf8At_encode charIsSigned front scalar]
      change (utf32Iterate charIsSigned (front ++ (encode c ++ cs.flatMap encode)) fuel
        (front.length + (encode c).length)).bind _ = _
      rw [rest]
      rfl

/-- A scalar value as the conversions take it. -/
def ofChar (c : Char) : Char32 := c.val.toBitVec

theorem scalar_ofChar (c : Char) : Scalar (ofChar c) := c.valid

/-- The bytes of a character by the definition of UTF-8. -/
def charBytes (c : Char) : List Byte := (String.utf8EncodeChar c).map UInt8.toBitVec

def WellFormed (bytes : List Byte) : Prop := ∃ chars : List Char, bytes = chars.flatMap charBytes

theorem encode_ofChar (c : Char) : encode (ofChar c) = charBytes c := by
  have value : (ofChar c).toNat = c.val.toNat := rfl
  unfold charBytes String.utf8EncodeChar
  cases (scalar_ofChar c).form with
  | one small bytes =>
    rw [bytes, if_pos (by omega)]
    rfl
  | two lower upper bytes =>
    have first : 192 + c.val.toNat / 64 = c.val.toNat / 64 % 32 + 192 := by omega
    rw [bytes, value, if_neg (by omega), if_pos (by omega), first, add_comm 128]
    rfl
  | three lower upper bytes =>
    have first : 224 + c.val.toNat / 4096 = c.val.toNat / 4096 % 16 + 224 := by omega
    rw [bytes, value, if_neg (by omega), if_neg (by omega), if_pos (by omega), first, add_comm 128,
      add_comm 128]
    rfl
  | four lower upper bytes =>
    have first : 240 + c.val.toNat / 262144 = c.val.toNat / 262144 % 8 + 240 := by omega
    rw [bytes, value, if_neg (by omega), if_neg (by omega), if_neg (by omega), first, add_comm 128,
      add_comm 128, add_comm 128]
    rfl

/-- To UTF-8 in a buffer of the measured length, and back in one of the measured length. The zeros
at the ends are not part of the strings. -/
def utf16RoundTrip (s : List Char16) : Except Stop (List Char16) := do
  let bytes ← utf16ToUtf8 s (utf16ToUtf8Length s + 1).toNat
  let length ← utf8ToUtf16Length false bytes.dropLast
  let units ← utf8ToUtf16 bytes.dropLast (length + 1).toNat
  .ok units.dropLast

def utf8RoundTrip (bytes : List Byte) : Except Stop (List Byte) := do
  let length ← utf8ToUtf16Length false bytes
  let units ← utf8ToUtf16 bytes (length + 1).toNat
  let back ← utf16ToUtf8 units.dropLast (utf16ToUtf8Length units.dropLast + 1).toNat
  .ok back.dropLast

/-- To UTF-8 in a buffer of the measured length, and through it from the start. -/
def utf32RoundTrip (src : List Char32) : Except Stop (List Int × Nat) := do
  let bytes ← utf32ToUtf8 src (utf32ToUtf8Length src + 1).toNat
  utf32Iterate charIsSigned bytes.dropLast (bytes.length + 1) 0

variable {cs : List Char32}

/-- A string that can be measured is written with a zero behind it, and an empty one not at all. -/
theorem utf32ToUtf8_dropLast (fits : encodedLength cs ≤ ssizeMax) :
    ∃ bytes, utf32ToUtf8 cs (utf32ToUtf8Length cs + 1).toNat = .ok bytes ∧
      bytes.dropLast = cs.flatMap encode := by
  by_cases nothing : cs = []
  · rw [nothing]
    exact ⟨[], rfl, rfl⟩
  · have length := utf32ToUtf8Length_eq nothing
    have size : (utf32ToUtf8Length cs + 1).toNat = encodedLength cs + 1 := by omega
    refine ⟨cs.flatMap encode ++ [0], ?_, dropLast_concat⟩
    rw [size, utf32ToUtf8, if_neg nothing, utf32ToUtf8Loop_eq, if_pos (Nat.lt_succ_self _)]

theorem length_utf16Units_le {c : Char32} (scalar : Scalar c) :
    (utf16Units c).length ≤ utf32CodepointUtf8Length c := by
  unfold Scalar Nat.isValidChar at scalar
  rw [utf32CodepointUtf8Length_eq]
  unfold utf16Units
  by_cases small : c ≤ 0xFFFF
  · rw [if_pos small]
    rw [le_ffff] at small
    change 1 ≤ _
    split
    · omega
    · split
      · omega
      · rw [if_pos (by omega), if_pos (by omega)]
        omega
  · rw [if_neg small]
    rw [le_ffff] at small
    rw [if_neg (by omega), if_neg (by omega), if_neg (by omega), if_pos (by omega)]
    change 2 ≤ 4
    omega

theorem length_units_le (scalars : ∀ c ∈ cs, Scalar c) :
    (cs.flatMap utf16Units).length ≤ encodedLength cs := by
  induction cs with
  | nil => exact le_refl _
  | cons c cs ih =>
    obtain ⟨scalar, scalars⟩ := forall_mem_cons.mp scalars
    have first := length_utf16Units_le scalar
    have rest := ih scalars
    rw [flatMap_cons, length_append, encodedLength_cons]
    omega

theorem utf8ToUtf16_encode (scalars : ∀ c ∈ cs, Scalar c) (fits : encodedLength cs < ssizeMax) :
    utf8ToUtf16Length false (cs.flatMap encode) = .ok ((cs.flatMap utf16Units).length : Nat) ∧
      utf8ToUtf16 (cs.flatMap encode) ((cs.flatMap utf16Units).length + 1) =
      .ok (cs.flatMap utf16Units ++ [0]) := by
  have measured := utf8ToUtf16LengthLoop_encode false scalars (le_refl _) 0
  rw [zero_add] at measured
  have short := length_units_le scalars
  refine ⟨measured, ?_⟩
  have parts : pieces (cs.flatMap encode) = cs.map utf16Units := by
    rw [pieces, utf8Codepoints_encode scalars (le_refl _)]
  obtain ⟨-, convert⟩ := utf8ToUtf16LengthLoop_ok (le_refl _) measured (Int.natCast_nonneg _)
  have all : fill (cs.map utf16Units) (cs.flatMap utf16Units).length =
      ⟨cs.flatMap utf16Units, (cs.flatMap utf16Units).length⟩ := fill_all (le_refl _)
  have result : utf8ToUtf16NoNullTerminator (cs.flatMap encode) (cs.flatMap utf16Units).length =
      .ok ⟨cs.flatMap utf16Units, (cs.flatMap utf16Units).length⟩ := by
    unfold utf8ToUtf16NoNullTerminator
    by_cases nothing : (cs.flatMap utf16Units).length = 0
    · rw [length_eq_zero_iff.mp nothing]
      rfl
    · rw [if_neg nothing, if_neg (by omega), convert]
      change ok (fill (pieces (cs.flatMap encode)) _) = _
      rw [parts, all]
  rw [utf8ToUtf16, if_neg (by omega), Nat.add_sub_cancel, result]
  change ok ((cs.flatMap utf16Units).take (cs.flatMap utf16Units).length ++ [0]) = _
  rw [take_length]

theorem utf16RoundTrip_eq {s : List Char16} (paired : wellPaired s = true)
    (fits : encodedLength (codepoints s) < ssizeMax) :
    utf16RoundTrip s = .ok s := by
  obtain ⟨scalars, units⟩ := utf16Units_codepoints paired
  obtain ⟨bytes, written, string⟩ := utf32ToUtf8_dropLast (le_of_lt fits)
  obtain ⟨measured, converted⟩ := utf8ToUtf16_encode scalars fits
  rw [units] at measured converted
  unfold utf16RoundTrip
  rw [utf16ToUtf8_eq, utf16ToUtf8Length_eq, written]
  change (utf8ToUtf16Length false bytes.dropLast).bind _ = _
  rw [string, measured]
  change (utf8ToUtf16 _ ((s.length : Int) + 1).toNat).bind _ = _
  rw [Int.toNat_natCast_add_one, converted]
  change ok (s ++ [0]).dropLast = _
  rw [dropLast_concat]

theorem utf8RoundTrip_eq {bytes : List Byte} (wellFormed : WellFormed bytes)
    (fits : bytes.length < ssizeMax) :
    utf8RoundTrip bytes = .ok bytes := by
  obtain ⟨chars, rfl⟩ := wellFormed
  have encoded : chars.flatMap charBytes = (chars.map ofChar).flatMap encode := by
    rw [flatMap_map]
    simp [encode_ofChar]
  have scalars : ∀ c ∈ chars.map ofChar, Scalar c := by
    intro c member
    obtain ⟨char, -, rfl⟩ := mem_map.mp member
    exact scalar_ofChar char
  rw [encoded] at fits ⊢
  generalize chars.map ofChar = cs at scalars fits
  rw [length_flatMap_encode] at fits
  obtain ⟨measured, converted⟩ := utf8ToUtf16_encode scalars fits
  obtain ⟨back, written, string⟩ := utf32ToUtf8_dropLast (le_of_lt fits)
  unfold utf8RoundTrip
  rw [measured]
  change (utf8ToUtf16 _ (((cs.flatMap utf16Units).length : Int) + 1).toNat).bind _ = _
  rw [Int.toNat_natCast_add_one, converted]
  change (utf16ToUtf8 (cs.flatMap utf16Units ++ [0]).dropLast
    (utf16ToUtf8Length (cs.flatMap utf16Units ++ [0]).dropLast + 1).toNat).bind _ = _
  rw [dropLast_concat, utf16ToUtf8_eq, utf16ToUtf8Length_eq, codepoints_utf16Units scalars, written]
  change ok back.dropLast = _
  rw [string]

theorem utf32RoundTrip_eq (scalars : ∀ c ∈ cs, Scalar c) (fits : encodedLength cs ≤ ssizeMax) :
    utf32RoundTrip charIsSigned cs = .ok (cs.map fun c => (c.toNat : Int), encodedLength cs) := by
  obtain ⟨bytes, written, string⟩ := utf32ToUtf8_dropLast fits
  have total := length_flatMap_encode cs
  have count : cs.length ≤ encodedLength cs := by
    clear fits written string total
    induction cs with
    | nil => exact le_refl _
    | cons c cs ih =>
      obtain ⟨scalar, scalars⟩ := forall_mem_cons.mp scalars
      have first := length_utf16Units_le scalar
      have one := length_utf16Units c
      have rest := ih scalars
      simp [encodedLength_cons]
      omega
  have enough : cs.length < bytes.length + 1 := by
    have short := congrArg List.length string
    rw [length_dropLast] at short
    omega
  have iterated := utf32Iterate_encode charIsSigned scalars [] enough
  unfold utf32RoundTrip
  rw [written]
  change utf32Iterate charIsSigned bytes.dropLast (bytes.length + 1) 0 = _
  rw [string, ← total]
  exact iterated

/-- The three conversions give back what they were given, for strings whose UTF-8 form is shorter
than `SSIZE_MAX`. -/
theorem conversions_inverse :
    (∀ s : List Char16, wellPaired s = true → encodedLength (codepoints s) < ssizeMax →
      utf16RoundTrip s = .ok s) ∧
    (∀ bytes : List Byte, WellFormed bytes → bytes.length < ssizeMax →
    utf8RoundTrip bytes = .ok bytes) ∧
    (∀ (charIsSigned : Bool) (chars : List Char), encodedLength (chars.map ofChar) ≤ ssizeMax →
      utf32RoundTrip charIsSigned (chars.map ofChar) =
        .ok (chars.map fun c => (c.toNat : Int), encodedLength (chars.map ofChar))) := by
  refine ⟨fun s => utf16RoundTrip_eq, fun bytes => utf8RoundTrip_eq, ?_⟩
  intro charIsSigned chars fits
  have scalars : ∀ c ∈ chars.map ofChar, Scalar c := by
    intro c member
    obtain ⟨char, -, rfl⟩ := mem_map.mp member
    exact scalar_ofChar char
  rw [utf32RoundTrip_eq charIsSigned scalars fits, map_map]
  rfl

/-- The UTF-8 form of this string is too long to be measured, so that the conversion is stopped. -/
theorem utf16RoundTrip_stops : ∃ s : List Char16, wellPaired s = true ∧ s.length * 2 < 2 ^ 63 ∧
    utf16RoundTrip s = .error .fatal := by
  obtain ⟨count, size⟩ : ∃ count : Nat, count = 3074457345618258603 := ⟨_, rfl⟩
  have paired : ∀ count, wellPaired (List.replicate count 0x800) = true := by
    intro count
    induction count with
    | zero => rfl
    | succ count ih =>
      cases count with
      | zero => rfl
      | succ count =>
        rw [replicate_succ, replicate_succ, wellPaired, ← replicate_succ, ih]
        rfl
  refine ⟨List.replicate count 0x800, paired count, ?_, ?_⟩
  · simp
    omega
  · have limit : ssizeMax = 9223372036854775807 := rfl
    have long : ssizeMax < encodedLength (codepoints (List.replicate count 0x800)) := by
      rw [codepoints_replicate, encodedLength_replicate]
      omega
    unfold utf16RoundTrip
    rw [(utf16ToUtf8_unmeasured long).2]
    rfl

/-- A string with a surrogate pair in all three encodings. -/
theorem conversions_inverse_emoji :
    utf16RoundTrip [0x41, 0xD83D, 0xDE00] = .ok [0x41, 0xD83D, 0xDE00] ∧
    utf8RoundTrip [0xC3, 0xA9] = .ok [0xC3, 0xA9] ∧
    utf32RoundTrip true (['é', 'A'].map ofChar) = .ok ([0xE9, 0x41], 3) :=
  ⟨conversions_inverse.1 _ (by decide) (by decide),
    conversions_inverse.2.1 _ ⟨['é'], by decide⟩ (by decide),
    conversions_inverse.2.2 true ['é', 'A'] (by decide)⟩

end Scalars

end Aosp.Libutils
