import Mathlib.Tactic.Push
import Aosp.Lib.Fallible
import Aosp.Libutils.Codepoint

/- The length functions agree with the conversions: a buffer of the measured length is filled
exactly, and a smaller one up to the last code point that fits. -/
namespace Aosp.Libutils

open List
open Layout (Byte)

section ToUtf8

/-- The code points of a sequence of units. A surrogate without its other half stands for itself. -/
def codepoints : List Char16 → List Char32
  | [] => []
  | [unit] => [unit.setWidth 32]
  | unit :: second :: rest =>
    if isHighSurrogate unit && isLowSurrogate second
      then fromSurrogates unit second :: codepoints rest
    else unit.setWidth 32 :: codepoints (second :: rest)

def encode (c : Char32) : List Byte := utf32CodepointToUtf8 c (utf32CodepointUtf8Length c)

variable (src : List Char32)

def encodedLength : Nat := (src.map utf32CodepointUtf8Length).sum

theorem encodedLength_cons (c : Char32) (rest : List Char32) :
    encodedLength (c :: rest) = utf32CodepointUtf8Length c + encodedLength rest := sum_cons

theorem length_flatMap_encode : (src.flatMap encode).length = encodedLength src := by
  induction src with
  | nil => rfl
  | cons c rest ih =>
    simp [ih, encodedLength_cons, encode, length_utf32CodepointToUtf8]

/-- Either there is room for all bytes and the zero, or the call is stopped. -/
theorem utf32ToUtf8Loop_eq (dstLen : Nat) :
    utf32ToUtf8Loop src dstLen =
    if encodedLength src < dstLen then .ok (src.flatMap encode ++ [0]) else .error .fatal := by
  induction src generalizing dstLen with
  | nil =>
    rw [utf32ToUtf8Loop, terminate]
    change _ = if 0 < dstLen then _ else _
    by_cases room : 0 < dstLen
    · rw [if_pos room, if_neg (by omega)]
      rfl
    · rw [if_neg room, if_pos (by omega)]
  | cons c rest ih =>
    rw [utf32ToUtf8Loop, emitCodepoint, encodedLength_cons]
    by_cases short : dstLen < utf32CodepointUtf8Length c
    · rw [if_pos short, if_neg (by omega)]
    · rw [if_neg short, ih]
      by_cases room : encodedLength rest < dstLen - utf32CodepointUtf8Length c
      · rw [if_pos room, if_pos (by omega)]
        change Except.ok (encode c ++ (rest.flatMap encode ++ [0])) = _
        simp
      · rw [if_neg room, if_neg (by omega)]
        rfl

theorem utf32ToUtf8LengthLoop_eq {ret : Nat} (small : ret ≤ ssizeMax) :
    utf32ToUtf8LengthLoop src ret =
      if ret + encodedLength src ≤ ssizeMax then ((ret + encodedLength src : Nat) : Int)
      else -1 := by
  induction src generalizing ret with
  | nil =>
    change (ret : Int) = if ret + 0 ≤ ssizeMax then _ else _
    rw [add_zero, if_pos small]
    rfl
  | cons c rest ih =>
    have len := utf32CodepointUtf8Length_le c
    have limit : ssizeMax = 9223372036854775807 := rfl
    rw [utf32ToUtf8LengthLoop, addLength, encodedLength_cons]
    by_cases exceeds : ssizeMax - utf32CodepointUtf8Length c < ret
    · rw [if_pos exceeds, if_neg (by omega)]
    · rw [if_neg exceeds, ih (by omega), ← add_assoc]

theorem utf16ToUtf8Loop_eq (src : List Char16) (dstLen : Nat) :
    utf16ToUtf8Loop src dstLen = utf32ToUtf8Loop (codepoints src) dstLen := by
  fun_induction codepoints src generalizing dstLen with
  | case1 => rfl
  | case2 unit => rfl
  | case3 unit second rest pair ih =>
    rw [utf16ToUtf8Loop, if_pos pair]
    exact congrArg _ (funext ih)
  | case4 unit second rest single ih =>
    rw [utf16ToUtf8Loop, if_neg single]
    exact congrArg _ (funext ih)

theorem utf32CodepointUtf8Length_pair {high low : Char16} (isHigh : isHighSurrogate high = true)
    (isLow : isLowSurrogate low = true) :
    utf32CodepointUtf8Length (fromSurrogates high low) = 4 := by
  have value := toNat_fromSurrogates isHigh isLow
  rw [isHighSurrogate_iff] at isHigh
  rw [isLowSurrogate_iff] at isLow
  rw [utf32CodepointUtf8Length_eq, if_neg (by omega), if_neg (by omega), if_neg (by omega),
    if_pos (by omega)]

theorem utf16ToUtf8LengthLoop_eq (src : List Char16) (ret : Nat) :
    utf16ToUtf8LengthLoop src ret = utf32ToUtf8LengthLoop (codepoints src) ret := by
  fun_induction codepoints src generalizing ret with
  | case1 => rfl
  | case2 unit => rfl
  | case3 unit second rest pair ih =>
    have both := Bool.and_eq_true_iff.mp pair
    rw [utf16ToUtf8LengthLoop, if_pos pair, utf32ToUtf8LengthLoop,
      utf32CodepointUtf8Length_pair both.1 both.2]
    exact congrArg _ (funext ih)
  | case4 unit second rest single ih =>
    rw [utf16ToUtf8LengthLoop, if_neg single]
    exact congrArg _ (funext ih)

theorem utf32ToUtf8Length_eq {src : List Char32} (filled : src ≠ []) :
    utf32ToUtf8Length src =
    if encodedLength src ≤ ssizeMax then (encodedLength src : Int) else -1 := by
  rw [utf32ToUtf8Length, if_neg filled, utf32ToUtf8LengthLoop_eq src (Nat.zero_le _), zero_add]

variable {src : List Char16}

theorem codepoints_eq_nil : codepoints src = [] ↔ src = [] := by
  constructor
  · intro nothing
    cases src with
    | nil => rfl
    | cons unit rest =>
      cases rest with
      | nil => cases nothing
      | cons second rest =>
        rw [codepoints] at nothing
        split at nothing
        · cases nothing
        · cases nothing
  · rintro rfl
    rfl

theorem utf16ToUtf8Length_eq (src : List Char16) :
    utf16ToUtf8Length src = utf32ToUtf8Length (codepoints src) := by
  rw [utf16ToUtf8Length, utf32ToUtf8Length, utf16ToUtf8LengthLoop_eq]
  simp [codepoints_eq_nil]

theorem utf16ToUtf8_eq (src : List Char16) (dstLen : Nat) :
    utf16ToUtf8 src dstLen = utf32ToUtf8 (codepoints src) dstLen := by
  rw [utf16ToUtf8, utf32ToUtf8, utf16ToUtf8Loop_eq]
  simp [codepoints_eq_nil]

theorem utf32ToUtf8_sized {src : List Char32} (measured : src = [] ∨ 0 ≤ utf32ToUtf8Length src) :
    ∃ bytes, utf32ToUtf8 src (utf32ToUtf8Length src + 1).toNat = .ok bytes ∧
      (bytes.length : Int) = utf32ToUtf8Length src + 1 := by
  by_cases nothing : src = []
  · rw [nothing]
    exact ⟨[], rfl, rfl⟩
  · have length := utf32ToUtf8Length_eq nothing
    by_cases fits : encodedLength src ≤ ssizeMax
    · rw [if_pos fits] at length
      have size : (utf32ToUtf8Length src + 1).toNat = encodedLength src + 1 := by omega
      refine ⟨src.flatMap encode ++ [0], ?_, ?_⟩
      · rw [size, utf32ToUtf8, if_neg nothing, utf32ToUtf8Loop_eq, if_pos (Nat.lt_succ_self _)]
      · rw [length_append, length_flatMap_encode, length]
        rfl
    · rcases measured with isNil | nonneg
      · exact absurd isNil nothing
      · omega

/-- What does not fit into `SSIZE_MAX` bytes is not measured, and a buffer without room stops the
call. -/
theorem utf16ToUtf8_unmeasured (long : ssizeMax < encodedLength (codepoints src)) :
    utf16ToUtf8Length src = -1 ∧ utf16ToUtf8 src (utf16ToUtf8Length src + 1).toNat =
      .error .fatal := by
  have filled : codepoints src ≠ [] := by
    intro nothing
    rw [nothing] at long
    exact absurd long (by decide)
  have length : utf16ToUtf8Length src = -1 := by
    rw [utf16ToUtf8Length_eq, utf32ToUtf8Length_eq filled, if_neg (by omega)]
  refine ⟨length, ?_⟩
  have size : (utf16ToUtf8Length src + 1).toNat = 0 := by omega
  rw [utf16ToUtf8_eq, utf32ToUtf8, if_neg filled, utf32ToUtf8Loop_eq, if_neg (by omega)]

/-- A unit that needs three bytes, over and over. -/
theorem codepoints_replicate (count : Nat) :
    codepoints (List.replicate count 0x800) = List.replicate count 0x800 := by
  induction count with
  | zero => rfl
  | succ count ih =>
    cases count with
    | zero => rfl
    | succ count =>
      rw [replicate_succ, replicate_succ, codepoints, ← replicate_succ, ih]
      rfl

theorem encodedLength_replicate (count : Nat) :
    encodedLength (List.replicate count 0x800) = count * 3 := by
  rw [encodedLength, map_replicate, sum_replicate_nat]
  rfl

end ToUtf8

/-- The units for a code point: one, or a surrogate pair. -/
def utf16Units (codepoint : Char32) : List Char16 :=
  if codepoint ≤ 0xFFFF then [codepoint.setWidth 16]
  else [(((codepoint - 0x10000) >>> 10) + 0xD800).setWidth 16,
    (((codepoint - 0x10000) &&& 0x3FF) + 0xDC00).setWidth 16]

/-- The code points of a byte string, up to one that does not end inside. -/
def utf8Codepoints : Nat → List Byte → List Char32
  | _, [] => []
  | 0, _ :: _ => []
  | fuel + 1, ch :: tail =>
    match utf8ToUtf32Codepoint (ch :: tail) (utf8CodepointLen ch) with
    | .ok codepoint => codepoint :: utf8Codepoints fuel ((ch :: tail).drop (utf8CodepointLen ch))
    | .error _ => []

/-- The units for each of the code points. -/
def pieces (src : List Byte) : List (List Char16) := (utf8Codepoints src.length src).map utf16Units

/-- Whole pieces, as many as fit. -/
structure LongestWhole (pieces : List (List Char16)) (limit : Nat) (string : List Char16) :
  Prop where
  whole : ∃ k, string = (pieces.take k).flatten
  fits : string.length ≤ limit
  longest : ∀ k, (pieces.take k).flatten.length ≤ limit →
    (pieces.take k).flatten.length ≤ string.length

/-- What a conversion with limited room leaves: the whole pieces that fit, and behind the returned
end the beginning of the one that did not. -/
def fill : List (List Char16) → Nat → Written
  | [], _ => ⟨[], 0⟩
  | piece :: rest, room =>
    if piece.length ≤ room then
      let written := fill rest (room - piece.length)
      ⟨piece ++ written.units, piece.length + written.returned⟩
    else ⟨piece.take room, 0⟩

theorem length_fill_le (pieces : List (List Char16)) (room : Nat) :
    (fill pieces room).units.length ≤ room := by
  fun_induction fill pieces room with
  | case1 => exact Nat.zero_le _
  | case2 piece rest room fits written ih =>
    change (piece ++ (fill rest (room - piece.length)).units).length ≤ room
    simp
    omega
  | case3 piece rest room tooLong => exact length_take_le _ _

theorem returned_fill_le (pieces : List (List Char16)) (room : Nat) :
    (fill pieces room).returned ≤ (fill pieces room).units.length := by
  fun_induction fill pieces room with
  | case1 => exact Nat.zero_le _
  | case2 piece rest room fits written ih =>
    simp
    omega
  | case3 piece rest room tooLong => exact Nat.zero_le _

theorem fill_all {pieces : List (List Char16)} {room : Nat} (fits : pieces.flatten.length ≤ room) :
    fill pieces room = ⟨pieces.flatten, pieces.flatten.length⟩ := by
  induction pieces generalizing room with
  | nil => rfl
  | cons piece rest ih =>
    rw [flatten_cons, length_append] at fits ⊢
    rw [fill, if_pos (by omega), ih (by omega)]

theorem longestWhole_fill (pieces : List (List Char16)) (room : Nat) :
    LongestWhole pieces room (fill pieces room).string := by
  induction pieces generalizing room with
  | nil =>
    refine ⟨⟨0, rfl⟩, Nat.zero_le _, ?_⟩
    intro k _
    rw [take_nil]
    exact le_refl _
  | cons piece rest ih =>
    rw [fill]
    by_cases fits : piece.length ≤ room
    · rw [if_pos fits]
      obtain ⟨⟨k, whole⟩, within, longest⟩ := ih (room - piece.length)
      have joined : Written.string ⟨piece ++ (fill rest (room - piece.length)).units,
          piece.length + (fill rest (room - piece.length)).returned⟩ =
          piece ++ (fill rest (room - piece.length)).string := take_length_add_append _
      rw [joined]
      refine ⟨⟨k + 1, ?_⟩, ?_, ?_⟩
      · rw [whole, take_succ_cons, flatten_cons]
      · rw [length_append]
        omega
      · intro j short
        cases j with
        | zero => exact Nat.zero_le _
        | succ j =>
          rw [take_succ_cons, flatten_cons, length_append] at short ⊢
          have := longest j (by omega)
          rw [length_append]
          omega
    · rw [if_neg fits]
      refine ⟨⟨0, rfl⟩, Nat.zero_le _, ?_⟩
      intro j short
      cases j with
      | zero => exact le_refl _
      | succ j =>
        rw [take_succ_cons, flatten_cons, length_append] at short
        omega

/-- A code point is read unless it goes beyond the end. -/
theorem utf8ToUtf32Codepoint_ok (ch : Byte) (tail : List Byte)
    (inside : utf8CodepointLen ch ≤ (ch :: tail).length) :
    ∃ codepoint, utf8ToUtf32Codepoint (ch :: tail) (utf8CodepointLen ch) = .ok codepoint := by
  rw [utf8CodepointLen_eq] at inside ⊢
  split at inside
  · rename_i one
    rw [if_pos one]
    exact ⟨_, rfl⟩
  · rename_i notOne
    rw [if_neg notOne]
    split at inside
    · rename_i two
      rw [if_pos two]
      match tail, inside with
      | b :: _, _ => exact ⟨_, rfl⟩
    · rename_i notTwo
      rw [if_neg notTwo]
      split at inside
      · rename_i three
        rw [if_pos three]
        match tail, inside with
        | b :: c :: _, _ => exact ⟨_, rfl⟩
      · rename_i notThree
        rw [if_neg notThree]
        match tail, inside with
        | b :: c :: d :: _, _ => exact ⟨_, rfl⟩

theorem length_utf16Units (codepoint : Char32) :
    (utf16Units codepoint).length = 1 + if codepoint > 0xFFFF then 1 else 0 := by
  unfold utf16Units
  by_cases small : codepoint ≤ 0xFFFF
  · rw [if_pos small, if_neg (BitVec.not_lt.mpr small)]
    rfl
  · rw [if_neg small, if_pos (BitVec.not_le.mp small)]
    rfl

theorem utf8ToUtf16Loop_round {ch : Byte} {tail : List Byte} {codepoint : Char32}
    (fuel room : Nat)
    (read : utf8ToUtf32Codepoint (ch :: tail) (utf8CodepointLen ch) = .ok codepoint)
    {written : Nat → Written}
    (rest : ∀ room, utf8ToUtf16Loop fuel ((ch :: tail).drop (utf8CodepointLen ch)) room =
      .ok (written room)) :
    utf8ToUtf16Loop (fuel + 1) (ch :: tail) room = .ok (if (utf16Units codepoint).length ≤ room then
        ⟨utf16Units codepoint ++ (written (room - (utf16Units codepoint).length)).units,
          (utf16Units codepoint).length + (written (room - (utf16Units codepoint).length)).returned⟩
        else ⟨(utf16Units codepoint).take room, 0⟩) := by
  have count := length_utf16Units codepoint
  cases room with
  | zero =>
    rw [if_neg (by omega)]
    rfl
  | succ room =>
    rw [utf8ToUtf16Loop, read]
    change (if codepoint ≤ 0xFFFF then _ else _) = _
    by_cases small : codepoint ≤ 0xFFFF
    · have units : utf16Units codepoint = [codepoint.setWidth 16] := if_pos small
      rw [units, length_singleton] at count ⊢
      rw [if_pos small, rest, add_comm 1]
      rfl
    · have units : utf16Units codepoint = [(((codepoint - 0x10000) >>> 10) + 0xD800).setWidth 16,
          (((codepoint - 0x10000) &&& 0x3FF) + 0xDC00).setWidth 16] := if_neg small
      have two : (utf16Units codepoint).length = 2 := by
        rw [units]
        rfl
      rw [two, units, if_neg small]
      cases room with
      | zero => rfl
      | succ room =>
        dsimp only
        rw [rest, add_comm 2]
        rfl

/-- A string whose length could be measured is read to its end, and the length is that of its
pieces. -/
theorem utf8ToUtf16LengthLoop_ok {overreadIsFatal : Bool} {fuel : Nat} {src : List Byte}
    {start : Nat} {n : Int} (enough : src.length ≤ fuel)
    (measured : utf8ToUtf16LengthLoop overreadIsFatal fuel src start = .ok n) (nonneg : 0 ≤ n) :
    n = start + (((utf8Codepoints fuel src).map utf16Units).flatten.length : Nat) ∧
      ∀ room, utf8ToUtf16Loop fuel src room =
      .ok (fill ((utf8Codepoints fuel src).map utf16Units) room) := by
  induction fuel generalizing src start with
  | zero =>
    cases src with
    | nil =>
      cases measured
      exact ⟨rfl, fun _ => rfl⟩
    | cons ch tail => cases enough
  | succ fuel ih =>
    cases src with
    | nil =>
      cases measured
      exact ⟨rfl, fun _ => rfl⟩
    | cons ch tail =>
      rw [utf8ToUtf16LengthLoop] at measured
      by_cases outside : (ch :: tail).length < utf8CodepointLen ch
      · rw [if_pos outside] at measured
        split at measured
        · cases measured
        · cases measured
          exact absurd nonneg (by decide)
      · obtain ⟨codepoint, read⟩ := utf8ToUtf32Codepoint_ok ch tail (Nat.le_of_not_lt outside)
        rw [if_neg outside, read] at measured
        have progress := utf8CodepointLen_pos ch
        have shorter : ((ch :: tail).drop (utf8CodepointLen ch)).length ≤ fuel := by
          rw [length_drop]
          omega
        obtain ⟨total, rest⟩ := ih shorter measured
        have codes : utf8Codepoints (fuel + 1) (ch :: tail) =
            codepoint :: utf8Codepoints fuel ((ch :: tail).drop (utf8CodepointLen ch)) := by
          rw [utf8Codepoints, read]
        rw [codes, map_cons]
        constructor
        · rw [flatten_cons, length_append, length_utf16Units]
          omega
        · intro room
          rw [utf8ToUtf16Loop_round fuel room read rest, fill]

/-- The conversions never overrun or abort when sized by their length functions, as long as those
could measure the length: what does not fit into `SSIZE_MAX` bytes they do not measure. -/
theorem conversions_sized :
    (∀ src : List Char16, src = [] ∨ 0 ≤ utf16ToUtf8Length src →
      ∃ bytes, utf16ToUtf8 src (utf16ToUtf8Length src + 1).toNat = .ok bytes ∧
        (bytes.length : Int) = utf16ToUtf8Length src + 1) ∧
        (∀ (src : List Byte) (overreadIsFatal : Bool) (n : Int),
      utf8ToUtf16Length overreadIsFatal src = .ok n → 0 ≤ n →
      ((pieces src).flatten.length : Int) = n ∧
      ∀ dstLen ≤ ssizeMax, ∃ written, utf8ToUtf16NoNullTerminator src dstLen = .ok written ∧
        written.units.length ≤ dstLen ∧ written.returned ≤ written.units.length ∧
        (n ≤ dstLen → written.units = (pieces src).flatten ∧ (written.returned : Int) = n) ∧
        (dstLen < n → LongestWhole (pieces src) dstLen written.string)) ∧
    (∀ src : List Char32, src = [] ∨ 0 ≤ utf32ToUtf8Length src →
      ∃ bytes, utf32ToUtf8 src (utf32ToUtf8Length src + 1).toNat = .ok bytes ∧
        (bytes.length : Int) = utf32ToUtf8Length src + 1) := by
  refine ⟨fun src measured => ?_, ?_, fun src => utf32ToUtf8_sized⟩
  · rw [utf16ToUtf8Length_eq, ← codepoints_eq_nil] at measured
    rw [utf16ToUtf8_eq, utf16ToUtf8Length_eq]
    exact utf32ToUtf8_sized measured
  intro src overreadIsFatal n measured nonneg
  obtain ⟨total, convert⟩ := utf8ToUtf16LengthLoop_ok (le_refl _) measured nonneg
  change n = (0 : Nat) + ((pieces src).flatten.length : Nat) at total
  refine ⟨by omega, ?_⟩
  intro dstLen small
  have result : utf8ToUtf16NoNullTerminator src dstLen = .ok (fill (pieces src) dstLen) := by
    unfold utf8ToUtf16NoNullTerminator
    by_cases vacant : dstLen = 0
    · rw [if_pos vacant, vacant]
      -- without room nothing is written
      have short := length_fill_le (pieces src) 0
      have returned := returned_fill_le (pieces src) 0
      generalize fill (pieces src) 0 = written at short returned ⊢
      obtain ⟨units, count⟩ := written
      have noUnits : units = [] := length_eq_zero_iff.mp (Nat.le_zero.mp short)
      have noCount : count = 0 := by
        rw [noUnits] at returned
        exact Nat.le_zero.mp returned
      rw [noUnits, noCount]
    · rw [if_neg vacant, if_neg (by omega)]
      exact convert dstLen
  refine ⟨fill (pieces src) dstLen, result, length_fill_le _ _, returned_fill_le _ _, ?_, ?_⟩
  · intro fits
    rw [fill_all (by omega)]
    exact ⟨rfl, by dsimp only; omega⟩
  · intro _
    exact longestWhole_fill (pieces src) dstLen

/-- A string that would fit into memory, but not its UTF-8 form: `utf16_to_utf8_length` returns -1,
and the conversion with a buffer of that size is stopped. -/
theorem utf16ToUtf8_stops_unmeasured :
    ∃ src : List Char16, src.length * 2 < 2 ^ 63 ∧
    utf16ToUtf8Length src = -1 ∧ utf16ToUtf8 src (utf16ToUtf8Length src + 1).toNat =
    .error .fatal := by
  obtain ⟨count, size⟩ : ∃ count : Nat, count = 3074457345618258603 := ⟨_, rfl⟩
  refine ⟨List.replicate count 0x800, ?_, ?_⟩
  · simp
    omega
  · have limit : ssizeMax = 9223372036854775807 := rfl
    apply utf16ToUtf8_unmeasured
    rw [codepoints_replicate, encodedLength_replicate]
    omega

/-- An emoji and a lone surrogate, and a buffer that ends inside a surrogate pair. -/
theorem conversions_sized_emoji :
    (∃ bytes, utf16ToUtf8 [0xD83D, 0xDE00, 0xD800] 5 = .ok bytes ∧ (bytes.length : Int) = 5) ∧
    (∃ written, utf8ToUtf16NoNullTerminator [0x41, 0xF0, 0x9F, 0x98, 0x80] 2 = .ok written ∧
      LongestWhole (pieces [0x41, 0xF0, 0x9F, 0x98, 0x80]) 2 written.string) ∧
    (∃ bytes, utf32ToUtf8 [0x1F600, 0xD800] 5 = .ok bytes ∧ (bytes.length : Int) = 5) := by
  refine ⟨conversions_sized.1 [0xD83D, 0xDE00, 0xD800] (.inr (by decide)), ?_,
    conversions_sized.2.2 [0x1F600, 0xD800] (.inr (by decide))⟩
  obtain ⟨-, convert⟩ := conversions_sized.2.1 [0x41, 0xF0, 0x9F, 0x98, 0x80] false 3 (by decide)
    (by decide)
  obtain ⟨written, result, -, -, -, longest⟩ := convert 2 (by decide)
  exact ⟨written, result, longest (by decide)⟩

end Aosp.Libutils
