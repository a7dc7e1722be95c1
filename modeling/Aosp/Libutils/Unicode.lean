import Aosp.Lib.Codec

/- The conversions of `Unicode.cpp`. A string is the list of its units. Strings in memory are
shorter than `SSIZE_MAX` bytes, so counts of their units do not overflow; what a conversion would
need can be more. -/
namespace Aosp.Libutils

open Layout (Byte)

abbrev Char16 := BitVec 16
abbrev Char32 := BitVec 32

/-- What ends a call: `LOG_ALWAYS_FATAL`, or a read outside the input. -/
inductive Stop where
  | fatal
  | overread
deriving DecidableEq

def ssizeMax : Nat := 2 ^ 63 - 1

def kByteMask : Char32 := 0xBF
def kByteMark : Char32 := 0x80
def kUnicodeSurrogateStart : Char32 := 0xD800
def kUnicodeSurrogateEnd : Char32 := 0xDFFF
def kUnicodeMaxCodepoint : Char32 := 0x10FFFF

variable (srcChar : Char32)

/-- `utf32_codepoint_utf8_length`; zero for what is not a character. -/
def utf32CodepointUtf8Length : Nat :=
  if srcChar < 0x80 then 1
  else if srcChar < 0x800 then 2
  else if srcChar < 0x10000 then
    if srcChar < kUnicodeSurrogateStart ∨ kUnicodeSurrogateEnd < srcChar then 3 else 0
  else if srcChar ≤ kUnicodeMaxCodepoint then 4
  else 0

def kFirstByteMark : Nat → Char32
  | 2 => 0xC0
  | 3 => 0xE0
  | 4 => 0xF0
  | _ => 0

def firstByte (bytes : Nat) (srcChar : Char32) : Byte :=
  (srcChar ||| kFirstByteMark bytes).setWidth 8

def tailByte : Byte := ((srcChar ||| kByteMark) &&& kByteMask).setWidth 8

/-- `utf32_codepoint_to_utf8`: the cases fall through, from the last byte to the first. -/
def utf32CodepointToUtf8 : Nat → List Byte
  | 1 => [firstByte 1 srcChar]
  | 2 => [firstByte 2 (srcChar >>> 6), tailByte srcChar]
  | 3 => [firstByte 3 (srcChar >>> 6 >>> 6), tailByte (srcChar >>> 6), tailByte srcChar]
  | 4 => [firstByte 4 (srcChar >>> 6 >>> 6 >>> 6), tailByte (srcChar >>> 6 >>> 6),
      tailByte (srcChar >>> 6), tailByte srcChar]
  | _ => []

/-- A round of `utf32_to_utf8` and of `utf16_to_utf8`, with `dstLen` bytes of space left. -/
def emitCodepoint (utf32 : Char32) (dstLen : Nat) (next : Nat → Except Stop (List Byte)) :
    Except Stop (List Byte) :=
  let len := utf32CodepointUtf8Length utf32
  if dstLen < len then .error .fatal
  else (next (dstLen - len)).map (utf32CodepointToUtf8 utf32 len ++ ·)

/-- The zero at the end. -/
def terminate (dstLen : Nat) : Except Stop (List Byte) :=
  if dstLen < 1 then .error .fatal else .ok [0]

def utf32ToUtf8Loop : List Char32 → Nat → Except Stop (List Byte)
  | [], dstLen => terminate dstLen
  | utf32 :: rest, dstLen => emitCodepoint utf32 dstLen (utf32ToUtf8Loop rest)

/-- `utf32_to_utf8`: the bytes that are written. -/
def utf32ToUtf8 (src : List Char32) (dstLen : Nat) : Except Stop (List Byte) :=
  if src = [] then .ok [] else utf32ToUtf8Loop src dstLen

/-- A round of the length functions: the length may not pass `SSIZE_MAX`. -/
def addLength (charLen ret : Nat) (next : Nat → Int) : Int :=
  if ssizeMax - charLen < ret then -1 else next (ret + charLen)

def utf32ToUtf8LengthLoop : List Char32 → Nat → Int
  | [], ret => ret
  | utf32 :: rest, ret => addLength (utf32CodepointUtf8Length utf32) ret
    (utf32ToUtf8LengthLoop rest)

/-- `utf32_to_utf8_length`. -/
def utf32ToUtf8Length (src : List Char32) : Int :=
  if src = [] then -1 else utf32ToUtf8LengthLoop src 0

/-- The loop of `utf32_at_internal`, where `first` is the first byte. The mask is zero after seven
rounds. -/
def utf32AtLoop (first : Char32) :
    Nat → Char32 → Char32 → Nat → Char32 → List Byte → Except Stop (Char32 × Nat)
  | fuel, mask, toIgnoreMask, numToRead, utf32, cur =>
    match fuel, decide (first &&& mask ≠ 0) with
    | fuel + 1, true =>
      match cur with
      | [] => .error .overread
      | byte :: cur =>
        utf32AtLoop first fuel (mask >>> 1) (toIgnoreMask ||| mask) (numToRead + 1)
          ((utf32 <<< 6) + (byte.setWidth 32 &&& 0x3F)) cur
    | _, _ => .ok (utf32 &&& ~~~((toIgnoreMask ||| mask) <<< (6 * (numToRead - 1))), numToRead)

/-- `utf32_at_internal`. Whether `char` is signed depends on the platform. -/
def utf32AtInternal (charIsSigned : Bool) : List Byte → Except Stop (Char32 × Nat)
  | [] => .error .overread
  | byte :: cur =>
    let first := if charIsSigned then byte.signExtend 32 else byte.setWidth 32
    if first &&& 0x80 = 0 then .ok (first, 1)
    else utf32AtLoop first 7 0x40 0xFFFFFF80 1 first cur

/-- `utf32_from_utf8_at`: the value, and the next index if the value is not negative. -/
def utf32FromUtf8At (charIsSigned : Bool) (src : List Byte) (index : Nat) :
    Except Stop (Int × Option Nat) :=
  if src.length ≤ index then .ok (-1, none)
  else (utf32AtInternal charIsSigned (src.drop index)).map fun (utf32, numRead) =>
    (utf32.toInt, if 0 ≤ utf32.toInt then some (index + numRead) else none)

def isHighSurrogate (unit : Char16) : Bool := unit &&& 0xFC00 == 0xD800

def isLowSurrogate (unit : Char16) : Bool := unit &&& 0xFC00 == 0xDC00

def fromSurrogates (high low : Char16) : Char32 :=
  (((high.setWidth 32 - 0xD800) <<< 10) ||| (low.setWidth 32 - 0xDC00)) + 0x10000

def utf16ToUtf8Loop : List Char16 → Nat → Except Stop (List Byte)
  | [], dstLen => terminate dstLen
  | [unit], dstLen => emitCodepoint (unit.setWidth 32) dstLen terminate
  | unit :: second :: rest, dstLen =>
    if isHighSurrogate unit && isLowSurrogate second then
      emitCodepoint (fromSurrogates unit second) dstLen (utf16ToUtf8Loop rest)
    else emitCodepoint (unit.setWidth 32) dstLen (utf16ToUtf8Loop (second :: rest))

/-- `utf16_to_utf8`: the bytes that are written. -/
def utf16ToUtf8 (src : List Char16) (dstLen : Nat) : Except Stop (List Byte) :=
  if src = [] then .ok [] else utf16ToUtf8Loop src dstLen

def utf16ToUtf8LengthLoop : List Char16 → Nat → Int
  | [], ret => ret
  | [unit], ret => addLength (utf32CodepointUtf8Length (unit.setWidth 32)) ret fun ret => ret
  | unit :: second :: rest, ret =>
    if isHighSurrogate unit && isLowSurrogate second then
      addLength 4 ret (utf16ToUtf8LengthLoop rest)
    else addLength (utf32CodepointUtf8Length (unit.setWidth 32)) ret
      (utf16ToUtf8LengthLoop (second :: rest))

/-- `utf16_to_utf8_length`. -/
def utf16ToUtf8Length (src : List Char16) : Int :=
  if src = [] then -1 else utf16ToUtf8LengthLoop src 0

def utf8CodepointLen (ch : Byte) : Nat :=
  ((0xe5000000#32 >>> ((ch.setWidth 32 >>> 3) &&& 0x1e#32).toNat) &&& 3#32).toNat + 1

def utf8ShiftAndMask (codePoint : Char32) (byte : Byte) : Char32 :=
  (codePoint <<< 6) ||| (0x3F &&& byte.setWidth 32)

/-- `utf8_to_utf32_codepoint`, which reads `length` bytes. -/
def utf8ToUtf32Codepoint (src : List Byte) (length : Nat) : Except Stop Char32 :=
  match length, src with
  | 1, a :: _ => .ok (a.setWidth 32)
  | 2, a :: b :: _ => .ok (utf8ShiftAndMask (a.setWidth 32 &&& 0x1f) b)
  | 3, a :: b :: c :: _ => .ok (utf8ShiftAndMask (utf8ShiftAndMask (a.setWidth 32 &&& 0x0f) b) c)
  | 4, a :: b :: c :: d :: _ =>
    .ok (utf8ShiftAndMask (utf8ShiftAndMask (utf8ShiftAndMask (a.setWidth 32 &&& 0x07) b) c) d)
  | 1, _ | 2, _ | 3, _ | 4, _ => .error .overread
  | _, _ => .ok 0xffff

/-- The loop of `utf8_to_utf16_length`. A round takes at least one byte. -/
def utf8ToUtf16LengthLoop (overreadIsFatal : Bool) : Nat → List Byte → Nat → Except Stop Int
  | _, [], u16measuredLen => .ok u16measuredLen
  | 0, _ :: _, u16measuredLen => .ok u16measuredLen
  | fuel + 1, ch :: tail, u16measuredLen =>
    let u8charLen := utf8CodepointLen ch
    if (ch :: tail).length < u8charLen then
      if overreadIsFatal then .error .fatal else .ok (-1)
    else do
      let codepoint ← utf8ToUtf32Codepoint (ch :: tail) u8charLen
      utf8ToUtf16LengthLoop overreadIsFatal fuel ((ch :: tail).drop u8charLen)
        (u16measuredLen + 1 + if codepoint > 0xFFFF then 1 else 0)

/-- `utf8_to_utf16_length`. -/
def utf8ToUtf16Length (overreadIsFatal : Bool) (src : List Byte) : Except Stop Int :=
  utf8ToUtf16LengthLoop overreadIsFatal src.length src 0

/-- The units that were written, and how many of them are in front of the returned end. -/
structure Written where
  units : List Char16
  returned : Nat
deriving DecidableEq

/-- The string up to the returned end. -/
def Written.string (written : Written) : List Char16 := written.units.take written.returned

/-- The loop of `utf8_to_utf16_no_null_terminator`, with room for `room` units. -/
def utf8ToUtf16Loop : Nat → List Byte → Nat → Except Stop Written
  | _, [], _ => .ok ⟨[], 0⟩
  | 0, _ :: _, _ => .ok ⟨[], 0⟩
  | _, _ :: _, 0 => .ok ⟨[], 0⟩
  | fuel + 1, ch :: tail, room + 1 => do
      let u8len := utf8CodepointLen ch
      let codepoint ← utf8ToUtf32Codepoint (ch :: tail) u8len
      if codepoint ≤ 0xFFFF then do
        let rest ← utf8ToUtf16Loop fuel ((ch :: tail).drop u8len) room
        .ok ⟨codepoint.setWidth 16 :: rest.units, rest.returned + 1⟩
      else
        let codepoint := codepoint - 0x10000
        let high : Char16 := ((codepoint >>> 10) + 0xD800).setWidth 16
        match room with
        -- not enough room for this surrogate pair
        | 0 => .ok ⟨[high], 0⟩
        | room + 1 => do
            let rest ← utf8ToUtf16Loop fuel ((ch :: tail).drop u8len) room
            .ok ⟨high :: ((codepoint &&& 0x3FF) + 0xDC00).setWidth 16 :: rest.units,
              rest.returned + 2⟩

/-- `utf8_to_utf16_no_null_terminator`. -/
def utf8ToUtf16NoNullTerminator (src : List Byte) (dstLen : Nat) : Except Stop Written :=
  if dstLen = 0 then .ok ⟨[], 0⟩
  else if ssizeMax < dstLen then .error .fatal
  else utf8ToUtf16Loop src.length src dstLen

/-- `utf8_to_utf16`: the string with the zero behind it. -/
def utf8ToUtf16 (src : List Byte) (u16len : Nat) : Except Stop (List Char16) :=
  if u16len = 0 ∨ ssizeMax < u16len then .error .fatal
  else (utf8ToUtf16NoNullTerminator src (u16len - 1)).map fun written => written.string ++ [0]

end Aosp.Libutils
