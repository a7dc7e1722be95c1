import Mathlib.Data.BitVec
import Mathlib.Data.List.Basic

/- Packed little-endian layouts. A codec carries its own size and round trip, so a
structure assembled from field codecs never needs its layout proved again. -/
namespace Layout

open List

abbrev Byte := BitVec 8

instance : LawfulBEq (List Byte) := inferInstance

/-- A C array of `n` bytes. No other length can be built. -/
structure Fixed (n : Nat) where
  bytes : List Byte
  length_eq : bytes.length = n
deriving DecidableEq

namespace Fixed

variable {n : Nat}

@[ext] theorem ext {left right : Fixed n} (same : left.bytes = right.bytes) : left = right := by
  cases right
  cases same
  rfl

/-- The first `n` bytes of a list, zero-extended when the list is shorter. -/
def ofList (n : Nat) (bs : List Byte) : Fixed n where
  bytes := bs.take n ++ List.replicate (n - bs.length) 0
  length_eq := by
    simp only [List.length_append, List.length_take, List.length_replicate]
    omega

def zero (n : Nat) : Fixed n where
  bytes := List.replicate n 0
  length_eq := by simp

theorem bytes_ofList {bs : List Byte} (size : bs.length = n) : (ofList n bs).bytes = bs := by
  simp only [ofList, size, Nat.sub_self, replicate_zero, append_nil]
  exact take_of_length_le (le_of_eq size)

@[simp] theorem ofList_bytes (value : Fixed n) : ofList n value.bytes = value := by
  apply ext
  exact bytes_ofList value.length_eq

end Fixed

/-- Little-endian digits, least significant byte first. -/
def leBytes : Nat → Nat → List Byte
  | 0, _ => []
  | n + 1, value => BitVec.ofNat 8 value :: leBytes n (value / 256)

def leValue : List Byte → Nat
  | [] => 0
  | b :: bs => b.toNat + 256 * leValue bs

@[simp] theorem leBytes_length (n value : Nat) : (leBytes n value).length = n := by
  induction n generalizing value with
  | zero => rfl
  | succ n ih => simp only [leBytes, length_cons, ih]

theorem leValue_leBytes (n value : Nat) : leValue (leBytes n value) = value % 256 ^ n := by
  induction n generalizing value with
  | zero => simp only [leBytes, leValue, pow_zero, Nat.mod_one]
  | succ n ih =>
    simp only [leBytes, leValue, ih, pow_succ']
    exact (Nat.mod_mul).symm

theorem leValue_lt (bs : List Byte) : leValue bs < 256 ^ bs.length := by
  induction bs with
  | nil => exact one_pos
  | cons b rest ih =>
    simp only [leValue, length_cons]
    omega

theorem leBytes_leValue (bs : List Byte) : leBytes bs.length (leValue bs) = bs := by
  induction bs with
  | nil => rfl
  | cons b rest ih =>
    have low : BitVec.ofNat 8 (b.toNat + 256 * leValue rest) = b := by
      apply BitVec.eq_of_toNat_eq
      simp
      omega
    have high : (b.toNat + 256 * leValue rest) / 256 = leValue rest := by omega
    simp [leValue, leBytes, low, high, ih]

/-- A fixed-size layout without padding: every list of `size` bytes is the encoding of one
value. `decode` is total; it is only used on `size` bytes. -/
structure Codec (α : Type) where
  size : Nat
  encode : α → List Byte
  decode : List Byte → α
  encode_length : ∀ value, (encode value).length = size
  decode_encode : ∀ value, decode (encode value) = value
  encode_decode : ∀ bytes, bytes.length = size → encode (decode bytes) = bytes

namespace Codec

attribute [simp] encode_length decode_encode

/-- An unsigned integer of `n` bytes. -/
def uint (n : Nat) : Codec (BitVec (8 * n)) where
  size := n
  encode value := leBytes n value.toNat
  decode bs := BitVec.ofNat (8 * n) (leValue bs)
  encode_length value := leBytes_length n value.toNat
  decode_encode value := by
    have bound : value.toNat < 256 ^ n := by
      have := value.isLt
      rwa [Nat.pow_mul] at this
    rw [leValue_leBytes, Nat.mod_eq_of_lt bound, BitVec.ofNat_toNat, BitVec.setWidth_eq]
  encode_decode bytes length := by
    have bound : leValue bytes < 2 ^ (8 * n) := by
      have := leValue_lt bytes
      rw [Nat.pow_mul, ← length]
      exact this
    rw [BitVec.toNat_ofNat, Nat.mod_eq_of_lt bound, ← length, leBytes_leValue]

def u16 : Codec (BitVec 16) := uint 2
def u32 : Codec (BitVec 32) := uint 4
def u64 : Codec (BitVec 64) := uint 8

def fixed (n : Nat) : Codec (Fixed n) where
  size := n
  encode := Fixed.bytes
  decode := Fixed.ofList n
  encode_length := Fixed.length_eq
  decode_encode := Fixed.ofList_bytes
  encode_decode _ := Fixed.bytes_ofList

/-- Two adjacent fields, with no padding between them. -/
def prod {α β : Type} (first : Codec α) (second : Codec β) : Codec (α × β) where
  size := first.size + second.size
  encode value := first.encode value.1 ++ second.encode value.2
  decode bs := (first.decode (bs.take first.size), second.decode (bs.drop first.size))
  encode_length value := by simp [encode_length]
  decode_encode value := by
    rw [List.take_left' (first.encode_length value.1),
      List.drop_left' (first.encode_length value.1), decode_encode, decode_encode]
  encode_decode bytes length := by
    rw [first.encode_decode _ (by rw [List.length_take]; omega),
      second.encode_decode _ (by rw [List.length_drop]; omega), List.take_append_drop]

/-- A structure stored as its tuple of fields. -/
def via {α β : Type} (c : Codec α) (pack : α → β) (fields : β → α)
    (pack_fields : ∀ value, pack (fields value) = value)
    (fields_pack : ∀ value, fields (pack value) = value) : Codec β where
  size := c.size
  encode value := c.encode (fields value)
  decode bs := pack (c.decode bs)
  encode_length value := c.encode_length (fields value)
  decode_encode value := by rw [decode_encode, pack_fields]
  encode_decode bytes length := by rw [fields_pack, c.encode_decode bytes length]

/-- `memcpy` of one structure out of a buffer; `none` when it would leave the buffer. -/
def copyFrom {α : Type} (c : Codec α) (buffer : List Byte) (offset : Nat) : Option α :=
  if offset + c.size ≤ buffer.length then some (c.decode ((buffer.drop offset).take c.size))
  else none

variable {α : Type}

variable (c : Codec α)

theorem copyFrom_isSome (buffer : List Byte) (offset : Nat) :
    (c.copyFrom buffer offset).isSome ↔ offset + c.size ≤ buffer.length := by
  unfold copyFrom
  split <;> simp_all

/-- A structure is copied out of the place it was stored at. -/
theorem copyFrom_append (front back : List Byte) (value : α) :
    c.copyFrom (front ++ (c.encode value ++ back)) front.length = some value := by
  have room : front.length + c.size ≤ (front ++ (c.encode value ++ back)).length := by
    simp only [length_append, encode_length]
    omega
  rw [copyFrom, if_pos room, drop_left, take_left' (c.encode_length value), decode_encode]

/-- An array of structures, as `std::string(data(), size() * sizeof(T))` lays it out. -/
def encodeAll {α : Type} (c : Codec α) (values : List α) : List Byte := values.flatMap c.encode

@[simp] theorem encodeAll_nil : c.encodeAll [] = [] := rfl

@[simp] theorem encodeAll_cons (value : α) (rest : List α) :
    c.encodeAll (value :: rest) = c.encode value ++ c.encodeAll rest := rfl

@[simp] theorem encodeAll_length (values : List α) :
    (c.encodeAll values).length = values.length * c.size := by
  induction values with
  | nil => simp only [encodeAll_nil, length_nil, zero_mul]
  | cons value rest ih =>
    simp only [encodeAll_cons, length_append, encode_length, length_cons, Nat.succ_mul]
    omega

/-- Each structure of an array is copied out of its own place. -/
theorem copyFrom_encodeAll (front back : List Byte) (values : List α) (i : Nat) (value : α)
    (found : values[i]? = some value) :
    c.copyFrom (front ++ (c.encodeAll values ++ back)) (front.length + i * c.size) =
      some value := by
  induction values generalizing front i with
  | nil => simp at found
  | cons first rest ih =>
    cases i with
    | zero =>
      cases found
      simpa using c.copyFrom_append front (c.encodeAll rest ++ back) value
    | succ i =>
      have later := ih (front ++ c.encode first) i found
      simp only [append_assoc, length_append, encode_length] at later
      rw [encodeAll_cons, append_assoc, Nat.succ_mul,
        show front.length + (i * c.size + c.size) = front.length + c.size + i * c.size by omega]
      exact later

end Codec

end Layout
