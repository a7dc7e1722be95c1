import Aosp.Lib.Codec

/- A byte-addressed medium, writes of whole regions, and sequences of writes that stop part
of the way. -/
namespace Layout

open List

/-- A device of `size` bytes. The bytes behind its end are never read. -/
structure Medium where
  size : Nat
  byte : Nat → Byte

/-- One write of a region. -/
structure Write where
  address : Nat
  bytes : List Byte

namespace Write

def stop (w : Write) : Nat := w.address + w.bytes.length

def Covers (w : Write) (a : Nat) : Prop := w.address ≤ a ∧ a < w.stop

instance (w : Write) (a : Nat) : Decidable (w.Covers a) := inferInstanceAs (Decidable (_ ∧ _))

end Write

namespace Medium

variable (m : Medium) (address : Nat)

/-- The bytes at `address`. -/
def region (address length : Nat) : List Byte :=
  (List.range length).map fun i => m.byte (address + i)

/-- Everything from `address` to the end of the device. -/
def readFrom : List Byte := m.region address (m.size - address)

def write (w : Write) : Medium where
  size := m.size
  byte a := if w.Covers a then w.bytes.getD (a - w.address) 0 else m.byte a

def writeAll (writes : List Write) : Medium := writes.foldl write m

@[simp] theorem region_length (address length : Nat) :
    (m.region address length).length = length := by
  simp [region]

theorem region_zero : m.region address 0 = [] := rfl

theorem write_nil : m.write ⟨address, []⟩ = m := by
  have nothing (a : Nat) : ¬ (⟨address, []⟩ : Write).Covers a := by
    unfold Write.Covers Write.stop
    simp only [length_nil]
    omega
  simp [write, nothing]

theorem region_add (address first second : Nat) :
    m.region address (first + second) =
      m.region address first ++ m.region (address + first) second := by
  simp only [region, range_add, map_append, map_map]
  congr 1
  apply map_congr_left
  intro i _
  simp only [Function.comp, add_assoc]

variable {address} {length : Nat}

theorem readFrom_split (inside : address + length ≤ m.size) :
    m.readFrom address = m.region address length ++ m.readFrom (address + length) := by
  unfold readFrom
  rw [← region_add]
  congr 1
  omega

variable {m} {n : Medium}

theorem region_congr (same : ∀ a, address ≤ a → a < address + length → n.byte a = m.byte a) :
    n.region address length = m.region address length := by
  apply map_congr_left
  intro i member
  have inRange := mem_range.mp member
  exact same _ (by omega) (by omega)

theorem region_write (m : Medium) (w : Write) :
    (m.write w).region w.address w.bytes.length = w.bytes := by
  apply ext_getElem?
  intro i
  rcases lt_or_ge i w.bytes.length with inside | outside
  · have covered : w.Covers (w.address + i) := ⟨by omega, by unfold Write.stop; omega⟩
    simp only [region, getElem?_map, getElem?_range inside, Option.map_some, write,
      covered, ↓reduceIte, Nat.add_sub_cancel_left, List.getElem?_eq_getElem inside,
      getD_eq_getElem?_getD, Option.getD_some]
  · rw [List.getElem?_eq_none (by simpa using outside), List.getElem?_eq_none outside]

/-- `n` is `m` with other bytes where `w` writes. -/
structure DiffersAt (m : Medium) (w : Write) (n : Medium) : Prop where
  size : n.size = m.size
  byte : ∀ a, ¬ w.Covers a → n.byte a = m.byte a

theorem write_differsAt (m : Medium) (w : Write) : m.DiffersAt w (m.write w) where
  size := rfl
  byte _ outside := if_neg outside

variable {w : Write}

theorem DiffersAt.region (differs : m.DiffersAt w n)
    (apart : ∀ a, address ≤ a → a < address + length → ¬ w.Covers a) :
    n.region address length = m.region address length :=
  region_congr fun a low high => differs.byte a (apart a low high)

theorem region_write_apart (m : Medium) (w : Write)
    (apart : address + length ≤ w.address ∨ w.stop ≤ address) :
    (m.write w).region address length = m.region address length := by
  apply (m.write_differsAt w).region
  intro a low high
  unfold Write.Covers
  omega

variable {i : Nat}

theorem region_part (m : Medium) {n : Nat} (inside : i + n ≤ length) :
    ((m.region address length).drop i).take n = m.region (address + i) n := by
  have whole : length = i + (n + (length - (i + n))) := by omega
  rw [whole, region_add, drop_left' (region_length _ _ _), region_add,
    take_left' (region_length _ _ _)]

variable {writes : List Write}

/-- A region is left with the bytes of the one write that reaches it. -/
theorem region_writeAll (once : ∀ v ∈ writes, v = w ∨ ∀ a, w.Covers a → ¬ v.Covers a)
    (held : m.region w.address w.bytes.length = w.bytes ∨ w ∈ writes) :
    (m.writeAll writes).region w.address w.bytes.length = w.bytes := by
  induction writes generalizing m with
  | nil =>
    rcases held with here | absent
    · exact here
    · cases absent
  | cons v later ih =>
    apply ih fun other member => once other (mem_cons_of_mem _ member)
    rcases once v mem_cons_self with rfl | apart
    · exact .inl (m.region_write v)
    · rcases held with here | member
      · left
        rw [(m.write_differsAt v).region fun a low high => apart a ⟨low, high⟩, here]
      · rcases mem_cons.mp member with rfl | after
        · exact .inl (m.region_write w)
        · exact .inr after

/-- The media a sequence of writes can leave when it is stopped: after some whole writes, or
in the middle of one that `torn` allows. -/
inductive Interrupted (torn : Medium → Write → Prop) : Medium → List Write → Medium → Prop
  | rest (m : Medium) (writes : List Write) : Interrupted torn m writes m
  | torn {m n : Medium} {w : Write} (later : List Write) (differs : m.DiffersAt w n)
      (allowed : torn n w) : Interrupted torn m (w :: later) n
  | next {m n : Medium} {w : Write} {later : List Write} (inside : w.stop ≤ m.size)
      (stopped : Interrupted torn (m.write w) later n) : Interrupted torn m (w :: later) n

variable {torn : Medium → Write → Prop}

/-- What a write and a torn write both keep holds wherever the sequence stops. -/
theorem Interrupted.invariant (stopped : Interrupted torn m writes n) (kept : Medium → Prop)
    (preserves : ∀ w ∈ writes, ∀ before after, kept before → before.DiffersAt w after → kept after)
    (start : kept m) :
    kept n := by
  induction stopped with
  | rest => exact start
  | torn later differs allowed => exact preserves _ mem_cons_self _ _ start differs
  | @next m n w later inside stopped ih =>
    exact ih (fun other member => preserves other (mem_cons_of_mem _ member))
      (preserves w mem_cons_self _ _ start (m.write_differsAt w))

theorem Interrupted.mono {torn' : Medium → Write → Prop} (stopped : Interrupted torn m writes n)
    (weaker : ∀ state w, torn state w → torn' state w) :
    Interrupted torn' m writes n := by
  induction stopped with
  | rest => exact .rest _ _
  | torn later differs allowed => exact .torn later differs (weaker _ _ allowed)
  | next inside _ ih => exact .next inside ih

theorem interrupted_nil (stopped : Interrupted torn m [] n) : n = m := by
  cases stopped
  rfl

/-- Writes that stay on the device can all be carried out. -/
theorem interrupted_writeAll (torn : Medium → Write → Prop)
    (inside : ∀ w ∈ writes, w.stop ≤ m.size) :
    Interrupted torn m writes (m.writeAll writes) := by
  induction writes generalizing m with
  | nil => exact .rest _ _
  | cons w later ih =>
    exact .next (inside w mem_cons_self) (ih fun other member =>
      inside other (mem_cons_of_mem _ member))

end Medium

end Layout
