import Mathlib.Data.List.Basic

/- A value kept twice. The second copy is read when the first is damaged; an update brings
both copies in line before it overwrites one after the other. -/
namespace Mirror

inductive Side where
  | primary
  | backup
deriving DecidableEq

/-- The readable content of the two copies. -/
structure Store (α : Type) where
  primary : Option α
  backup : Option α

variable {α : Type}

namespace Store

def read (s : Store α) : Option α := s.primary.or s.backup

def set (s : Store α) : Side → Option α → Store α
  | .primary, value => { s with primary := value }
  | .backup, value => { s with backup := value }

/-- The stores a sequence of writes can leave when it is stopped. A torn write damages the
copy it is for and nothing else. -/
inductive Interrupted : Store α → List (Side × α) → Store α → Prop
  | rest (s : Store α) (writes : List (Side × α)) : Interrupted s writes s
  | torn (s : Store α) (side : Side) (value : α) (later : List (Side × α)) :
      Interrupted s ((side, value) :: later) (s.set side none)
  | next {s t : Store α} {side : Side} {value : α} {later : List (Side × α)}
      (stopped : Interrupted (s.set side (some value)) later t) :
      Interrupted s ((side, value) :: later) t

/-- The write that brings the copies in line: none when they agree, else the readable value,
the primary first, goes to the other side. -/
inductive Repair (s : Store α) : List (Side × α) → Prop
  | agree (same : s.primary = s.backup) : Repair s []
  | backup {value : α} (readable : s.primary = some value) : Repair s [(.backup, value)]
  | primary {value : α} (damaged : s.primary = none) (readable : s.backup = some value) :
    Repair s [(.primary, value)]

/-- An update, or the part of it that was carried out before it gave up. -/
structure Updates (s : Store α) (new : α) (writes : List (Side × α)) : Prop where
  planned : ∃ repair, s.Repair repair ∧ writes <+: repair ++ [(.primary, new), (.backup, new)]

variable {s t : Store α}

theorem interrupted_nil (stopped : s.Interrupted [] t) : t = s := by
  cases stopped
  rfl

variable {new : α}

/-- Overwriting copies that agree keeps the old value readable until the new one is. -/
theorem interrupted_overwrite {value : α}
    (stopped : Interrupted ⟨some value, some value⟩ [(.primary, new), (.backup, new)] t) :
    t.read = some value ∨ t.read = some new := by
  cases stopped with
  | rest => exact .inl rfl
  | torn => exact .inl rfl
  | next stopped =>
    cases stopped with
    | rest => exact .inr rfl
    | torn => exact .inr rfl
    | next stopped =>
      rw [interrupted_nil stopped]
      exact .inr rfl

variable {writes : List (Side × α)}

/-- Fewer writes can leave no more than all of them. -/
theorem Interrupted.of_part {all : List (Side × α)} (stopped : s.Interrupted writes t)
    (part : writes <+: all) :
    s.Interrupted all t := by
  induction stopped generalizing all with
  | rest => exact .rest _ _
  | torn s side value later =>
    obtain ⟨rest, rfl⟩ := part
    exact .torn s side value (later ++ rest)
  | @next s t side value later stopped ih =>
    obtain ⟨rest, rfl⟩ := part
    exact .next (ih (List.prefix_append later rest))

/-- An update that is stopped anywhere leaves the old or the new value readable. -/
theorem Updates.interrupted {old : α} (updates : s.Updates new writes)
    (readable : s.read = some old) (stopped : s.Interrupted writes t) :
    t.read = some old ∨ t.read = some new := by
  obtain ⟨repair, repairs, part⟩ := updates.planned
  have whole := stopped.of_part part
  obtain ⟨first, second⟩ := s
  cases repairs with
  | agree same =>
    cases same
    cases first with
    | none => cases readable
    | some value =>
      cases readable
      exact interrupted_overwrite whole
  | backup present =>
    cases present
    cases readable
    cases whole with
    | rest => exact .inl rfl
    | torn => exact .inl rfl
    | next stopped => exact interrupted_overwrite stopped
  | primary damaged present =>
    cases damaged
    cases present
    cases readable
    cases whole with
    | rest => exact .inl rfl
    | torn => exact .inl rfl
    | next stopped => exact interrupted_overwrite stopped

/-- The store after all writes. -/
def setAll (s : Store α) (writes : List (Side × α)) : Store α :=
  writes.foldl (fun s w => s.set w.1 (some w.2)) s

/-- A whole update leaves the new value. -/
theorem read_setAll (s : Store α) (repair : List (Side × α)) (new : α) :
    (s.setAll (repair ++ [(.primary, new), (.backup, new)])).read = some new := by
  unfold setAll
  rw [List.foldl_append]
  rfl

end Store

end Mirror
