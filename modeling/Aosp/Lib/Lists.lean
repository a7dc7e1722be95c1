import Mathlib.Data.List.Pairwise

/- Facts about lists that the models share. -/
namespace Lists

open List

variable {α : Type} {items : List α} {a b : α}

theorem exists_last [DecidableEq α] (member : a ∈ items) :
    ∃ front back, items = front ++ a :: back ∧ a ∉ back := by
  obtain ⟨front, back, split, absent⟩ := eq_append_cons_of_mem (mem_reverse.mpr member)
  refine ⟨back.reverse, front.reverse, ?_, fun inside => absent (mem_reverse.mp inside)⟩
  rw [← reverse_reverse items, split, reverse_append, reverse_cons, append_assoc, singleton_append]

theorem either_of_pairwise {related : α → α → Prop} (pairs : items.Pairwise related)
    (inA : a ∈ items) (inB : b ∈ items) (ne : a ≠ b) :
    related a b ∨ related b a := by
  have : Std.Symm fun p q => related p q ∨ related q p := ⟨fun _ _ => Or.symm⟩
  have both : items.Pairwise fun p q => related p q ∨ related q p := pairs.imp .inl
  exact both.forall inA inB ne

theorem starts_takeWhile {p : α → Bool} {front : List α} (all : ∀ a ∈ front, p a = true) :
    front <+: items.takeWhile p ↔ front <+: items := by
  constructor
  · intro starts
    exact starts.trans <| takeWhile_prefix p
  · rintro ⟨rest, rfl⟩
    rw [takeWhile_append_of_pos all]
    exact prefix_append _ _

end Lists
