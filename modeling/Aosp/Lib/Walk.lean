import Mathlib.Data.Finset.Card
import Mathlib.Logic.Relation

/- Walks that go from each point to at most one other. -/
namespace Walk

open Relation

variable {α : Type} (next : α → Option α)

/-- The walk ends within so many steps. -/
def stops : Nat → α → Bool
  | 0, _ => false
  | n + 1, a => match next a with
    | none => true
    | some b => stops n b

def Leads (a b : α) : Prop := next a = some b

/-- The walk comes back to a point. -/
def Returns (a : α) : Prop := ∃ p, ReflTransGen (Leads next) a p ∧ TransGen (Leads next) p p

variable {next}

variable {a : α}

theorem Returns.step {b : α} (returns : Returns next a) (leads : next a = some b) :
    Returns next b := by
  have only {c : α} (other : Leads next a c) : c = b := Option.some.inj (other.symm.trans leads)
  obtain ⟨p, path, cycle⟩ := returns
  rcases ReflTransGen.cases_head path with rfl | ⟨c, first, rest⟩
  · -- The cycle goes through the first point, so the second is on it.
    obtain ⟨c, first, rest⟩ := TransGen.head'_iff.mp cycle
    cases only first
    exact ⟨b, .refl, TransGen.tail' rest first⟩
  · cases only first
    exact ⟨p, rest, cycle⟩

theorem not_returns_of_stops {n : Nat} (stopped : stops next n a = true) : ¬ Returns next a := by
  induction n generalizing a with
  | zero => cases stopped
  | succ n ih =>
    intro returns
    unfold stops at stopped
    split at stopped
    · rename_i last
      obtain ⟨p, path, cycle⟩ := returns
      have stays : ∀ c, ¬ Leads next a c := fun c leads => by simp [Leads, last] at leads
      rcases ReflTransGen.cases_head path with rfl | ⟨c, first, -⟩
      · obtain ⟨c, first, -⟩ := TransGen.head'_iff.mp cycle
        exact stays c first
      · exact stays c first
    · rename_i b leads
      exact ih stopped (returns.step leads)

/-- A walk on finitely many points that does not come back ends. -/
theorem stops_of_not_returns [DecidableEq α] (points : Finset α)
    (inside : ∀ p, ReflTransGen (Leads next) a p → next p ≠ none → p ∈ points)
    (never : ¬ Returns next a) :
    stops next (points.card + 1) a = true := by
  generalize count : points.card = n
  induction n generalizing points a with
  | zero =>
    unfold stops
    split
    · rfl
    · rename_i b leads
      have here := inside a .refl (by simp [leads])
      rw [Finset.card_eq_zero.mp count] at here
      simp at here
  | succ n ih =>
    unfold stops
    split
    · rfl
    · rename_i b leads
      have here := inside a .refl (by simp [leads])
      refine ih (points.erase a) ?_ ?_ (by rw [Finset.card_erase_of_mem here, count]; rfl)
      · intro p path goes
        refine Finset.mem_erase.mpr ⟨?_, inside p (.head leads path) goes⟩
        rintro rfl
        exact never ⟨p, .refl, TransGen.head' leads path⟩
      · rintro ⟨p, path, cycle⟩
        exact never ⟨p, .head leads path, cycle⟩

end Walk
