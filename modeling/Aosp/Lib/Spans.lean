import Mathlib.Order.Basic
import Mathlib.Order.Lattice
import Mathlib.Data.List.Basic
import Mathlib.Data.List.Forall2

/- Half-open spans over a linear order: the gaps between the members of a sorted list.
Members may be empty, and one of them may start at the ceiling while another runs past it. -/
namespace Spans

open List List.Pairwise

/-- The gaps a function finds between neighbours. -/
def between {τ : Type} (gap : τ → τ → Option τ) : List τ → List τ
  | previous :: current :: rest => (gap previous current).toList ++ between gap (current :: rest)
  | _ => []

variable {τ α : Type} [LinearOrder α] (start stop : τ → α)

/-- On these members the function only ever shortens the space between its arguments. -/
structure Fits (gap : τ → τ → Option τ) (members : List τ) : Prop where
  after : ∀ previous ∈ members, ∀ current g, gap previous current = some g → stop previous ≤ start g
  upTo : ∀ previous current g, gap previous current = some g → stop g = start current
  nonempty : ∀ previous current g, gap previous current = some g → start g < stop g

/-- What sorting gives: starts increase, and a member ends no later than the ones behind it
unless those start at the ceiling. -/
structure Ordered (ceiling : α) (members : List τ) : Prop where
  starts : members.Pairwise fun a b => start a ≤ start b
  stops : members.Pairwise fun a b => stop a ≤ stop b ∨ ceiling ≤ start b
  bounded : ∀ a ∈ members, start a ≤ ceiling
  formed : ∀ a ∈ members, start a ≤ stop a

variable {start stop} {gap : τ → τ → Option τ} {ceiling : α} {members : List τ}

variable {first : τ} {rest : List τ}

theorem Ordered.tail (o : Ordered start stop ceiling (first :: rest)) :
    Ordered start stop ceiling rest where
  starts := (pairwise_cons.mp o.starts).2
  stops := (pairwise_cons.mp o.stops).2
  bounded a member := o.bounded a (mem_cons_of_mem _ member)
  formed a member := o.formed a (mem_cons_of_mem _ member)

theorem Fits.tail (fits : Fits start stop gap (first :: rest)) : Fits start stop gap rest where
  after previous member := fits.after previous (mem_cons_of_mem _ member)
  upTo := fits.upTo
  nonempty := fits.nonempty

variable {g : τ}

theorem between_origin (found : g ∈ between gap members) :
    ∃ previous ∈ members, ∃ current ∈ members, gap previous current = some g := by
  induction members with
  | nil => cases found
  | cons first rest ih =>
    cases rest with
    | nil => cases found
    | cons second rest =>
      rw [between, mem_append, Option.mem_toList] at found
      rcases found with here | later
      · exact ⟨first, by simp, second, by simp, here⟩
      · obtain ⟨previous, previousIn, current, currentIn, made⟩ := ih later
        exact ⟨previous, mem_cons_of_mem _ previousIn, current, mem_cons_of_mem _ currentIn, made⟩

/-- Whatever stands in front of a list ends before each gap of the list. -/
theorem front_stops_before (fits : Fits start stop gap rest)
    (o : Ordered start stop ceiling (first :: rest)) (found : g ∈ between gap rest) :
    stop first ≤ start g := by
  obtain ⟨previous, previousIn, current, currentIn, made⟩ := between_origin found
  have after := fits.after previous previousIn current g made
  rcases (pairwise_cons.mp o.stops).1 previous previousIn with earlier | atCeiling
  · exact earlier.trans after
  · -- a member at the ceiling leaves no room for a gap behind it
    have low : start previous < start current :=
      calc start previous ≤ stop previous := o.tail.formed previous previousIn
        _ ≤ start g := after
        _ < stop g := fits.nonempty previous current g made
        _ = start current := fits.upTo previous current g made
    exact absurd (atCeiling.trans_lt low) (not_lt.mpr (o.tail.bounded current currentIn))

theorem between_apart (fits : Fits start stop gap members)
    (o : Ordered start stop ceiling members) (found : g ∈ between gap members) {a : τ}
    (member : a ∈ members) :
    stop a ≤ start g ∨ stop g ≤ start a := by
  induction members with
  | nil => cases member
  | cons first rest ih =>
    cases rest with
    | nil => cases found
    | cons second rest =>
      have sorted := pairwise_cons.mp o.starts
      have sortedTail := pairwise_cons.mp sorted.2
      rcases mem_cons.mp member with rfl | behind
      · rw [between, mem_append, Option.mem_toList] at found
        rcases found with here | later
        · exact .inl (fits.after _ mem_cons_self _ _ here)
        · exact .inl (front_stops_before fits.tail o later)
      · rw [between, mem_append, Option.mem_toList] at found
        rcases found with here | later
        · right
          rw [fits.upTo _ _ _ here]
          rcases mem_cons.mp behind with rfl | behind
          · exact le_rfl
          · exact sortedTail.1 a behind
        · exact ih fits.tail o.tail later behind

theorem between_pairwise (fits : Fits start stop gap members)
    (o : Ordered start stop ceiling members) :
    (between gap members).Pairwise fun g h => stop g ≤ start h := by
  induction members with
  | nil => exact nil
  | cons first rest ih =>
    cases rest with
    | nil => exact nil
    | cons second rest =>
      rw [between, pairwise_append]
      refine ⟨?_, ih fits.tail o.tail, ?_⟩
      · cases gap first second with
        | none => exact nil
        | some g => exact pairwise_singleton _ g
      · intro g here h later
        rw [Option.mem_toList] at here
        rw [fits.upTo _ _ _ here]
        obtain ⟨previous, previousIn, current, _, made⟩ := between_origin later
        have after := fits.tail.after previous previousIn current h made
        rcases mem_cons.mp previousIn with rfl | behind
        · exact (o.tail.formed _ mem_cons_self).trans after
        · have sorted := pairwise_cons.mp o.tail.starts
          exact ((sorted.1 previous behind).trans (o.tail.formed previous previousIn)).trans after

/-- Gaps stay above the lowest start and below the ceiling, also when members overlap. -/
theorem between_inside (fits : Fits start stop gap members) {floor : α}
    (lowest : ∀ a ∈ members, floor ≤ start a) (formed : ∀ a ∈ members, start a ≤ stop a)
    (bounded : ∀ a ∈ members, start a ≤ ceiling) (found : g ∈ between gap members) :
    floor ≤ start g ∧ start g < stop g ∧ stop g ≤ ceiling := by
  obtain ⟨previous, previousIn, current, currentIn, made⟩ := between_origin found
  refine ⟨?_, fits.nonempty previous current g made, ?_⟩
  · exact ((lowest previous previousIn).trans (formed previous previousIn)).trans
      (fits.after previous previousIn current g made)
  · rw [fits.upTo previous current g made]
    exact bounded current currentIn

section Selection

variable {σ υ : Type} {chosen : σ → υ → Prop} {picked : List σ} {source : List υ}

theorem selection_origin (selected : List.SublistForall₂ chosen picked source) {a : σ}
    (member : a ∈ picked) :
    ∃ x ∈ source, chosen a x := by
  induction selected with
  | nil => cases member
  | cons here _ ih =>
    rcases mem_cons.mp member with rfl | later
    · exact ⟨_, mem_cons_self, here⟩
    · obtain ⟨x, inSource, related⟩ := ih later
      exact ⟨x, mem_cons_of_mem _ inSource, related⟩
  | cons_right _ ih =>
    obtain ⟨x, inSource, related⟩ := ih member
    exact ⟨x, mem_cons_of_mem _ inSource, related⟩

/-- What holds between the members of a list holds between the parts chosen from them. -/
theorem selection_pairwise {related : υ → υ → Prop} {relatedParts : σ → σ → Prop}
    (selected : List.SublistForall₂ chosen picked source)
    (parts : ∀ a b x y, chosen a x → chosen b y → related x y → relatedParts a b)
    (pairwise : source.Pairwise related) :
    picked.Pairwise relatedParts := by
  induction selected with
  | nil => exact nil
  | cons here later ih =>
    rw [pairwise_cons] at pairwise ⊢
    refine ⟨fun b member => ?_, ih pairwise.2⟩
    obtain ⟨y, inSource, chosenB⟩ := selection_origin later member
    exact parts _ b _ y here chosenB (pairwise.1 y inSource)
  | cons_right _ ih => exact ih (pairwise_cons.mp pairwise).2

end Selection

end Spans
