import Mathlib.Data.List.Basic
import Mathlib.Order.Basic

/- Transfers between the cells of one memory. Each reads some cells and gives new contents to
some cells. Carried out in place, one after the other, they give what they would give on an
untouched copy, as long as no transfer reads a cell that an earlier one has written. -/
namespace InPlace

open List

/-- One transfer. -/
structure Transfer (α β : Type) where
  reads : α → Prop
  writes : α → Bool
  result : (α → β) → α → β
  determined : ∀ {m n : α → β}, (∀ a, reads a → m a = n a) → ∀ a, result m a = result n a

variable {α β : Type}

namespace Transfer

def apply (t : Transfer α β) (m : α → β) : α → β := fun a =>
  if t.writes a then t.result m a else m a

end Transfer

variable (ts : List (Transfer α β))

/-- All transfers in place, in order. -/
def run (m : α → β) : α → β := ts.foldl (fun m t => t.apply m) m

/-- All transfers on an untouched copy. -/
def image (m : α → β) : α → β := fun a =>
  match ts.find? (fun t => t.writes a) with
  | some t => t.result m a
  | none => m a

/-- Transfers that write a common cell are one and the same. -/
def OneWriter : Prop :=
  ∀ t ∈ ts, ∀ u ∈ ts, ∀ a, t.writes a = true → u.writes a = true → t = u

/-- No transfer reads what an earlier one has written. -/
def InOrder : Prop :=
  ts.Pairwise fun earlier later => ∀ a, earlier.writes a = true → ¬ later.reads a

variable {ts} {t : Transfer α β} {a : α}

theorem image_of_mem (one : OneWriter ts) (member : t ∈ ts) (written : t.writes a = true)
    (m : α → β) :
    image ts m a = t.result m a := by
  unfold image
  cases found : ts.find? (fun t => t.writes a) with
  | none =>
    have absent := find?_eq_none.mp found t member
    exact absurd written absent
  | some u =>
    have writes := find?_some found
    have same := one u (mem_of_find?_eq_some found) t member a writes written
    rw [same]

theorem image_of_unwritten (unwritten : ∀ t ∈ ts, ¬ t.writes a = true) (m : α → β) :
    image ts m a = m a := by
  unfold image
  rw [find?_eq_none.mpr unwritten]

/-- What is left of a cell that no transfer writes. -/
theorem run_of_unwritten (unwritten : ∀ t ∈ ts, ¬ t.writes a = true) (m : α → β) :
    run ts m a = m a := by
  induction ts generalizing m with
  | nil => rfl
  | cons t later ih =>
    have here : t.apply m a = m a := if_neg (unwritten t mem_cons_self)
    exact (ih (fun u member => unwritten u (mem_cons_of_mem _ member)) _).trans here

theorem run_append (ts us : List (Transfer α β)) (m : α → β) :
    run (ts ++ us) m = run us (run ts m) := by
  simp [run]

/-- A cell whose one writer does not look at the memory gets the same contents from any
memory. -/
theorem run_of_constant (one : OneWriter ts) (member : t ∈ ts) (written : t.writes a = true)
    (constant : ∀ m n, t.result m a = t.result n a) (m n : α → β) :
    run ts m a = t.result n a := by
  induction ts generalizing m with
  | nil => cases member
  | cons first later ih =>
    have oneLater : OneWriter later := fun u inU v inV =>
      one u (mem_cons_of_mem _ inU) v (mem_cons_of_mem _ inV)
    by_cases again : t ∈ later
    · exact ih oneLater again _
    · have isFirst : t = first := by
        rcases mem_cons.mp member with same | inLater
        · exact same
        · exact absurd inLater again
      subst isFirst
      have unwritten : ∀ u ∈ later, ¬ u.writes a = true := by
        intro u inLater writes
        have same := one t member u (mem_cons_of_mem _ inLater) a written writes
        exact again (same ▸ inLater)
      exact (run_of_unwritten unwritten _).trans ((if_pos written).trans (constant m n))

/-- A memory that still agrees with the original where the transfers read ends up as their
image where they write. -/
theorem run_of_agrees (order : InOrder ts) {original m : α → β}
    (agrees : ∀ t ∈ ts, ∀ a, t.reads a → m a = original a) (one : OneWriter ts) (member : t ∈ ts)
    (written : t.writes a = true) :
    run ts m a = t.result original a := by
  induction ts generalizing m with
  | nil => cases member
  | cons first later ih =>
    obtain ⟨unread, orderLater⟩ := pairwise_cons.mp order
    have oneLater : OneWriter later := fun u inU v inV =>
      one u (mem_cons_of_mem _ inU) v (mem_cons_of_mem _ inV)
    -- the first transfer leaves everything alone that the later ones read
    have agreesLater : ∀ u ∈ later, ∀ x, u.reads x → first.apply m x = original x := by
      intro u inLater x reads
      have unwritten : ¬ first.writes x = true := fun writes => unread u inLater x writes reads
      exact (if_neg unwritten).trans (agrees u (mem_cons_of_mem _ inLater) x reads)
    by_cases again : ∃ u ∈ later, u.writes a = true
    · obtain ⟨u, inLater, writes⟩ := again
      have same := one t member u (mem_cons_of_mem _ inLater) a written writes
      exact ih orderLater agreesLater oneLater (same ▸ inLater)
    · have unwritten : ∀ u ∈ later, ¬ u.writes a = true := fun u inLater writes =>
        again ⟨u, inLater, writes⟩
      have isFirst : t = first := by
        rcases mem_cons.mp member with same | inLater
        · exact same
        · exact absurd written (unwritten t inLater)
      subst isFirst
      refine (run_of_unwritten unwritten _).trans ((if_pos written).trans ?_)
      exact t.determined (agrees t mem_cons_self) a

/-- In place and in order is as good as on an untouched copy. -/
theorem run_eq_image (one : OneWriter ts) (order : InOrder ts) (m : α → β) :
    run ts m = image ts m := by
  funext a
  by_cases written : ∃ t ∈ ts, t.writes a = true
  · obtain ⟨t, member, writes⟩ := written
    rw [image_of_mem one member writes]
    exact run_of_agrees order (fun _ _ _ _ => rfl) one member writes
  · have unwritten : ∀ t ∈ ts, ¬ t.writes a = true := fun t member writes =>
      written ⟨t, member, writes⟩
    rw [run_of_unwritten unwritten, image_of_unwritten unwritten]

end InPlace
