import Aosp.Scheduler.PredictorRuns

namespace Aosp.Scheduler.VSyncPredictor

variable (p : VSyncPredictor)

variable (last timestamp : Int)

/-- Whole ideal periods away from the other timestamp, up to the tolerance. -/
def InPhase : Prop :=
  ∃ k, (distance (timestamp - last) (k * p.mIdealPeriod) * kMaxPercent).tdiv p.mIdealPeriod ≤
    p.kOutlierTolerancePercent

/-- Less than the tolerance away from a stored timestamp. -/
def Duplicate (stored timestamp : Int) : Prop :=
  (distance stored timestamp * kMaxPercent).tdiv p.mIdealPeriod < p.kOutlierTolerancePercent

/-- The percentage that `validate` looks at; it is negative for a timestamp before the last. -/
def phasePercent : Int :=
  ((timestamp - last).tmod p.mIdealPeriod * kMaxPercent).tdiv p.mIdealPeriod

def OutOfPhase : Prop :=
  p.kOutlierTolerancePercent ≤ p.phasePercent last timestamp ∧
    p.phasePercent last timestamp ≤ kMaxPercent - p.kOutlierTolerancePercent

theorem minElement_least {key : Int → Int} {values : List Int} {least : Int}
    (found : minElement (fun a b => key a < key b) values = some least) :
    least ∈ values ∧ ∀ x ∈ values, key least ≤ key x := by
  cases values with
  | nil => cases found
  | cons first rest =>
    cases found
    induction rest generalizing first with
    | nil => simp
    | cons y rest ih =>
      obtain ⟨member, below⟩ := ih (if decide (key y < key first) then y else first)
      constructor
      · grind
      · grind

variable {p} {last t : Int}

theorem Sound.validate_iff (sound : p.Sound)
    (here : p.mTimestamps[p.mLastTimestampIndex]? = some last) :
    p.validate t = some true ↔ ¬ p.OutOfPhase last t ∧ ∀ stored ∈ p.mTimestamps,
      ¬ p.Duplicate stored t := by
  have filled : p.mTimestamps ≠ [] := by
    intro empty
    rw [empty] at here
    cases here
  obtain ⟨closest, least⟩ := Option.ne_none_iff_exists'.mp (mt minElement_eq_none.mp filled :
    minElement (fun a b => decide (distance t a < distance t b)) p.mTimestamps ≠ none)
  obtain ⟨member, nearest⟩ := minElement_least least
  have all : (∀ stored ∈ p.mTimestamps, ¬ p.Duplicate stored t) ↔ ¬ p.Duplicate closest t := by
    refine ⟨fun all => all closest member, fun far stored inside => mt (lt_of_le_of_lt ?_) far⟩
    have near := nearest stored inside
    refine Int.tdiv_le_tdiv sound.period (mul_le_mul_of_nonneg_right ?_ (Int.natCast_nonneg _))
    unfold distance at near ⊢
    omega
  rw [all, VSyncPredictor.validate, if_neg filled, here]
  simp only [Option.bind_eq_bind, Option.bind_some, rem_of_pos sound.period,
    quot_of_pos sound.period]
  unfold OutOfPhase phasePercent Duplicate
  split
  · simp_all
  · simp_all

theorem distance_quot (p : VSyncPredictor) (last t : Int) :
    distance (t - last) ((t - last).tdiv p.mIdealPeriod * p.mIdealPeriod) =
      ((t - last).tmod p.mIdealPeriod).natAbs := by
  have parts := Int.mul_tdiv_add_tmod (t - last) p.mIdealPeriod
  rw [mul_comm] at parts
  unfold distance
  omega

theorem Sound.inPhase_of_later (sound : p.Sound) (later : last ≤ t)
    (valid : ¬ p.OutOfPhase last t) :
    p.InPhase last t := by
  have phase := Int.tmod_nonneg p.mIdealPeriod (sub_nonneg_of_le later)
  by_cases small : p.phasePercent last t < p.kOutlierTolerancePercent
  · refine ⟨(t - last).tdiv p.mIdealPeriod, ?_⟩
    rw [distance_quot, Int.natAbs_of_nonneg phase]
    exact le_of_lt small
  · -- just before a whole period
    refine ⟨(t - last).tdiv p.mIdealPeriod + 1, ?_⟩
    have large : kMaxPercent - p.kOutlierTolerancePercent ≤ p.phasePercent last t := by
      unfold OutOfPhase at valid
      omega
    have parts := Int.mul_tdiv_add_tmod (t - last) p.mIdealPeriod
    have below := Int.tmod_lt_of_pos (t - last) sound.period
    have away : distance (t - last) (((t - last).tdiv p.mIdealPeriod + 1) * p.mIdealPeriod) =
        p.mIdealPeriod - (t - last).tmod p.mIdealPeriod := by
      rw [mul_comm] at parts
      rw [distance, add_mul]
      omega
    have room : (p.mIdealPeriod - (t - last).tmod p.mIdealPeriod) * kMaxPercent ≤
        p.kOutlierTolerancePercent * p.mIdealPeriod := by
      have whole := Int.mul_tdiv_self_le (mul_nonneg phase (Int.natCast_nonneg kMaxPercent)) (k :=
        p.mIdealPeriod)
      have share := mul_le_mul_of_nonneg_left large (le_of_lt sound.period)
      unfold phasePercent at share
      linarith
    rw [away]
    calc _ ≤ (p.kOutlierTolerancePercent * p.mIdealPeriod).tdiv p.mIdealPeriod :=
      Int.tdiv_le_tdiv sound.period room
      _ = p.kOutlierTolerancePercent := Int.mul_tdiv_cancel _ (ne_of_gt sound.period)

/-- A timestamp before the last is never rejected for its phase, unless the tolerance is zero. -/
theorem inPhase_of_earlier (earlier : t < last) (rejected : p.OutOfPhase last t) :
    p.InPhase last t := by
  refine ⟨(t - last).tdiv p.mIdealPeriod, ?_⟩
  have phase := Int.tmod_nonneg p.mIdealPeriod (show 0 ≤ -(t - last) by omega)
  rw [Int.neg_tmod] at phase
  have sign : (((t - last).tmod p.mIdealPeriod).natAbs : Int) =
    -(t - last).tmod p.mIdealPeriod := by omega
  obtain ⟨least, -⟩ := rejected
  rw [distance_quot, sign, neg_mul, Int.neg_tdiv]
  change -p.phasePercent last t ≤ _
  omega

variable (p) in
/-- The timestamp is in the ring buffer when the call has returned. -/
def Stores (t : Int) : Prop := ∃ p', p.addVsyncTimestamp t = some (true, p')

variable (p) in
/-- The period that is learnt with the timestamp is too far from the ideal one, and the timestamps
are thrown away. -/
def Refuses (t : Int) : Prop :=
  ∃ recorded p', p.record t = some recorded ∧ recorded.learn = some (false, p')

theorem Sound.stores_iff (sound : p.Sound) (t : Int) :
    p.Stores t ↔ p.validate t = some true ∧ ¬ p.Refuses t := by
  unfold Stores Refuses VSyncPredictor.addVsyncTimestamp
  obtain ⟨valid, validated⟩ := sound.validate t
  obtain ⟨recorded, isRecorded, sound', filled, -⟩ := sound.record t
  obtain ⟨⟨learnt, p'⟩, isLearnt, -⟩ := sound'.learn filled
  cases valid with
  | true => cases learnt <;> simp [validated, isRecorded, isLearnt]
  | false => simp [validated]

/-- A model that is learnt leaves the ring buffer as it is. -/
theorem learn_true {p' : VSyncPredictor} (learnt : p.learn = some (true, p')) :
    ∃ model, p' = p.store model := by
  unfold VSyncPredictor.learn at learnt
  split at learnt
  · cases learnt
    exact ⟨_, rfl⟩
  · simp only [Option.bind_eq_bind, Option.bind_eq_some_iff] at learnt
    obtain ⟨_, -, _, -, regressed, -, learnt⟩ := learnt
    cases regressed with
    | none => cases learnt
    | some model =>
      obtain ⟨_, -, learnt⟩ := Option.bind_eq_some_iff.mp learnt
      split at learnt <;> cases learnt
      exact ⟨model, rfl⟩

/-- How a timestamp that is stored relates to the ones before. -/
structure Samples (p : VSyncPredictor) (last : Int) : Prop where
  index : p.mTimestamps[p.mLastTimestampIndex]? = some last
  next : ∀ t p', p.addVsyncTimestamp t = some (true, p') →
    p'.mTimestamps[p'.mLastTimestampIndex]? = some t
  apart : ∀ t, p.Stores t → ∀ stored ∈ p.mTimestamps, ¬ p.Duplicate stored t
  phase : ∀ t, (p.Stores t → p.InPhase last t) ↔
    last ≤ t ∨ p.InPhase last t ∨ (∃ stored ∈ p.mTimestamps, p.Duplicate stored t) ∨ p.Refuses t

theorem Sound.samples (sound : p.Sound) {latest : Option Int} (ring : p.Ring latest)
    (index : p.mTimestamps[p.mLastTimestampIndex]? = some last) :
    p.Samples last := by
  refine ⟨index, fun t p' returned => ?_, fun t stores => ?_, fun t => ?_⟩
  · have valid := ((sound.stores_iff t).mp ⟨p', returned⟩).1
    obtain ⟨recorded, isRecorded, -, filled, stored⟩ := sound.record t
    have learnt : recorded.learn = some (true, p') := by
      rw [← returned]
      simp [VSyncPredictor.addVsyncTimestamp, valid, isRecorded]
    obtain ⟨model, rfl⟩ := learn_true learnt
    exact (stored latest ring).last filled
  · exact ((sound.validate_iff index).mp ((sound.stores_iff t).mp stores).1).2
  · rw [sound.stores_iff, sound.validate_iff index]
    constructor
    · intro stores
      by_contra other
      simp only [not_or, not_exists, not_and, not_le] at other
      obtain ⟨earlier, out, new, learnt⟩ := other
      exact out (stores ⟨⟨fun rejected => out (inPhase_of_earlier earlier rejected), new⟩, learnt⟩)
    · rintro (later | inPhase | ⟨stored, member, duplicate⟩ | refuses) ⟨⟨valid, new⟩, learnt⟩
      · exact sound.inPhase_of_later later valid
      · exact inPhase
      · exact absurd duplicate (new stored member)
      · exact absurd refuses learnt

end Aosp.Scheduler.VSyncPredictor
