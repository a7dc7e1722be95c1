import Aosp.Scheduler.VSyncPredictor

namespace Aosp.Scheduler

open Option List AList

variable {b : Int}

theorem quot_of_pos (positive : 0 < b) (a : Int) : quot a b = some (a.tdiv b) :=
  if_neg (ne_of_gt positive)

theorem rem_of_pos (positive : 0 < b) (a : Int) : rem a b = some (a.tmod b) :=
  if_neg (ne_of_gt positive)

/-- Also below zero, where the quotient is rounded up. -/
theorem lt_tdiv_add_one_mul (positive : 0 < b) (a : Int) : a < (a.tdiv b + 1) * b := by
  have parts := Int.mul_tdiv_add_tmod a b
  have less := Int.tmod_lt_of_pos a positive
  calc a = b * a.tdiv b + a.tmod b := parts.symm
    _ < b * a.tdiv b + b := by omega
    _ = (a.tdiv b + 1) * b := by rw [add_mul, one_mul, mul_comm]

/-- The next multiple is more than `b` away from a value below zero, unless the value is one itself.
-/
theorem tdiv_add_one_mul_le_iff (a b : Int) : (a.tdiv b + 1) * b ≤ a + b ↔ 0 ≤ a ∨ b ∣ a := by
  have parts := Int.mul_tdiv_add_tmod a b
  have whole : (a.tdiv b + 1) * b = b * a.tdiv b + b := by rw [add_mul, one_mul, mul_comm]
  rw [Int.dvd_iff_tmod_eq_zero]
  rcases Int.lt_or_le a 0 with below | above
  · have back := Int.tmod_nonneg b (neg_nonneg_of_nonpos (le_of_lt below))
    rw [Int.neg_tmod] at back
    omega
  · have back := Int.tmod_nonneg b above
    omega

/-- A value within less than a whole of `b` of `b` is positive. -/
theorem pos_of_distance {a : Int} (positive : 0 < b)
    (near : (distance a b * kMaxPercent).tdiv b < kMaxPercent) :
    0 < a := by
  have below := lt_tdiv_add_one_mul positive (distance a b * kMaxPercent)
  have close : distance a b * kMaxPercent < kMaxPercent * b := by
    refine lt_of_lt_of_le below (mul_le_mul_of_nonneg_right ?_ (le_of_lt positive))
    omega
  simp only [distance, kMaxPercent] at close
  omega

namespace VSyncPredictor

variable {p : VSyncPredictor}

variable {less : Int → Int → Bool} {values : List Int}

theorem minElement_eq_none : minElement less values = none ↔ values = [] := by
  cases values with
  | nil => simp only [minElement]
  | cons first rest => simp only [minElement, reduceCtorEq]

theorem maxElement_eq_none : maxElement less values = none ↔ values = [] := by
  cases values with
  | nil => simp only [maxElement]
  | cons first rest => simp only [maxElement, reduceCtorEq]

/-- What holds in every state. -/
structure Sound (p : VSyncPredictor) : Prop where
  history : 0 < p.kHistorySize
  tolerance : p.kOutlierTolerancePercent ≤ kMaxPercent
  period : 0 < p.mIdealPeriod
  known : p.mIdealPeriod ∈ p.mRateMap
  slopes : ∀ period model, p.mRateMap.lookup period = some model → 0 < model.slope
  index : p.mTimestamps ≠ [] → p.mLastTimestampIndex < p.mTimestamps.length

/-- The index is that of the timestamp stored last. In a buffer that is not full, the next one goes
behind all. -/
structure Ring (p : VSyncPredictor) (latest : Option Int) : Prop where
  last : p.mTimestamps ≠ [] → p.mTimestamps[p.mLastTimestampIndex]? = latest
  next : p.mTimestamps.length = p.kHistorySize ∨
    (p.mLastTimestampIndex + 1) % (p.mTimestamps.length + 1) = p.mTimestamps.length

theorem ring_of_empty (empty : p.mTimestamps = []) (latest : Option Int) : p.Ring latest :=
  ⟨absurd empty, .inr (by rw [empty]; exact Nat.mod_one _)⟩

theorem timestamps_clear (p : VSyncPredictor) : p.clearTimestamps.mTimestamps = [] := by
  unfold clearTimestamps
  cases greatest : p.newest with
  | none => exact maxElement_eq_none.mp greatest
  | some maxRb => rfl

theorem Sound.current (sound : p.Sound) :
    ∃ model, p.mRateMap.lookup p.mIdealPeriod = some model ∧ 0 < model.slope := by
  obtain ⟨model, found⟩ := isSome_iff_exists.mp (lookup_isSome.mpr sound.known)
  exact ⟨model, found, sound.slopes _ _ found⟩

variable {timestamps : List Int}

/-- Only the map and the ring buffer matter. -/
theorem Sound.withTimestamps (sound : p.Sound) {index : Nat} (known : Option Int)
    (inside : timestamps ≠ [] → index < timestamps.length) :
    Sound { p with mKnownTimestamp := known, mTimestamps := timestamps, mLastTimestampIndex :=
      index } :=
  ⟨sound.history, sound.tolerance, sound.period, sound.known, sound.slopes, inside⟩

variable {model : Model}

theorem slopes_insert {rates : AList fun _ : Int => Model} (positive : 0 < model.slope)
    (slopes : ∀ period model, rates.lookup period = some model → 0 < model.slope) (key : Int) :
    ∀ period model', (rates.insert key model).lookup period = some model' → 0 < model'.slope := by
  intro period model' found
  by_cases same : period = key
  · subst same
    rw [lookup_insert] at found
    cases found
    exact positive
  · rw [lookup_insert_ne same] at found
    exact slopes period model' found

theorem Sound.store (sound : p.Sound) (positive : 0 < model.slope) : (p.store model).Sound :=
  ⟨sound.history, sound.tolerance, sound.period, (mem_insert _).mpr (.inl rfl),
    slopes_insert positive sound.slopes _, sound.index⟩

theorem Sound.store_ideal (sound : p.Sound) : (p.store ⟨p.mIdealPeriod, 0⟩).Sound :=
  sound.store sound.period

/-- The index may be anything before: the ring buffer is empty afterwards. -/
theorem sound_clearTimestamps
    (cleared : Sound { p with mTimestamps := [], mLastTimestampIndex := 0 }) :
    p.clearTimestamps.Sound := by
  unfold clearTimestamps
  cases greatest : p.newest with
  | none =>
    have empty : p.mTimestamps = [] := maxElement_eq_none.mp greatest
    exact cleared.withTimestamps p.mKnownTimestamp (absurd empty)
  | some maxRb => exact cleared.withTimestamps _ (absurd rfl)

theorem Sound.clearTimestamps (sound : p.Sound) : p.clearTimestamps.Sound :=
  sound_clearTimestamps (sound.withTimestamps p.mKnownTimestamp (absurd rfl))

theorem Sound.resetModel (sound : p.Sound) : p.resetModel.Sound :=
  sound.store_ideal.clearTimestamps

theorem sound_new {idealPeriod : Int} {historySize : Nat} (period : 0 < idealPeriod)
    (history : 0 < historySize) (minimumSamplesForPrediction outlierTolerancePercent : Nat) :
    (new idealPeriod historySize minimumSamplesForPrediction outlierTolerancePercent).Sound := by
  unfold new VSyncPredictor.resetModel
  apply sound_clearTimestamps
  refine ⟨history, min_le_right _ _, period, (mem_insert _).mpr (.inl rfl), ?_, absurd rfl⟩
  refine slopes_insert period ?_ idealPeriod
  intro key model found
  cases found

/-- The model of a period that is set again is the old one, if it has not been evicted. -/
theorem Sound.setPeriod (sound : p.Sound) {period : Int} (positive : 0 < period) (first : Int) :
    (p.setPeriod period first).Sound := by
  unfold VSyncPredictor.setPeriod
  generalize here : (if p.mRateMap.entries.length = kSizeLimit then p.mRateMap.erase first
    else p.mRateMap) = rates
  have kept (key : Int) (model : Model) (found : rates.lookup key = some model) : 0 <
      model.slope := by
    subst here
    split at found
    · by_cases same : key = first
      · rw [same, lookup_erase] at found
        cases found
      · rw [lookup_erase_ne same] at found
        exact sound.slopes key model found
    · exact sound.slopes key model found
  apply sound_clearTimestamps
  by_cases member : period ∈ rates
  · simp only [member]
    exact ⟨sound.history, sound.tolerance, positive, member, kept, absurd rfl⟩
  · simp only [member]
    exact ⟨sound.history, sound.tolerance, positive, (mem_insert _).mpr (.inl rfl),
      slopes_insert positive kept period, absurd rfl⟩

theorem Sound.validate (sound : p.Sound) (timestamp : Int) :
    ∃ valid, p.validate timestamp = some valid := by
  unfold VSyncPredictor.validate
  by_cases empty : p.mTimestamps = []
  · exact ⟨true, if_pos empty⟩
  · obtain ⟨closest, least⟩ := ne_none_iff_exists'.mp (mt minElement_eq_none.mp empty :
      minElement (fun a b => decide (distance timestamp a < distance timestamp b)) p.mTimestamps ≠
      none)
    rw [if_neg empty, List.getElem?_eq_getElem (sound.index empty)]
    simp only [bind_eq_bind, bind_some, rem_of_pos sound.period, quot_of_pos sound.period, least]
    split
    · exact ⟨_, rfl⟩
    · exact ⟨_, rfl⟩

theorem Sound.reject (sound : p.Sound) (timestamp : Int) : (p.reject timestamp).Sound := by
  unfold VSyncPredictor.reject
  split
  · exact sound_clearTimestamps (sound.withTimestamps p.mKnownTimestamp (absurd rfl))
  · exact sound.withTimestamps _ sound.index

theorem Sound.record (sound : p.Sound) (timestamp : Int) :
    ∃ p', p.record timestamp = some p' ∧ p'.Sound ∧
    p'.mTimestamps ≠ [] ∧ ∀ latest, p.Ring latest → p'.Ring (some timestamp) := by
  unfold VSyncPredictor.record
  split
  · have filled : 0 < (p.mTimestamps ++ [timestamp]).length := by simp
    simp only [next, ne_of_gt filled]
    refine ⟨_, rfl, sound.withTimestamps p.mKnownTimestamp fun _ =>
      Nat.mod_lt _ filled, ?_, fun latest ring => ?_⟩
    · exact ne_nil_of_length_pos filled
    · have behind := ring.next.resolve_left ‹_›
      rw [length_append, length_singleton, behind]
      refine ⟨fun _ => getElem?_concat_length, .inr ?_⟩
      rw [length_append]
      exact Nat.mod_eq_of_lt (Nat.lt_succ_self _)
  · rename_i full
    have nonempty : 0 < p.mTimestamps.length := by
      rw [not_not.mp full]
      exact sound.history
    simp only [next, ne_of_gt nonempty]
    have inside := Nat.mod_lt (p.mLastTimestampIndex + 1) nonempty
    refine ⟨_, rfl, sound.withTimestamps p.mKnownTimestamp fun _ => ?_, ?_, fun latest ring =>
      ⟨fun _ => ?_, .inl ?_⟩⟩
    · rwa [length_set]
    · apply ne_nil_of_length_pos
      rwa [length_set]
    · exact getElem?_set_self inside
    · rw [length_set]
      exact not_not.mp full

theorem regression_eq_some (filled : timestamps ≠ []) (oldestTS : Int) {currentPeriod : Int}
    (positive : 0 < currentPeriod) :
    ∃ model, regression timestamps oldestTS currentPeriod = .some model := by
  have samples : (0 : Int) < timestamps.length := by
    have := length_pos_iff.mpr filled
    omega
  unfold regression
  simp only [quot_of_pos positive, quot_of_pos samples, map_some, bind_eq_bind]
  have each (values : List Int) : values.mapM (fun timestamp =>
      Option.some ((timestamp + currentPeriod.tdiv 2).tdiv currentPeriod * kScalingFactor)) =
      .some (values.map fun timestamp => (timestamp + currentPeriod.tdiv 2).tdiv currentPeriod *
        kScalingFactor) := by
    exact mapM_pure
  rw [each]
  simp only [bind_some]
  split
  · exact ⟨none, rfl⟩
  · rename_i different
    rw [quot, if_neg different]
    exact ⟨_, rfl⟩

/-- The percentage test is what keeps the slope positive. -/
theorem Sound.learn (sound : p.Sound) (filled : p.mTimestamps ≠ []) :
    ∃ result, p.learn = .some result ∧ result.2.Sound ∧ ∀ latest, p.Ring latest →
      result.2.Ring latest := by
  have restart := sound.store_ideal
  have same (model : Model) (latest : Option Int) (ring : p.Ring latest) :
      (p.store model).Ring latest :=
    ⟨ring.last, ring.next⟩
  have clear (model : Model) (latest : Option Int) (_ : p.Ring latest) :
      (p.store model).clearTimestamps.Ring latest :=
    ring_of_empty (timestamps_clear _) latest
  unfold VSyncPredictor.learn
  split
  · exact ⟨_, rfl, restart, same _⟩
  · obtain ⟨oldestTS, least⟩ := ne_none_iff_exists'.mp (mt minElement_eq_none.mp filled :
      p.oldest ≠ none)
    obtain ⟨current, found, positive⟩ := sound.current
    obtain ⟨learnt, regressed⟩ := regression_eq_some filled oldestTS positive
    simp only [least, found, regressed, bind_eq_bind, bind_some]
    cases learnt with
    | none => exact ⟨_, rfl, restart.clearTimestamps, clear _⟩
    | some model =>
      simp only [quot_of_pos sound.period, bind_some]
      split
      · exact ⟨_, rfl, restart.clearTimestamps, clear _⟩
      · have := sound.tolerance
        exact ⟨_, rfl, sound.store (pos_of_distance sound.period (by omega)), same _⟩

theorem Ring.reject {latest : Option Int} (ring : p.Ring latest) (timestamp : Int) :
    (p.reject timestamp).Ring latest := by
  unfold VSyncPredictor.reject
  split
  · exact ring_of_empty (timestamps_clear _) latest
  · exact ⟨ring.last, ring.next⟩

theorem Sound.addVsyncTimestamp (sound : p.Sound) (timestamp : Int) :
    ∃ result, p.addVsyncTimestamp timestamp = some result ∧ result.2.Sound ∧
      ∀ latest, p.Ring latest →
      result.2.Ring (if p.validate timestamp = some true then some timestamp else latest) := by
  unfold VSyncPredictor.addVsyncTimestamp
  obtain ⟨valid, validated⟩ := sound.validate timestamp
  rw [validated]
  cases valid with
  | true =>
    obtain ⟨p', recorded, sound', filled, stored⟩ := sound.record timestamp
    obtain ⟨result, learnt, sound'', kept⟩ := sound'.learn filled
    refine ⟨result, ?_, sound'', fun latest ring => kept _ (stored latest ring)⟩
    simp [recorded, learnt]
  | false => exact ⟨_, rfl, sound.reject timestamp, fun latest ring => ring.reject timestamp⟩

/-- A prediction is on the grid of the model. Without timestamps it is whole ideal periods from the
last one that is known, and one period away if none is. -/
def OnGrid (p : VSyncPredictor) (model : Model) (timePoint prediction : Int) : Prop :=
  match p.oldest, p.mKnownTimestamp with
  | some oldest, _ => ∃ k, prediction = oldest + model.intercept + k * model.slope
  | none, some known => ∃ k, prediction = known + k * p.mIdealPeriod
  | none, none => prediction = timePoint + p.mIdealPeriod

/-- The predictions of a state: they do not abort, are not in the past, on the grid and monotone. -/
structure Predicts (p : VSyncPredictor) (model : Model) (prediction : Int → Int) : Prop where
  current : p.mRateMap.lookup p.mIdealPeriod = some model
  slope : 0 < model.slope
  returned : ∀ t, p.nextAnticipatedVSyncTimeFrom t = some (prediction t)
  after : ∀ t, t ≤ prediction t
  grid : ∀ t, p.OnGrid model t (prediction t)
  monotone : ∀ s t, s ≤ t → prediction s ≤ prediction t

section

variable (p : VSyncPredictor) (model : Model)

/-- Where the predictions count from. -/
def origin (timePoint : Int) : Int :=
  match p.oldest with
  | some oldest => oldest + model.intercept - model.slope
  | none => p.mKnownTimestamp.getD timePoint

/-- The period of the grid that the predictions are on. -/
def gridPeriod : Int :=
  match p.oldest with
  | some _ => model.slope
  | none => p.mIdealPeriod

/-- What is predicted, also where the source rounds towards the origin of the grid. -/
def prediction (t : Int) : Int :=
  p.origin model t + ((t - p.origin model t).tdiv (p.gridPeriod model) + 1) * p.gridPeriod model

end

theorem Sound.gridPeriod (sound : p.Sound) (positive : 0 < model.slope) :
    0 < p.gridPeriod model := by
  unfold VSyncPredictor.gridPeriod
  split
  · exact positive
  · exact sound.period

theorem Sound.lt_prediction (sound : p.Sound) (positive : 0 < model.slope) (t : Int) :
    t < p.prediction model t := by
  have := lt_tdiv_add_one_mul (sound.gridPeriod positive) (t - p.origin model t)
  unfold prediction
  omega

theorem Sound.next_eq (sound : p.Sound) (found : p.mRateMap.lookup p.mIdealPeriod = some model)
    (t : Int) :
    p.nextAnticipatedVSyncTimeFrom t = some (p.prediction model t) := by
  have positive := sound.slopes _ _ found
  have after := not_lt.mpr (le_of_lt (sound.lt_prediction positive t))
  unfold prediction origin VSyncPredictor.gridPeriod at after ⊢
  cases least : p.oldest with
  | none => simp [nextAnticipatedVSyncTimeFrom, found, least, quot_of_pos sound.period]
  | some oldest =>
    simp only [least] at after
    have same : t - (oldest + model.intercept - model.slope) =
      t - (oldest + model.intercept) + model.slope := by omega
    have sum (n : Int) : oldest + model.intercept - model.slope + (n + 1) * model.slope =
        n * model.slope + model.intercept + oldest := by
      rw [add_mul]
      omega
    rw [same, sum] at after ⊢
    simp [nextAnticipatedVSyncTimeFrom, found, least, quot_of_pos positive, after]

theorem Sound.predicts (sound : p.Sound) : ∃ model prediction, p.Predicts model prediction := by
  obtain ⟨model, found, positive⟩ := sound.current
  have period := sound.gridPeriod positive
  refine ⟨model, p.prediction model, found, positive, sound.next_eq found,
    fun t => le_of_lt (sound.lt_prediction positive t), fun t => ?_, fun s t earlier => ?_⟩
  · unfold OnGrid prediction origin VSyncPredictor.gridPeriod
    cases p.oldest with
    | some oldest =>
      dsimp only
      exact ⟨(t - (oldest + model.intercept - model.slope)).tdiv
        model.slope, by rw [add_mul]; omega⟩
    | none =>
      cases p.mKnownTimestamp with
      | some known => exact ⟨_, rfl⟩
      | none => simp
  · have monotone (origin : Int) := mul_le_mul_of_nonneg_right (Int.add_le_add_right
      (Int.tdiv_le_tdiv period (sub_le_sub_right earlier origin)) 1) (le_of_lt period)
    unfold prediction origin
    cases p.oldest with
    | some oldest => exact Int.add_le_add_left (monotone _) _
    | none =>
      cases p.mKnownTimestamp with
      | some known => exact Int.add_le_add_left (monotone _) _
      | none => simpa using earlier

inductive Call where
  | addVsyncTimestamp (timestamp : Int)
  | setPeriod (period first : Int)
  | resetModel

def Call.Positive : Call → Prop
  | setPeriod period _ => 0 < period
  | _ => True

def call (p : VSyncPredictor) : Call → Option VSyncPredictor
  | .addVsyncTimestamp timestamp => (p.addVsyncTimestamp timestamp).map Prod.snd
  | .setPeriod period first => some (p.setPeriod period first)
  | .resetModel => some p.resetModel

def run (p : VSyncPredictor) (calls : List Call) : Option VSyncPredictor := calls.foldlM call p

/-- The timestamp that was stored last, behind a call. -/
def latestAfter (p : VSyncPredictor) (latest : Option Int) : Call → Option Int
  | .addVsyncTimestamp timestamp => if p.validate timestamp = some true then some timestamp
    else latest
  | _ => latest

/-- The timestamp that was stored last in a run. -/
def latestOf (p : VSyncPredictor) (latest : Option Int) : List Call → Option Int
  | [] => latest
  | c :: calls => (p.call c).bind fun p' => p'.latestOf (p.latestAfter latest c) calls

theorem Sound.call (sound : p.Sound) {c : Call} (positive : c.Positive) :
    ∃ p', p.call c = some p' ∧ p'.Sound ∧ ∀ latest, p.Ring latest →
      p'.Ring (p.latestAfter latest c) := by
  cases c with
  | addVsyncTimestamp timestamp =>
    obtain ⟨result, added, sound', ring⟩ := sound.addVsyncTimestamp timestamp
    exact ⟨result.2, by rw [VSyncPredictor.call, added]; rfl, sound', ring⟩
  | setPeriod period first =>
    exact ⟨_, rfl, sound.setPeriod positive first, fun latest _ =>
      ring_of_empty (timestamps_clear _) latest⟩
  | resetModel => exact ⟨_, rfl, sound.resetModel, fun latest _ =>
    ring_of_empty (timestamps_clear _) latest⟩

theorem Sound.run (sound : p.Sound) {calls : List Call} (positive : ∀ c ∈ calls, c.Positive) :
    ∃ p', p.run calls = some p' ∧ p'.Sound ∧ ∀ latest, p.Ring latest →
      p'.Ring (p.latestOf latest calls) := by
  induction calls generalizing p with
  | nil => exact ⟨p, rfl, sound, fun _ => id⟩
  | cons c calls ih =>
    obtain ⟨p', called, sound', ring⟩ := sound.call (positive c mem_cons_self)
    obtain ⟨p'', ran, sound'', ring'⟩ := ih sound' fun c member =>
      positive c (mem_cons_of_mem _ member)
    refine ⟨p'', by rw [VSyncPredictor.run, foldlM_cons, called]; exact ran, sound'',
      fun latest before => ?_⟩
    rw [latestOf, called]
    exact ring' _ (ring latest before)

variable (idealPeriod : Int) (historySize minimumSamplesForPrediction outlierTolerancePercent : Nat)

/-- No run aborts, and the predictions in the state it leads to are sound. -/
theorem predictions_never_past (period : 0 < idealPeriod) (history : 0 < historySize)
    (calls : List Call) (positive : ∀ c ∈ calls, c.Positive) :
    ∃ p, (new idealPeriod historySize minimumSamplesForPrediction outlierTolerancePercent).run
      calls = some p ∧
      ∃ model prediction, p.Predicts model prediction := by
  obtain ⟨p, ran, sound, -⟩ :=
    (sound_new period history minimumSamplesForPrediction outlierTolerancePercent).run positive
  exact ⟨p, ran, sound.predicts⟩

theorem predictions_never_past_learnt :
    ∃ p, (new 10 2 2 25).run [.addVsyncTimestamp 0, .addVsyncTimestamp 11] = some p ∧
      ∃ model prediction, p.Predicts model prediction := by
  refine predictions_never_past 10 2 2 25 (by decide) (by decide) _ fun c member => ?_
  simp only [mem_cons, not_mem_nil, or_false] at member
  rcases member with rfl | rfl
  · trivial
  · trivial

/-- Two predictions of a new predictor with the period 10. And two predictions with a model of slope
11 that has been learnt for the period 10 and comes back when this period is set again. -/
theorem predictions_off_grid :
    (∃ p model, (new 10 2 2 25).run [] = some p ∧ p.mRateMap.lookup p.mIdealPeriod = some model ∧
      model.slope = 10 ∧ p.nextAnticipatedVSyncTimeFrom 0 = some 10 ∧
      p.nextAnticipatedVSyncTimeFrom 1 = some 11 ∧
      ¬ model.slope ∣ 11 - 10) ∧
    ∃ p model, (new 10 2 2 25).run [.addVsyncTimestamp 0, .addVsyncTimestamp 11, .setPeriod 20 0,
    .setPeriod 10 0] =
        some p ∧ p.mRateMap.lookup p.mIdealPeriod = some model ∧ model.slope = 11 ∧
      p.nextAnticipatedVSyncTimeFrom 11 = some 21 ∧ p.nextAnticipatedVSyncTimeFrom 21 = some 31 ∧
      ¬ model.slope ∣ 31 - 21 :=
  ⟨⟨_, _, rfl, rfl, rfl, rfl, rfl, by decide⟩, ⟨_, _, rfl, rfl, rfl, rfl, rfl, by decide⟩⟩

/-- The prediction is the first point of the grid after the time. -/
def SkipsNone (p : VSyncPredictor) (model : Model) (t prediction : Int) : Prop :=
  (∃ k, prediction = p.origin model t + k * p.gridPeriod model) ∧ t < prediction ∧
    prediction ≤ t + p.gridPeriod model

/-- A prediction is the next vsync just for the times that are not before the origin, or are on the
grid. -/
theorem predictions_skip_none_iff (period : 0 < idealPeriod) (history : 0 < historySize)
    (calls : List Call) (positive : ∀ c ∈ calls, c.Positive) :
    ∃ p model, (new idealPeriod historySize minimumSamplesForPrediction outlierTolerancePercent).run
      calls = some p ∧
      p.mRateMap.lookup p.mIdealPeriod = some model ∧
      ∀ t, ∃ prediction, p.nextAnticipatedVSyncTimeFrom t = some prediction ∧
        (p.SkipsNone model t prediction ↔
          p.origin model t ≤ t ∨ p.gridPeriod model ∣ t - p.origin model t) := by
  obtain ⟨p, ran, sound, -⟩ :=
    (sound_new period history minimumSamplesForPrediction outlierTolerancePercent).run positive
  obtain ⟨model, found, slope⟩ := sound.current
  refine ⟨p, model, ran, found, fun t => ⟨_, sound.next_eq found t, ?_⟩⟩
  have near := tdiv_add_one_mul_le_iff (t - p.origin model t) (p.gridPeriod model)
  rw [← sub_nonneg, ← near]
  constructor
  · rintro ⟨-, -, le⟩
    unfold prediction at le
    omega
  · intro le
    refine ⟨⟨_, rfl⟩, sound.lt_prediction slope t, ?_⟩
    unfold prediction
    omega

theorem predictions_skip_none_learnt :
    ∃ p model, (new 10 2 2 25).run [.addVsyncTimestamp 0, .addVsyncTimestamp 11] = some p ∧
      p.mRateMap.lookup p.mIdealPeriod = some model ∧
      ∀ t, ∃ prediction, p.nextAnticipatedVSyncTimeFrom t = some prediction ∧
        (p.SkipsNone model t prediction ↔ p.origin model t ≤ t ∨
        p.gridPeriod model ∣ t - p.origin model t) := by
  refine predictions_skip_none_iff 10 2 2 25 (by decide) (by decide) _ fun c member => ?_
  simp only [mem_cons, not_mem_nil, or_false] at member
  rcases member with rfl | rfl <;> trivial

/-- Fifteen units before the only sample at 100, the vsync at 90 is skipped. -/
theorem prediction_skips_vsync : ∃ p model, (new 10 2 2 25).run [.addVsyncTimestamp 100] = some p ∧
    p.mRateMap.lookup p.mIdealPeriod = some model ∧ model = ⟨10, 0⟩ ∧
      p.nextAnticipatedVSyncTimeFrom 85 = some 100 ∧ ¬ p.SkipsNone model 85 100 := by
  refine ⟨_, _, rfl, rfl, rfl, rfl, ?_⟩
  rintro ⟨-, -, le⟩
  exact absurd le (by decide)

end VSyncPredictor

end Aosp.Scheduler
