import Mathlib.Data.List.AList
import Mathlib.Tactic.Linarith

/- `VSyncPredictor.cpp`: a model of the vsync period, learnt from timestamps. Integers are exact.
What would abort or be undefined in the source gives none. -/
namespace Aosp.Scheduler

/-- `/`, which rounds towards zero. -/
def quot (a b : Int) : Option Int := if b = 0 then none else some (a.tdiv b)

/-- `%`, which has the sign of the dividend. -/
def rem (a b : Int) : Option Int := if b = 0 then none else some (a.tmod b)

/-- `std::min_element`: the first of the least elements. -/
def minElement (less : Int → Int → Bool) : List Int → Option Int
  | [] => none
  | first :: rest => some (rest.foldl (fun least x => if less x least then x else least) first)

/-- `std::max_element`: the first of the greatest elements. -/
def maxElement (less : Int → Int → Bool) : List Int → Option Int
  | [] => none
  | first :: rest => some (rest.foldl (fun greatest x => if less greatest x then x
    else greatest) first)

def distance (a b : Int) : Int := (a - b).natAbs

structure Model where
  slope : Int
  intercept : Int
deriving DecidableEq

structure VSyncPredictor where
  kHistorySize : Nat
  kMinimumSamplesForPrediction : Nat
  kOutlierTolerancePercent : Nat
  mIdealPeriod : Int
  mKnownTimestamp : Option Int
  mRateMap : AList fun _ : Int => Model
  mLastTimestampIndex : Nat
  mTimestamps : List Int

def kMaxPercent : Nat := 100

def kScalingFactor : Int := 1000

def kSizeLimit : Nat := 30

namespace VSyncPredictor

variable (p : VSyncPredictor)

def oldest : Option Int := minElement (fun a b => a < b) p.mTimestamps

def newest : Option Int := maxElement (fun a b => a < b) p.mTimestamps

def store (model : Model) : VSyncPredictor :=
  { p with mRateMap := p.mRateMap.insert p.mIdealPeriod model }

def clearTimestamps : VSyncPredictor :=
  match p.newest with
  | none => p
  | some maxRb =>
    { p with
      mKnownTimestamp := some (match p.mKnownTimestamp with
        | some known => max known maxRb
        | none => maxRb)
      mTimestamps := []
      mLastTimestampIndex := 0 }

def resetModel : VSyncPredictor := (p.store ⟨p.mIdealPeriod, 0⟩).clearTimestamps

def new (idealPeriod : Int)
    (historySize minimumSamplesForPrediction outlierTolerancePercent : Nat) : VSyncPredictor :=
  resetModel ⟨historySize, minimumSamplesForPrediction, min outlierTolerancePercent kMaxPercent,
    idealPeriod, none, ∅, 0, []⟩

/-- The map has no order, so `first` may be any of its keys. -/
def setPeriod (period first : Int) : VSyncPredictor :=
  let rates := if p.mRateMap.entries.length = kSizeLimit then p.mRateMap.erase first else p.mRateMap
  clearTimestamps { p with
    mIdealPeriod := period
    mRateMap := if period ∈ rates then rates else rates.insert period ⟨period, 0⟩ }

def next (i : Nat) : Option Nat :=
  if p.mTimestamps.length = 0 then none else some ((i + 1) % p.mTimestamps.length)

variable (timestamp : Int)

def validate : Option Bool :=
  if p.mTimestamps = [] then some true
  else do
    let aValidTimestamp ← p.mTimestamps[p.mLastTimestampIndex]?
    let phase ← rem (timestamp - aValidTimestamp) p.mIdealPeriod
    let percent ← quot (phase * kMaxPercent) p.mIdealPeriod
    if p.kOutlierTolerancePercent ≤ percent ∧ percent ≤ kMaxPercent - p.kOutlierTolerancePercent
      then
      return false
    let closest ← minElement (fun a b => distance timestamp a < distance timestamp b) p.mTimestamps
    let distancePercent ← quot (distance closest timestamp * kMaxPercent) p.mIdealPeriod
    return !(distancePercent < p.kOutlierTolerancePercent)

/-- `addVsyncTimestamp` with a timestamp that is not valid. -/
def reject : VSyncPredictor :=
  if p.mTimestamps.length < p.kMinimumSamplesForPrediction then
    clearTimestamps { p with mTimestamps := p.mTimestamps ++ [timestamp] }
  else
    { p with mKnownTimestamp := some (match p.newest with
        | some maxRb => max timestamp maxRb
        | none => timestamp) }

/-- The timestamp goes into the ring buffer. -/
def record : Option VSyncPredictor :=
  if p.mTimestamps.length ≠ p.kHistorySize then do
    let pushed := { p with mTimestamps := p.mTimestamps ++ [timestamp] }
    let index ← pushed.next p.mLastTimestampIndex
    return { pushed with mLastTimestampIndex := index }
  else do
    let index ← p.next p.mLastTimestampIndex
    return { p with mLastTimestampIndex := index, mTimestamps := p.mTimestamps.set index timestamp }

/-- The linear regression over the timestamps; none in the result if all ordinals are the same. -/
def regression (timestamps : List Int) (oldestTS currentPeriod : Int) : Option (Option Model) := do
  let numSamples : Int := timestamps.length
  let vsyncTS := timestamps.map (· - oldestTS)
  let ordinals ← vsyncTS.mapM fun timestamp =>
    (quot (timestamp + currentPeriod.tdiv 2) currentPeriod).map (· * kScalingFactor)
  let meanTS ← quot vsyncTS.sum numSamples
  let meanOrdinal ← quot ordinals.sum numSamples
  let vsyncTS := vsyncTS.map (· - meanTS)
  let ordinals := ordinals.map (· - meanOrdinal)
  let top := (List.zipWith (· * ·) vsyncTS ordinals).sum
  let bottom := (ordinals.map fun ordinal => ordinal * ordinal).sum
  if bottom = 0 then return none
  let anticipatedPeriod ← quot (top * kScalingFactor) bottom
  let intercept := meanTS - (anticipatedPeriod * meanOrdinal).tdiv kScalingFactor
  return some ⟨anticipatedPeriod, intercept⟩

/-- The model is learnt again from the timestamps. -/
def learn : Option (Bool × VSyncPredictor) :=
  if p.mTimestamps.length < p.kMinimumSamplesForPrediction then
    some (true, p.store ⟨p.mIdealPeriod, 0⟩)
  else do
    let oldestTS ← p.oldest
    let current ← p.mRateMap.lookup p.mIdealPeriod
    match ← regression p.mTimestamps oldestTS current.slope with
    | none => return (false, (p.store ⟨p.mIdealPeriod, 0⟩).clearTimestamps)
    | some model =>
      let percent ← quot (distance model.slope p.mIdealPeriod * kMaxPercent) p.mIdealPeriod
      if p.kOutlierTolerancePercent ≤ percent then
        return (false, (p.store ⟨p.mIdealPeriod, 0⟩).clearTimestamps)
      return (true, p.store model)

def addVsyncTimestamp : Option (Bool × VSyncPredictor) := do
  if ← p.validate timestamp then
    let recorded ← p.record timestamp
    recorded.learn
  else
    return (false, p.reject timestamp)

def nextAnticipatedVSyncTimeFrom (timePoint : Int) : Option Int := do
  let model ← p.mRateMap.lookup p.mIdealPeriod
  match p.oldest with
  | none =>
    let knownTimestamp := p.mKnownTimestamp.getD timePoint
    let numPeriodsOut ← quot (timePoint - knownTimestamp) p.mIdealPeriod
    return knownTimestamp + (numPeriodsOut + 1) * p.mIdealPeriod
  | some oldest =>
    let zeroPoint := oldest + model.intercept
    let ordinalRequest ← quot (timePoint - zeroPoint + model.slope) model.slope
    let prediction := ordinalRequest * model.slope + model.intercept + oldest
    -- LOG_ALWAYS_FATAL_IF
    if prediction < timePoint then none
    return prediction

end VSyncPredictor

end Aosp.Scheduler
