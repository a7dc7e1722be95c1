import Aosp.Input.PreferStylusOverTouchBlocker
import Aosp.Lib.Mealy

namespace Aosp.Input

open List Mealy

/-- An event in a gesture: how the stream of its device goes on. -/
inductive Continues : Option Tool → NotifyMotionArgs → Option Tool → Prop where
  | down {tool : Tool} {event : NotifyMotionArgs} (made : event.MadeWith tool)
    (action : event.action = ⟨.down, 0⟩) : Continues none event (some tool)
  | during {tool : Tool} {event : NotifyMotionArgs} (made : event.MadeWith tool)
      (action : event.action.masked = .move ∨ event.action.masked = .pointerDown ∨
      event.action.masked = .pointerUp) : Continues (some tool) event (some tool)
  | finish {tool : Tool} {event : NotifyMotionArgs} (made : event.MadeWith tool)
      (action : event.action = ⟨.up, 0⟩ ∨ event.action = ⟨.cancel, 0⟩) :
      Continues (some tool) event none

/-- A sequence of gestures, each with one tool. The last one may go on: it is made with the tool
that is given. -/
inductive Gestures : Option Tool → List NotifyMotionArgs → Prop where
  | nil : Gestures none []
  | snoc {before after : Option Tool} {events : List NotifyMotionArgs} {event : NotifyMotionArgs}
      (gestures : Gestures before events) (continues : Continues before event after) :
      Gestures after (events ++ [event])

variable {event : NotifyMotionArgs}

theorem NotifyMotionArgs.MadeWith.unique {tool tool' : Tool} (made : event.MadeWith tool)
    (made' : event.MadeWith tool') :
    tool = tool' := by
  have apart : event.MadeWith .finger → ¬ event.MadeWith .stylus := fun finger stylus => by
    have same := (StylusBlocker.checkToolType_finger finger).symm.trans
      (StylusBlocker.checkToolType_stylus stylus)
    simp at same
  cases tool with
  | finger =>
    cases tool' with
    | finger => rfl
    | stylus => exact absurd made' (apart made)
  | stylus =>
    cases tool' with
    | finger => exact absurd made (apart made')
    | stylus => rfl

variable {after : Option Tool}

theorem Continues.unique {before after' : Option Tool} (continues : Continues before event after)
    (continues' : Continues before event after') :
    after = after' := by
  cases continues with
  | down made action =>
    cases continues' with
    | down made' _ => rw [made.unique made']
  | during made action =>
    cases continues' with
    | during _ _ => rfl
    | finish _ action' => rcases action' with same | same <;> simp [same] at action
  | finish made action =>
    cases continues' with
    | during _ action' => rcases action with same | same <;> simp [same] at action'
    | finish _ _ => rfl

variable {events : List NotifyMotionArgs}

theorem Gestures.inv (gestures : Gestures after (events ++ [event])) :
    ∃ before, Gestures before events ∧ Continues before event after := by
  generalize all : events ++ [event] = whole at gestures
  cases gestures with
  | nil => simp at all
  | snoc gestures continues =>
    obtain ⟨rfl, rfl⟩ := append_singleton_inj.mp all
    exact ⟨_, gestures, continues⟩

theorem Gestures.unique {phase phase' : Option Tool} (gestures : Gestures phase events)
    (gestures' : Gestures phase' events) :
    phase = phase' := by
  induction gestures generalizing phase' with
  | nil =>
    generalize none : ([] : List NotifyMotionArgs) = whole at gestures'
    cases gestures' with
    | nil => rfl
    | snoc _ _ => simp at none
  | snoc _ continues ih =>
    obtain ⟨before', gestures', continues'⟩ := gestures'.inv
    cases ih gestures'
    exact continues.unique continues'

/-- The events of a device. -/
def ofDevice (d : Int) (events : List NotifyMotionArgs) : List NotifyMotionArgs :=
  events.filter fun event => event.deviceId = d

theorem ofDevice_append (d : Int) (first second : List NotifyMotionArgs) :
    ofDevice d (first ++ second) = ofDevice d first ++ ofDevice d second := filter_append ..

theorem ofDevice_self (event : NotifyMotionArgs) : ofDevice event.deviceId [event] = [event] := by
  simp [ofDevice]

theorem ofDevice_apart {d : Int} (apart : d ≠ event.deviceId) : ofDevice d [event] = [] := by
  simp [ofDevice, Ne.symm apart]

/-- An event, and the times that are read when it is processed. -/
structure Arrival where
  args : NotifyMotionArgs
  now : Int → Int

def StylusBlocker.step (s : StylusBlocker) (arrival : Arrival) :
    StylusBlocker × List NotifyMotionArgs :=
  s.processMotion arrival.now arrival.args

/-- The events of a device that have come. -/
def arrived (d : Int) (arrivals : List Arrival) : List NotifyMotionArgs :=
  ofDevice d (arrivals.map Arrival.args)

variable (arrivals : List Arrival)

/-- Every device sends gestures. -/
def Streams : Prop := ∀ d, ∃ phase, Gestures phase (arrived d arrivals)

/-- A stylus is down. -/
def Contact : Prop := ∃ d, Gestures (some .stylus) (arrived d arrivals)

theorem arrived_self (a : Arrival) :
    arrived a.args.deviceId (arrivals ++ [a]) = arrived a.args.deviceId arrivals ++ [a.args] := by
  simp [arrived, ofDevice]

theorem arrived_apart {d : Int} {a : Arrival} (apart : d ≠ a.args.deviceId)
    (arrivals : List Arrival) :
    arrived d (arrivals ++ [a]) = arrived d arrivals := by
  simp [arrived, ofDevice, Ne.symm apart]

namespace StylusBlocker

/-- The phase of a device in what has come and in what has been delivered. -/
inductive Tracks (s : StylusBlocker) (d : Int) : Option Tool → Option Tool → Prop where
  | idle (inactive : d ∉ s.activeStyli) (uncanceled : d ∉ s.canceledDevices)
      (untouched : s.lastTouchEvents.lookup d = none) : Tracks s d none none
  | stylus (active : d ∈ s.activeStyli) (uncanceled : d ∉ s.canceledDevices)
      (untouched : s.lastTouchEvents.lookup d = none) : Tracks s d (some .stylus) (some .stylus)
  | blocked (inactive : d ∉ s.activeStyli) (canceled : d ∈ s.canceledDevices) :
    Tracks s d (some .finger) none
  | shown {last : NotifyMotionArgs} (inactive : s.activeStyli = ∅)
    (uncanceled : d ∉ s.canceledDevices)
      (found : s.lastTouchEvents.lookup d = some last) (made : last.MadeWith .finger)
      (named : last.deviceId = d) : Tracks s d (some .finger) (some .finger)

variable {s s' : StylusBlocker} {d : Int} {phase shown : Option Tool}

theorem Tracks.frame (tracks : Tracks s d phase shown) (active : s'.activeStyli = s.activeStyli)
    (canceled : d ∈ s'.canceledDevices ↔ d ∈ s.canceledDevices)
    (last : s'.lastTouchEvents.lookup d = s.lastTouchEvents.lookup d) :
    Tracks s' d phase shown := by
  cases tracks with
  | idle inactive uncanceled untouched =>
    exact .idle (by rwa [active]) (by rwa [canceled]) (by rwa [last])
  | stylus here uncanceled untouched =>
    exact .stylus (by rwa [active]) (by rwa [canceled]) (by rwa [last])
  | blocked inactive here => exact .blocked (by rwa [active]) (by rwa [canceled])
  | shown inactive uncanceled found made named =>
    exact .shown (by rwa [active]) (by rwa [canceled]) (by rwa [last]) made named

section Touch

variable {args : NotifyMotionArgs}

/-- The events of this gesture are dropped. -/
def Drops (s : StylusBlocker) (args : NotifyMotionArgs) : Prop :=
  s.activeStyli ≠ ∅ ∨ args.deviceId ∈ s.canceledDevices

instance (s : StylusBlocker) (args : NotifyMotionArgs) : Decidable (s.Drops args) :=
  inferInstanceAs (Decidable (_ ∨ _))

theorem processTouch_active : (s.processTouch args).1.activeStyli = s.activeStyli := by
  unfold processTouch endTouch
  dsimp only
  split_ifs <;> rfl

theorem processTouch_mixed :
    (s.processTouch args).1.devicesWithMixedToolType = s.devicesWithMixedToolType := by
  unfold processTouch endTouch
  dsimp only
  split_ifs <;> rfl

theorem processTouch_result : (s.processTouch args).2 = if s.Drops args then [] else [args] := by
  unfold processTouch Drops
  by_cases active : s.activeStyli = ∅
  · by_cases canceled : args.deviceId ∈ s.canceledDevices
    · simp [canceled]
    · simp only [active, canceled, ne_eq, not_true_eq_false, ↓reduceIte, decide_false,
        Bool.false_eq_true, or_self]
      split_ifs <;> rfl
  · simp [active]

theorem processTouch_canceled_apart (apart : d ≠ args.deviceId) :
    d ∈ (s.processTouch args).1.canceledDevices ↔ d ∈ s.canceledDevices := by
  unfold StylusBlocker.processTouch endTouch
  dsimp only
  split_ifs <;> simp [apart]

theorem Tracks.processTouch (tracks : Tracks s d phase shown) (apart : d ≠ args.deviceId) :
    Tracks (s.processTouch args).1 d phase shown := by
  apply Tracks.frame tracks processTouch_active (processTouch_canceled_apart apart)
  · unfold StylusBlocker.processTouch endTouch
    dsimp only
    split_ifs <;> simp [StdMap.lookup_put, StdMap.lookup_erase, apart]

theorem processTouch_finish (ends : isUpOrCancel args = true) :
    args.deviceId ∉ (s.processTouch args).1.canceledDevices ∧
      (s.processTouch args).1.lastTouchEvents.lookup args.deviceId = none := by
  unfold processTouch endTouch
  dsimp only
  split_ifs <;> simp [StdMap.lookup_erase]

theorem processTouch_drop (goes : isUpOrCancel args = false) (drops : s.Drops args) :
    args.deviceId ∈ (s.processTouch args).1.canceledDevices := by
  unfold processTouch
  rcases drops with active | canceled
  · simp [goes, active]
  · split_ifs <;> simp_all

theorem processTouch_deliver (goes : isUpOrCancel args = false) (drops : ¬ s.Drops args) :
    args.deviceId ∉ (s.processTouch args).1.canceledDevices ∧
      (s.processTouch args).1.lastTouchEvents.lookup args.deviceId = some args := by
  rw [Drops, not_or] at drops
  simp [processTouch, goes, drops.1, drops.2, StdMap.lookup_put]

end Touch

theorem Tracks.touch {args : NotifyMotionArgs} {after : Option Tool}
    (tracks : Tracks s args.deviceId phase shown) (made : args.MadeWith .finger)
    (continues : Continues phase args after) {events : List NotifyMotionArgs}
    (gestures : Gestures shown events) :
    ∃ shown', Gestures shown' (events ++ (s.processTouch args).2) ∧
      Tracks (s.processTouch args).1 args.deviceId after shown' := by
  have active : (s.processTouch args).1.activeStyli = s.activeStyli := processTouch_active
  rw [processTouch_result]
  cases continues with
  | down made' action =>
    cases made'.unique made
    cases tracks with
    | idle inactive uncanceled untouched =>
      have goes : isUpOrCancel args = false := by simp [isUpOrCancel, action]
      by_cases drops : s.Drops args
      · rw [if_pos drops, append_nil]
        exact ⟨none, gestures, .blocked (by rwa [active]) (processTouch_drop goes drops)⟩
      · rw [if_neg drops]
        have still : s.activeStyli = ∅ := by
          by_contra some
          exact drops (.inl some)
        obtain ⟨uncanceled', found⟩ := processTouch_deliver goes drops
        exact ⟨some .finger, .snoc gestures (.down made action),
          .shown (by rw [active, still]) uncanceled' found made rfl⟩
  | during made' action =>
    cases made'.unique made
    have goes : isUpOrCancel args = false := by
      rcases action with same | same | same <;> simp [isUpOrCancel, Action.ext_iff, same]
    cases tracks with
    | blocked inactive canceled =>
      have drops : s.Drops args := .inr canceled
      rw [if_pos drops, append_nil]
      exact ⟨none, gestures, .blocked (by rwa [active]) (processTouch_drop goes drops)⟩
    | shown inactive uncanceled found made'' named =>
      have drops : ¬ s.Drops args := by simp [Drops, inactive, uncanceled]
      rw [if_neg drops]
      obtain ⟨uncanceled', found'⟩ := processTouch_deliver goes drops
      exact ⟨some .finger, .snoc gestures (.during made action),
        .shown (by rw [active, inactive]) uncanceled' found' made rfl⟩
  | finish made' action =>
    cases made'.unique made
    have ends : isUpOrCancel args = true := by simpa [isUpOrCancel] using action
    obtain ⟨uncanceled', untouched'⟩ := processTouch_finish (s := s) ends
    cases tracks with
    | blocked inactive canceled =>
      have drops : s.Drops args := .inr canceled
      rw [if_pos drops, append_nil]
      exact ⟨none, gestures, .idle (by rwa [active]) uncanceled' untouched'⟩
    | shown inactive uncanceled found made'' named =>
      have drops : ¬ s.Drops args := by simp [Drops, inactive, uncanceled]
      rw [if_neg drops]
      exact ⟨none, .snoc gestures (.finish made action),
        .idle (by simp [active, inactive]) uncanceled' untouched'⟩

section Stylus

variable {args : NotifyMotionArgs} {now : Int → Int}

variable {events : List NotifyMotionArgs}

section

variable
  (named : ∀ d last, d ∉ s.canceledDevices → s.lastTouchEvents.lookup d = some last →
    last.deviceId = d)

include named

/-- A stylus goes down: the touch of another device is canceled. -/
theorem Tracks.stylusDown (tracks : Tracks s d phase shown) (apart : d ≠ args.deviceId)
    (action : args.action = ⟨.down, 0⟩) (gestures : Gestures shown events) :
    ∃ shown', Gestures shown' (events ++ ofDevice d (s.processStylus now args).2) ∧
      Tracks (s.processStylus now args).1 d phase shown' := by
  have only : ofDevice d (s.processStylus now args).2 =
      if d ∈ s.canceledDevices then []
      else ((s.lastTouchEvents.lookup d).map (toCancel (now d))).toList := by
    rw [← filter_cancelTouch named]
    simp [processStylus, action, ofDevice, Ne.symm apart]
  have canceled' : d ∈ (s.processStylus now args).1.canceledDevices ↔
      d ∈ s.canceledDevices ∨ s.lastTouchEvents.lookup d ≠ none := by
    simp [processStylus, action, mem_cancelTouch]
  have untouched' : (s.processStylus now args).1.lastTouchEvents.lookup d = none ↔
      s.lastTouchEvents.lookup d = none := by
    have left : (s.processStylus now args).1.lastTouchEvents =
        (cancelTouch now s.lastTouchEvents s.canceledDevices).1 := by simp [processStylus, action]
    rw [left]
    exact lookup_cancelTouch d
  have active' : d ∈ (s.processStylus now args).1.activeStyli ↔ d ∈ s.activeStyli := by
    simp [processStylus, action, apart]
  rw [only]
  cases tracks with
  | idle inactive uncanceled untouched =>
    exact ⟨none, by simpa [untouched] using gestures,
      .idle (by rwa [active']) (by simp [canceled', uncanceled, untouched]) (by rwa [untouched'])⟩
  | stylus active uncanceled untouched =>
    exact ⟨some .stylus, by simpa [untouched] using gestures,
      .stylus (by rwa [active']) (by simp [canceled', uncanceled, untouched]) (by rwa [untouched'])⟩
  | blocked inactive canceled =>
    exact ⟨none, by simpa [canceled] using gestures,
      .blocked (by rwa [active']) (canceled'.mpr (.inl canceled))⟩
  | @shown last inactive uncanceled found made named =>
    have ends : Gestures none (events ++ [toCancel (now d) last]) :=
      .snoc gestures (.finish made (.inr rfl))
    exact ⟨none, by simpa [uncanceled, found] using ends,
      .blocked (by simp [active', inactive]) (canceled'.mpr (.inr (by simp [found])))⟩

theorem Tracks.ownStylus {after : Option Tool} (tracks : Tracks s args.deviceId phase shown)
    (made : args.MadeWith .stylus) (continues : Continues phase args after)
    (gestures : Gestures shown events) :
    ∃ shown', Gestures shown' (events ++ ofDevice args.deviceId (s.processStylus now args).2) ∧
      Tracks (s.processStylus now args).1 args.deviceId after shown' := by
  cases continues with
  | down made' action =>
    cases made'.unique made
    cases tracks with
    | idle inactive uncanceled untouched =>
      have only : ofDevice args.deviceId (s.processStylus now args).2 = [args] := by
        have nothing : ofDevice args.deviceId
            (cancelTouch now s.lastTouchEvents s.canceledDevices).2.2 = [] := by
          rw [ofDevice, filter_cancelTouch named]
          simp [untouched]
        rw [ofDevice] at nothing
        simp [processStylus, action, ofDevice, nothing]
      rw [only]
      refine ⟨some .stylus, .snoc gestures (.down made action), .stylus ?_ ?_ ?_⟩
      · simp [processStylus, action]
      · simp [processStylus, action, mem_cancelTouch, uncanceled, untouched]
      · simp only [processStylus, action, ↓reduceIte, lookup_cancelTouch, untouched]
  | during made' action =>
    cases made'.unique made
    have notDown : args.action ≠ ⟨.down, 0⟩ := by
      rintro same
      simp [same] at action
    have goes : isUpOrCancel args = false := by
      rcases action with same | same | same <;> simp [isUpOrCancel, Action.ext_iff, same]
    simp only [processStylus, notDown, goes, Bool.false_eq_true, ↓reduceIte, ofDevice_self]
    cases tracks with
    | stylus active uncanceled untouched =>
      exact ⟨some .stylus, .snoc gestures (.during made action),
        .stylus active uncanceled untouched⟩
  | finish made' action =>
    cases made'.unique made
    have notDown : args.action ≠ ⟨.down, 0⟩ := by
      rcases action with same | same <;> simp [same]
    have ends : isUpOrCancel args = true := by simpa [isUpOrCancel] using action
    simp only [processStylus, notDown, ends, ↓reduceIte, ofDevice_self]
    cases tracks with
    | stylus active uncanceled untouched =>
      exact ⟨none, .snoc gestures (.finish made action), .idle (by simp) uncanceled untouched⟩

end

/-- A stylus that is down moves or is lifted: nothing changes for another device. -/
theorem Tracks.otherStylus (now : Int → Int) (tracks : Tracks s d phase shown)
    (apart : d ≠ args.deviceId) (action : args.action ≠ ⟨.down, 0⟩) :
    ofDevice d (s.processStylus now args).2 = [] ∧
      Tracks (s.processStylus now args).1 d phase shown := by
  by_cases ends : isUpOrCancel args = true
  · simp only [processStylus, action, ends, ↓reduceIte, ofDevice_apart apart, true_and]
    cases tracks with
    | idle inactive uncanceled untouched => exact .idle (by simp [inactive]) uncanceled untouched
    | stylus active uncanceled untouched =>
      exact .stylus (by simp [apart, active]) uncanceled untouched
    | blocked inactive canceled => exact .blocked (by simp [inactive]) canceled
    | shown inactive uncanceled found made named =>
      exact .shown (by simp [inactive]) uncanceled found made named
  · simp only [processStylus, action, ends, Bool.false_eq_true, ↓reduceIte,
      ofDevice_apart apart, true_and]
    exact tracks

end Stylus

/-- What holds behind every run. -/
structure Blocking (arrivals : List Arrival) (written : List NotifyMotionArgs) (s : StylusBlocker) :
  Prop where
  unmixed : s.devicesWithMixedToolType = ∅
  tracks : ∀ d phase, Gestures phase (arrived d arrivals) →
    ∃ shown, Gestures shown (ofDevice d written) ∧ Tracks s d phase shown

theorem streams_closed (arrivals : List Arrival) (a : Arrival)
    (streams : Streams (arrivals ++ [a])) :
    Streams arrivals := by
  intro d
  obtain ⟨phase, gestures⟩ := streams d
  by_cases same : d = a.args.deviceId
  · subst same
    rw [arrived_self] at gestures
    obtain ⟨before, gestures, -⟩ := gestures.inv
    exact ⟨before, gestures⟩
  · rw [arrived_apart same] at gestures
    exact ⟨phase, gestures⟩

theorem processStylus_mixed {now : Int → Int} {args : NotifyMotionArgs} :
    (s.processStylus now args).1.devicesWithMixedToolType = s.devicesWithMixedToolType := by
  unfold processStylus
  split_ifs <;> rfl

namespace Blocking

variable {arrivals} {written : List NotifyMotionArgs} {a : Arrival}

/-- The touch that can be canceled is that of a finger and stored under its device. -/
theorem lastTouch (blocking : Blocking arrivals written s) (streams : Streams arrivals) (d : Int)
    (last : NotifyMotionArgs) (uncanceled : d ∉ s.canceledDevices)
    (found : s.lastTouchEvents.lookup d = some last) :
    last.deviceId = d ∧ last.MadeWith .finger := by
  obtain ⟨phase, gestures⟩ := streams d
  obtain ⟨shown, -, tracks⟩ := blocking.tracks d phase gestures
  cases tracks with
  | idle _ _ untouched => simp [untouched] at found
  | stylus _ _ untouched => simp [untouched] at found
  | blocked _ canceled => exact absurd canceled uncanceled
  | shown _ _ found' made named =>
    cases found.symm.trans found'
    exact ⟨named, made⟩

theorem made (streams : Streams (arrivals ++ [a])) : ∃ tool, a.args.MadeWith tool := by
  obtain ⟨after, gestures⟩ := streams a.args.deviceId
  rw [arrived_self] at gestures
  obtain ⟨before, -, continues⟩ := gestures.inv
  cases continues with
  | down made _ => exact ⟨_, made⟩
  | during made _ => exact ⟨_, made⟩
  | finish made _ => exact ⟨_, made⟩

theorem step (blocking : Blocking arrivals written s) (streams : Streams (arrivals ++ [a])) :
    Blocking (arrivals ++ [a]) (written ++ (s.step a).2) (s.step a).1 := by
  have earlier := streams_closed arrivals a streams
  obtain ⟨tool, made⟩ := made streams
  cases tool with
  | finger =>
    rw [StylusBlocker.step, processMotion_finger blocking.unmixed made]
    refine ⟨processTouch_mixed.trans blocking.unmixed, fun d phase gestures => ?_⟩
    rw [ofDevice_append]
    by_cases same : d = a.args.deviceId
    · subst same
      rw [arrived_self] at gestures
      obtain ⟨before, gestures, continues⟩ := gestures.inv
      obtain ⟨shown, delivered, tracks⟩ := blocking.tracks _ before gestures
      have own : ofDevice a.args.deviceId (s.processTouch a.args).2 =
          (s.processTouch a.args).2 := by
        rw [processTouch_result]
        split <;> simp [ofDevice]
      rw [own]
      exact tracks.touch made continues delivered
    · rw [arrived_apart same] at gestures
      obtain ⟨shown, delivered, tracks⟩ := blocking.tracks d phase gestures
      have other : ofDevice d (s.processTouch a.args).2 = [] := by
        rw [processTouch_result]
        split <;> simp [ofDevice, Ne.symm same]
      rw [other, append_nil]
      exact ⟨shown, delivered, tracks.processTouch same⟩
  | stylus =>
    have named := fun d last uncanceled found =>
      (blocking.lastTouch earlier d last uncanceled found).1
    rw [StylusBlocker.step, processMotion_stylus blocking.unmixed made]
    refine ⟨processStylus_mixed.trans blocking.unmixed, fun d phase gestures => ?_⟩
    rw [ofDevice_append]
    by_cases same : d = a.args.deviceId
    · subst same
      rw [arrived_self] at gestures
      obtain ⟨before, gestures, continues⟩ := gestures.inv
      obtain ⟨shown, delivered, tracks⟩ := blocking.tracks _ before gestures
      exact tracks.ownStylus named made continues delivered
    · rw [arrived_apart same] at gestures
      obtain ⟨shown, delivered, tracks⟩ := blocking.tracks d phase gestures
      by_cases action : a.args.action = ⟨.down, 0⟩
      · exact tracks.stylusDown named same action delivered
      · obtain ⟨nothing, tracks⟩ := tracks.otherStylus a.now same action
        rw [nothing, append_nil]
        exact ⟨shown, delivered, tracks⟩

theorem run (arrivals : List Arrival) (streams : Streams arrivals) :
    Blocking arrivals (Mealy.run StylusBlocker.step start arrivals).2
      (Mealy.run StylusBlocker.step start arrivals).1 := by
  apply run_invariant StylusBlocker.step streams_closed _ _ arrivals streams
  · refine ⟨rfl, fun d phase gestures => ⟨none, .nil, ?_⟩⟩
    cases gestures.unique Gestures.nil
    exact .idle (by simp [start]) (by simp [start]) (by simp [start])
  · intro arrivals a written s streams blocking
    exact blocking.step streams

section

variable (blocking : Blocking arrivals written s) (streams : Streams arrivals)

include blocking streams

theorem contact_iff : Contact arrivals ↔ s.activeStyli ≠ ∅ := by
  constructor
  · rintro ⟨d, gestures⟩
    obtain ⟨shown, -, tracks⟩ := blocking.tracks d _ gestures
    cases tracks with
    | stylus active _ _ => exact Finset.ne_empty_of_mem active
  · intro filled
    obtain ⟨d, active⟩ := Finset.nonempty_iff_ne_empty.mpr filled
    obtain ⟨phase, gestures⟩ := streams d
    obtain ⟨shown, -, tracks⟩ := blocking.tracks d phase gestures
    cases tracks with
    | idle inactive _ _ => exact absurd active inactive
    | stylus _ _ _ => exact ⟨d, gestures⟩
    | blocked inactive _ => exact absurd active inactive
    | shown inactive _ _ _ _ => simp [inactive] at active

theorem cancels {o : NotifyMotionArgs}
    (member : o ∈ (cancelTouch a.now s.lastTouchEvents s.canceledDevices).2.2) :
    o.MadeWith .finger ∧ o.action = ⟨.cancel, 0⟩ := by
  obtain ⟨d, last, uncanceled, found, rfl⟩ := mem_cancelTouch_result member
  exact ⟨(blocking.lastTouch streams d last uncanceled found).2, rfl⟩

/-- What is delivered for the event of a stylus: the event, behind events that cancel touch. -/
theorem stylus_result (made : a.args.MadeWith .stylus) :
    ∃ cancels, (s.step a).2 = cancels ++ [a.args] ∧
      ∀ o ∈ cancels, o.MadeWith .finger ∧ o.action = ⟨.cancel, 0⟩ := by
  rw [StylusBlocker.step, processMotion_stylus blocking.unmixed made, processStylus]
  by_cases action : a.args.action = ⟨.down, 0⟩
  · rw [if_pos action]
    exact ⟨_, rfl, fun o member => blocking.cancels streams member⟩
  · rw [if_neg action]
    refine ⟨[], ?_, nofun⟩
    split <;> rfl

end

end Blocking

/-- What is delivered for the events that come. -/
structure Delivers (arrivals : List Arrival) : Prop where
  /-- Every device delivers gestures, which have ended if those that came have. -/
  gestures : ∀ d phase, Gestures phase (arrived d arrivals) →
    ∃ shown, Gestures shown (ofDevice d (Mealy.run step start arrivals).2) ∧
    (phase = none → shown = none)
  /-- While a stylus is down, events of fingers are only those that cancel them, which come from the
  event of a
  stylus. -/
  blocks : ∀ before a after, arrivals = before ++ a :: after → Contact before ∨
    Contact (before ++ [a]) → ∀ o ∈ (step (Mealy.run step start before).1 a).2, o.MadeWith .finger →
      o.action = ⟨.cancel, 0⟩ ∧ a.args.MadeWith .stylus
  stylus : ∀ before a after, arrivals = before ++ a :: after → a.args.MadeWith .stylus →
    (step (Mealy.run step start before).1 a).2.filter (fun o => o.MadeWith .stylus) = [a.args]
  /-- Touch is delivered as it comes if no stylus is down from its start on. -/
  touch : ∀ before during after d, arrivals = before ++ during ++ after →
    Gestures none (arrived d before) → (∀ part, part <+: during → ¬ Contact (before ++ part)) →
    ofDevice d (Mealy.run step (Mealy.run step start before).1 during).2 = arrived d during

theorem streams_left {first second : List Arrival} (streams : Streams (first ++ second)) :
    Streams first := by
  induction second using List.reverseRecOn with
  | nil => simpa using streams
  | append_singleton rest a ih =>
    rw [← append_assoc] at streams
    exact ih (streams_closed _ a streams)

/-- A stylus is down before its event or behind it. -/
theorem contact_of_stylus {arrivals : List Arrival} {a : Arrival}
    (streams : Streams (arrivals ++ [a])) (made : a.args.MadeWith .stylus) :
    Contact arrivals ∨ Contact (arrivals ++ [a]) := by
  obtain ⟨after, gestures⟩ := streams a.args.deviceId
  have whole := gestures
  rw [arrived_self] at gestures
  obtain ⟨before, earlier, continues⟩ := gestures.inv
  cases continues with
  | down made' _ =>
    cases made'.unique made
    exact .inr ⟨_, whole⟩
  | during made' _ =>
    cases made'.unique made
    exact .inl ⟨_, earlier⟩
  | finish made' _ =>
    cases made'.unique made
    exact .inl ⟨_, earlier⟩

/-- A device whose touch is not canceled, while no stylus is down. -/
theorem touch_unchanged {before during : List Arrival} (streams : Streams (before ++ during))
    (idle : Gestures none (arrived d before))
    (free : ∀ part, part <+: during → ¬ Contact (before ++ part)) :
    ofDevice d (Mealy.run step (Mealy.run step start before).1 during).2 = arrived d during ∧
      d ∉ (Mealy.run step (Mealy.run step start before).1 during).1.canceledDevices := by
  induction during using List.reverseRecOn with
  | nil =>
    obtain ⟨shown, -, tracks⟩ := (Blocking.run before (streams_left streams)).tracks d none idle
    cases tracks with
    | idle _ uncanceled _ => exact ⟨rfl, uncanceled⟩
  | append_singleton during a ih =>
    rw [← append_assoc] at streams
    have earlier := streams_closed _ a streams
    obtain ⟨same, uncanceled⟩ := ih earlier fun part starts =>
      free part (starts.trans (prefix_append ..))
    have blocking := Blocking.run _ earlier
    have state : (run step start (before ++ during)).1 =
        (run step (run step start before).1 during).1 := by rw [run_append]
    rw [state] at blocking
    rw [run_concat]
    generalize (run step (run step start before).1 during).1 = s at blocking uncanceled
    have inactive : s.activeStyli = ∅ := by
      by_contra some
      exact free during (prefix_append ..) ((blocking.contact_iff earlier).mpr some)
    have finger : a.args.MadeWith .finger := by
      obtain ⟨tool, made⟩ := Blocking.made streams
      cases tool with
      | finger => exact made
      | stylus =>
        rcases contact_of_stylus streams made with down | down
        · exact absurd down (free during (prefix_append ..))
        · rw [append_assoc] at down
          exact absurd down (free (during ++ [a]) prefix_rfl)
    rw [StylusBlocker.step, processMotion_finger blocking.unmixed finger, ofDevice_append, same,
      arrived, arrived, map_append, ofDevice_append, map_cons, map_nil]
    by_cases own : d = a.args.deviceId
    · subst own
      have drops : ¬ s.Drops a.args := by simp [Drops, inactive, uncanceled]
      rw [processTouch_result, if_neg drops]
      refine ⟨rfl, ?_⟩
      cases ends : isUpOrCancel a.args with
      | true => exact (processTouch_finish ends).1
      | false => exact (processTouch_deliver ends drops).1
    · have other : ofDevice d (s.processTouch a.args).2 = [] := by
        rw [processTouch_result]
        split <;> simp [ofDevice, Ne.symm own]
      rw [other, ofDevice_apart own, processTouch_canceled_apart own]
      exact ⟨rfl, uncanceled⟩

/-- The stream of every device is consistent, no touch is delivered while a stylus is down, and
nothing else is withheld or changed. -/
theorem processMotion_delivers (arrivals : List Arrival) (streams : Streams arrivals) :
    Delivers arrivals where
  gestures := by
    intro d phase gestures
    obtain ⟨shown, delivered, tracks⟩ := (Blocking.run arrivals streams).tracks d phase gestures
    refine ⟨shown, delivered, fun ended => ?_⟩
    subst ended
    cases tracks with
    | idle _ _ _ => rfl
  blocks := by
    rintro before a after rfl down o member finger
    rw [append_cons] at streams
    have now := streams_left streams
    have earlier := streams_closed _ a now
    have blocking := Blocking.run before earlier
    obtain ⟨tool, made⟩ := Blocking.made now
    cases tool with
    | stylus =>
      obtain ⟨cancels, result, all⟩ := blocking.stylus_result earlier made
      rw [result, mem_append, mem_singleton] at member
      rcases member with member | rfl
      · exact ⟨(all o member).2, made⟩
      · cases finger.unique made
    | finger =>
      -- The event of a finger does not put a stylus down.
      have before' : Contact before := by
        rcases down with down | ⟨d, gestures⟩
        · exact down
        · by_cases own : d = a.args.deviceId
          · subst own
            rw [arrived_self] at gestures
            obtain ⟨phase, earlier, continues⟩ := gestures.inv
            cases continues with
            | down made' _ => cases made'.unique made
            | during made' _ => cases made'.unique made
          · rw [arrived_apart own] at gestures
            exact ⟨d, gestures⟩
      have drops : (run step start before).1.Drops a.args :=
        .inl ((blocking.contact_iff earlier).mp before')
      rw [StylusBlocker.step, processMotion_finger blocking.unmixed made, processTouch_result,
        if_pos drops] at member
      cases member
  stylus := by
    rintro before a after rfl made
    rw [append_cons] at streams
    have earlier := streams_closed _ a (streams_left streams)
    obtain ⟨cancels, result, all⟩ := (Blocking.run before earlier).stylus_result earlier made
    have nothing : cancels.filter (fun o => decide (o.MadeWith .stylus)) = [] := by
      rw [filter_eq_nil_iff]
      intro o member is
      cases (all o member).1.unique (of_decide_eq_true is)
    simp [result, nothing, made]
  touch := by
    rintro before during after d rfl idle free
    exact (touch_unchanged (streams_left streams) idle free).1

/-- An event with one pointer. -/
def single (deviceId : Int) (toolType : ToolType) (action : ActionMasked) : Arrival :=
  ⟨⟨0, deviceId, ⟨action, 0⟩, 0, [⟨⟨0, toolType⟩, ⟨0, []⟩⟩]⟩, fun _ => 1⟩

/-- A pen goes down while a finger is down, and is lifted after it. -/
def penOverFinger : List Arrival :=
  [single 1 .finger .down, single 2 .stylus .down, single 1 .finger .up, single 2 .stylus .up]

theorem streams_penOverFinger : Streams penOverFinger := by
  have gesture (d : Int) (toolType : ToolType) (tool : Tool) (member : toolType ∈ tool.types) :
      Gestures none ([] ++ [(single d toolType .down).args] ++ [(single d toolType .up).args]) := by
    have made (action : ActionMasked) : (single d toolType action).args.MadeWith tool :=
      ⟨cons_ne_nil _ _, by simpa [single] using member⟩
    exact .snoc (.snoc .nil (.down (made .down) rfl)) (.finish (made .up) (.inl rfl))
  intro d
  by_cases first : d = 1
  · subst first
    exact ⟨none, gesture 1 .finger .finger (by decide)⟩
  · by_cases second : d = 2
    · subst second
      exact ⟨none, gesture 2 .stylus .stylus (by decide)⟩
    · refine ⟨none, ?_⟩
      have nothing : arrived d penOverFinger = [] := by
        simp [arrived, ofDevice, penOverFinger, single, Ne.symm first, Ne.symm second]
      rw [nothing]
      exact .nil

theorem processMotion_delivers_penOverFinger : Streams penOverFinger ∧ Delivers penOverFinger ∧
      (Mealy.run step start penOverFinger).2.map (fun o => (o.deviceId, o.action.masked)) =
        [(1, .down), (1, .cancel), (2, .down), (2, .up)] :=
  ⟨streams_penOverFinger, processMotion_delivers penOverFinger streams_penOverFinger, by decide⟩

end StylusBlocker

end Aosp.Input
