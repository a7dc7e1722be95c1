import Aosp.Init.TokenizerScan

namespace Aosp.Init

open List Layout

/-- What a caller of `next_token` gets: `state.text` is read at once. -/
inductive Output where
  | eof
  | text (bytes : List Byte)
  | newline
deriving DecidableEq

def output (token : Token) (state : ParseState) : Output :=
  match token with
  | .eof => .eof
  | .text => .text (cStringAt state.data state.text)
  | .newline => .newline

/-- The results of repeated calls, up to `T_EOF`. -/
inductive Tokenizes : ParseState → List Output → Prop
  | eof {state state' : ParseState} (call : nextToken state = some (.eof, state')) :
    Tokenizes state [.eof]
  | more {state state' : ParseState} {token : Token} {rest : List Output}
      (call : nextToken state = some (token, state')) (more : token ≠ .eof)
      (later : Tokenizes state' rest) : Tokenizes state (output token state' :: rest)

/-- `state` in `ParseData`, in front of the first call. -/
def ParseState.start (data : List Byte) : ParseState := ⟨data, 0, 0, 0, none⟩

/-- The variables of `next_token` when it is called. -/
def ParseState.scanner (state : ParseState) : Scanner :=
  ⟨state.data, state.ptr, state.ptr, state.text, state.line, .skip⟩

/-- The states between the calls. -/
inductive Called (data : List Byte) : ParseState → Prop
  | start : Called data (.start data)
  | call {state state' : ParseState} {token : Token} (before : Called data state)
      (call : nextToken state = some (token, state')) : Called data state'

/-- The rounds of the loops in all the calls. -/
inductive Visited (data : List Byte) : Scanner → Prop
  | call {state : ParseState} (called : Called data state) (nothing : state.nexttoken = none) :
    Visited data state.scanner
  | round {c c' : Scanner} (before : Visited data c) (step : c.step = some (.more c')) :
    Visited data c'

/-- What holds between the calls on a buffer. -/
structure Ready (data : List Byte) (state : ParseState) : Prop where
  behind : state.data.drop state.ptr = data.drop state.ptr
  zero : 0 ∈ state.data.drop state.ptr
  newline : ∀ t, state.nexttoken = some t → t = .newline

variable {data : List Byte} {state : ParseState}

section

variable (ready : Ready data state)

include ready

theorem Ready.scans : Scans state.data state.ptr state.scanner where
  forward := le_refl _
  outside _ := ⟨rfl, ready.zero⟩
  inside := nofun

theorem Ready.returns {token : Token} {state' : ParseState}
    (returns : Returns state.data state.ptr token state') :
    Ready data state' where
  behind := by
    have kept := congrArg (List.drop (state'.ptr - state.ptr)) ready.behind
    rw [drop_drop, drop_drop, Nat.add_sub_cancel' returns.forward] at kept
    exact returns.behind.trans kept
  zero := returns.zero
  newline t same := (returns.newline t same).2

/-- What is left to be returned. -/
def ParseState.rest (state : ParseState) : Nat :=
  2 * (state.data.length - state.ptr) + if state.nexttoken.isSome then 1 else 0

theorem Ready.nextToken :
    ∃ token state', nextToken state = some (token, state') ∧ Ready data state' ∧
      (token ≠ .eof → state'.rest < state.rest) := by
  unfold Init.nextToken
  cases next : state.nexttoken with
  | some t =>
    refine ⟨t, _, rfl, ⟨ready.behind, ready.zero, nofun⟩, fun _ => ?_⟩
    simp only [ParseState.rest, next]
    simp
  | none =>
    obtain ⟨token, state', returned, returns⟩ := ready.scans.run
    refine ⟨token, state', returned, ready.returns returns, fun more => ?_⟩
    have progress := returns.progress more
    have inside := lt_of_mem_drop returns.zero
    have length := returns.length
    simp only [ParseState.rest]
    split <;> simp <;> omega

theorem Ready.tokenizes : ∃ outputs, Tokenizes state outputs := by
  induction left : state.rest using Nat.strongRecOn generalizing state with
  | _ n ih =>
    obtain ⟨token, state', call, ready', less⟩ := ready.nextToken
    by_cases atEnd : token = .eof
    · subst atEnd
      exact ⟨[.eof], .eof call⟩
    · obtain ⟨rest, later⟩ := ih state'.rest (left ▸ less atEnd) ready' rfl
      exact ⟨_, .more call atEnd later⟩

end

theorem ready_start (ends : data.getLast? = some 0) : Ready data (.start data) :=
  ⟨rfl, mem_of_getLast? ends, nofun⟩

theorem Called.ready (called : Called data state) (ends : data.getLast? = some 0) :
    Ready data state := by
  induction called with
  | start => exact ready_start ends
  | call before call ih =>
    obtain ⟨token, state', call', ready, -⟩ := ih.nextToken
    cases call.symm.trans call'
    exact ready

variable {c : Scanner}

/-- A round of a call on the buffer as the calls before have left it. -/
theorem Visited.scans (visited : Visited data c) (ends : data.getLast? = some 0) :
    ∃ state, Ready data state ∧ Scans state.data state.ptr c := by
  induction visited with
  | call called none =>
    have ready := called.ready ends
    exact ⟨_, ready, ready.scans⟩
  | round before step ih =>
    obtain ⟨state, ready, scans⟩ := ih
    obtain ⟨outcome, step', follows⟩ := scans.step
    cases step.symm.trans step'
    exact ⟨state, ready, follows⟩

def Outcome.buffer : Outcome → List Byte
  | more c => c.data
  | returned _ state => state.data

/-- The calls come to an end. Every round reads inside the buffer and writes at the scan position or
in front of it, and no byte has been changed that has not been scanned. -/
structure Safe (data : List Byte) : Prop where
  ends : ∃ outputs, Tokenizes (.start data) outputs
  round : ∀ c, Visited data c → ∃ outcome, c.step = some outcome ∧ ∀ p, c.x < p →
    outcome.buffer[p]? = c.data[p]?
  unscanned : ∀ c, Visited data c → c.data.drop c.x = data.drop c.x
  between : ∀ state, Called data state → state.data.drop state.ptr = data.drop state.ptr

theorem getElem?_apply {original : List Byte} {start : Nat} (scans : Scans original start c)
    {move : Move} (fits : move.Fits c.phase (c.data.drop c.x)) {p : Nat} (later : c.x < p) :
    (c.apply move).buffer[p]? = c.data[p]? := by
  have order (inText : c.phase.inText = true) : c.s ≠ p := by
    obtain ⟨-, written, scanning⟩ := scans.inside inText
    have := scanning.order
    omega
  cases move with
  | advance count phase lines => rfl
  | copy b count phase => exact getElem?_set_ne (order fits.1)
  | begin => rfl
  | textDone count nexttoken => exact getElem?_set_ne (order fits.1)
  | leave count token => rfl

theorem safe_of_terminated (ends : data.getLast? = some 0) : Safe data where
  ends := (ready_start ends).tokenizes
  round c visited := by
    obtain ⟨state, -, scans⟩ := visited.scans ends
    obtain ⟨move, next, -, fits⟩ := scans.nextMove
    exact ⟨c.apply move, next, fun p later => getElem?_apply scans fits later⟩
  unscanned c visited := by
    obtain ⟨state, ready, scans⟩ := visited.scans ends
    have kept := congrArg (List.drop (c.x - state.ptr)) ready.behind
    rw [drop_drop, drop_drop, Nat.add_sub_cancel' scans.forward] at kept
    exact scans.behind.trans kept
  between state called := (called.ready ends).behind

end Aosp.Init
