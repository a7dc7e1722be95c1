import Aosp.Lib.CString

/- `tokenizer.cpp`: the tokens of an init script, taken out of its buffer and written back into it.
-/
namespace Aosp.Init

open Layout

inductive Token where
  | eof
  | text
  | newline
deriving DecidableEq

/-- `parse_state`. The pointers are places in the buffer; `nexttoken` is none where it is zero. -/
structure ParseState where
  data : List Byte
  ptr : Nat
  text : Nat
  line : Nat
  nexttoken : Option Token

def lineFeed : Byte := 0x0a
def carriageReturn : Byte := 0x0d
def tab : Byte := 0x09
def space : Byte := 0x20
def quote : Byte := 0x22
def hash : Byte := 0x23
def backslash : Byte := 0x5c

/-- Where in `next_token` the scan is. -/
inductive Phase where
  /-- The first loop, in front of a token. -/
  | skip
  /-- The loop behind a `#`. -/
  | comment
  /-- The loop at `textresume`. -/
  | text
  /-- The loop behind a double quote. -/
  | quoted
  /-- The loop behind a line continuation. -/
  | blanks
deriving DecidableEq

/-- What the bytes at the scan position make `next_token` do. In each case `count` of them are
passed. -/
inductive Move where
  /-- Nothing is written. -/
  | advance (count : Nat) (phase : Phase) (lines : Nat)
  /-- A byte is written at the end of the token. -/
  | copy (byte : Byte) (count : Nat) (phase : Phase)
  /-- A token begins here. -/
  | begin
  /-- `textdone`, after which a newline may have to be returned as well. -/
  | textDone (count : Nat) (nexttoken : Option Token)
  /-- `next_token` returns, and leaves the buffer alone. -/
  | leave (count : Nat) (token : Token)

def isBlank (b : Byte) : Bool := b = space || b = tab || b = carriageReturn

/-- The byte that a backslash with a letter stands for. -/
def escape (e : Byte) : Option Byte :=
  if e = 0x6e then some lineFeed
  else if e = 0x72 then some carriageReturn
  else if e = 0x74 then some tab
  else if e = backslash then some backslash
  else none

/-- The `switch` behind a backslash. -/
def nextEscape (read : Nat → Option Byte) : Option Move := do
  let e ← read 1
  if e = 0 then some (.textDone 1 none)
  else
    match escape e with
    | some b => some (.copy b 2 .text)
    | none =>
      if e = carriageReturn then do
        let f ← read 2
        if f ≠ lineFeed then some (.advance 2 .text 0) else some (.advance 3 .blanks 1)
      else if e = lineFeed then some (.advance 2 .blanks 1)
      else some (.copy e 2 .text)

/-- The switch of the loop that the scan is in, on the bytes from the scan position on. -/
def nextMove (phase : Phase) (read : Nat → Option Byte) : Option Move := do
  let b ← read 0
  match phase with
  | .skip =>
    if b = 0 then some (.leave 0 .eof)
    else if b = lineFeed then some (.leave 1 .newline)
    else if isBlank b then some (.advance 1 .skip 0)
    else if b = hash then some (.advance 0 .comment 0)
    else some .begin
  | .comment =>
    if b = 0 then some (.leave 0 .eof)
    else if b = lineFeed then some (.leave 1 .newline)
    else some (.advance 1 .comment 0)
  | .text =>
    if b = 0 then some (.textDone 0 none)
    else if isBlank b then some (.textDone 1 none)
    else if b = lineFeed then some (.textDone 1 (some .newline))
    else if b = quote then some (.advance 1 .quoted 0)
    else if b = backslash then nextEscape read
    else some (.copy b 1 .text)
  | .quoted =>
    if b = 0 then some (.leave 0 .eof)
    else if b = quote then some (.advance 1 .text 0)
    else some (.copy b 1 .quoted)
  | .blanks =>
    if b = space ∨ b = tab then some (.advance 1 .blanks 0) else some (.advance 0 .text 0)

/-- The variables of `next_token`: the buffer, the scan position, the place that is written next. -/
structure Scanner where
  data : List Byte
  x : Nat
  s : Nat
  text : Nat
  line : Nat
  phase : Phase

inductive Outcome where
  | more (c : Scanner)
  | returned (token : Token) (state : ParseState)

def Scanner.apply (c : Scanner) : Move → Outcome
  | .advance count phase lines =>
    .more { c with x := c.x + count, phase := phase, line := c.line + lines }
  | .copy b count phase =>
    .more { c with data := c.data.set c.s b, s := c.s + 1, x := c.x + count, phase := phase }
  | .begin => .more { c with text := c.x, s := c.x, phase := .text }
  | .textDone count nexttoken =>
    .returned .text ⟨c.data.set c.s 0, c.x + count, c.text, c.line, nexttoken⟩
  | .leave count token => .returned token ⟨c.data, c.x + count, c.text, c.line, none⟩

/-- One round of the loop; none if a byte behind the buffer is read. -/
def Scanner.step (c : Scanner) : Option Outcome :=
  (nextMove c.phase fun k => c.data[c.x + k]?).map c.apply

/-- The loops that lead into another one without passing a byte. -/
def Phase.rank : Phase → Nat
  | skip | blanks => 1
  | _ => 0

/-- What is left to do. -/
def Scanner.rest (c : Scanner) : Nat := 2 * (c.data.length - c.x) + c.phase.rank

/-- A move that goes on passes a byte or leads into another loop. -/
def Move.Progress (phase : Phase) : Move → Prop
  | advance count phase' _ => 0 < count ∨ phase'.rank < phase.rank
  | copy _ count _ => 0 < count
  | begin => Phase.rank .text < phase.rank
  | _ => True

variable {read : Nat → Option Byte} {move : Move}

theorem progress_nextEscape (next : nextEscape read = some move) (phase : Phase) :
    move.Progress phase := by
  obtain ⟨e, -, next⟩ := Option.bind_eq_some_iff.mp next
  split at next
  · cases next
    trivial
  · split at next
    · cases next
      exact Nat.zero_lt_two
    · split at next
      · obtain ⟨f, -, next⟩ := Option.bind_eq_some_iff.mp next
        split at next
        · cases next
          exact .inl Nat.zero_lt_two
        · cases next
          exact .inl (Nat.zero_lt_succ 2)
      · split at next
        · cases next
          exact .inl Nat.zero_lt_two
        · cases next
          exact Nat.zero_lt_two

theorem progress_nextMove {phase : Phase} (next : nextMove phase read = some move) :
    (read 0).isSome ∧ move.Progress phase := by
  obtain ⟨b, here, next⟩ := Option.bind_eq_some_iff.mp next
  refine ⟨by rw [here]; rfl, ?_⟩
  cases phase with
  | skip =>
    dsimp only at next
    repeat' split at next
    all_goals
      cases next
      simp [Move.Progress, Phase.rank]
  | comment =>
    dsimp only at next
    repeat' split at next
    all_goals
      cases next
      simp [Move.Progress]
  | text =>
    dsimp only at next
    repeat' split at next
    all_goals first
      | exact progress_nextEscape next .text
      | (cases next; simp [Move.Progress])
  | quoted =>
    dsimp only at next
    repeat' split at next
    all_goals
      cases next
      simp [Move.Progress]
  | blanks =>
    dsimp only at next
    split at next
    all_goals
      cases next
      simp [Move.Progress, Phase.rank]

variable {c c' : Scanner}

theorem Scanner.rest_lt (step : c.step = some (.more c')) : c'.rest < c.rest := by
  obtain ⟨move, next, applied⟩ := Option.map_eq_some_iff.mp step
  obtain ⟨here, progress⟩ := progress_nextMove next
  have inside : c.x < c.data.length := (List.getElem?_eq_some_iff.mp (Option.some_get here).symm).1
  have bound (phase : Phase) : phase.rank ≤ 1 := by cases phase <;> decide
  cases move with
  | advance count phase lines =>
    cases applied
    have := bound phase
    simp only [Scanner.rest]
    rcases progress with passes | leads
    · omega
    · omega
  | copy b count phase =>
    cases applied
    have := bound phase
    have passes : 0 < count := progress
    simp only [Scanner.rest, List.length_set]
    omega
  | begin =>
    cases applied
    have leads : Phase.rank .text < c.phase.rank := progress
    simp only [Scanner.rest]
    omega
  | textDone count nexttoken => cases applied
  | leave count token => cases applied

/-- The loops of `next_token`, to its return. -/
def Scanner.run (c : Scanner) : Option (Token × ParseState) :=
  match _step : c.step with
  | none => none
  | some (.more c') => c'.run
  | some (.returned token state) => some (token, state)
termination_by c.rest
decreasing_by exact c.rest_lt _step

theorem Scanner.run_of_more (next : c.step = some (.more c')) : c.run = c'.run := by
  rw [Scanner.run]
  split
  · rename_i outside
    rw [outside] at next
    cases next
  · rename_i c'' next'
    cases next.symm.trans next'
    rfl
  · rename_i token state last
    cases next.symm.trans last

theorem Scanner.run_of_returned {token : Token} {state : ParseState}
    (last : c.step = some (.returned token state)) :
    c.run = some (token, state) := by
  rw [Scanner.run]
  split
  · rename_i outside
    rw [outside] at last
    cases last
  · rename_i c' next
    cases last.symm.trans next
  · rename_i token' state' last'
    cases last.symm.trans last'
    rfl

def nextToken (state : ParseState) : Option (Token × ParseState) :=
  match state.nexttoken with
  | some t => some (t, { state with nexttoken := none })
  | none => Scanner.run ⟨state.data, state.ptr, state.ptr, state.text, state.line, .skip⟩

end Aosp.Init
