import Mathlib.Logic.Relation
import Aosp.Init.Tokenizer

namespace Aosp.Init

open Option List Layout

/-- The bytes that a move passes. -/
def Move.count : Move → Nat
  | advance count _ _ => count
  | copy _ count _ => count
  | begin => 0
  | textDone count _ => count
  | leave count _ => count

/-- The loops that a token is written in. -/
def Phase.inText : Phase → Bool
  | skip | comment => false
  | text | quoted | blanks => true

/-- Moves that a loop makes, on the bytes from the scan position on. -/
def Move.Fits (phase : Phase) (rest : List Byte) : Move → Prop
  | advance _ phase' _ => phase'.inText = phase.inText
  | copy _ count phase' => phase.inText = true ∧ phase'.inText = true ∧ 0 < count
  | begin => phase.inText = false ∧ rest.head? ≠ some 0
  | textDone count nexttoken => phase.inText = true ∧ (0 < count ∨ rest.head? = some 0) ∧
      ∀ t, nexttoken = some t → t = .newline
  | leave count token => token = .eof ∨ (token = .newline ∧ 0 < count ∧ phase.inText = false)

variable {rest : List Byte}

/-- In front of a zero every loop finds the bytes it reads, and it does not pass the zero. -/
theorem nextEscape_eq_some {b : Byte} (zero : 0 ∈ rest) :
    ∃ move, nextEscape (fun k => (b :: rest)[k]?) = some move ∧ 0 ∈ (b :: rest).drop move.count ∧
      move.Fits .text (b :: rest) := by
  unfold nextEscape
  cases rest with
  | nil => cases zero
  | cons e rest =>
    simp only [getElem?_cons_succ, getElem?_cons_zero, bind_eq_bind, bind_some]
    by_cases isZero : e = 0
    · rw [if_pos isZero]
      exact ⟨_, rfl, zero, rfl, .inl one_pos, nofun⟩
    · have later : 0 ∈ rest := (mem_cons.mp zero).resolve_left (Ne.symm isZero)
      rw [if_neg isZero]
      cases escape e with
      | some c => exact ⟨_, rfl, later, rfl, rfl, Nat.two_pos⟩
      | none =>
        dsimp only
        split
        · cases rest with
          | nil => cases later
          | cons f rest =>
            simp only [getElem?_cons_zero, bind_some]
            by_cases isLineFeed : f = lineFeed
            · rw [if_neg (not_not.mpr isLineFeed)]
              refine ⟨_, rfl, (mem_cons.mp later).resolve_left ?_, rfl⟩
              rw [isLineFeed]
              decide
            · rw [if_pos isLineFeed]
              exact ⟨_, rfl, later, rfl⟩
        · split
          · exact ⟨_, rfl, later, rfl⟩
          · exact ⟨_, rfl, later, rfl, rfl, Nat.two_pos⟩

theorem nextMove_eq_some (phase : Phase) (zero : 0 ∈ rest) :
    ∃ move, nextMove phase (fun k => rest[k]?) = some move ∧ 0 ∈ rest.drop move.count ∧
      move.Fits phase rest := by
  unfold nextMove
  cases rest with
  | nil => cases zero
  | cons b rest =>
    simp only [getElem?_cons_zero, bind_eq_bind, bind_some]
    have later (other : b ≠ 0) : 0 ∈ rest := (mem_cons.mp zero).resolve_left (Ne.symm other)
    by_cases isZero : b = 0
    · -- every loop ends at a zero, or leads to one that does
      subst isZero
      cases phase with
      | skip => exact ⟨_, rfl, zero, .inl rfl⟩
      | comment => exact ⟨_, rfl, zero, .inl rfl⟩
      | text => exact ⟨_, rfl, zero, rfl, .inr rfl, nofun⟩
      | quoted => exact ⟨_, rfl, zero, .inl rfl⟩
      | blanks => exact ⟨_, rfl, zero, rfl⟩
    · have behind := later isZero
      have here : (b :: rest).head? ≠ some 0 := fun same => isZero (Option.some.inj same)
      cases phase with
      | skip =>
        simp only [isZero, ↓reduceIte]
        split
        · exact ⟨_, rfl, behind, .inr ⟨rfl, one_pos, rfl⟩⟩
        · split
          · exact ⟨_, rfl, behind, rfl⟩
          · split
            · exact ⟨_, rfl, zero, rfl⟩
            · exact ⟨_, rfl, zero, rfl, here⟩
      | comment =>
        simp only [isZero, ↓reduceIte]
        split
        · exact ⟨_, rfl, behind, .inr ⟨rfl, one_pos, rfl⟩⟩
        · exact ⟨_, rfl, behind, rfl⟩
      | text =>
        simp only [isZero, ↓reduceIte]
        split
        · exact ⟨_, rfl, behind, rfl, .inl one_pos, nofun⟩
        · split
          · exact ⟨_, rfl, behind, rfl, .inl one_pos, fun _ same => (Option.some.inj same).symm⟩
          · split
            · exact ⟨_, rfl, behind, rfl⟩
            · split
              · exact nextEscape_eq_some behind
              · exact ⟨_, rfl, behind, rfl, rfl, one_pos⟩
      | quoted =>
        simp only [isZero, ↓reduceIte]
        split
        · exact ⟨_, rfl, behind, rfl⟩
        · exact ⟨_, rfl, behind, rfl, rfl, one_pos⟩
      | blanks =>
        dsimp only
        split
        · exact ⟨_, rfl, behind, rfl⟩
        · exact ⟨_, rfl, zero, rfl⟩

/-- In front of a token nothing has been written. -/
structure Skipping (original : List Byte) (c : Scanner) : Prop where
  data : c.data = original
  zero : 0 ∈ c.data.drop c.x

/-- In a token: what has been written of it follows its start, and what has not been scanned is as
it was when the scan began with the buffer `original`. -/
structure Scanning (original : List Byte) (c : Scanner) (written : List Byte) : Prop where
  length : c.data.length = original.length
  before : c.data.take c.text = original.take c.text
  token : (c.data.drop c.text).take written.length = written
  behind : c.data.drop c.x = original.drop c.x
  write : c.s = c.text + written.length
  order : c.s ≤ c.x
  first : original[c.text]? ≠ some 0
  zero : 0 ∈ c.data.drop c.x

section Moves

variable {original written : List Byte} {c : Scanner} {count : Nat}

theorem lt_of_mem_drop {b : Byte} {data : List Byte} {x : Nat} (member : b ∈ data.drop x) :
    x < data.length := by
  by_contra behind
  rw [drop_eq_nil_of_le (by omega)] at member
  cases member

theorem Skipping.begin (skipping : Skipping original c) (first : (c.data.drop c.x).head? ≠ some 0) :
    Scanning original { c with text := c.x, s := c.x, phase := .text } [] where
  length := by rw [skipping.data]
  before := by rw [skipping.data]
  token := rfl
  behind := by rw [skipping.data]
  write := rfl
  order := le_refl _
  first := by rwa [head?_drop, skipping.data] at first
  zero := skipping.zero

section

variable (scanning : Scanning original c written) (zero : 0 ∈ (c.data.drop c.x).drop count)

include scanning zero

theorem Scanning.advance (phase : Phase) (lines : Nat) :
    Scanning original { c with x := c.x + count, phase := phase, line := c.line + lines }
      written where
  length := scanning.length
  before := scanning.before
  token := scanning.token
  behind := by
    have dropped := congrArg (List.drop count) scanning.behind
    rwa [drop_drop, drop_drop] at dropped
  write := scanning.write
  order := le_trans scanning.order (Nat.le_add_right _ _)
  first := scanning.first
  zero := by rwa [drop_drop] at zero

theorem Scanning.copy (passes : 0 < count) (b : Byte) (phase : Phase) :
    Scanning original
      { c with data := c.data.set c.s b, s := c.s + 1, x := c.x + count, phase := phase }
      (written ++ [b]) := by
  have advanced := scanning.advance zero phase 0
  have order := scanning.order
  have write := scanning.write
  have inside := lt_of_mem_drop scanning.zero
  have unscanned : (c.data.set c.s b).drop (c.x + count) = c.data.drop (c.x + count) :=
    drop_set_of_lt (by omega)
  refine ⟨?_, ?_, ?_, ?_, ?_, ?_, scanning.first, ?_⟩
  · simp [scanning.length]
  · change (c.data.set c.s b).take c.text = original.take c.text
    rw [take_set_of_le (by omega)]
    exact scanning.before
  · change ((c.data.set c.s b).drop c.text).take (written ++ [b]).length = written ++ [b]
    have place : c.s - c.text = written.length := by omega
    have room : written.length < (c.data.drop c.text).length := by
      simp
      omega
    rw [drop_set, if_neg (by omega), place, length_append, length_singleton,
      take_add_one, take_set_of_le (le_refl _), scanning.token, getElem?_set_self room, toList_some]
  · rw [unscanned]
    exact advanced.behind
  · simp
    omega
  · change c.s + 1 ≤ c.x + count
    omega
  · rw [unscanned]
    exact advanced.zero

/-- The string behind a pointer. -/
def cStringAt (data : List Byte) (address : Nat) : List Byte :=
  (data.drop address).takeWhile (· ≠ 0)

/-- The state that `next_token` leaves, and the buffer before the call. -/
structure Left (original : List Byte) (state : ParseState) : Prop where
  length : state.data.length = original.length
  behind : state.data.drop state.ptr = original.drop state.ptr
  zero : 0 ∈ state.data.drop state.ptr

theorem Scanning.left_textDone (ends : 0 < count ∨ (c.data.drop c.x).head? = some 0)
    (nexttoken : Option Token) :
    Left original ⟨c.data.set c.s 0, c.x + count, c.text, c.line, nexttoken⟩ := by
  have advanced := scanning.advance zero .text 0
  have order := scanning.order
  have unscanned : (c.data.set c.s 0).drop (c.x + count) = c.data.drop (c.x + count) := by
    rcases ends with passes | atEnd
    · exact drop_set_of_lt (by omega)
    · -- a zero is written over a zero
      rcases lt_or_ge c.s (c.x + count) with inside | same
      · exact drop_set_of_lt inside
      · have here : c.s = c.x ∧ count = 0 := by omega
        rw [head?_drop] at atEnd
        obtain ⟨inside, isZero⟩ := List.getElem?_eq_some_iff.mp atEnd
        rw [here.1, ← isZero, set_getElem_self]
  exact ⟨by simp [scanning.length], unscanned.trans advanced.behind, unscanned ▸ advanced.zero⟩

end

theorem Scanning.cStringAt_textDone (scanning : Scanning original c written) (free : 0 ∉ written) :
    cStringAt (c.data.set c.s 0) c.text = written := by
  have write := scanning.write
  have order := scanning.order
  have inside := lt_of_mem_drop scanning.zero
  have place : c.s - c.text = written.length := by omega
  have room : written.length < (c.data.drop c.text).length := by
    simp
    omega
  have cut := (take_append_drop written.length ((c.data.drop c.text).set written.length 0)).symm
  have last := drop_eq_getElem_cons (l := (c.data.drop c.text).set written.length 0)
    (by rw [length_set]; exact room)
  rw [take_set_of_le (le_refl _), scanning.token, last, getElem_set_self] at cut
  rw [cStringAt, drop_set, if_neg (by omega), place, cut, takeWhile_append_of_pos]
  · rw [takeWhile_cons_of_neg (by decide), append_nil]
  · intro b member
    exact decide_eq_true fun isZero => free (isZero ▸ member)

end Moves

/-- What holds in every round of a call that began at `start` with the buffer `original`. -/
structure Scans (original : List Byte) (start : Nat) (c : Scanner) : Prop where
  forward : start ≤ c.x
  outside : c.phase.inText = false → Skipping original c
  inside : c.phase.inText = true → start ≤ c.text ∧ ∃ written, Scanning original c written

/-- What such a call returns. -/
structure Returns (original : List Byte) (start : Nat) (token : Token) (state : ParseState) : Prop
    extends Left original state where
  forward : start ≤ state.ptr
  progress : token ≠ .eof → start < state.ptr
  newline : ∀ t, state.nexttoken = some t → token = .text ∧ t = .newline

section Rounds

variable {original : List Byte} {start : Nat} {c : Scanner}

theorem Scans.zero (scans : Scans original start c) : 0 ∈ c.data.drop c.x := by
  cases inText : c.phase.inText with
  | false => exact (scans.outside inText).zero
  | true =>
    obtain ⟨-, written, scanning⟩ := scans.inside inText
    exact scanning.zero

theorem Scans.behind (scans : Scans original start c) : c.data.drop c.x = original.drop c.x := by
  cases inText : c.phase.inText with
  | false => rw [(scans.outside inText).data]
  | true =>
    obtain ⟨-, written, scanning⟩ := scans.inside inText
    exact scanning.behind

/-- A round looks at the bytes from the scan position on. -/
theorem Scanner.step_eq (c : Scanner) :
    c.step = (nextMove c.phase fun k => (c.data.drop c.x)[k]?).map c.apply := by
  simp [Scanner.step]

section

variable (scans : Scans original start c)

include scans

/-- A round finds the bytes it reads inside the buffer. -/
theorem Scans.nextMove : ∃ move, c.step = some (c.apply move) ∧
      0 ∈ (c.data.drop c.x).drop move.count ∧ move.Fits c.phase (c.data.drop c.x) := by
  obtain ⟨move, next, zero, fits⟩ := nextMove_eq_some c.phase scans.zero
  exact ⟨move, by rw [c.step_eq, next]; rfl, zero, fits⟩

/-- What a round leads to. -/
def Follows (original : List Byte) (start : Nat) : Outcome → Prop
  | .more c => Scans original start c
  | .returned token state => Returns original start token state

theorem Scans.apply {move : Move}
    (zero : 0 ∈ (c.data.drop c.x).drop move.count) (fits : move.Fits c.phase (c.data.drop c.x)) :
    Follows original start (c.apply move) := by
  cases move with
  | advance count phase lines =>
    have sameKind : phase.inText = c.phase.inText := fits
    refine ⟨le_trans scans.forward (Nat.le_add_right _ _), ?_, ?_⟩
    · intro outside
      have skipping := scans.outside (sameKind.symm.trans outside)
      refine ⟨skipping.data, ?_⟩
      rwa [drop_drop] at zero
    · intro inText
      obtain ⟨later, written, scanning⟩ := scans.inside (sameKind.symm.trans inText)
      exact ⟨later, written, scanning.advance zero phase lines⟩
  | copy b count phase =>
    obtain ⟨inText, inText', passes⟩ := fits
    refine ⟨le_trans scans.forward (Nat.le_add_right _ _), ?_, fun _ => ?_⟩
    · intro outside
      rw [inText'] at outside
      cases outside
    · obtain ⟨later, written, scanning⟩ := scans.inside inText
      exact ⟨later, _, scanning.copy zero passes b phase⟩
  | begin =>
    refine ⟨scans.forward, nofun, fun _ => ⟨scans.forward, [], ?_⟩⟩
    exact (scans.outside fits.1).begin fits.2
  | textDone count nexttoken =>
    obtain ⟨inText, ends, onlyNewline⟩ := fits
    obtain ⟨later, written, scanning⟩ := scans.inside inText
    refine ⟨scanning.left_textDone zero ends nexttoken, ?_, fun _ => ?_, ?_⟩
    · exact le_trans scans.forward (Nat.le_add_right _ _)
    · change start < c.x + count
      rcases ends with passes | atEnd
      · have := scans.forward
        omega
      · -- the token began in front of the zero
        have order := scanning.order
        have write := scanning.write
        have different : c.text ≠ c.x := by
          intro same
          rw [scanning.behind, head?_drop, ← same] at atEnd
          exact scanning.first atEnd
        omega
    · intro t same
      exact ⟨rfl, onlyNewline t same⟩
  | leave count token =>
    have left : Left original ⟨c.data, c.x + count, c.text, c.line, none⟩ := by
      have dropped := congrArg (List.drop count) scans.behind
      rw [drop_drop, drop_drop] at dropped
      rw [drop_drop] at zero
      refine ⟨?_, dropped, zero⟩
      cases inText : c.phase.inText with
      | false => rw [(scans.outside inText).data]
      | true =>
        obtain ⟨-, written, scanning⟩ := scans.inside inText
        exact scanning.length
    refine ⟨left, le_trans scans.forward (Nat.le_add_right _ _), ?_, nofun⟩
    intro notEnd
    change start < c.x + count
    rcases fits with atEnd | ⟨-, passes, -⟩
    · exact absurd atEnd notEnd
    · have := scans.forward
      omega

theorem Scans.step : ∃ outcome, c.step = some outcome ∧ Follows original start outcome := by
  obtain ⟨move, next, zero, fits⟩ := scans.nextMove
  exact ⟨c.apply move, next, scans.apply zero fits⟩

theorem Scans.run :
    ∃ token state, c.run = some (token, state) ∧ Returns original start token state := by
  induction c using Scanner.run.induct with
  | case1 c outside =>
    obtain ⟨outcome, step, -⟩ := scans.step
    rw [outside] at step
    cases step
  | case2 c c' next ih =>
    obtain ⟨outcome, step, follows⟩ := scans.step
    cases next.symm.trans step
    obtain ⟨token, state, returned, returns⟩ := ih follows
    exact ⟨token, state, (Scanner.run_of_more next).trans returned, returns⟩
  | case3 c token state last =>
    obtain ⟨outcome, step, follows⟩ := scans.step
    cases last.symm.trans step
    exact ⟨token, state, Scanner.run_of_returned last, follows⟩

end

end Rounds

end Aosp.Init
