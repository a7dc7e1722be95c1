import Aosp.Init.TokenizerCalls

namespace Aosp.Init

open List Layout Scanner

/-- What stands between the quotes of a token: its double quotes are taken out of the quotes. -/
def quotedBody (token : List Byte) : List Byte :=
  token.flatMap fun b => if b = quote then [quote, backslash, quote, quote] else [b]

def quoteToken (token : List Byte) : List Byte := quote :: (quotedBody token ++ [quote])

/-- The tokens with spaces between them, and a newline. -/
def writeLine (tokens : List (List Byte)) : List Byte :=
  [space].intercalate (tokens.map quoteToken) ++ [lineFeed]

def writeLines (lines : List (List (List Byte))) : List Byte := lines.flatMap writeLine

/-- What a line is read as. -/
def lineOutputs (tokens : List (List Byte)) : List Output := tokens.map Output.text ++ [.newline]

section Quoted

variable {original written rest : List Byte} {c : Scanner}

variable {bytes : List Byte}

theorem Scanning.step_eq (scanning : Scanning original c written)
    (here : original.drop c.x = bytes) :
    c.step = (nextMove c.phase fun k => bytes[k]?).map c.apply := by
  rw [Scanner.step_eq, scanning.behind, here]

theorem nextMove_quoted_quote :
    nextMove .quoted (fun k => (quote :: rest)[k]?) = some (.advance 1 .text 0) :=
  rfl

theorem nextMove_text_quote :
    nextMove .text (fun k => (quote :: rest)[k]?) = some (.advance 1 .quoted 0) :=
  rfl

variable {b : Byte}

/-- A scan that has come from one place to another in the same token. -/
structure Reaches (original : List Byte) (c c' : Scanner) (written : List Byte) (phase : Phase)
    (rest : List Byte) : Prop where
  run : c.run = c'.run
  scanning : Scanning original c' written
  phase : c'.phase = phase
  text : c'.text = c.text
  line : c'.line = c.line
  rest : original.drop c'.x = rest

variable {phase phase' : Phase}

theorem Reaches.trans {c' c'' : Scanner} {written' rest' : List Byte}
    (first : Reaches original c c' written phase rest)
    (second : Reaches original c' c'' written' phase' rest') :
    Reaches original c c'' written' phase' rest' :=
  ⟨first.run.trans second.run, second.scanning, second.phase, second.text.trans first.text,
    second.line.trans first.line, second.rest⟩

variable {count : Nat}

section

variable (scanning : Scanning original c written) (here : original.drop c.x = bytes)

include scanning here

theorem Scanning.zero_drop (zero : 0 ∈ bytes.drop count) : 0 ∈ (c.data.drop c.x).drop count := by
  rw [scanning.behind, here]
  exact zero

theorem Scanning.reaches_advance (before : c.phase = phase)
    (next : nextMove phase (fun k => bytes[k]?) = some (.advance count phase' 0))
    (zero : 0 ∈ bytes.drop count) :
    ∃ c', Reaches original c c' written phase' (bytes.drop count) := by
  have advanced := scanning.advance (scanning.zero_drop here zero) phase' 0
  refine ⟨_, ?_, advanced, rfl, rfl, rfl, ?_⟩
  · apply run_of_more
    rw [scanning.step_eq here, before, next]
    rfl
  · rw [← here, drop_drop]

theorem Scanning.reaches_copy (before : c.phase = phase)
    (next : nextMove phase (fun k => bytes[k]?) = some (.copy b count phase'))
    (passes : 0 < count) (zero : 0 ∈ bytes.drop count) :
    ∃ c', Reaches original c c' (written ++ [b]) phase' (bytes.drop count) := by
  have copied := scanning.copy (scanning.zero_drop here zero) passes b phase'
  refine ⟨_, ?_, copied, rfl, rfl, rfl, ?_⟩
  · apply run_of_more
    rw [scanning.step_eq here, before, next]
    rfl
  · rw [← here, drop_drop]

end

theorem Scanning.reaches_quotedBody {token : List Byte} (free : 0 ∉ token)
    (scanning : Scanning original c written) (phase : c.phase = .quoted)
    (here : original.drop c.x = quotedBody token ++ rest) (zero : 0 ∈ rest) :
    ∃ c', Reaches original c c' (written ++ token) .quoted rest := by
  induction token generalizing c written with
  | nil =>
    rw [append_nil]
    exact ⟨c, rfl, scanning, phase, rfl, rfl, here⟩
  | cons b token ih =>
    have notZero : b ≠ 0 := fun same => free (same ▸ mem_cons_self)
    have tokenFree : 0 ∉ token := fun member => free (mem_cons_of_mem _ member)
    have later : 0 ∈ quotedBody token ++ rest := mem_append_right _ zero
    rw [quotedBody, flatMap_cons] at here
    rw [append_cons]
    by_cases isQuote : b = quote
    · -- out of the quotes, the escaped quote, and back
      subst isQuote
      obtain ⟨c₁, closed⟩ := scanning.reaches_advance here phase nextMove_quoted_quote
        (mem_append_right [backslash, quote, quote] later)
      obtain ⟨c₂, escaped⟩ := closed.scanning.reaches_copy closed.rest closed.phase rfl
        Nat.two_pos (mem_append_right [quote] later)
      obtain ⟨c₃, opened⟩ := escaped.scanning.reaches_advance escaped.rest escaped.phase
        nextMove_text_quote later
      obtain ⟨c₄, written⟩ := ih tokenFree opened.scanning opened.phase opened.rest
      exact ⟨c₄, closed.trans (escaped.trans (opened.trans written))⟩
    · rw [if_neg isQuote] at here
      obtain ⟨c₁, copied⟩ := scanning.reaches_copy here phase
        ((if_neg notZero).trans (if_neg isQuote)) Nat.one_pos later
      obtain ⟨c₂, written⟩ := ih tokenFree copied.scanning copied.phase copied.rest
      exact ⟨c₂, copied.trans written⟩

end Quoted

section Calls

variable {state : ParseState} {token rest : List Byte}

/-- What stands behind a token. -/
inductive Separates : Byte → Option Token → Prop
  | space : Separates space none
  | lineFeed : Separates lineFeed (some .newline)

variable {b : Byte} {nexttoken : Option Token}

theorem Separates.nextMove_text (separates : Separates b nexttoken) :
    nextMove .text (fun k => (b :: rest)[k]?) = some (.textDone 1 nexttoken) := by
  cases separates with
  | space => rfl
  | lineFeed => rfl

/-- A quoted token is returned as it is, and the call ends behind its separator. -/
theorem nextToken_quoteToken (free : 0 ∉ token) (nothing : state.nexttoken = none)
    (separates : Separates b nexttoken)
    (here : state.data.drop state.ptr = quoteToken token ++ b :: rest) (zero : 0 ∈ rest) :
    ∃ state', nextToken state = some (.text, state') ∧ cStringAt state'.data state'.text = token ∧
      state'.data.drop state'.ptr = rest ∧ state'.nexttoken = nexttoken := by
  have here' : state.data.drop state.ptr = quote :: (quotedBody token ++ quote :: b :: rest) := by
    simp [here, quoteToken]
  have behind : 0 ∈ quote :: b :: rest := .tail _ (.tail _ zero)
  have inside : 0 ∈ quotedBody token ++ quote :: b :: rest := mem_append_right _ behind
  have skipping : Skipping state.data state.scanner := ⟨rfl, by
    change 0 ∈ state.data.drop state.ptr
    rw [here']
    exact .tail _ inside⟩
  have scanning := skipping.begin (by
    change (state.data.drop state.ptr).head? ≠ some 0
    rw [here']
    nofun)
  have began : state.scanner.run = run { state.scanner
      with text := state.ptr, s := state.ptr, phase := .text } := by
    apply run_of_more
    rw [state.scanner.step_eq, show state.scanner.data.drop state.scanner.x = _ from here']
    rfl
  obtain ⟨c₁, opened⟩ := scanning.reaches_advance here' rfl nextMove_text_quote inside
  obtain ⟨c₂, written⟩ := opened.scanning.reaches_quotedBody free opened.phase opened.rest behind
  obtain ⟨c₃, closed⟩ := written.scanning.reaches_advance written.rest written.phase
    nextMove_quoted_quote (.tail _ zero)
  have whole := opened.trans (written.trans closed)
  have last : c₃.step = some (c₃.apply (.textDone 1 nexttoken)) := by
    rw [whole.scanning.step_eq whole.rest, whole.phase]
    exact congrArg (Option.map c₃.apply) separates.nextMove_text
  refine ⟨⟨c₃.data.set c₃.s 0, c₃.x + 1, c₃.text, c₃.line, nexttoken⟩, ?_, ?_, ?_, rfl⟩
  · rw [nextToken, nothing]
    exact began.trans (whole.run.trans (run_of_returned last))
  · exact whole.scanning.cStringAt_textDone free
  · have behind' : 0 ∈ (c₃.data.drop c₃.x).drop 1 := whole.scanning.zero_drop whole.rest zero
    have left := whole.scanning.left_textDone behind' (.inl one_pos) nexttoken
    refine left.behind.trans ?_
    rw [← drop_drop, whole.rest]
    rfl

theorem nextToken_of_skip (nothing : state.nexttoken = none) {bytes : List Byte} {count : Nat}
    {token : Token} (here : state.data.drop state.ptr = bytes)
    (next : nextMove .skip (fun k => bytes[k]?) = some (.leave count token)) :
    ∃ state', nextToken state = some (token, state') ∧
      state'.data.drop state'.ptr = bytes.drop count ∧
      state'.nexttoken = .none := by
  refine ⟨⟨state.data, state.ptr + count, state.text, state.line, .none⟩, ?_, ?_, rfl⟩
  · rw [nextToken, nothing]
    apply run_of_returned
    rw [step_eq, here, next]
    rfl
  · rw [← drop_drop, here]

/-- What every state reads as that is in front of some bytes. -/
def ReadAs (bytes : List Byte) (outputs : List Output) : Prop :=
  ∀ state : ParseState, state.nexttoken = none → state.data.drop state.ptr = bytes →
    Tokenizes state outputs

theorem readAs_eof : ReadAs [0] [.eof] := by
  intro state nothing here
  obtain ⟨state', call, -⟩ := nextToken_of_skip nothing here rfl
  exact .eof call

theorem readAs_writeLine {tokens : List (List Byte)} (free : ∀ token ∈ tokens, 0 ∉ token)
    (zero : 0 ∈ rest) {outputs : List Output} (later : ReadAs rest outputs) :
    ReadAs (writeLine tokens ++ rest) (lineOutputs tokens ++ outputs) := by
  induction tokens with
  | nil =>
    intro state nothing here
    obtain ⟨state', call, rest', none'⟩ := nextToken_of_skip nothing here rfl
    exact .more call nofun (later state' none' rest')
  | cons token tokens ih =>
    intro state vacant here
    have tokenFree := free token mem_cons_self
    have ih := ih fun t member => free t (mem_cons_of_mem _ member)
    cases tokens with
    | nil =>
      -- the newline is returned by the call after this one
      have here' : state.data.drop state.ptr = quoteToken token ++ lineFeed :: rest := by
        rw [here, writeLine, map_singleton, intercalate_singleton, append_assoc]
        rfl
      obtain ⟨state', call, text, rest', pending⟩ :=
        nextToken_quoteToken tokenFree vacant .lineFeed here' zero
      have newline : nextToken state' = some (.newline, { state' with nexttoken := .none }) := by
        rw [nextToken, pending]
      have last := later { state' with nexttoken := .none } rfl rest'
      exact text ▸ .more call nofun (.more newline nofun last)
    | cons token' tokens =>
      have here' : state.data.drop state.ptr =
          quoteToken token ++ space :: (writeLine (token' :: tokens) ++ rest) := by
        rw [here, writeLine, map_cons, map_cons, writeLine]
        simp
      obtain ⟨state', call, text, rest', none'⟩ :=
        nextToken_quoteToken tokenFree vacant .space here' (mem_append_right _ zero)
      exact text ▸ .more call nofun (ih state' none' rest')

theorem readAs_writeLines {lines : List (List (List Byte))}
    (free : ∀ tokens ∈ lines, ∀ token ∈ tokens, 0 ∉ token) :
    ReadAs (writeLines lines ++ [0]) (lines.flatMap lineOutputs ++ [.eof]) := by
  induction lines with
  | nil => exact readAs_eof
  | cons tokens lines ih =>
    rw [writeLines, flatMap_cons, flatMap_cons, append_assoc, append_assoc]
    exact readAs_writeLine (free tokens mem_cons_self) (mem_append_right _ mem_cons_self)
      (ih fun t member => free t (mem_cons_of_mem _ member))

end Calls

/-- The tokenizer is safe on every buffer that ends in a zero, and it reads lines of quoted tokens
back. -/
theorem tokenizer_safe_and_invertible (data : List Byte) (ends : data.getLast? = some 0)
    (lines : List (List (List Byte))) (free : ∀ tokens ∈ lines, ∀ token ∈ tokens, 0 ∉ token) :
    Safe data ∧ Tokenizes (.start (writeLines lines ++ [0]))
      (lines.flatMap lineOutputs ++ [.eof]) :=
  ⟨safe_of_terminated ends, readAs_writeLines free _ rfl rfl⟩

/-- A line with a token that is a quote and one that is empty. -/
theorem tokenizer_safe_and_invertible_quote :
    Safe [0x22, 0x61, 0] ∧ Tokenizes (.start (writeLines [[[quote], []]] ++ [0]))
      [.text [quote], .text [], .newline, .eof] :=
  tokenizer_safe_and_invertible [0x22, 0x61, 0] rfl [[[quote], []]] (by decide)

end Aosp.Init
