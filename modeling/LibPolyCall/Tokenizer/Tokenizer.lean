import LibPolyCall.Library.Lexing
import LibPolyCall.Tokenizer.Matchers

/-!
# The tokenizer

`polycall_tokenizer_create`, `_set_input` and `_process` of `polycall_tokenizer.c`. The buffer is
the memory from the start of its allocation on: `input.size` bytes of it were asked for, and
`_set_input` stores a terminator behind an input of that length too. The conversion `strtod` of the
C library is a parameter, of which nothing is assumed.
-/

namespace LibPolyCall.Tokenizer

open Scan Lexing

/-- `TokenPattern`. -/
structure TokenPattern where
  matcher : Text → Option ℕ
  produces : PolycallTokenType

/-- `TokenConsumer`. -/
structure TokenConsumer where
  consume : PolycallToken → PolycallToken
  accepts : PolycallTokenType

/-- `TokenizerOperations`: each pattern with the consumer at its place. -/
abbrev TokenizerOperations := List (TokenPattern × TokenConsumer)

/-- The limits of a `PolycallTokenizerConfig` that the tokenizer reads. -/
structure PolycallTokenizerConfig where
  buffer : ℕ
  token : ℕ
deriving DecidableEq, Repr

/-- `POLYCALL_TOKENIZER_DEFAULT_CONFIG`. -/
def defaultConfig : PolycallTokenizerConfig := ⟨4096, 256⟩

/-- The states of the tokenizer that its functions set. -/
inductive PolycallTokenizerState where
  | ready
  | scanning
  | error
deriving DecidableEq, Repr

/-- `input`: the memory of the buffer, its size and the scan position. -/
structure InputBuffer where
  buffer : Text
  size : ℕ
  position : ℕ
deriving DecidableEq, Repr

/-- `position`. -/
structure SourcePosition where
  line : ℕ
  column : ℕ
deriving DecidableEq, Repr

/-- `state`. -/
structure ScanState where
  current : PolycallTokenizerState
  errorMessage : Option Text
  errorCount : UInt32
deriving DecidableEq, Repr

/-- `PolycallTokenizer`. -/
structure PolycallTokenizer where
  input : InputBuffer
  position : SourcePosition
  state : ScanState
  tokens : PolycallTokenArray
deriving DecidableEq, Repr

/-- `set_error_state`. -/
def setErrorState (t : PolycallTokenizer) (message : Text) : PolycallTokenizer :=
  { t with state := ⟨.error, some message, t.state.errorCount + 1⟩ }

/-- `reset_state`. -/
def resetState (t : PolycallTokenizer) : PolycallTokenizer :=
  { t with
    input := { t.input with position := 0 }
    position := ⟨1, 1⟩
    state := { t.state with current := .ready, errorMessage := none } }

/-- What the allocations of `polycall_tokenizer_create` give: the contents of the memory that
`malloc` returns for the buffer, and whether the others succeed. -/
structure Allocations where
  tokenizer : Bool
  buffer : Option Text
  tokens : Bool

/-- A division by zero, which the processor traps. -/
inductive Trap where
  | divisionByZero
deriving DecidableEq, Repr

/-- `polycall_tokenizer_create`. -/
def create (config : Option PolycallTokenizerConfig) (alloc : Allocations) :
    Except Trap (Option PolycallTokenizer) :=
  let actual := config.getD defaultConfig
  if alloc.tokenizer then
    match alloc.buffer with
    | none => .ok none
    | some memory =>
      if actual.token = 0 then .error .divisionByZero
      else if alloc.tokens then
        .ok <| some <| resetState
          { input := ⟨memory, actual.buffer, 0⟩
            position := ⟨0, 0⟩
            state := ⟨.ready, none, 0⟩
            tokens := .create (UInt32.ofNat (actual.buffer / actual.token)) }
      else .ok none
  else .ok none

/-- `polycall_tokenizer_set_input`: `memcpy`, and the terminator behind what was copied. -/
def setInput (t : PolycallTokenizer) (input : Option Text) : Bool × PolycallTokenizer :=
  match input with
  | none => (false, t)
  | some input =>
    if input.length = 0 then (false, t)
    else if t.input.size < input.length then
      (false, setErrorState t (lit "Buffer overflow"))
    else
      let buffer := input ++ nul :: t.input.buffer.drop (input.length + 1)
      (true, resetState { t with input := ⟨buffer, t.input.size, 0⟩ })

/-- `create_token`, for the lexeme that `start` begins with. `data` is where it stands in the
buffer. -/
def createToken (strtod : Text → UInt64) (position : SourcePosition) (data : ℕ)
    (type : PolycallTokenType) (start : Text) (length : ℕ) : PolycallToken :=
  let string := before nul start
  { value :=
      match type with
      | .identifier => .identifier data (UInt32.ofNat length)
      -- The point is looked for in all of the string, not only in the lexeme.
      | .number => if point ∈ string then .float (strtod string) else .integer (strtoll string)
      | .string => .string (data + 1) (UInt32.ofNat length - 2)
      | _ => .none
    type
    flags := 0
    line := UInt32.ofNat position.line
    column := UInt32.ofNat position.column
    length := UInt32.ofNat length }

/-- The token that an operation makes of a lexeme, with its consumer applied. -/
def makeToken (strtod : Text → UInt64) (position : SourcePosition) (data : ℕ)
    (op : TokenPattern × TokenConsumer) (start : Text) (length : ℕ) : PolycallToken :=
  let token := createToken strtod position data op.1.produces start length
  if op.2.accepts = token.type then op.2.consume token else token

/-- The first of the operations whose pattern matches, and the length of its match. -/
def firstMatch (ops : TokenizerOperations) (current : Text) :
    Option ((TokenPattern × TokenConsumer) × ℕ) :=
  ops.findSome? fun op => (op.1.matcher current).map fun length => (op, length)

/-- The position behind a byte of white space. -/
def SourcePosition.skip (position : SourcePosition) (b : UInt8) : SourcePosition :=
  if b = newline then ⟨position.line + 1, 1⟩ else { position with column := position.column + 1 }

/-- The position behind a lexeme. -/
def SourcePosition.advance (position : SourcePosition) (length : ℕ) : SourcePosition :=
  { position with column := position.column + length }

/-- The `EOF` token at a position. -/
def eofToken (position : SourcePosition) : PolycallToken :=
  ⟨.none, .eof, 0, UInt32.ofNat position.line, UInt32.ofNat position.column, 0⟩

/-- What `polycall_tokenizer_process` does behind its loop. -/
def finish (t : PolycallTokenizer) : PolycallTokenizer :=
  { t with
    tokens := t.tokens.add (eofToken t.position)
    state := { t.state with current := .ready } }

/-- The rest of the buffer: `current`. -/
def PolycallTokenizer.current (t : PolycallTokenizer) : Text := t.input.buffer.drop t.input.position

/-- A byte of white space is skipped. -/
def PolycallTokenizer.skip (t : PolycallTokenizer) (b : UInt8) : PolycallTokenizer :=
  { t with
    input := { t.input with position := t.input.position + 1 }
    position := t.position.skip b }

/-- The lexeme of an operation is taken. -/
def PolycallTokenizer.take (strtod : Text → UInt64) (t : PolycallTokenizer)
    (op : TokenPattern × TokenConsumer) (length : ℕ) : PolycallTokenizer :=
  { t with
    input := { t.input with position := t.input.position + length }
    position := t.position.advance length
    tokens := t.tokens.add
      (makeToken strtod t.position t.input.position op t.current length) }

/-- The loop of `polycall_tokenizer_process`. Each round that goes on moves the position, so the
first number bounds the rounds that are left. A match of no bytes would leave the position where it
is for ever: then the loop does not return. -/
def processLoop (strtod : Text → UInt64) (ops : TokenizerOperations) :
    ℕ → PolycallTokenizer → Option (Bool × PolycallTokenizer)
  | 0, t => some (true, finish t)
  | rounds + 1, t =>
    if t.input.position < t.input.size then
      if isSpace (byteAt t.current 0) then
        processLoop strtod ops rounds (t.skip (byteAt t.current 0))
      else
        match firstMatch ops t.current with
        | none => some (false, setErrorState t (lit "Invalid input"))
        | some (op, length) =>
          if length = 0 then none else processLoop strtod ops rounds (t.take strtod op length)
    else some (true, finish t)

/-- `polycall_tokenizer_process`: what it returns and leaves behind, if it returns. -/
def process (strtod : Text → UInt64) (t : PolycallTokenizer) (ops : Option TokenizerOperations) :
    Option (Bool × PolycallTokenizer) :=
  match ops with
  | none => some (false, t)
  | some ops =>
    processLoop strtod ops (t.input.size - t.input.position)
      { t with state := { t.state with current := .scanning } }

end LibPolyCall.Tokenizer
