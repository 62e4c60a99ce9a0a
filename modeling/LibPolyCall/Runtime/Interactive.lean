import LibPolyCall.Library.Lines
import LibPolyCall.Library.Window
import LibPolyCall.Library.Words
import LibPolyCall.Runtime.Runtime
import LibPolyCall.StateMachine.Machine

/-!
# The interactive mode

The loop of `main` that reads commands from the standard input, with `add_to_history`. It cuts the
line into words before it records it, so the history gets the line up to its first word only, and it
compares the first word with the commands also where there is none. So it records every line exactly
where each is one word with nothing behind it and the program table does not overflow
(`recordsLines_iff`). What the loop prints is left out.
-/

namespace LibPolyCall.Runtime

open Bytes CStrings Lines Network Scan StateMachine Words

/-- `MAX_INPUT`. -/
def maxInput : ℕ := 256

/-- `HISTORY_SIZE`. -/
def historySize : ℕ := 10

/-- The separator of the words. -/
def blank : UInt8 := 32

/-- `command_history` and `history_count`. -/
abbrev History := Window (CharArray maxInput) historySize

/-- The commands that the history shows. -/
def historyTexts (history : History) : List Text := history.items.map CharArray.text

/-- `add_to_history`: the command is written over the array that it goes to. -/
def addToHistory (history : History) (command : CString) : History :=
  history.push fun entry => CharArray.print entry command

/-- What the code is loaded with: the byte order, and the addresses of the state callbacks. -/
structure Platform where
  order : ByteOrder
  onInit : Ptr
  onReady : Ptr
  onRunning : Ptr
  onPaused : Ptr
  onError : Ptr

/-- What the calls come to with which a line is handled: the start of a program, the allocation of
the state machine, and what each call of the state machine finds. -/
structure LineOutcome where
  start : StartOutcome
  allocates : Bool
  host : ℕ → StateMachine.Host

/-- What the loop reads and writes of `PPI_Runtime`. -/
structure CommandLine where
  runtime : PPIRuntime
  pcCtx : Ptr
  stateMachine : Option PolyCallStateMachine
  history : History
  running : Bool

/-- The string at a position of the buffer. -/
def stringAt (input : Text) (pos : ℕ) : CString := ⟨textAt input pos, notMem_before nul _⟩

/-- The states that `cmd_init` adds: name, `on_enter`, and whether it is final. -/
def defaultStates (platform : Platform) : List (String × Ptr × Bool) :=
  [("INIT", platform.onInit, false), ("READY", platform.onReady, false),
    ("RUNNING", platform.onRunning, false), ("PAUSED", platform.onPaused, false),
    ("ERROR", platform.onError, true)]

/-- `cmd_init`. -/
def cmdInit (platform : Platform) (outcome : LineOutcome) (s : CommandLine) : CommandLine :=
  if s.stateMachine.isSome then s
  else
    match createWithIntegrity s.pcCtx 0 outcome.allocates with
    | (.success, some sm) =>
      let added := (defaultStates platform).zipIdx.foldl (fun sm state =>
        (addState platform.order (outcome.host state.2) sm
          (some (CString.ofChars state.1.1.toList)) state.1.2.1 0 state.1.2.2).2) sm
      { s with stateMachine := some added }
    | _ => s

/-- `cmd_add_state`. -/
def cmdAddState (platform : Platform) (outcome : LineOutcome) (name : Option CString)
    (s : CommandLine) : CommandLine :=
  match s.stateMachine, name with
  | some sm, some name =>
    { s with
      stateMachine := some (addState platform.order (outcome.host 0) sm (some name) 0 0 false).2 }
  | _, _ => s

/-- `process_command`, on the buffer: `cmd_help` only prints. -/
def processCommand (platform : Platform) (outcome : LineOutcome) (input : Text)
    (s : CommandLine) : CommandLine :=
  let (cmd, input, next) := strtok blank input 0
  let (arg1, input, next) := strtok blank input next
  let (_, input, next) := strtok blank input next
  let (_, input, _) := strtok blank input next
  match cmd with
  | none => s
  | some cmd =>
    let cmd := textAt input cmd
    if cmd = lit "init" then cmdInit platform outcome s
    else if cmd = lit "add_state" then
      cmdAddState platform outcome (arg1.map (stringAt input)) s
    else if cmd = lit "help" then s
    else if cmd = lit "quit" then { s with running := false }
    else s

/-- The commands of the loop that only print. -/
def printingCommands : List Text :=
  [lit "list_endpoints", lit "list_clients", lit "list_states", lit "list_transitions",
    lit "history", lit "status"]

/-- A round of the loop with the bytes that `fgets` stores, which a terminator follows. There is no
result where `strcmp` is given `NULL`, and where the program table overflows. -/
def handleLine (platform : Platform) (s : CommandLine) (read : Text × LineOutcome) :
    Option CommandLine :=
  let outcome := read.2
  -- The newline is overwritten by a terminator.
  let input := before newline (before nul read.1) ++ [nul]
  if textAt input 0 = [] then some s
  else
    let (command, input, next) := strtok blank input 0
    let (arg1, input, _) := strtok blank input next
    let s := { s with history := addToHistory s.history (stringAt input 0) }
    match command with
    | none => none
    | some command =>
      let command := textAt input command
      if command = lit "start_network" then
        (start outcome.start none s.runtime).map fun runtime => { s with runtime }
      else if command = lit "stop_network" then some { s with runtime := stopNetwork s.runtime }
      else if printingCommands.contains command then some s
      else if command = lit "add_state" then
        some (cmdAddState platform outcome (arg1.map (stringAt input)) s)
      else some (processCommand platform outcome input s)

/-- The loop, with what `fgets` stores in each round. -/
def interact (platform : Platform) : CommandLine → List (Text × LineOutcome) → Option CommandLine
  | s, [] => some s
  | s, read :: reads =>
    if s.running then (handleLine platform s read).bind fun s => interact platform s reads
    else some s

/-- The lines on the standard input, with their outcomes, as `fgets` stores them. -/
def typed (lines : List (Text × LineOutcome)) : List (Text × LineOutcome) :=
  ((chunks (maxInput - 1) [] (lines.flatMap fun line => line.1 ++ [newline])).map Chunk.bytes).zip
    (lines.map Prod.snd)

/-- The loop survives the lines, and after each of them the history shows the last ones. -/
def RecordsLines (platform : Platform) (s : CommandLine)
    (lines : List (Text × LineOutcome)) : Prop :=
  ∀ n ≤ lines.length, ∃ s', interact platform s (typed (lines.take n)) = some s' ∧
    historyTexts s'.history = ((lines.take n).map Prod.fst).rtake historySize

/-- `initialize_runtime`: what the loop starts with. -/
def initializeRuntime (pcCtx : Ptr) (basePath : Text) : CommandLine where
  runtime :=
    { programs := []
      portMappings := ⟨List.Vector.replicate maxPorts ⟨0, 0, false⟩, 0, Nat.zero_le _⟩
      basePath := basePath
      programs_le := Nat.zero_le _ }
  pcCtx := pcCtx
  stateMachine := none
  history := ⟨List.Vector.replicate historySize (CharArray.zeros maxInput), 0, Nat.zero_le _⟩
  running := true

/-- Lines of at most 254 characters, none of them empty, that are all read: no line but the last one
is a `quit`. -/
structure AllRead (lines : List (Text × LineOutcome)) : Prop where
  characters : ∀ line ∈ lines, newline ∉ line.1 ∧ nul ∉ line.1
  nonempty : ∀ line ∈ lines, line.1 ≠ []
  short : ∀ line ∈ lines, line.1.length ≤ 254
  quits : ∀ line ∈ lines.dropLast, firstWord blank line.1 ≠ lit "quit"

/-- A line is one word with nothing behind it. -/
def OneWord (line : Text) : Prop :=
  firstWord blank line ≠ [] ∧ line = margin blank line ++ firstWord blank line

/-- Whether a line is one word can be decided. -/
instance (line : Text) : Decidable (OneWord line) := inferInstanceAs (Decidable (_ ∧ _))

/-- The line starts a program. -/
def StartsProgram (line : Text × LineOutcome) : Prop :=
  firstWord blank line.1 = lit "start_network" ∧ line.2.start.Starts

/-- Whether a line starts a program can be decided. -/
instance (line : Text × LineOutcome) : Decidable (StartsProgram line) :=
  inferInstanceAs (Decidable (_ ∧ _))

/-- The programs in the table behind a line. -/
def programsAfter (count : ℕ) (line : Text × LineOutcome) : ℕ :=
  if StartsProgram line then count + 1
  else if firstWord blank line.1 = lit "stop_network" then 0
  else count

/-- There is room in the program table for each program that the lines start. -/
def HaveRoom : ℕ → List (Text × LineOutcome) → Prop
  | _, [] => True
  | count, line :: lines =>
    (StartsProgram line → count < maxPrograms) ∧ HaveRoom (programsAfter count line) lines

variable {platform : Platform} {s : CommandLine} {line rest : Text} {outcome : LineOutcome}

/-! ## The history -/

/-- The command comes last in the history, and the first goes when it is full. -/
theorem historyTexts_addToHistory (history : History) {command : CString}
    (hfits : command.bytes.length < maxInput) :
    historyTexts (addToHistory history command) =
      (historyTexts history ++ [command.bytes]).rtake historySize := by
  refine history.map_items_push (by decide) fun entry => ?_
  rw [CharArray.text_print (by decide), List.take_of_length_le (Nat.le_sub_one_of_lt hfits)]

/-! ## The words of a line -/

/-- A buffer at whose start there is a text with one word. -/
def wordBuffer (line rest : Text) : Text :=
  margin blank line ++ (firstWord blank line ++ nul :: rest)

/-- A blank is no terminator. -/
theorem blank_ne_nul : blank ≠ nul := by decide

/-- The margin of a line has no terminator. -/
theorem notMem_margin (hnul : nul ∉ line) : nul ∉ margin blank line := fun hmem =>
  hnul ((List.takeWhile_sublist _).subset hmem)

/-- A word of a line has no separator and no terminator. -/
theorem of_mem_firstWord (hnul : nul ∉ line) {b : UInt8} (hb : b ∈ firstWord blank line) :
    b ≠ nul ∧ b ≠ blank := by
  constructor
  · rintro rfl
    exact hnul ((List.dropWhile_sublist _).subset (mem_of_mem_before hb))
  · rintro rfl
    exact notMem_before blank _ hb

/-- At the terminator there is no word. -/
theorem strtok_end (front rest : Text) :
    strtok blank (front ++ nul :: rest) front.length =
      (none, front ++ nul :: rest, front.length) := by
  have hnone := @strtok_none blank [] blank_ne_nul (by simp) rest
  rw [strtok_append]
  rw [List.nil_append] at hnone
  rw [hnone]
  rfl

/-- The first word of a line is found again in the buffer that `strtok` has cut. -/
theorem strtok_wordBuffer (hnul : nul ∉ line) (hword : firstWord blank line ≠ []) (rest : Text) :
    strtok blank (wordBuffer line rest) 0 = (some (margin blank line).length, wordBuffer line rest,
      (margin blank line ++ firstWord blank line).length) := by
  rw [wordBuffer, strtok_word (fun b hb => eq_of_mem_margin hb) hword
    (fun b hb => of_mem_firstWord hnul hb) (.inl rfl), if_pos rfl, List.length_append]
  rfl

/-- The two calls of the loop leave the line cut behind its first word. -/
theorem strtok_strtok (hnul : nul ∉ line) (hword : firstWord blank line ≠ []) :
    (strtok blank (line ++ [nul]) 0).1 = some (margin blank line).length ∧
      ∃ rest, (strtok blank (strtok blank (line ++ [nul]) 0).2.1
        (strtok blank (line ++ [nul]) 0).2.2).2.1 = wordBuffer line rest := by
  obtain ⟨behind, heq, hbehind⟩ := exists_eq_append blank line
  have hblank : ∀ b ∈ margin blank line, b = blank := fun b hb => eq_of_mem_margin hb
  have hchars : ∀ b ∈ firstWord blank line, b ≠ nul ∧ b ≠ blank := fun b hb =>
    of_mem_firstWord hnul hb
  rcases hbehind with rfl | ⟨more, rfl⟩
  · -- The word is the last thing in the line.
    have hbuffer : line ++ [nul] = wordBuffer line [] := by
      rw [wordBuffer, ← List.append_assoc]
      rw [List.append_nil] at heq
      exact congrArg (· ++ [nul]) heq
    rw [hbuffer, strtok_wordBuffer hnul hword]
    refine ⟨rfl, [], ?_⟩
    dsimp only
    rw [wordBuffer, ← List.append_assoc, strtok_end]
  · -- The first call overwrites the blank behind the word, and the second goes on behind it.
    have hbuffer : line ++ [nul] =
        margin blank line ++ (firstWord blank line ++ blank :: (more ++ [nul])) := by
      conv_lhs => rw [heq]
      simp only [List.append_assoc, List.cons_append]
    have hcut := strtok_word hblank hword hchars (.inr rfl : blank = nul ∨ blank = blank)
      (more ++ [nul])
    -- The second call starts where the first one ended.
    have hlength : (margin blank line).length + (firstWord blank line).length +
        (if blank = nul then 0 else 1) =
        (margin blank line ++ (firstWord blank line ++ [nul])).length := by
      rw [if_neg blank_ne_nul, List.length_append, List.length_append, List.length_singleton,
        Nat.add_assoc]
    have hsplit : margin blank line ++ (firstWord blank line ++ nul :: (more ++ [nul])) =
        margin blank line ++ (firstWord blank line ++ [nul]) ++ (more ++ [nul]) := by
      simp only [List.append_assoc, List.singleton_append]
    rw [hbuffer, hcut, hlength]
    dsimp only
    rw [hsplit, strtok_append]
    refine ⟨rfl, (strtok blank (more ++ [nul]) 0).2.1, ?_⟩
    rw [wordBuffer, List.append_assoc, List.append_assoc, List.singleton_append]

/-- From its start on, the buffer that `strtok` has cut has the margin and the first word. -/
theorem textAt_wordBuffer (hnul : nul ∉ line) (rest : Text) :
    textAt (wordBuffer line rest) 0 = margin blank line ++ firstWord blank line := by
  have hfront : nul ∉ margin blank line ++ firstWord blank line := by
    rw [List.mem_append, not_or]
    exact ⟨notMem_margin hnul, fun hmem => (of_mem_firstWord hnul hmem).1 rfl⟩
  rw [wordBuffer, ← List.append_assoc, textAt_append hfront]

/-- Behind the margin it has the first word. -/
theorem textAt_margin (hnul : nul ∉ line) (rest : Text) :
    textAt (wordBuffer line rest) (margin blank line).length = firstWord blank line :=
  textAt_length _ (fun hmem => (of_mem_firstWord hnul hmem).1 rfl) rest

/-! ## A round -/

/-- The two states differ in their state machines only. -/
structure SameBut (s s' : CommandLine) : Prop where
  history : s'.history = s.history
  runtime : s'.runtime = s.runtime
  running : s'.running = s.running

/-- `init` changes the state machine only. -/
theorem sameBut_cmdInit : SameBut s (cmdInit platform outcome s) := by
  unfold cmdInit
  split_ifs
  · exact ⟨rfl, rfl, rfl⟩
  · split <;> exact ⟨rfl, rfl, rfl⟩

/-- `add_state` changes the state machine only. -/
theorem sameBut_cmdAddState (name : Option CString) :
    SameBut s (cmdAddState platform outcome name s) := by
  unfold cmdAddState
  split <;> exact ⟨rfl, rfl, rfl⟩

/-- `process_command` ends the loop at a `quit`, and changes nothing but the state machine
otherwise. -/
theorem processCommand_cases (hnul : nul ∉ line) (hword : firstWord blank line ≠ []) (rest : Text) :
    SameBut s (processCommand platform outcome (wordBuffer line rest) s) ∨
      firstWord blank line = lit "quit" ∧
        processCommand platform outcome (wordBuffer line rest) s = { s with running := false } := by
  have hend : strtok blank (wordBuffer line rest)
      (margin blank line ++ firstWord blank line).length = (none, wordBuffer line rest,
        (margin blank line ++ firstWord blank line).length) := by
    rw [wordBuffer, ← List.append_assoc, strtok_end]
  unfold processCommand
  rw [strtok_wordBuffer hnul hword]
  dsimp only
  rw [hend]
  dsimp only
  rw [hend]
  dsimp only
  rw [hend]
  dsimp only
  rw [textAt_margin hnul]
  split_ifs with hinit hadd hhelp hquit
  · exact .inl sameBut_cmdInit
  · exact .inl (sameBut_cmdAddState _)
  · exact .inl ⟨rfl, rfl, rfl⟩
  · exact .inr ⟨hquit, rfl⟩
  · exact .inl ⟨rfl, rfl, rfl⟩

/-- The line as it is in the buffer when it is cut into words. -/
theorem before_newline (hnewline : newline ∉ line) (hnul : nul ∉ line) :
    before newline (before nul (line ++ [newline])) = line := by
  have hread : nul ∉ line ++ [newline] := by
    rw [List.mem_append, not_or]
    exact ⟨hnul, by decide⟩
  rw [before_eq_self hread, before_append_cons hnewline]

/-- Where there is no word, `strcmp` is given `NULL`. -/
theorem handleLine_blank (hnewline : newline ∉ line) (hnul : nul ∉ line) (hne : line ≠ [])
    (hword : firstWord blank line = []) :
    handleLine platform s (line ++ [newline], outcome) = none := by
  have hblank : ∀ b ∈ line, b = blank := fun b hb =>
    eq_of_mem_margin (eq_margin_of_firstWord_eq_nil hword ▸ hb)
  unfold handleLine
  dsimp only
  rw [before_newline hnewline hnul, textAt_append hnul, if_neg hne,
    strtok_none blank_ne_nul hblank]

/-- What a round makes of a line with a word: it records the line up to the word, and it changes the
program table and ends the loop as the word says. -/
structure Handled (s s' : CommandLine) (line : Text × LineOutcome) : Prop where
  texts : historyTexts s'.history =
    (historyTexts s.history ++ [margin blank line.1 ++ firstWord blank line.1]).rtake historySize
  programs : s'.runtime.programs.length = programsAfter s.runtime.programs.length line
  running : firstWord blank line.1 ≠ lit "quit" → s'.running = s.running

/-- The line up to its first word fits into an entry of the history. -/
theorem length_stringAt_wordBuffer (hnul : nul ∉ line) (hfits : line.length ≤ 254) (rest : Text) :
    (stringAt (wordBuffer line rest) 0).bytes.length < maxInput := by
  have hstring : (stringAt (wordBuffer line rest) 0).bytes =
      margin blank line ++ firstWord blank line := textAt_wordBuffer hnul rest
  obtain ⟨behind, heq, -⟩ := exists_eq_append blank line
  have hsum := congrArg List.length heq
  rw [← List.append_assoc, List.length_append] at hsum
  rw [hstring]
  show _ < 256
  omega

section Commands

variable {s' : CommandLine} {history : History}

/-- Most commands leave the program table alone. -/
theorem SameBut.handled (hsame : SameBut { s with history } s')
    (htexts : historyTexts history =
      (historyTexts s.history ++ [margin blank line ++ firstWord blank line]).rtake historySize)
    (hstart : ¬StartsProgram (line, outcome)) (hstop : firstWord blank line ≠ lit "stop_network") :
    Handled s s' (line, outcome) := by
  refine ⟨by rw [hsame.history, htexts], ?_, fun _ => hsame.running⟩
  rw [hsame.runtime, programsAfter, if_neg hstart, if_neg hstop]

/-- A `start_network` that succeeds adds its program, if there is room for it. -/
theorem start_handled (hstart : firstWord blank line = lit "start_network")
    (htexts : historyTexts history =
      (historyTexts s.history ++ [margin blank line ++ firstWord blank line]).rtake historySize) :
    (StartsProgram (line, outcome) ∧ ¬ s.runtime.programs.length < maxPrograms ∧
        (start outcome.start none s.runtime).map (fun runtime => { s with history, runtime }) =
          none) ∨
      (StartsProgram (line, outcome) → s.runtime.programs.length < maxPrograms) ∧
        ∃ s', (start outcome.start none s.runtime).map
            (fun runtime => { s with history, runtime }) = some s' ∧
          Handled s s' (line, outcome) := by
  have hstop : firstWord blank line ≠ lit "stop_network" := by
    rw [hstart]
    decide
  unfold start
  by_cases hstarts : outcome.start.Starts
  · rw [if_pos hstarts]
    by_cases hroom : s.runtime.programs.length < maxPrograms
    · obtain ⟨r, happend, hprograms, -⟩ :=
        PPIRuntime.append_of_lt hroom (startedProgram outcome.start.host)
      refine .inr ⟨fun _ => hroom, _, congrArg (Option.map _) happend, htexts, ?_, fun _ => rfl⟩
      rw [programsAfter, if_pos ⟨hstart, hstarts⟩, ← List.length_singleton, ← List.length_append,
        ← hprograms]
    · refine .inl ⟨⟨hstart, hstarts⟩, hroom, ?_⟩
      exact congrArg (Option.map _) (PPIRuntime.append_of_not_lt hroom _)
  · rw [if_neg hstarts]
    refine .inr ⟨fun h => absurd h.2 hstarts, _, rfl, ?_⟩
    exact SameBut.handled ⟨rfl, rfl, rfl⟩ htexts (fun h => hstarts h.2) hstop

end Commands

/-- A round with a word survives, unless it starts a program for which there is no room. -/
theorem handleLine_word (hnewline : newline ∉ line) (hnul : nul ∉ line)
    (hfits : line.length ≤ 254) (hword : firstWord blank line ≠ []) :
    (StartsProgram (line, outcome) ∧ ¬ s.runtime.programs.length < maxPrograms ∧
        handleLine platform s (line ++ [newline], outcome) = none) ∨
      (StartsProgram (line, outcome) → s.runtime.programs.length < maxPrograms) ∧
        ∃ s', handleLine platform s (line ++ [newline], outcome) = some s' ∧
          Handled s s' (line, outcome) := by
  have hne : line ≠ [] := by
    rintro rfl
    exact hword rfl
  obtain ⟨hcommand, rest, hinput⟩ := strtok_strtok hnul hword
  unfold handleLine
  dsimp only
  rw [before_newline hnewline hnul, textAt_append hnul, if_neg hne]
  -- The line in the buffer is cut behind its first word.
  generalize strtok blank (line ++ [nul]) 0 = first at *
  obtain ⟨command, cut, next⟩ := first
  dsimp only at *
  generalize strtok blank cut next = second at *
  obtain ⟨arg1, input, next'⟩ := second
  dsimp only at *
  subst hcommand hinput
  dsimp only
  rw [textAt_margin hnul]
  have htexts : historyTexts (addToHistory s.history (stringAt (wordBuffer line rest) 0)) =
      (historyTexts s.history ++
        [margin blank line ++ firstWord blank line]).rtake historySize := by
    rw [historyTexts_addToHistory s.history (length_stringAt_wordBuffer hnul hfits rest),
      ← textAt_wordBuffer hnul rest]
    rfl
  generalize addToHistory s.history (stringAt (wordBuffer line rest) 0) = history at *
  by_cases hstart : firstWord blank line = lit "start_network"
  · rw [if_pos hstart]
    exact start_handled hstart htexts
  · have hnot : ¬ StartsProgram (line, outcome) := fun h => hstart h.1
    rw [if_neg hstart]
    refine .inr ⟨fun h => absurd h hnot, ?_⟩
    by_cases hstop : firstWord blank line = lit "stop_network"
    · rw [if_pos hstop]
      refine ⟨_, rfl, htexts, ?_, fun _ => rfl⟩
      rw [programsAfter, if_neg hnot, if_pos hstop]
      rfl
    · rw [if_neg hstop]
      split_ifs
      · exact ⟨_, rfl, SameBut.handled ⟨rfl, rfl, rfl⟩ htexts hnot hstop⟩
      · exact ⟨_, rfl, (sameBut_cmdAddState _).handled htexts hnot hstop⟩
      · refine ⟨_, rfl, ?_⟩
        rcases processCommand_cases hnul hword rest with hsame | ⟨hquit, heq⟩
        · exact hsame.handled htexts hnot hstop
        · rw [heq]
          refine ⟨htexts, ?_, fun h => absurd hquit h⟩
          rw [programsAfter, if_neg hnot, if_neg hstop]

/-! ## The loop -/

/-- What the lines are read as. -/
theorem typed_eq {lines : List (Text × LineOutcome)}
    (hlines : ∀ line ∈ lines, newline ∉ line.1 ∧ line.1.length ≤ 254) :
    typed lines = lines.map fun line => (line.1 ++ [newline], line.2) := by
  have hchunks := chunks_flatMap (maxInput - 1) (lines.map Prod.fst) fun line hline => by
    obtain ⟨l, hl, rfl⟩ := List.mem_map.1 hline
    exact ⟨(hlines l hl).1, Nat.lt_succ_of_le (hlines l hl).2⟩
  rw [List.flatMap_map] at hchunks
  rw [typed, hchunks, List.map_map, List.map_map, List.zip_map']
  rfl

/-- Behind a line that is read, the others are all read. -/
theorem AllRead.tail {line : Text × LineOutcome} {lines : List (Text × LineOutcome)}
    (h : AllRead (line :: lines)) : AllRead lines where
  characters l hl := h.characters l (List.mem_cons_of_mem _ hl)
  nonempty l hl := h.nonempty l (List.mem_cons_of_mem _ hl)
  short l hl := h.short l (List.mem_cons_of_mem _ hl)
  quits l hl := by
    refine h.quits l ?_
    cases lines with
    | nil => cases hl
    | cons m lines => exact List.mem_cons_of_mem _ hl

/-- Behind a line that another one follows, the loop goes on. -/
theorem AllRead.head_ne_quit {line : Text × LineOutcome} {lines : List (Text × LineOutcome)}
    (h : AllRead (line :: lines)) (hne : lines ≠ []) : firstWord blank line.1 ≠ lit "quit" := by
  refine h.quits line ?_
  rw [List.dropLast_cons_of_ne_nil hne]
  exact List.mem_cons_self

/-- What is recorded last is what the history shows last. -/
theorem eq_of_rtake_concat {l m : List Text} {x y : Text}
    (h : (l ++ [x]).rtake historySize = (m ++ [y]).rtake historySize) : x = y := by
  rw [historySize, List.rtake_concat_succ, List.rtake_concat_succ] at h
  exact List.head_eq_of_cons_eq (List.append_inj_right' h rfl)

/-- The history is right after each of the lines, with those before them. -/
def RecordsFrom (platform : Platform) (s : CommandLine) (before : List Text)
    (lines : List (Text × LineOutcome)) : Prop :=
  ∀ n ≤ lines.length, ∃ s', interact platform s
      ((lines.take n).map fun line => (line.1 ++ [newline], line.2)) = some s' ∧
    historyTexts s'.history = (before ++ (lines.take n).map Prod.fst).rtake historySize

/-- Without lines the history is what it was. -/
theorem recordsFrom_nil {before : List Text}
    (htexts : historyTexts s.history = before.rtake historySize) :
    RecordsFrom platform s before [] := by
  intro n _
  refine ⟨s, ?_, ?_⟩
  · rw [List.take_nil]
    rfl
  · rw [List.take_nil, List.map_nil, List.append_nil, htexts]

/-- The lines behind the first one are recorded from the state that it leads to. -/
theorem recordsFrom_cons {before : List Text} {line : Text × LineOutcome}
    {lines : List (Text × LineOutcome)} (hrunning : s.running = true)
    (htexts : historyTexts s.history = before.rtake historySize) :
    RecordsFrom platform s before (line :: lines) ↔
      ∃ s₁, handleLine platform s (line.1 ++ [newline], line.2) = some s₁ ∧
        RecordsFrom platform s₁ (before ++ [line.1]) lines := by
  have hcons : ∀ n, interact platform s
      (((line :: lines).take (n + 1)).map fun line => (line.1 ++ [newline], line.2)) =
      (handleLine platform s (line.1 ++ [newline], line.2)).bind fun s => interact platform s
        ((lines.take n).map fun line => (line.1 ++ [newline], line.2)) := fun n => by
    rw [List.take_succ_cons, List.map_cons, interact, if_pos hrunning]
  have hlines : ∀ n, before ++ ((line :: lines).take (n + 1)).map Prod.fst =
      before ++ [line.1] ++ (lines.take n).map Prod.fst := fun n => by
    rw [List.take_succ_cons, List.map_cons, List.append_assoc, List.singleton_append]
  constructor
  · intro h
    obtain ⟨s', hs', -⟩ := h 1 (Nat.succ_le_succ (Nat.zero_le _))
    rw [hcons] at hs'
    obtain ⟨s₁, hsome, -⟩ := Option.bind_eq_some_iff.1 hs'
    refine ⟨s₁, hsome, fun n hn => ?_⟩
    have hn' := h (n + 1) (Nat.succ_le_succ hn)
    rwa [hcons, hlines, hsome, Option.bind_some] at hn'
  · rintro ⟨s₁, hsome, h⟩ (_ | n) hn
    · exact ⟨s, rfl, by rw [List.take_zero, List.map_nil, List.append_nil, htexts]⟩
    · have hn' := h n (Nat.le_of_succ_le_succ hn)
      rwa [hcons, hlines, hsome, Option.bind_some]

/-- From a state in which the history shows the last lines of those before, every line is recorded
where each is one word, and there is room for the programs. -/
theorem recordsFrom_iff {lines : List (Text × LineOutcome)} (hread : AllRead lines)
    {before : List Text} (htexts : historyTexts s.history = before.rtake historySize)
    (hrunning : lines ≠ [] → s.running = true) :
    RecordsFrom platform s before lines ↔
      (∀ line ∈ lines, OneWord line.1) ∧ HaveRoom s.runtime.programs.length lines := by
  -- The induction is on the lines that are still to come, the lines before them free.
  induction lines generalizing s before with
  | nil => exact iff_of_true (recordsFrom_nil htexts) ⟨by simp, trivial⟩
  | cons line lines ih =>
    obtain ⟨hnewline, hnul⟩ := hread.characters line List.mem_cons_self
    have hne := hread.nonempty line List.mem_cons_self
    have hfits := hread.short line List.mem_cons_self
    have hrunning := hrunning (List.cons_ne_nil _ _)
    rw [recordsFrom_cons hrunning htexts, List.forall_mem_cons, HaveRoom]
    -- A line without a word ends the program.
    by_cases hword : firstWord blank line.1 = []
    · refine iff_of_false ?_ fun h => h.1.1.1 hword
      rintro ⟨s₁, hs₁, -⟩
      rw [handleLine_blank hnewline hnul hne hword] at hs₁
      cases hs₁
    rcases @handleLine_word platform s line.1 line.2 hnewline hnul hfits hword with
      ⟨hstarts, hroom, hnone⟩ | ⟨hroom, s₁, hsome, hhandled⟩
    · refine iff_of_false ?_ fun h => hroom (h.2.1 hstarts)
      rintro ⟨s₁, hs₁, -⟩
      rw [hnone] at hs₁
      cases hs₁
    -- The line is handled: its first word is behind the lines before it.
    have htexts₁ := hhandled.texts
    rw [htexts, List.rtake_rtake_append] at htexts₁
    simp only [hsome, Option.some.injEq, exists_eq_left']
    by_cases hone : line.1 = margin blank line.1 ++ firstWord blank line.1
    · rw [← hone] at htexts₁
      have hrunning₁ : lines ≠ [] → s₁.running = true := fun hlines =>
        (hhandled.running (hread.head_ne_quit hlines)).trans hrunning
      rw [ih hread.tail htexts₁ hrunning₁, hhandled.programs]
      exact ⟨fun h => ⟨⟨⟨hword, hone⟩, h.1⟩, hroom, h.2⟩, fun h => ⟨h.1.2, h.2.2⟩⟩
    · -- The line is recorded without what is behind its first word.
      refine iff_of_false (fun h => hone ?_) fun h => hone h.1.1.2
      obtain ⟨s', hs', htexts'⟩ := h 0 (Nat.zero_le _)
      obtain rfl := Option.some.inj hs'
      rw [htexts₁, List.take_zero, List.map_nil, List.append_nil] at htexts'
      exact (eq_of_rtake_concat htexts').symm

/-- What is read is what is typed. -/
theorem recordsLines_iff_recordsFrom {lines : List (Text × LineOutcome)} (hread : AllRead lines) :
    RecordsLines platform s lines ↔ RecordsFrom platform s [] lines := by
  refine forall₂_congr fun n _ => ?_
  rw [typed_eq fun line hline =>
    ⟨(hread.characters line (List.mem_of_mem_take hline)).1,
      hread.short line (List.mem_of_mem_take hline)⟩, List.nil_append]

/-- An empty history has no texts. -/
theorem historyTexts_of_count (hempty : s.history.count = 0) :
    historyTexts s.history = List.rtake [] historySize := by
  rw [historyTexts, Window.items, hempty]
  rfl

/-- What a line finds when no call succeeds. -/
def noneSucceeds : LineOutcome where
  start := ⟨false, ⟨false, fun _ => false, false, false, 0, false, false, false⟩⟩
  allocates := false
  host _ := ⟨0, fun _ _ _ => false, fun _ _ => false⟩

/-- The interactive mode records every line exactly where each is one word with nothing behind it,
and the program table has room for the programs that are started. -/
theorem recordsLines_iff (platform : Platform) {s : CommandLine}
    {lines : List (Text × LineOutcome)} (hrunning : s.running = true)
    (hempty : s.history.count = 0) (hread : AllRead lines) :
    RecordsLines platform s lines ↔
      (∀ line ∈ lines, OneWord line.1) ∧ HaveRoom s.runtime.programs.length lines := by
  rw [recordsLines_iff_recordsFrom hread,
    recordsFrom_iff hread (historyTexts_of_count hempty) fun _ => hrunning]

/-- A `help` and a `quit`. -/
theorem recordsLines_iff_help : RecordsLines ⟨.little, 1, 2, 3, 4, 5⟩ (initializeRuntime 1 [])
    [(lit "help", noneSucceeds), (lit "quit", noneSucceeds)] := by
  have hread : AllRead [(lit "help", noneSucceeds), (lit "quit", noneSucceeds)] := by
    refine ⟨?_, ?_, ?_, List.forall_mem_singleton.2 (by decide)⟩
    all_goals rw [List.forall_mem_cons, List.forall_mem_singleton]
    · exact ⟨⟨by decide, by decide⟩, by decide, by decide⟩
    · exact ⟨by decide, by decide⟩
    · exact ⟨by decide, by decide⟩
  refine (recordsLines_iff _ rfl rfl hread).2 ⟨?_, ?_⟩
  · rw [List.forall_mem_cons, List.forall_mem_singleton]
    exact ⟨by decide, by decide⟩
  · exact ⟨fun h => absurd h.1 (by decide), fun h => absurd h.1 (by decide), trivial⟩

/-- Of a line with two words the first is recorded, and a line of blanks has no word to compare. -/
theorem second_word_lost :
    ¬ RecordsLines ⟨.little, 1, 2, 3, 4, 5⟩ (initializeRuntime 1 [])
        [(lit "add_state idle", noneSucceeds)] ∧
      ¬ RecordsLines ⟨.little, 1, 2, 3, 4, 5⟩ (initializeRuntime 1 [])
        [(lit " ", noneSucceeds)] := by
  have hread : ∀ {line : Text}, newline ∉ line ∧ nul ∉ line → line ≠ [] → line.length ≤ 254 →
      AllRead [(line, noneSucceeds)] := fun hcharacters hne hshort =>
    ⟨List.forall_mem_singleton.2 hcharacters, List.forall_mem_singleton.2 hne,
      List.forall_mem_singleton.2 hshort, List.forall_mem_nil _⟩
  have hlost : ∀ {line : Text}, AllRead [(line, noneSucceeds)] → ¬ OneWord line →
      ¬ RecordsLines ⟨.little, 1, 2, 3, 4, 5⟩ (initializeRuntime 1 []) [(line, noneSucceeds)] := by
    intro line hread hnot h
    rw [recordsLines_iff_recordsFrom hread,
      recordsFrom_iff hread (historyTexts_of_count rfl) fun _ => rfl] at h
    exact hnot (h.1 _ List.mem_cons_self)
  exact ⟨hlost (hread ⟨by decide, by decide⟩ (by decide) (by decide)) (by decide),
    hlost (hread ⟨by decide, by decide⟩ (by decide) (by decide)) (by decide)⟩

end LibPolyCall.Runtime
