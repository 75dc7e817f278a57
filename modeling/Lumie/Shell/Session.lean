import Lumie.Shell.Commands

/-!
# A session at the prompt

`kernel_shell` with its handlers, over the characters that the calls of
`keyboard_get_char` return in each `readline`.  The shell shows the prompt, the
echo of the keys and the replies to the edited lines; `sessionReply` is that
text, which depends neither on the screen nor on what the buffers held before.
-/

set_option autoImplicit false

namespace Lumie.Session

open MachineInt FoldRun
open Lumie.Strings Lumie.Screen Lumie.Fat Lumie.Input Lumie.InputLine
open Lumie.Keyboard Lumie.Dispatch Lumie.Commands

structure Turn where
  keys : List UInt8
  moment : Moment

def runEvents (board : Board) (moment : Moment) :
    List ShellEvent → Kernel → Option (Kernel × Option Halt)
  | [], kernel => some (kernel, none)
  | .print call :: rest, kernel =>
      runEvents board moment rest (kernel.kprint board call)
  | .run command args :: rest, kernel =>
      match callHandler board moment kernel args command with
      | none => none
      | some (after, some halt) => some (after, some halt)
      | some (after, none) => runEvents board moment rest after

/-- The state when the keys are used up, or where a handler does not come
back.  A turn that would read outside a buffer has no result. -/
def kernelShell (board : Board) :
    List Turn → Kernel → View → Option (Kernel × Option Halt)
  | [], kernel, _ => some (kernel.kprint board prompt, none)
  | turn :: rest, kernel, input =>
      let prompted := kernel.kprint board prompt
      match readline board.fb board.font prompted.con input 128 turn.keys with
      | .waiting line => some ({ prompted with con := line.con }, none)
      | .done line =>
          match shellTurn line.buffer with
          | none => none
          | some (events, after) =>
              match runEvents board turn.moment events
                  { prompted with con := line.con } with
              | none => none
              | some (done, some halt) => some (done, some halt)
              | some (done, none) => kernelShell board rest done after

/-! ## What it shows -/

def echoChar (text : List UInt8) (c : UInt8) : List CharOp :=
  if c = 0x08 then
    if text = [] then [] else [.backspace]
  else if text.length < 127 then say [c] 0xFFFFFF
  else []

def echo : List UInt8 → List UInt8 → List CharOp
  | _, [] => []
  | text, c :: rest =>
      if c = 0 then echo text rest
      else if c = 0x0A then say [0x0A] 0xFFFFFF
      else echoChar text c ++ echo (editLine 128 text c) rest

abbrev Answers := Moment → CString → Layout → Command → Reply

def eventReply (answers : Answers) (moment : Moment) (layout : Layout) :
    ShellEvent → Reply
  | .print call => ⟨callsOps [call], layout, none⟩
  | .run command args => answers moment args layout command

def eventsReply (answers : Answers) (moment : Moment) :
    List ShellEvent → Layout → Reply
  | [], layout => ⟨[], layout, none⟩
  | event :: rest, layout =>
      (eventReply answers moment layout event).andThen
        (eventsReply answers moment rest)

def enteredLine (keys : List UInt8) : CString :=
  editedLine 128 (keys.takeWhile (· ≠ 0x0A))

def promptReply (keys : List UInt8) (layout : Layout) : Reply :=
  ⟨callsOps [prompt] ++ echo [] keys, layout, none⟩

def turnReply (answers : Answers) (turn : Turn) (layout : Layout) : Reply :=
  (promptReply turn.keys layout).andThen
    (eventsReply answers turn.moment (turnEvents (enteredLine turn.keys)))

def sessionReply (answers : Answers) : List Turn → Layout → Reply
  | [], layout => ⟨callsOps [prompt], layout, none⟩
  | turn :: rest, layout =>
      if 0x0A ∈ turn.keys then
        (turnReply answers turn layout).andThen (sessionReply answers rest)
      else promptReply turn.keys layout

section Rules

variable {answers : Answers} {property : Reply → Prop}

theorem events_satisfy
    (follows : ∀ first second, property first →
      (∀ layout, property (second layout)) → property (first.andThen second))
    (prints : ∀ calls layout, property ⟨callsOps calls, layout, none⟩)
    {moment : Moment}
    (answered : ∀ args layout command,
      property (answers moment args layout command))
    (events : List ShellEvent) (layout : Layout) :
    property (eventsReply answers moment events layout) := by
  induction events generalizing layout with
  | nil => exact prints [] layout
  | cons event rest ih =>
      refine follows _ _ ?_ ih
      cases event with
      | print call => exact prints [call] layout
      | run command args => exact answered args layout command

/-- What holds of the prompt, of what the shell prints itself and of every
answer, and passes to one reply after another, holds of every session. -/
theorem session_satisfies
    (follows : ∀ first second, property first →
      (∀ layout, property (second layout)) → property (first.andThen second))
    (prints : ∀ calls layout, property ⟨callsOps calls, layout, none⟩)
    (typed : ∀ keys layout, property (promptReply keys layout))
    {turns : List Turn}
    (answered : ∀ turn ∈ turns, ∀ args layout command,
      property (answers turn.moment args layout command))
    (layout : Layout) : property (sessionReply answers turns layout) := by
  induction turns generalizing layout with
  | nil => exact prints [prompt] layout
  | cons turn rest ih =>
      obtain ⟨here, later⟩ := List.forall_mem_cons.mp answered
      rw [sessionReply]
      split
      · refine follows _ _ (follows _ _ (typed turn.keys layout) ?_) (ih later)
        intro layout
        exact events_satisfy follows prints here _ layout
      · exact typed turn.keys layout

end Rules

section Echo

variable {fb : Framebuffer} {font : Font} {text : List UInt8} {line : Line}

theorem edit_echo (held : HoldsText 128 text line) (c : UInt8) :
    (Input.edit fb font 128 line c).con =
      run (charStep fb font) line.con (echoChar text c) := by
  have index := held.index
  unfold echoChar
  by_cases isBackspace : c = 0x08
  · rw [if_pos isBackspace, isBackspace]
    by_cases empty : text = []
    · have atStart : line.i = 0 := by rw [index, empty, List.length_nil]
      rw [edit_empty line atStart, if_pos empty, run_nil]
    · have nonempty := List.length_pos_iff.mpr empty
      rw [edit_delete line (by omega), if_neg empty]
      rfl
  · rw [if_neg isBackspace]
    by_cases room : text.length < 127
    · rw [edit_append (by decide) line isBackspace (by omega), if_pos room]
      rfl
    · rw [edit_full (by decide) (by decide) line isBackspace (by omega),
        if_neg room, run_nil]

/-- What the console shows of a call, whether or not it has returned. -/
theorem readlineFrom_echo (held : HoldsText 128 text line)
    (keys : List UInt8) :
    (readlineFrom fb font 128 line keys).line.con =
      run (charStep fb font) line.con (echo text keys) := by
  induction keys generalizing text line with
  | nil => rfl
  | cons c rest ih =>
      by_cases zero : c = 0
      · rw [readlineFrom, if_pos (charVal_eq_zero.mpr zero), echo, if_pos zero]
        exact ih held
      · by_cases newline : c = 0x0A
        · rw [readlineFrom, if_neg (by rwa [charVal_eq_zero]),
            if_pos (charVal_eq_newline.mpr newline), echo, if_neg zero,
            if_pos newline]
          rfl
        · rw [readlineFrom, if_neg (by rwa [charVal_eq_zero]),
            if_neg (by rwa [charVal_eq_newline]), echo, if_neg zero,
            if_neg newline, run_append, ← edit_echo held]
          exact ih (held.edit (by decide) (by decide) c)

theorem readlineFrom_waits (fb : Framebuffer) (font : Font) (line : Line)
    {keys : List UInt8} (noNewline : 0x0A ∉ keys) :
    ∃ after, readlineFrom fb font 128 line keys = .waiting after := by
  induction keys generalizing line with
  | nil => exact ⟨line, rfl⟩
  | cons c rest ih =>
      rw [List.mem_cons, not_or] at noNewline
      obtain ⟨head, later⟩ := noNewline
      have notHere : ¬ charVal c = 0x0A := by
        rw [charVal_eq_newline]
        exact fun same => head same.symm
      by_cases zero : charVal c = 0
      · rw [readlineFrom, if_pos zero]
        exact ih line later
      · rw [readlineFrom, if_neg zero, if_neg notHere]
        exact ih _ later

end Echo

/-! ## Lines typed without corrections -/

def Typable (c : UInt8) : Prop := c ≠ 0 ∧ c ≠ 0x08 ∧ c ≠ 0x0A

instance : DecidablePred Typable :=
  fun _ => inferInstanceAs (Decidable (_ ∧ _))

section Plain

variable {text keys : List UInt8}

theorem echo_plain (plain : ∀ c ∈ keys, Typable c)
    (fits : text.length + keys.length ≤ 127) :
    echo text (keys ++ [0x0A]) = say (keys ++ [0x0A]) 0xFFFFFF := by
  induction keys generalizing text with
  | nil => rfl
  | cons c rest ih =>
      obtain ⟨⟨nonzero, noBackspace, noNewline⟩, later⟩ :=
        List.forall_mem_cons.mp plain
      rw [List.length_cons] at fits
      have room : text.length < 127 := by omega
      have appended : editLine 128 text c = text ++ [c] := by
        rw [editLine, if_neg noBackspace, if_pos room]
      have longer : (text ++ [c]).length + rest.length ≤ 127 := by
        rw [List.length_append, List.length_singleton]
        omega
      rw [List.cons_append, echo, if_neg nonzero, if_neg noNewline, echoChar,
        if_neg noBackspace, if_pos room, appended, ih later longer]
      rfl

theorem run_editLine_plain (plain : ∀ c ∈ keys, Typable c)
    (fits : text.length + keys.length ≤ 127) :
    run (editLine 128) text keys = text ++ keys := by
  induction keys generalizing text with
  | nil => exact (List.append_nil text).symm
  | cons c rest ih =>
      obtain ⟨⟨-, noBackspace, -⟩, later⟩ := List.forall_mem_cons.mp plain
      rw [List.length_cons] at fits
      have room : text.length < 127 := by omega
      have longer : (text ++ [c]).length + rest.length ≤ 127 := by
        rw [List.length_append, List.length_singleton]
        omega
      rw [run_cons, editLine, if_neg noBackspace, if_pos room, ih later longer,
        List.append_assoc, List.singleton_append]

theorem enteredLine_plain (plain : ∀ c ∈ keys, Typable c)
    (fits : keys.length ≤ 127) :
    (enteredLine (keys ++ [0x0A])).bytes = keys := by
  have before : ∀ c ∈ keys, decide (c ≠ 0x0A) = true := by
    intro c member
    simpa using (plain c member).2.2
  have kept : keys.filter (· ≠ 0) = keys := by
    rw [List.filter_eq_self]
    intro c member
    simpa using (plain c member).1
  have typed : (keys ++ [0x0A]).takeWhile (· ≠ 0x0A) = keys := by
    rw [List.takeWhile_append_of_pos before]
    simp
  have edited := @run_editLine_plain [] keys plain (by simpa using fits)
  calc (enteredLine (keys ++ [0x0A])).bytes
      = editedText 128 keys := by rw [enteredLine, typed]; rfl
    _ = keys := by rw [editedText, kept, edited, List.nil_append]

end Plain

theorem commands_typable :
    ∀ entry ∈ commands, entry.1.bytes.length ≤ 6 ∧
      ∀ c ∈ entry.1.bytes, Typable c ∧ c ≠ 0x20 := by
  have checked : commands.all (fun entry =>
      decide (entry.1.bytes.length ≤ 6) &&
        entry.1.bytes.all fun c => decide (Typable c ∧ c ≠ 0x20)) = true := by
    decide
  simpa [List.all_eq_true] using checked

theorem turnEvents_command {entry : CString × Command}
    (member : entry ∈ commands) {args line : CString}
    (bytes : line.bytes = entry.1.bytes ++ 0x20 :: args.bytes) :
    turnEvents line = [.run entry.2 args] := by
  have noSpace : ∀ c ∈ entry.1.bytes, decide (c ≠ 0x20) = true := by
    intro c inside
    simpa using ((commands_typable entry member).2 c inside).2
  have nonempty : ¬ line.bytes = [] := by simp [bytes]
  have word : (firstWord line).bytes = entry.1.bytes := by
    change line.bytes.takeWhile (· ≠ 0x20) = entry.1.bytes
    rw [bytes, List.takeWhile_append_of_pos noSpace]
    simp
  have behind : argument line = args := by
    apply CString.eq_of_bytes
    change (line.bytes.dropWhile (· ≠ 0x20)).tail = args.bytes
    rw [bytes, List.dropWhile_append_of_pos noSpace]
    simp
  rw [turnEvents, if_neg nonempty, word,
    find?_named commands_distinct member]
  simp only [behind]

theorem andThen_nothing (first : Reply) :
    first.andThen (fun layout => ⟨[], layout, none⟩) = first := by
  cases halts : first.halt with
  | some halt => exact andThen_halted halts
  | none => rw [andThen_running halts, List.append_nil, ← halts]

def commandKeys (name args : CString) : List UInt8 :=
  name.bytes ++ 0x20 :: args.bytes ++ [0x0A]

theorem turnReply_command (answers : Answers) {entry : CString × Command}
    (member : entry ∈ commands) {args : CString}
    (plain : ∀ c ∈ args.bytes, Typable c) (short : args.bytes.length ≤ 120)
    (moment : Moment) (layout : Layout) :
    turnReply answers ⟨commandKeys entry.1 args, moment⟩ layout =
      Reply.andThen
        ⟨callsOps [prompt] ++ say (commandKeys entry.1 args) 0xFFFFFF, layout,
          none⟩
        (fun layout => answers moment args layout entry.2) := by
  obtain ⟨nameShort, name⟩ := commands_typable entry member
  have typable : ∀ c ∈ entry.1.bytes ++ 0x20 :: args.bytes, Typable c := by
    intro c inside
    rcases List.mem_append.mp inside with inName | later
    · exact (name c inName).1
    · rcases List.mem_cons.mp later with rfl | inArgs
      · decide
      · exact plain c inArgs
  have fits : (entry.1.bytes ++ 0x20 :: args.bytes).length ≤ 127 := by
    rw [List.length_append, List.length_cons]
    omega
  have events := turnEvents_command member (enteredLine_plain typable fits)
  have echoed := @echo_plain [] _ typable (by simpa using fits)
  rw [turnReply, promptReply, commandKeys, events, echoed]
  congr 1
  funext layout
  exact andThen_nothing _

/-! ## The session -/

section Session

variable (board : Board)

theorem runEvents_does (moment : Moment) (events : List ShellEvent)
    (kernel : Kernel) :
    ∃ after, runEvents board moment events kernel = some (after,
        (eventsReply (reply board) moment events kernel.currentLayout).halt) ∧
      Does board (eventsReply (reply board) moment events kernel.currentLayout) kernel
        after := by
  induction events generalizing kernel with
  | nil => exact ⟨kernel, rfl, rfl, rfl⟩
  | cons event rest ih =>
      cases event with
      | print call =>
          obtain ⟨after, runs, later⟩ := ih (kernel.kprint board call)
          have now := @does_kprints board kernel [call] none
          refine ⟨after, ?_, Does.andThen rfl now later⟩
          rw [runEvents, runs, eventsReply, andThen_running rfl]
          rfl
      | run command args =>
          obtain ⟨middle, calls, now⟩ :=
            callHandler_does board moment kernel args command
          cases halts : (reply board moment args kernel.currentLayout command).halt with
          | some halt =>
              have same := @andThen_halted
                (reply board moment args kernel.currentLayout command)
                (eventsReply (reply board) moment rest) halt halts
              refine ⟨middle, ?_, ?_⟩
              · rw [runEvents, calls, eventsReply, eventReply, same, halts]
              · rw [eventsReply, eventReply, same]
                exact now
          | none =>
              obtain ⟨after, runs, later⟩ := ih middle
              refine ⟨after, ?_, Does.andThen halts now later⟩
              rw [runEvents, calls, halts]
              simp only
              rw [runs, eventsReply, eventReply, andThen_running halts,
                now.layout]

theorem readline_does {kernel : Kernel} {input : View} {keys : List UInt8}
    {line : Line}
    (reads : (readline board.fb board.font (kernel.kprint board prompt).con input
      128 keys).line = line) :
    Does board (promptReply keys kernel.currentLayout) kernel
      { kernel.kprint board prompt with con := line.con } := by
  refine ⟨?_, rfl⟩
  have echoed := @readlineFrom_echo board.fb board.font _ _
    (holdsText_start 128 input (kernel.kprint board prompt).con) keys
  rw [promptReply, run_append, ← kprints_con, ← reads]
  exact echoed

theorem readline_entered (kernel : Kernel) (input : View) {keys : List UInt8}
    (entered : 0x0A ∈ keys) :
    ∃ line, readline board.fb board.font (kernel.kprint board prompt).con input
        128 keys = .done line ∧
      HoldsString line.buffer (enteredLine keys) := by
  obtain ⟨behind, split, noNewline⟩ := keys_split entered
  have returns := readline_returns board.fb board.font
    (kernel.kprint board prompt).con input (by decide : 1 ≤ 128) (by decide)
    noNewline behind
  rw [← split] at returns
  exact returns

theorem turn_does (kernel : Kernel) (input : View) {turn : Turn}
    (entered : 0x0A ∈ turn.keys) :
    ∃ line events after middle,
      readline board.fb board.font (kernel.kprint board prompt).con input 128
        turn.keys = .done line ∧
      shellTurn line.buffer = some (events, after) ∧
      runEvents board turn.moment events
          { kernel.kprint board prompt with con := line.con } =
        some (middle, (turnReply (reply board) turn kernel.currentLayout).halt) ∧
      Does board (turnReply (reply board) turn kernel.currentLayout) kernel middle := by
  obtain ⟨line, returns, held⟩ := readline_entered board kernel input entered
  have typed : Does board (promptReply turn.keys kernel.currentLayout) kernel
      { kernel.kprint board prompt with con := line.con } :=
    readline_does board (congrArg Readline.line returns)
  have short : (enteredLine turn.keys).bytes.length ≤ 127 :=
    editedText_length 128 _
  obtain ⟨after, dispatches⟩ := shellTurn_line held (by omega)
  obtain ⟨middle, runs, now⟩ := runEvents_does board turn.moment
    (turnEvents (enteredLine turn.keys))
    { kernel.kprint board prompt with con := line.con }
  refine ⟨line, _, after, middle, returns, dispatches, ?_,
    Does.andThen rfl typed now⟩
  rw [runs, turnReply, andThen_running rfl]
  rfl

theorem kernelShell_does (turns : List Turn) (kernel : Kernel)
    (input : View) :
    ∃ after, kernelShell board turns kernel input = some (after,
        (sessionReply (reply board) turns kernel.currentLayout).halt) ∧
      Does board (sessionReply (reply board) turns kernel.currentLayout) kernel
        after := by
  induction turns generalizing kernel input with
  | nil => exact ⟨_, rfl, @does_kprints board kernel [prompt] none⟩
  | cons turn rest ih =>
      by_cases entered : 0x0A ∈ turn.keys
      · obtain ⟨line, events, after, middle, returns, dispatches, runs, now⟩ :=
          turn_does board kernel input entered
        rw [sessionReply, if_pos entered]
        simp only [kernelShell, returns, dispatches, runs]
        cases halts : (turnReply (reply board) turn kernel.currentLayout).halt with
        | some halt =>
            rw [andThen_halted halts, halts]
            exact ⟨middle, rfl, now⟩
        | none =>
            obtain ⟨last, continues, later⟩ := ih middle after
            refine ⟨last, ?_, Does.andThen halts now later⟩
            rw [andThen_running halts, ← now.layout]
            exact continues
      · obtain ⟨line, waits⟩ := readlineFrom_waits board.fb board.font
          ⟨0, input, (kernel.kprint board prompt).con⟩ entered
        have reads : readline board.fb board.font (kernel.kprint board prompt).con
            input 128 turn.keys = .waiting line := waits
        rw [sessionReply, if_neg entered]
        simp only [kernelShell, reads]
        exact ⟨_, rfl, readline_does board (congrArg Readline.line reads)⟩

end Session

/-! ## Where it stops -/

theorem StopsFor.andThen {board : Board} {waiting : Prop} {first : Reply}
    {second : Layout → Reply} (now : StopsFor board waiting first.halt)
    (later : ∀ layout, StopsFor board waiting (second layout).halt) :
    StopsFor board waiting (first.andThen second).halt := by
  unfold Reply.andThen
  split
  · exact now
  · exact later _

/-- A session that is kept waiting is so by the devices of one of its turns. -/
theorem session_stops (board : Board) (turns : List Turn) (layout : Layout) :
    StopsFor board (∃ turn ∈ turns, ¬ turn.moment.devices.Ready)
      (sessionReply (reply board) turns layout).halt := by
  refine @session_satisfies (reply board) (fun said => StopsFor board
    (∃ turn ∈ turns, ¬ turn.moment.devices.Ready) said.halt) ?_ ?_ ?_ turns ?_
    layout
  · intro first second now later
    exact StopsFor.andThen now later
  · intro _ _
    trivial
  · intro _ _
    trivial
  · intro turn member args layout command
    exact (reply_stops args layout command).mono fun waits =>
      ⟨turn, member, waits⟩

def Turn.followed (fuel : Nat) (turn : Turn) : Turn :=
  { turn with moment :=
      { turn.moment with devices := turn.moment.devices.followed fuel } }

theorem turns_ready {turns : List Turn}
    (answer : ∀ turn ∈ turns, turn.moment.devices.Answer) :
    ∃ enough, ∀ fuel ≥ enough, ∀ turn ∈ turns.map (Turn.followed fuel),
      turn.moment.devices.Ready := by
  induction turns with
  | nil => exact ⟨0, fun _ _ _ member => by cases member⟩
  | cons turn rest ih =>
      obtain ⟨here, later⟩ := List.forall_mem_cons.mp answer
      obtain ⟨first, ready⟩ := here.ready
      obtain ⟨second, others⟩ := ih later
      refine ⟨max first second, fun fuel enough => ?_⟩
      rw [List.map_cons, List.forall_mem_cons]
      exact ⟨ready fuel (by omega), others fuel (by omega)⟩

/-- The shell shows what the typed lines say, on any screen and with anything in
its line and in its buffers.  It stops for a reboot, for a division on a disk
without a sector size and in a polling loop that has not ended; where the devices
answer, every loop ends. -/
theorem kernelShell_transcript (board : Board) (turns : List Turn)
    (kernel : Kernel) (input : View) :
    (∃ after, kernelShell board turns kernel input = some (after,
        (sessionReply (reply board) turns kernel.currentLayout).halt) ∧
      Does board (sessionReply (reply board) turns kernel.currentLayout) kernel
        after) ∧
    ((sessionReply (reply board) turns kernel.currentLayout).halt =
        some .divideError → (fatBpb board.bootSector).bytesPerSector = 0) ∧
    ((∀ turn ∈ turns, turn.moment.devices.Answer) →
      ∃ enough, ∀ fuel ≥ enough,
        (sessionReply (reply board) (turns.map (Turn.followed fuel))
          kernel.currentLayout).halt ≠ some .polling) := by
  refine ⟨kernelShell_does board turns kernel input, ?_, ?_⟩
  · intro divides
    have stops := session_stops board turns kernel.currentLayout
    rw [divides] at stops
    exact stops
  · intro answer
    obtain ⟨enough, ready⟩ := turns_ready answer
    refine ⟨enough, fun fuel larger polling => ?_⟩
    have stops := session_stops board (turns.map (Turn.followed fuel))
      kernel.currentLayout
    rw [polling] at stops
    obtain ⟨turn, member, waits⟩ := stops
    exact waits (ready fuel larger turn member)

end Lumie.Session
