import Lumie.Arch.Typing
import Lumie.Shell.Session

/-!
# The shell between interrupts

Requests of any line with a gate come between the steps of `kernel_shell`.  A
call of `keyboard_get_char` is two steps and what `readline` does with its
character belongs to the second.  A command is one step: of the variables that
the handlers share it reads `system_ticks` once and sets `current_layout` once.
Its division by zero is exception 0, behind which the machine is in `rsod` with
interrupts off.  The record of the lines and of the stored characters has no
influence on the steps.
-/

set_option autoImplicit false

namespace Lumie.Interleaving

open MachineInt FoldRun
open Lumie.Strings Lumie.Screen Lumie.Fat Lumie.Input Lumie.InputLine
open Lumie.Keyboard Lumie.Dispatch Lumie.Commands Lumie.Session
open Lumie.KeyboardSlot (nonzero nonzero_append)
open Lumie.Pic Lumie.Idt Lumie.Interrupts Lumie.Typing

/-! ## The system -/

/-- Where `kernel_shell` is: in the loop of `readline`, with its index and the
local `c` of a call between its two steps, behind `readline`, or in a handler
that does not come back.  A turn that reads outside a buffer is a fault. -/
inductive Phase where
  | reading (i : Nat) (loaded : Option UInt8)
  | entered
  | halted (halt : Halt)
  | fault

def Phase.loaded : Phase → Option UInt8
  | .reading _ loaded => loaded
  | _ => none

def Phase.halt : Phase → Option Halt
  | .halted halt => some halt
  | _ => none

structure System where
  machine : Machine
  con : Console
  uintBuf : Nat → UInt8
  /-- `char input[128]` -/
  input : View
  phase : Phase
  /-- The lines whose commands have been called. -/
  turns : List Turn
  /-- What the calls have returned since the prompt. -/
  keys : List UInt8
  /-- What the slot held at the start and what the handler has stored since. -/
  stored : List UInt8

/-- What a step of the shell finds: the stack behind the buffer of `cat`, the
devices, and the registers if an instruction traps. -/
structure Surroundings where
  stackBehind : Nat → UInt8
  devices : Devices
  context : Context

inductive Event where
  | irq (irq : Irq)
  | main (around : Surroundings)

namespace System

def kernel (system : System) : Kernel :=
  ⟨system.con, system.machine.keyboard.currentLayout, system.uintBuf⟩

def withKeyboard (system : System) (keyboard : KeyboardState) : System :=
  { system with machine := { system.machine with keyboard := keyboard } }

def withKernel (system : System) (kernel : Kernel) : System :=
  { system.withKeyboard { system.machine.keyboard with
      currentLayout := kernel.currentLayout } with
    con := kernel.con
    uintBuf := kernel.uintBuf }

end System

/-- `char c = last_interrupt_char;` -/
def loadStep (system : System) (i : Nat) : System :=
  { system with
    phase := .reading i (some system.machine.keyboard.lastInterruptChar) }

/-- `last_interrupt_char = '\0'; return c;` and the body of the loop. -/
def clearStep (board : Board) (system : System) (i : Nat) (c : UInt8) : System :=
  let read := readlineFrom board.fb board.font 128 ⟨i, system.input, system.con⟩ [c]
  let cleared := system.withKeyboard
    { system.machine.keyboard with lastInterruptChar := 0 }
  { cleared with
    con := read.line.con
    input := read.line.buffer
    phase :=
      match read with
      | .waiting line => .reading line.i none
      | .done _ => .entered
    keys := system.keys ++ [c] }

/-- The body of the loop behind `readline`, and the next prompt. -/
def commandStep (board : Board) (image : Image) (system : System)
    (around : Surroundings) : System :=
  let moment : Moment :=
    ⟨system.machine.systemTicks, around.stackBehind, around.devices⟩
  let called := { system with
    turns := system.turns ++ [Turn.mk system.keys moment]
    keys := [] }
  match shellTurn system.input with
  | none => { system with phase := .fault }
  | some (events, input) =>
      match runEvents board moment events system.kernel with
      | none => { system with phase := .fault }
      | some (after, some halt) =>
          let stopped := { called.withKernel after with phase := .halted halt }
          if halt = .divideError then
            { stopped with
              machine := trap image stopped.machine 0 around.context }
          else stopped
      | some (after, none) =>
          { called.withKernel (after.kprint board prompt) with
            input := input
            phase := .reading 0 none }

def mainStep (board : Board) (image : Image) (system : System)
    (around : Surroundings) : System :=
  match system.phase with
  | .reading i none => loadStep system i
  | .reading i (some c) => clearStep board system i c
  | .entered => commandStep board image system around
  | .halted _ => system
  | .fault => system

def storedBy (system : System) (irq : Irq) : Option UInt8 :=
  if system.machine.halted = false ∧ irq.line.val = 1 then
    storedChar system.machine.keyboard irq.data
  else none

def systemStep (board : Board) (image : Image) (system : System) : Event → System
  | .irq irq =>
      { system with
        machine := deliver image system.machine irq
        stored := system.stored ++ (storedBy system irq).toList }
  | .main around => mainStep board image system around

def startSystem (board : Board) (machine : Machine) (con : Console)
    (uintBuf : Nat → UInt8) (input : View) : System where
  machine := machine
  con := ((⟨con, machine.keyboard.currentLayout, uintBuf⟩ : Kernel).kprint board
    prompt).con
  uintBuf := uintBuf
  input := input
  phase := .reading 0 none
  turns := []
  keys := []
  stored := [machine.keyboard.lastInterruptChar]

theorem readlineFrom_append (fb : Framebuffer) (font : Font) (maxLen : Nat)
    (line : Line) (first second : List UInt8) :
    readlineFrom fb font maxLen line (first ++ second) =
      match readlineFrom fb font maxLen line first with
      | .waiting after => readlineFrom fb font maxLen after second
      | .done after => .done after := by
  induction first generalizing line with
  | nil => rfl
  | cons c rest ih =>
      rw [List.cons_append, readlineFrom, readlineFrom]
      by_cases zero : charVal c = 0
      · rw [if_pos zero, if_pos zero, ih]
      · rw [if_neg zero, if_neg zero]
        by_cases newline : charVal c = 0x0A
        · rw [if_pos newline, if_pos newline]
        · rw [if_neg newline, if_neg newline, ih]

theorem entered_of_done {fb : Framebuffer} {font : Font} {line after : Line}
    {keys : List UInt8}
    (returns : readlineFrom fb font 128 line keys = .done after) :
    0x0A ∈ keys := by
  by_contra noNewline
  obtain ⟨waiting, waits⟩ := readlineFrom_waits fb font line noNewline
  rw [returns] at waits
  cases waits

theorem keyboardHandler_layout (keyboard : KeyboardState) (scancode : UInt8) :
    (keyboardHandler keyboard scancode).currentLayout =
      keyboard.currentLayout := by
  unfold keyboardHandler
  split
  · rfl
  · split
    · rfl
    · split <;> rfl

/-! ## The refinement -/

/-- What the shell over whole lines has come to.  The lines called so far lead
from the start to a prompt with some kernel and some bytes in `input`, and the
keys since then have brought `readline` to where the system is. -/
def AtPhase (board : Board) (start : Kernel) (input : View) (system : System) :
    Phase → Prop
  | .reading i _ => ∃ kernel view,
      (∀ rest, kernelShell board (system.turns ++ rest) start input =
        kernelShell board rest kernel view) ∧
      readline board.fb board.font (kernel.kprint board prompt).con view 128
          system.keys = .waiting ⟨i, system.input, system.con⟩ ∧
      { kernel.kprint board prompt with con := system.con } = system.kernel
  | .entered => ∃ kernel view line,
      (∀ rest, kernelShell board (system.turns ++ rest) start input =
        kernelShell board rest kernel view) ∧
      readline board.fb board.font (kernel.kprint board prompt).con view 128
          system.keys = .done line ∧
      line.buffer = system.input ∧
      { kernel.kprint board prompt with con := line.con } = system.kernel
  | .halted halt =>
      kernelShell board system.turns start input =
          some (system.kernel, some halt) ∧
        system.keys = []
  | .fault => False

/-- The machine is in `rsod` and takes no more requests. -/
structure Crashed (machine : Machine) : Prop where
  halted : machine.halted = true
  rsod : ∃ context, machine.rsod = some (frameOf .isr0 context)

structure Refines (board : Board) (image : Image) (systemTicks : UInt64)
    (start : Kernel) (input : View) (system : System) : Prop where
  steady : system.phase ≠ .halted .divideError →
    Steady image systemTicks system.machine
  crashed : system.phase = .halted .divideError → Crashed system.machine
  phase : AtPhase board start input system system.phase

section Steps

variable {board : Board} {image : Image} {systemTicks : UInt64} {start : Kernel}
  {input : View} {system : System}

theorem deliver_crashed {machine : Machine} (crashed : Crashed machine)
    (irq : Irq) : deliver image machine irq = machine := if_pos crashed.halted

theorem storedBy_crashed (crashed : Crashed system.machine) (irq : Irq) :
    storedBy system irq = none := by
  rw [storedBy, if_neg]
  intro running
  rw [crashed.halted] at running
  cases running.1

theorem irq_crashed (crashed : Crashed system.machine) (irq : Irq) :
    systemStep board image system (.irq irq) = system := by
  rw [systemStep, deliver_crashed crashed, storedBy_crashed crashed,
    Option.toList_none, List.append_nil]

/-- A request does not touch what the phase speaks about. -/
theorem Refines.irq (refines : Refines board image systemTicks start input system)
    (irq : Irq) (gated : HasGate irq.line) :
    Refines board image systemTicks start input
      (systemStep board image system (.irq irq)) := by
  by_cases divided : system.phase = .halted .divideError
  · rw [irq_crashed (refines.crashed divided)]
    exact refines
  have steady := refines.steady divided
  have keyboard := deliver_keyboard steady irq gated
  have layout : (deliver image system.machine irq).keyboard.currentLayout =
      system.machine.keyboard.currentLayout := by
    rw [keyboard]
    split
    · exact keyboardHandler_layout _ _
    · rfl
  have kernel : (systemStep board image system (.irq irq)).kernel =
      system.kernel := by
    change Kernel.mk _ (deliver image system.machine irq).keyboard.currentLayout _ = _
    rw [layout]
    rfl
  refine ⟨fun _ => steady_deliver steady irq gated,
    fun same => absurd same divided, ?_⟩
  have before := refines.phase
  change AtPhase board start input _ system.phase
  cases phase : system.phase with
  | fault =>
      rw [phase] at before
      exact before
  | _ =>
      rw [phase] at before
      unfold AtPhase at before ⊢
      rw [kernel]
      exact before

theorem Refines.load (refines : Refines board image systemTicks start input system)
    {i : Nat} (reading : system.phase = .reading i none) :
    Refines board image systemTicks start input (loadStep system i) := by
  have before := refines.phase
  have steady := refines.steady (by simp [reading])
  rw [reading] at before
  exact ⟨fun _ => steady, (fun same => by cases same), before⟩

theorem Refines.clear (refines : Refines board image systemTicks start input system)
    {i : Nat} {c : UInt8} (reading : system.phase = .reading i (some c)) :
    Refines board image systemTicks start input (clearStep board system i c) := by
  have before := refines.phase
  have steady := refines.steady (by simp [reading])
  rw [reading] at before
  obtain ⟨kernel, view, served, waits, same⟩ := before
  have running : (clearStep board system i c).phase ≠ .halted .divideError := by
    unfold clearStep
    simp only
    split <;> simp
  refine ⟨fun _ => steady_keyboard steady _, fun same => absurd same running, ?_⟩
  have reads := readlineFrom_append board.fb board.font 128
    ⟨0, view, (kernel.kprint board prompt).con⟩ system.keys [c]
  rw [readline] at waits
  rw [waits] at reads
  simp only at reads
  cases result : readlineFrom board.fb board.font 128
      ⟨i, system.input, system.con⟩ [c] with
  | waiting line =>
      rw [result] at reads
      simp only [clearStep, result, AtPhase]
      refine ⟨kernel, view, served, reads, ?_⟩
      rw [System.kernel, Kernel.mk.injEq] at same ⊢
      exact ⟨rfl, same.2⟩
  | done line =>
      rw [result] at reads
      simp only [clearStep, result, AtPhase]
      refine ⟨kernel, view, line, served, reads, rfl, ?_⟩
      rw [System.kernel, Kernel.mk.injEq] at same ⊢
      exact ⟨rfl, same.2⟩

/-- The command of the line runs as it does on whole lines. -/
theorem Refines.command
    (refines : Refines board image systemTicks start input system)
    (entered : system.phase = .entered) (around : Surroundings) :
    Refines board image systemTicks start input
      (commandStep board image system around) := by
  have before := refines.phase
  have steady := refines.steady (by simp [entered])
  rw [entered] at before
  obtain ⟨kernel, view, line, served, reads, buffer, same⟩ := before
  let turn : Turn := ⟨system.keys, ⟨system.machine.systemTicks,
    around.stackBehind, around.devices⟩⟩
  obtain ⟨line', events, after, middle, returns, splits, runs, -⟩ :=
    @turn_does board kernel view turn (entered_of_done reads)
  obtain rfl : line = line' := Readline.done.inj (reads.symm.trans returns)
  have continues : ∀ rest,
      kernelShell board ((system.turns ++ [turn]) ++ rest) start input =
        kernelShell board (turn :: rest) kernel view := by
    intro rest
    rw [List.append_assoc]
    exact served (turn :: rest)
  rw [same] at runs
  cases halts : (turnReply (reply board) turn kernel.currentLayout).halt with
  | some halt =>
      rw [halts] at runs
      have ends := continues []
      rw [List.append_nil] at ends
      have stops : kernelShell board (system.turns ++ [turn]) start input =
          some (middle, some halt) := by
        refine ends.trans ?_
        simp only [Session.kernelShell, returns, splits, same, runs]
      let stopped : System :=
        { ({ system with turns := system.turns ++ [turn], keys := [] }).withKernel
            middle with phase := .halted halt }
      have steadyThen : Steady image systemTicks stopped.machine :=
        steady_keyboard steady _
      have steps : commandStep board image system around =
          if halt = .divideError then
            { stopped with
              machine := trap image stopped.machine 0 around.context }
          else stopped := by
        rw [buffer] at splits
        simp only [commandStep, splits]
        simp only [runs, turn, stopped]
      rw [steps]
      by_cases divides : halt = .divideError
      · subst divides
        rw [if_pos rfl, trap_divideError steadyThen.idt]
        exact ⟨fun running => absurd rfl running,
          fun _ => ⟨rfl, around.context, rfl⟩, stops, rfl⟩
      · rw [if_neg divides]
        exact ⟨fun _ => steadyThen,
          fun crash => absurd (Phase.halted.inj crash) divides, stops, rfl⟩
  | none =>
      rw [halts] at runs
      have steps : commandStep board image system around =
          { ({ system with turns := system.turns ++ [turn], keys := [] }).withKernel
              (middle.kprint board prompt) with
            input := after, phase := .reading 0 none } := by
        simp only [commandStep, ← buffer, splits]
        simp only [runs, turn]
      rw [steps]
      refine ⟨fun _ => steady_keyboard steady _, (fun crash => by cases crash),
        middle, after, ?_, rfl, rfl⟩
      intro rest
      refine (continues rest).trans ?_
      simp only [Session.kernelShell, returns, splits, same, runs]

theorem Refines.main (refines : Refines board image systemTicks start input system)
    (around : Surroundings) :
    Refines board image systemTicks start input
      (mainStep board image system around) := by
  unfold mainStep
  split
  · exact refines.load ‹_›
  · exact refines.clear ‹_›
  · exact refines.command ‹_› around
  · exact refines
  · exact refines

theorem Refines.event (refines : Refines board image systemTicks start input system)
    (event : Event) (gated : ∀ irq, event = .irq irq → HasGate irq.line) :
    Refines board image systemTicks start input
      (systemStep board image system event) := by
  cases event with
  | irq irq => exact refines.irq irq (gated irq rfl)
  | main around => exact refines.main around

end Steps

theorem refines_start (board : Board) (image : Image) (pics : Pics)
    (keyboard : KeyboardState) (systemTicks : UInt64) (con : Console)
    (uintBuf : Nat → UInt8) (input : View) :
    Refines board image systemTicks ⟨con, keyboard.currentLayout, uintBuf⟩ input
      (startSystem board (booted image pics keyboard systemTicks) con uintBuf
        input) :=
  ⟨fun _ => steady_booted image pics keyboard systemTicks,
    (fun crash => by cases crash),
    ⟨con, keyboard.currentLayout, uintBuf⟩, input, fun _ => rfl, rfl, rfl⟩

theorem Refines.run (board : Board) (image : Image) {systemTicks : UInt64}
    {start : Kernel} {input : View} {system : System}
    (refines : Refines board image systemTicks start input system)
    {events : List Event} (gated : ∀ irq, .irq irq ∈ events → HasGate irq.line) :
    Refines board image systemTicks start input
      (FoldRun.run (systemStep board image) system events) := by
  induction events generalizing system with
  | nil => exact refines
  | cons event rest ih =>
      have here := refines.event event fun irq same => gated irq (by simp [same])
      exact ih here fun irq member => gated irq (List.mem_cons_of_mem _ member)

/-! ## The screen -/

section Shown

variable {board : Board} {image : Image} {systemTicks : UInt64} {start : Kernel}
  {input : View} {system : System}

/-- The lines called so far have given their replies, and the kernel is at the
next prompt. -/
theorem does_prompt {turns : List Turn} {kernel : Kernel} {view : View}
    (served : ∀ rest, kernelShell board (turns ++ rest) start input =
      kernelShell board rest kernel view) :
    (sessionReply (reply board) turns start.currentLayout).halt = none ∧
      Does board (sessionReply (reply board) turns start.currentLayout) start
        (kernel.kprint board prompt) := by
  obtain ⟨after, runs, does⟩ := kernelShell_does board turns start input
  have prompted := served []
  rw [List.append_nil, runs] at prompted
  obtain ⟨same, running⟩ := Prod.mk.inj (Option.some.inj prompted)
  rw [same] at does
  exact ⟨running, does⟩

theorem does_reading {kernel : Kernel} {view : View} {keys : List UInt8}
    {line : Line} {shown : List CharOp}
    (prompted : (kernel.kprint board prompt).con =
      run (charStep board.fb board.font) start.con shown)
    (reads : (readline board.fb board.font (kernel.kprint board prompt).con view
      128 keys).line = line) :
    line.con =
      run (charStep board.fb board.font) start.con (shown ++ echo [] keys) := by
  have echoed := @readlineFrom_echo board.fb board.font _ _
    (holdsText_start 128 view (kernel.kprint board prompt).con) keys
  rw [run_append, ← prompted, ← echoed, ← reads]
  rfl

structure Shows (board : Board) (start : Kernel) (system : System) : Prop where
  con : system.con = run (charStep board.fb board.font) start.con
    ((sessionReply (reply board) system.turns start.currentLayout).ops ++
      echo [] system.keys)
  layout : system.machine.keyboard.currentLayout =
    (sessionReply (reply board) system.turns start.currentLayout).layout
  halt : system.phase.halt =
    (sessionReply (reply board) system.turns start.currentLayout).halt
  noFault : system.phase ≠ .fault

theorem Refines.shows (refines : Refines board image systemTicks start input system) :
    Shows board start system := by
  have before := refines.phase
  cases phase : system.phase with
  | reading i loaded =>
      rw [phase] at before
      obtain ⟨kernel, view, served, waits, same⟩ := before
      rw [System.kernel, Kernel.mk.injEq] at same
      obtain ⟨running, does⟩ := does_prompt served
      refine ⟨does_reading does.con (congrArg Readline.line waits), ?_, ?_, ?_⟩
      · exact same.2.1.symm.trans does.layout
      · rw [phase, running]
        rfl
      · simp [phase]
  | entered =>
      rw [phase] at before
      obtain ⟨kernel, view, line, served, reads, -, same⟩ := before
      rw [System.kernel, Kernel.mk.injEq] at same
      obtain ⟨running, does⟩ := does_prompt served
      refine ⟨?_, same.2.1.symm.trans does.layout, ?_, ?_⟩
      · rw [← same.1]
        exact does_reading does.con (congrArg Readline.line reads)
      · rw [phase, running]
        rfl
      · simp [phase]
  | halted halt =>
      rw [phase] at before
      obtain ⟨stops, noKeys⟩ := before
      obtain ⟨after, runs, does⟩ := kernelShell_does board system.turns start input
      rw [runs] at stops
      obtain ⟨same, halts⟩ := Prod.mk.inj (Option.some.inj stops)
      rw [same] at does
      refine ⟨?_, does.layout, ?_, ?_⟩
      · rw [noKeys, echo, List.append_nil]
        exact does.con
      · rw [phase, halts]
        rfl
      · simp [phase]
  | fault =>
      rw [phase] at before
      exact before.elim

theorem Refines.divides
    (refines : Refines board image systemTicks start input system)
    (divided : system.phase = .halted .divideError) :
    Crashed system.machine ∧ (fatBpb board.bootSector).bytesPerSector = 0 := by
  refine ⟨refines.crashed divided, ?_⟩
  have halts := refines.shows.halt
  have stops := session_stops board system.turns start.currentLayout
  rw [divided] at halts
  rw [← halts] at stops
  exact stops

end Shown

/-- Whatever requests come between the steps of the shell, the screen shows what
a shell shows that is given the returned keys as whole lines.  The machine has
served all requests; behind a division by zero it is in `rsod`, and the screen
is that of the dividing instruction. -/
theorem system_transcript (board : Board) (image : Image) (pics : Pics)
    (keyboard : KeyboardState) (systemTicks : UInt64) (con : Console)
    (uintBuf : Nat → UInt8) (input : View) (events : List Event)
    (gated : ∀ irq, .irq irq ∈ events → HasGate irq.line) :
    let system := run (systemStep board image)
      (startSystem board (booted image pics keyboard systemTicks) con uintBuf
        input) events
    (system.phase ≠ .halted .divideError →
      Served systemTicks system.machine) ∧
    (system.phase = .halted .divideError →
      Crashed system.machine ∧ (fatBpb board.bootSector).bytesPerSector = 0) ∧
    Shows board ⟨con, keyboard.currentLayout, uintBuf⟩ system := by
  intro system
  have refines := (refines_start board image pics keyboard systemTicks con uintBuf
    input).run board image gated
  exact ⟨fun running => (refines.steady running).served, refines.divides,
    refines.shows⟩

def quiet : Surroundings where
  stackBehind _ := 0
  devices := readyDevices
  context := (requestOn 0 0).context

def enterEvents : List Event :=
  [.irq (requestOn 1 0x1C), .main quiet, .irq (requestOn 0 0), .main quiet,
    .main quiet]

theorem enterEvents_gated : ∀ irq, .irq irq ∈ enterEvents → HasGate irq.line := by
  intro irq member
  simp only [enterEvents, List.mem_cons, Event.irq.injEq, reduceCtorEq,
    List.not_mem_nil, or_false, false_or] at member
  obtain rfl | rfl := member <;> decide

theorem system_transcript_enter :
    let system := run (systemStep blankBoard spacedImage)
      (startSystem blankBoard (booted spacedImage remapped ⟨.enUs, false, 0⟩ 0)
        (startConsole fun _ => 0) (fun _ => 0) fun _ => 0) enterEvents
    Served 0 system.machine ∧
      Shows blankBoard ⟨startConsole fun _ => 0, .enUs, fun _ => 0⟩ system := by
  intro system
  obtain ⟨served, -, shows⟩ := system_transcript blankBoard spacedImage remapped
    ⟨.enUs, false, 0⟩ 0 (startConsole fun _ => 0) (fun _ => 0) (fun _ => 0)
    enterEvents enterEvents_gated
  refine ⟨served ?_, shows⟩
  intro divided
  cases divided

/-! ## The keys -/

/-- The character that a call in progress has loaded, or the slot. -/
def held (system : System) : UInt8 :=
  system.phase.loaded.getD system.machine.keyboard.lastInterruptChar

def content (system : System) : List UInt8 :=
  nonzero (system.turns.flatMap Turn.keys ++ system.keys ++ [held system])

def Complete (system : System) : Prop := content system = nonzero system.stored

/-- A request that stores a character finds the slot empty and no call between
its two steps, whose second one would clear it. -/
def Keeps (system : System) : Event → Prop
  | .irq irq => ∀ c, storedBy system irq = some c →
      if system.phase.loaded.isSome then c = 0
      else system.machine.keyboard.lastInterruptChar = 0
  | .main _ => True

section Keys

variable {board : Board} {image : Image} {systemTicks : UInt64} {start : Kernel}
  {input : View} {system : System}

theorem nonzero_zero : nonzero [0] = [] := rfl

theorem idle_held (idle : system.phase.loaded = none) :
    held system = system.machine.keyboard.lastInterruptChar := by
  rw [held, idle, Option.getD_none]

theorem content_load {i : Nat} (reading : system.phase = .reading i none) :
    content (loadStep system i) = content system := by
  have idle : held system = system.machine.keyboard.lastInterruptChar :=
    idle_held (by rw [reading]; rfl)
  rw [content, content, idle]
  rfl

theorem content_clear {i : Nat} {c : UInt8}
    (reading : system.phase = .reading i (some c)) :
    content (clearStep board system i c) = content system := by
  have inCall : held system = c := by
    rw [held, reading]
    rfl
  have cleared : held (clearStep board system i c) = 0 := by
    unfold held clearStep
    simp only
    split <;> rfl
  have returned : (clearStep board system i c).keys = system.keys ++ [c] := rfl
  have turns : (clearStep board system i c).turns = system.turns := rfl
  rw [content, content, cleared, inCall, returned, turns, nonzero_append _ [0],
    nonzero_zero, List.append_nil, List.append_assoc]

theorem content_command (steady : Steady image systemTicks system.machine)
    (entered : system.phase = .entered) (around : Surroundings) :
    content (commandStep board image system around) = content system ∧
      (commandStep board image system around).stored = system.stored := by
  have idle : held system = system.machine.keyboard.lastInterruptChar :=
    idle_held (by rw [entered]; rfl)
  have turns : ∀ moment, (system.turns ++ [Turn.mk system.keys moment]).flatMap
      Turn.keys ++ [] = system.turns.flatMap Turn.keys ++ system.keys := by
    intro moment
    rw [List.flatMap_append, List.append_nil, List.flatMap_singleton]
  rw [content, content, idle]
  cases splits : shellTurn system.input with
  | none =>
      simp only [commandStep, splits]
      exact ⟨rfl, trivial⟩
  | some result =>
      cases runs : runEvents board ⟨system.machine.systemTicks,
          around.stackBehind, around.devices⟩ result.1 system.kernel with
      | none =>
          simp only [commandStep, splits, runs]
          exact ⟨rfl, trivial⟩
      | some done =>
          obtain ⟨after, halt⟩ := done
          cases halt with
          | some halt =>
              have sound : (system.withKernel after).machine.idt =
                  idtInit image noEntries := steady.idt
              by_cases divides : halt = .divideError
              · simp only [commandStep, splits, runs, if_pos divides]
                refine ⟨?_, rfl⟩
                rw [← turns]
                have slot := congrArg KeyboardState.lastInterruptChar
                  (trap_keyboard sound around.context)
                exact congrArg (fun c => nonzero (_ ++ [c])) slot
              · simp only [commandStep, splits, runs, if_neg divides]
                refine ⟨?_, rfl⟩
                rw [← turns]
                rfl
          | none =>
              simp only [commandStep, splits, runs]
              refine ⟨?_, rfl⟩
              rw [← turns]
              rfl

theorem content_main
    (refines : Refines board image systemTicks start input system)
    (around : Surroundings) :
    content (mainStep board image system around) = content system ∧
      (mainStep board image system around).stored = system.stored := by
  unfold mainStep
  split
  · exact ⟨content_load ‹_›, rfl⟩
  · exact ⟨content_clear ‹_›, rfl⟩
  · rename_i entered
    exact content_command (refines.steady (by simp [entered])) entered around
  · exact ⟨rfl, rfl⟩
  · exact ⟨rfl, rfl⟩

theorem deliver_slot (steady : Steady image systemTicks system.machine) (irq : Irq)
    (gated : HasGate irq.line) :
    (deliver image system.machine irq).keyboard.lastInterruptChar =
      (storedBy system irq).getD system.machine.keyboard.lastInterruptChar := by
  rw [deliver_keyboard steady irq gated, storedBy]
  by_cases key : irq.line.val = 1
  · rw [if_pos key, if_pos ⟨steady.running, key⟩, keyboardHandler_slot]
  · rw [if_neg key, if_neg fun both => key both.2, Option.getD_none]

/-- The characters stay complete through a request exactly when it displaces
none. -/
theorem complete_irq_iff
    (refines : Refines board image systemTicks start input system)
    (complete : Complete system) (irq : Irq) (gated : HasGate irq.line) :
    Complete (systemStep board image system (.irq irq)) ↔
      Keeps system (.irq irq) := by
  by_cases divided : system.phase = .halted .divideError
  · have crashed := refines.crashed divided
    rw [irq_crashed crashed]
    refine iff_of_true complete ?_
    intro c stores
    rw [storedBy_crashed crashed] at stores
    cases stores
  have slot := deliver_slot (refines.steady divided) irq gated
  let behind := system.turns.flatMap Turn.keys ++ system.keys
  have before : nonzero (behind ++ [held system]) = nonzero system.stored := complete
  have stored : (systemStep board image system (.irq irq)).stored =
      system.stored ++ (storedBy system irq).toList := rfl
  have after : content (systemStep board image system (.irq irq)) =
      nonzero (behind ++ [system.phase.loaded.getD
        ((storedBy system irq).getD system.machine.keyboard.lastInterruptChar)]) := by
    rw [← slot]
    rfl
  rw [Complete, after, stored, nonzero_append behind, nonzero_append system.stored,
    ← before, nonzero_append behind]
  unfold Keeps held
  cases stores : storedBy system irq with
  | none => simp [stores, nonzero]
  | some c =>
      cases inCall : system.phase.loaded with
      | none => simp [stores, nonzero]
      | some d => simp [stores, nonzero]

end Keys

/-- All along a run the keys that are returned or under way are those that the
handler has stored, in order and once, exactly when no request finds the slot
full or a call between its steps. -/
theorem content_stored_iff (board : Board) (image : Image) (pics : Pics)
    (keyboard : KeyboardState) (systemTicks : UInt64) (con : Console)
    (uintBuf : Nat → UInt8) (input : View) (events : List Event)
    (gated : ∀ irq, .irq irq ∈ events → HasGate irq.line) :
    let start := startSystem board (booted image pics keyboard systemTicks) con
      uintBuf input
    (∀ done, done <+: events →
      content (run (systemStep board image) start done) =
        nonzero (run (systemStep board image) start done).stored) ↔
      Guarded (systemStep board image) Keeps start events := by
  intro start
  have all := @always_iff _ _ (systemStep board image) Complete start events
  have keptBy : ∀ system, ∀ event ∈ events,
      Refines board image systemTicks ⟨con, keyboard.currentLayout, uintBuf⟩ input
          system ∧ Complete system →
        (Complete (systemStep board image system event) ↔ Keeps system event) := by
    rintro system event member ⟨refines, complete⟩
    cases event with
    | irq irq =>
        exact complete_irq_iff refines complete irq (gated irq member)
    | main around =>
        obtain ⟨moved, stored⟩ := content_main refines around
        refine iff_of_true ?_ trivial
        change content (mainStep board image system around) =
          nonzero (mainStep board image system around).stored
        rw [moved, stored]
        exact complete
  have started := refines_start board image pics keyboard systemTicks con uintBuf
    input
  have exactly := @always_iff_guarded _ _ (systemStep board image)
    (fun system => Refines board image systemTicks
      ⟨con, keyboard.currentLayout, uintBuf⟩ input system ∧ Complete system)
    Complete Keeps start events (fun _ both => both.2)
    (fun system event member both keeps => ⟨both.1.event event fun irq here =>
      gated irq (here ▸ member), (keptBy system event member both).mpr keeps⟩)
    (fun system event member both => (keptBy system event member both).mp)
    ⟨started, rfl⟩
  exact all.symm.trans exactly

theorem content_stored_enter :
    let start := startSystem blankBoard
      (booted spacedImage remapped ⟨.enUs, false, 0⟩ 0) (startConsole fun _ => 0)
      (fun _ => 0) fun _ => 0
    ∀ done, done <+: enterEvents →
      content (run (systemStep blankBoard spacedImage) start done) =
        nonzero (run (systemStep blankBoard spacedImage) start done).stored := by
  intro start
  refine (content_stored_iff blankBoard spacedImage remapped ⟨.enUs, false, 0⟩ 0
    (startConsole fun _ => 0) (fun _ => 0) (fun _ => 0) enterEvents
    enterEvents_gated).mpr ?_
  refine ⟨fun _ _ => rfl, trivial, ?_, trivial, trivial, trivial⟩
  intro c stores
  rw [storedBy, if_neg fun both => absurd both.2 (by decide)] at stores
  cases stores

end Lumie.Interleaving
