import Lumie.Base.FoldRun
import Lumie.Drivers.Keyboard
import Lumie.Lib.Strings

/-!
# Setting up the keyboard controller while keys are pressed

`keyboard_init` and `keyboard_handler` both read port 0x60 of an i8042 with one
output buffer.  A run interleaves the port accesses of `keyboard_init`, called
any number of times by the `layout` command, with key presses, the actions of
the controller and runs of the handler.  The session records what was read for
`cb`, what was written back and what the handler took; the record has no
influence on the steps.
-/

set_option autoImplicit false

namespace Lumie.KeyboardInit

open FoldRun
open Lumie.Strings Lumie.Keyboard

inductive Source where
  | scancode
  | reply
  deriving DecidableEq, Repr

structure Controller where
  /-- The byte placed last; it stays readable when it has been taken. -/
  output : UInt8
  outputFrom : Source
  outputFull : Bool
  inputFull : Bool
  configuration : UInt8
  /-- Command 0x20 has not been answered. -/
  replyPending : Bool
  /-- After command 0x60 the next data byte is the configuration. -/
  writePending : Bool
  deriving DecidableEq, Repr

namespace Controller

/-- `inb(0x64)` -/
def status (controller : Controller) : UInt8 :=
  (if controller.outputFull then 1 else 0) |||
    (if controller.inputFull then 2 else 0)

/-- What `inb(0x60)` leaves. -/
def take (controller : Controller) : Controller :=
  { controller with outputFull := false }

/-- `outb(0x64, value)` -/
def command (controller : Controller) (value : UInt8) : Controller :=
  let busy := { controller with inputFull := true }
  if value = 0x20 then { busy with replyPending := true }
  else if value = 0x60 then { busy with writePending := true }
  else busy

/-- `outb(0x60, value)` -/
def data (controller : Controller) (value : UInt8) : Controller :=
  let busy := { controller with inputFull := true }
  if controller.writePending then
    { busy with writePending := false, configuration := value }
  else busy

/-- A key event, which the controller can pass on while the buffer is empty. -/
def key (controller : Controller) (scancode : UInt8) : Controller :=
  if controller.outputFull then controller
  else
    { controller with
      output := scancode, outputFrom := .scancode, outputFull := true }

def answer (controller : Controller) : Controller :=
  if controller.replyPending = true ∧ controller.outputFull = false then
    { controller with
      output := controller.configuration, outputFrom := .reply
      outputFull := true, replyPending := false }
  else controller

def accept (controller : Controller) : Controller :=
  { controller with inputFull := false }

end Controller

/-! ## The two programs -/

/-- The port accesses of `keyboard_init`, in order. -/
inductive Pc where
  | setLayout
  | drainTest
  | drainTake
  | enable
  | request
  | waitReply
  | takeReply
  | announce
  | waitInput
  | store
  | done
  deriving DecidableEq, Repr

/-- What a read of port 0x60 for `cb` returned, and the configuration then. -/
structure Taken where
  byte : UInt8
  source : Source
  configuration : UInt8
  deriving DecidableEq, Repr

structure Written where
  byte : UInt8
  configuration : UInt8
  deriving DecidableEq, Repr

structure Session where
  keyboard : KeyboardState
  controller : Controller
  pc : Pc
  layout : Layout
  cb : UInt8
  taken : List Taken
  written : List Written
  handled : List Source

/-- `cb |= 1; cb &= ~0x10;` -/
def enabled (cb : UInt8) : UInt8 := (cb ||| 1) &&& ~~~0x10

def mainStep (session : Session) : Session :=
  let controller := session.controller
  match session.pc with
  | .setLayout =>
      { session with
        keyboard := { session.keyboard with currentLayout := session.layout }
        pc := .drainTest }
  | .drainTest =>
      if controller.status &&& 1 = 0 then { session with pc := .enable }
      else { session with pc := .drainTake }
  | .drainTake =>
      { session with controller := controller.take, pc := .drainTest }
  | .enable =>
      { session with controller := controller.command 0xAE, pc := .request }
  | .request =>
      { session with controller := controller.command 0x20, pc := .waitReply }
  | .waitReply =>
      if controller.status &&& 1 = 0 then session
      else { session with pc := .takeReply }
  | .takeReply =>
      { session with
        controller := controller.take
        cb := enabled controller.output
        taken := session.taken ++
          [⟨controller.output, controller.outputFrom, controller.configuration⟩]
        pc := .announce }
  | .announce =>
      { session with controller := controller.command 0x60, pc := .waitInput }
  | .waitInput =>
      if controller.status &&& 2 = 0 then { session with pc := .store }
      else session
  | .store =>
      { session with
        controller := controller.data session.cb
        written := session.written ++ [⟨session.cb, controller.configuration⟩]
        pc := .done }
  | .done => session

/-- `keyboard_handler`, which a byte in the buffer can start. -/
def interruptStep (session : Session) : Session :=
  let controller := session.controller
  if controller.outputFull then
    { session with
      keyboard := keyboardHandler session.keyboard controller.output
      controller := controller.take
      handled := session.handled ++ [controller.outputFrom] }
  else session

/-- The layout for which `cmd_layout` calls `keyboard_init`. -/
def cmdLayout (args : CString) : Option Layout :=
  if strcmp args.view (CString.ofString "fr_ca") = 0 then some .frCa
  else if strcmp args.view (CString.ofString "en_us") = 0 then some .enUs
  else none

/-- A call of `keyboard_init` by the shell, which waits for it to return. -/
def callStep (session : Session) (args : CString) : Session :=
  match session.pc, cmdLayout args with
  | .done, some layout => { session with layout := layout, pc := .setLayout }
  | _, _ => session

inductive Step where
  | call (args : CString)
  | key (scancode : UInt8)
  | answer
  | accept
  | interrupt
  | main

def step (session : Session) : Step → Session
  | .call args => callStep session args
  | .key scancode =>
      { session with controller := session.controller.key scancode }
  | .answer => { session with controller := session.controller.answer }
  | .accept => { session with controller := session.controller.accept }
  | .interrupt => interruptStep session
  | .main => mainStep session

def start (keyboard : KeyboardState) (output configuration : UInt8)
    (outputFull inputFull : Bool) : Session where
  keyboard := keyboard
  controller :=
    { output := output, outputFrom := .scancode, outputFull := outputFull
      inputFull := inputFull, configuration := configuration
      replyPending := false, writePending := false }
  pc := .done
  layout := keyboard.currentLayout
  cb := 0
  taken := []
  written := []
  handled := []

namespace Controller

structure Quiet (controller : Controller) : Prop where
  settled : controller.replyPending = false
  scancode : controller.outputFull = true → controller.outputFrom = .scancode

structure Asked (controller : Controller) : Prop where
  pending : controller.replyPending = true
  scancode : controller.outputFull = true → controller.outputFrom = .scancode

structure Answered (controller : Controller) : Prop where
  settled : controller.replyPending = false
  full : controller.outputFull = true
  reply : controller.outputFrom = .reply
  byte : controller.output = controller.configuration

end Controller

def Phase (controller : Controller) (cb : UInt8) : Pc → Prop
  | .waitReply => controller.Asked ∨ controller.Answered
  | .takeReply =>
      (controller.Asked ∧ controller.outputFrom = .scancode) ∨
        controller.Answered
  | .announce | .waitInput | .store =>
      controller.Quiet ∧ cb = enabled controller.configuration
  | _ => controller.Quiet

namespace Controller

section Rules

variable {controller : Controller} (scancode : UInt8)

theorem key_full (full : controller.outputFull = true) :
    controller.key scancode = controller := if_pos full

theorem Quiet.key (quiet : controller.Quiet) : (controller.key scancode).Quiet := by
  unfold Controller.key
  split
  · exact quiet
  · exact ⟨quiet.settled, fun _ => rfl⟩

theorem Asked.key (asked : controller.Asked) : (controller.key scancode).Asked := by
  unfold Controller.key
  split
  · exact asked
  · exact ⟨asked.pending, fun _ => rfl⟩

theorem Answered.key (answered : controller.Answered) :
    (controller.key scancode).Answered := by
  rw [key_full scancode answered.full]
  exact answered

theorem Quiet.take (quiet : controller.Quiet) : controller.take.Quiet :=
  ⟨quiet.settled, fun full => by cases full⟩

theorem Asked.take (asked : controller.Asked) : controller.take.Asked :=
  ⟨asked.pending, fun full => by cases full⟩

theorem Answered.take (answered : controller.Answered) : controller.take.Quiet :=
  ⟨answered.settled, fun full => by cases full⟩

theorem Quiet.enable (quiet : controller.Quiet) :
    (controller.command 0xAE).Quiet := ⟨quiet.settled, quiet.scancode⟩

theorem Quiet.request (quiet : controller.Quiet) :
    (controller.command 0x20).Asked := ⟨rfl, quiet.scancode⟩

theorem Quiet.announce (quiet : controller.Quiet) :
    (controller.command 0x60).Quiet := ⟨quiet.settled, quiet.scancode⟩

theorem Quiet.data (quiet : controller.Quiet) (value : UInt8) :
    (controller.data value).Quiet := by
  unfold Controller.data
  cases controller.writePending
  · exact ⟨quiet.settled, quiet.scancode⟩
  · exact ⟨quiet.settled, quiet.scancode⟩

theorem Quiet.accept (quiet : controller.Quiet) : controller.accept.Quiet :=
  ⟨quiet.settled, quiet.scancode⟩

theorem Asked.accept (asked : controller.Asked) : controller.accept.Asked :=
  ⟨asked.pending, asked.scancode⟩

theorem Answered.accept (answered : controller.Answered) :
    controller.accept.Answered :=
  ⟨answered.settled, answered.full, answered.reply, answered.byte⟩

end Rules

end Controller

section Steps

variable {controller : Controller} {cb : UInt8} {pc : Pc} {session : Session}

end Steps

/-! ## The run -/

def booted : Session := start ⟨.enUs, false, 0⟩ 0 0x61 false false

def drained : List Step := [.call (CString.ofString "fr_ca"), .main, .main, .main]

example : (run step booted (drained ++ [.main, .answer, .main, .main, .main,
    .accept, .main, .main])).written = [⟨0x61, 0x61⟩] := rfl

/-! ## A key in the wrong moment, a handler in the wrong moment -/

end Lumie.KeyboardInit
