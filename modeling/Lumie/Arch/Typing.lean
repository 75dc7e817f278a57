import Lumie.Arch.Interrupts
import Lumie.Lib.InputTyped

/-!
# Typing on the whole machine

Requests of any line with a gate come between the steps of a program that calls
`keyboard_get_char`.  The machine with its descriptor table, its interrupt
controllers and its timer refines the character slot: only the requests of line
1 are seen there.
-/

set_option autoImplicit false

namespace Lumie.Typing

open FoldRun
open Lumie.Strings Lumie.Screen Lumie.Input Lumie.InputLine
open Lumie.Keyboard Lumie.KeyboardSlot Lumie.InputTyped
open Lumie.Pic Lumie.Idt Lumie.Interrupts

/-- The local `c` of a call between its two steps and what the calls have
returned. -/
structure System where
  machine : Machine
  loaded : Option UInt8
  returned : List UInt8

inductive Event where
  | irq (irq : Irq)
  | main

def mainStep (system : System) : System :=
  match system.loaded with
  | none =>
      { system with loaded := some system.machine.keyboard.lastInterruptChar }
  | some c =>
      { machine := { system.machine with
          keyboard := { system.machine.keyboard with lastInterruptChar := 0 } }
        loaded := none
        returned := system.returned ++ [c] }

def systemStep (image : Image) (system : System) : Event → System
  | .irq irq => { system with machine := deliver image system.machine irq }
  | .main => mainStep system

def bootedSystem (image : Image) (pics : Pics) (layout : Layout)
    (systemTicks : UInt64) : System :=
  ⟨booted image pics ⟨layout, false, 0⟩ systemTicks, none, []⟩

/-! ## The keyboard in a request -/

theorem interruptHandler_keyboard (machine : Machine) (data : UInt8)
    {frame : InterruptFrame} (interrupt : ¬ frame.vector < 32) :
    (interruptHandler machine data frame).keyboard =
      if frame.vector = 33 then keyboardHandler machine.keyboard data
      else machine.keyboard := by
  rw [interruptHandler, if_neg interrupt]
  by_cases key : frame.vector = 33
  · simp only [if_pos key]
  · simp only [if_neg key]
    split <;> rfl

theorem line_vector_keyboard (line : Fin 16) :
    32 + UInt64.ofNat line.val = 33 ↔ line.val = 1 := by
  rw [← UInt64.toNat_inj, line_vector_toNat]
  change 32 + line.val = 33 ↔ line.val = 1
  omega

theorem deliver_keyboard {image : Image} {systemTicks : UInt64}
    {machine : Machine} (steady : Steady image systemTicks machine) (irq : Irq)
    (gated : HasGate irq.line) :
    (deliver image machine irq).keyboard =
      if irq.line.val = 1 then keyboardHandler machine.keyboard irq.data
      else machine.keyboard := by
  obtain ⟨pics, isr, frame, interrupt, delivers⟩ := deliver_gated steady irq gated
  rw [delivers, interruptHandler_keyboard _ _ interrupt, frame]
  simp only [line_vector_keyboard]
  rfl

/-! ## The refinement -/

structure Refines (image : Image) (systemTicks : UInt64) (system : System)
    (session : Session) : Prop where
  steady : Steady image systemTicks system.machine
  keyboard : system.machine.keyboard = session.keyboard
  loaded : system.loaded = session.loaded
  returned : system.returned = session.returned.map Prod.fst

def slotStep : Event → Option Step
  | .irq irq => if irq.line.val = 1 then some (.interrupt irq.data) else none
  | .main => some .main

section Steps

variable {image : Image} {systemTicks : UInt64} {system : System}
  {session : Session}

/-- The program may write to the variables of the keyboard driver. -/
theorem steady_keyboard {machine : Machine}
    (steady : Steady image systemTicks machine) (keyboard : KeyboardState) :
    Steady image systemTicks { machine with keyboard := keyboard } := by
  have served := steady.served
  exact ⟨steady.idt, steady.pics, steady.running, served.vectors,
    served.noException, served.noRsod, served.acknowledged, served.ticks⟩

theorem interrupt_loaded (session : Session) (scancode : UInt8) :
    (step session (.interrupt scancode)).loaded = session.loaded ∧
      (step session (.interrupt scancode)).returned = session.returned := by
  cases stores : storedChar session.keyboard scancode with
  | none =>
      rw [step_quiet stores]
      exact ⟨rfl, rfl⟩
  | some c =>
      rw [step_store stores]
      exact ⟨rfl, rfl⟩

theorem Refines.irq (refines : Refines image systemTicks system session)
    (irq : Irq) (gated : HasGate irq.line) :
    Refines image systemTicks (systemStep image system (.irq irq))
      ((slotStep (.irq irq)).elim session (step session)) := by
  have steady := steady_deliver refines.steady irq gated
  have keyboard := deliver_keyboard refines.steady irq gated
  by_cases key : irq.line.val = 1
  · obtain ⟨loaded, returned⟩ := interrupt_loaded session irq.data
    rw [if_pos key, refines.keyboard] at keyboard
    rw [slotStep, if_pos key, Option.elim_some]
    refine ⟨steady, ?_, ?_, ?_⟩
    · rw [step_keyboard]
      exact keyboard
    · rw [loaded]
      exact refines.loaded
    · rw [returned]
      exact refines.returned
  · rw [if_neg key, refines.keyboard] at keyboard
    rw [slotStep, if_neg key, Option.elim_none]
    exact ⟨steady, keyboard, refines.loaded, refines.returned⟩

theorem Refines.main (refines : Refines image systemTicks system session) :
    Refines image systemTicks (mainStep system) (step session .main) := by
  have steady := refines.steady
  have keyboard := refines.keyboard
  have loaded := refines.loaded
  cases inCall : session.loaded with
  | none =>
      rw [inCall] at loaded
      rw [step_load inCall, mainStep, loaded]
      refine ⟨steady, keyboard, ?_, refines.returned⟩
      rw [keyboard]
      rfl
  | some c =>
      rw [inCall] at loaded
      rw [step_clear inCall, mainStep, loaded]
      refine ⟨steady_keyboard steady _, ?_, rfl, ?_⟩
      · simp only [keyboard]
        rfl
      · simp only [clearStep, List.map_append, refines.returned]
        rfl

end Steps

/-- Whatever requests come between, the machine serves them all and its calls
return what those of the slot return, which sees the requests of the keyboard
alone. -/
theorem system_refines_slot (image : Image) (pics : Pics) (layout : Layout)
    (systemTicks : UInt64) (events : List Event)
    (gated : ∀ irq, .irq irq ∈ events → HasGate irq.line) :
    let system := run (systemStep image)
      (bootedSystem image pics layout systemTicks) events
    let session := run step (start layout) (events.filterMap slotStep)
    Served systemTicks system.machine ∧
      system.machine.keyboard = session.keyboard ∧
      system.loaded = session.loaded ∧
      system.returned = session.returned.map Prod.fst := by
  intro system session
  have keeps : ∀ state abstract, ∀ event ∈ events,
      Refines image systemTicks state abstract →
        Refines image systemTicks (systemStep image state event)
          ((slotStep event).elim abstract (step abstract)) := by
    intro state abstract event member refines
    cases event with
    | irq irq => exact refines.irq irq (gated irq member)
    | main => exact refines.main
  have initially : Refines image systemTicks
      (bootedSystem image pics layout systemTicks) (start layout) :=
    ⟨steady_booted image pics ⟨layout, false, 0⟩ systemTicks, rfl, rfl, rfl⟩
  have refines : Refines image systemTicks system session :=
    run_stutters keeps initially
  exact ⟨refines.steady.served, refines.keyboard, refines.loaded,
    refines.returned⟩

def mixedEvents : List Event :=
  [.irq (requestOn 0 0), .irq (requestOn 1 0x1E), .main, .irq (requestOn 7 0),
    .main]

theorem system_refines_slot_mixed :
    (run (systemStep spacedImage)
      (bootedSystem spacedImage remapped .enUs 0) mixedEvents).returned =
      (run step (start .enUs) (mixedEvents.filterMap slotStep)).returned.map
        Prod.fst := by
  have gated : ∀ irq, .irq irq ∈ mixedEvents → HasGate irq.line := by
    intro irq member
    simp only [mixedEvents, List.mem_cons, Event.irq.injEq, reduceCtorEq,
      List.not_mem_nil, or_false, false_or] at member
    obtain rfl | rfl | rfl := member <;> decide
  exact (system_refines_slot spacedImage remapped .enUs 0 mixedEvents gated).2.2.2

end Lumie.Typing
