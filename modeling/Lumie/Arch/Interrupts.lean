import Lumie.Arch.Idt
import Lumie.Arch.Pic
import Lumie.Base.FoldRun
import Lumie.Drivers.Keyboard

/-!
# Serving hardware interrupts

A device raises a line, the controllers choose a vector, the processor enters
the stub behind its gate and `interrupt_handler` runs to its end before the
next request.  A vector without a gate raises an exception, and the table of
`idt_init` leads from there to the double fault and into `rsod`.
-/

set_option autoImplicit false

namespace Lumie.Interrupts

open FoldRun
open Lumie.Idt Lumie.Pic Lumie.Keyboard

structure Context where
  r15 : UInt64
  r14 : UInt64
  r13 : UInt64
  r12 : UInt64
  r11 : UInt64
  r10 : UInt64
  r9 : UInt64
  r8 : UInt64
  rdi : UInt64
  rsi : UInt64
  rdx : UInt64
  rcx : UInt64
  rbx : UInt64
  rax : UInt64
  rbp : UInt64
  rip : UInt64
  cs : UInt64
  rflags : UInt64
  rsp : UInt64
  ss : UInt64
  deriving DecidableEq, Repr

structure InterruptFrame extends Context where
  vector : UInt64
  errorCode : UInt64
  deriving DecidableEq, Repr

/-- The frame that a stub passes on.  Of the exceptions only the division error
and the double fault come up here, and their error code is zero. -/
def frameOf (isr : Isr) (context : Context) : InterruptFrame :=
  { context with vector := isr.vector, errorCode := 0 }

structure Machine where
  idt : Table
  pics : Pics
  keyboard : KeyboardState
  systemTicks : UInt64
  /-- The frame with which `rsod` was entered; it does not return. -/
  rsod : Option InterruptFrame
  halted : Bool
  delivered : List (Fin 16)
  /-- The vectors that `interrupt_handler` has been given. -/
  vectors : List UInt64
  exceptions : List UInt8

def timerHandler (machine : Machine) : Machine :=
  { machine with systemTicks := machine.systemTicks + 1 }

/-- `interrupt_handler`, with the byte that port 0x60 holds. -/
def interruptHandler (machine : Machine) (data : UInt8)
    (frame : InterruptFrame) : Machine :=
  let entered := { machine with vectors := machine.vectors ++ [frame.vector] }
  if frame.vector < 32 then
    { entered with rsod := some frame, halted := true }
  else
    let served :=
      if frame.vector = 33 then
        { entered with keyboard := keyboardHandler entered.keyboard data }
      else if frame.vector = 32 then timerHandler entered
      else entered
    { served with pics := acknowledge served.pics frame.vector }

structure Irq where
  line : Fin 16
  data : UInt8
  context : Context

/-- The processor takes the first vector; when its gate is not present it takes
the exception that follows. -/
def enter (image : Image) (irq : Irq) : List UInt8 → Machine → Machine
  | [], machine => { machine with halted := true }
  | vector :: faults, machine =>
      match stub image machine.idt vector with
      | some isr => interruptHandler machine irq.data (frameOf isr irq.context)
      | none =>
          enter image irq faults
            { machine with exceptions := machine.exceptions ++ faults.take 1 }

def requested (machine : Machine) (irq : Irq) (pics : Pics) : Machine :=
  { machine with delivered := machine.delivered ++ [irq.line], pics := pics }

/-- A missing gate is exception 11; when that cannot be taken either, it is the
double fault 8. -/
def deliver (image : Image) (machine : Machine) (irq : Irq) : Machine :=
  if machine.halted then machine
  else
    match machine.pics.request irq.line with
    | none => requested machine irq machine.pics
    | some (vector, pics) =>
        enter image irq [vector, 11, 8] (requested machine irq pics)

/-- An exception of the running program; no line and no byte belong to it. -/
def trap (image : Image) (machine : Machine) (vector : UInt8)
    (context : Context) : Machine :=
  enter image ⟨0, 0, context⟩ [vector, 11, 8]
    { machine with exceptions := machine.exceptions ++ [vector] }

def booted (image : Image) (pics : Pics) (keyboard : KeyboardState)
    (systemTicks : UInt64) : Machine where
  idt := idtInit image noEntries
  pics := picRemap pics
  keyboard := keyboard
  systemTicks := systemTicks
  rsod := none
  halted := false
  delivered := []
  vectors := []
  exceptions := []

structure Served (systemTicks : UInt64) (machine : Machine) : Prop where
  vectors : machine.vectors =
    machine.delivered.map (fun line => 32 + UInt64.ofNat line.val)
  noException : machine.exceptions = []
  noRsod : machine.rsod = none
  acknowledged : machine.pics.master.inService = 0 ∧
    machine.pics.slave.inService = 0
  ticks : machine.systemTicks = systemTicks +
    UInt64.ofNat (machine.delivered.countP (fun line => line.val = 0))

def HasGate (line : Fin 16) : Prop :=
  line.val = 0 ∨ line.val = 1 ∨ line.val = 7

instance (line : Fin 16) : Decidable (HasGate line) :=
  inferInstanceAs (Decidable (_ ∨ _))

/-! ## The handler -/

structure Handled (before : Machine) (frame : InterruptFrame)
    (after : Machine) : Prop where
  idt : after.idt = before.idt
  pics : after.pics = acknowledge before.pics frame.vector
  systemTicks : after.systemTicks =
    before.systemTicks + if frame.vector = 32 then 1 else 0
  rsod : after.rsod = before.rsod
  halted : after.halted = before.halted
  delivered : after.delivered = before.delivered
  vectors : after.vectors = before.vectors ++ [frame.vector]
  exceptions : after.exceptions = before.exceptions

theorem interruptHandler_handled (machine : Machine) (data : UInt8)
    {frame : InterruptFrame} (interrupt : ¬ frame.vector < 32) :
    Handled machine frame (interruptHandler machine data frame) := by
  rw [interruptHandler, if_neg interrupt]
  by_cases key : frame.vector = 33
  · have noTick : ¬ frame.vector = 32 := by
      rw [key]
      decide
    simp only [if_pos key]
    refine ⟨rfl, rfl, ?_, rfl, rfl, rfl, rfl, rfl⟩
    rw [if_neg noTick, UInt64.add_zero]
  · simp only [if_neg key]
    by_cases tick : frame.vector = 32
    · simp only [if_pos tick]
      refine ⟨rfl, rfl, ?_, rfl, rfl, rfl, rfl, rfl⟩
      rw [if_pos tick]
      rfl
    · simp only [if_neg tick]
      refine ⟨rfl, rfl, ?_, rfl, rfl, rfl, rfl, rfl⟩
      rw [if_neg tick, UInt64.add_zero]

theorem interruptHandler_exception (machine : Machine) (data : UInt8)
    {frame : InterruptFrame} (exception : frame.vector < 32) :
    interruptHandler machine data frame =
      { machine with
        vectors := machine.vectors ++ [frame.vector]
        rsod := some frame, halted := true } := if_pos exception

@[simp] theorem requested_delivered (machine : Machine) (irq : Irq) (pics : Pics) :
    (requested machine irq pics).delivered = machine.delivered ++ [irq.line] := rfl

@[simp] theorem requested_vectors (machine : Machine) (irq : Irq) (pics : Pics) :
    (requested machine irq pics).vectors = machine.vectors := rfl

@[simp] theorem requested_systemTicks (machine : Machine) (irq : Irq)
    (pics : Pics) :
    (requested machine irq pics).systemTicks = machine.systemTicks := rfl

theorem lookup_of_hasGate {line : Fin 16} (gated : HasGate line) :
    ∃ isr, gates.lookup (32 + UInt8.ofNat line.val) = some isr ∧
      isr.vector = 32 + UInt64.ofNat line.val := by
  rcases gated with timer | key | spurious
  · rw [timer]
    exact ⟨.isr32, rfl, rfl⟩
  · rw [key]
    exact ⟨.isr33, rfl, rfl⟩
  · rw [spurious]
    exact ⟨.isr39, rfl, rfl⟩

theorem lookup_of_not_hasGate {line : Fin 16} (missing : ¬ HasGate line) :
    gates.lookup (32 + UInt8.ofNat line.val) = none := by
  revert line
  decide

theorem line_vector_interrupt (line : Fin 16) :
    ¬ (32 + UInt64.ofNat line.val) < 32 := by
  rw [UInt64.lt_iff_toNat_lt, line_vector_toNat]
  change ¬ 32 + line.val < 32
  omega

theorem line_vector_timer (line : Fin 16) :
    32 + UInt64.ofNat line.val = 32 ↔ line.val = 0 := by
  rw [← UInt64.toNat_inj, line_vector_toNat]
  change 32 + line.val = 32 ↔ line.val = 0
  omega

theorem ticks_append (lines : List (Fin 16)) (line : Fin 16) :
    UInt64.ofNat ((lines ++ [line]).countP (fun line => line.val = 0)) =
      UInt64.ofNat (lines.countP (fun line => line.val = 0)) +
        if line.val = 0 then 1 else 0 := by
  rw [List.countP_append, UInt64.ofNat_add, List.countP_singleton]
  by_cases timer : line.val = 0
  · simp [timer]
  · simp [timer]

structure Steady (image : Image) (systemTicks : UInt64) (machine : Machine) :
    Prop where
  idt : machine.idt = idtInit image noEntries
  pics : machine.pics = remapped
  running : machine.halted = false
  served : Served systemTicks machine

section Requests

variable {image : Image} {systemTicks : UInt64} {machine : Machine}

theorem steady_booted (image : Image) (pics : Pics) (keyboard : KeyboardState)
    (systemTicks : UInt64) :
    Steady image systemTicks (booted image pics keyboard systemTicks) := by
  refine ⟨rfl, picRemap_eq pics, rfl, rfl, rfl, rfl, ⟨rfl, rfl⟩, ?_⟩
  exact (UInt64.add_zero systemTicks).symm

theorem deliver_steady (steady : Steady image systemTicks machine) (irq : Irq) :
    ∃ pics, acknowledge pics (32 + UInt64.ofNat irq.line.val) = remapped ∧
      deliver image machine irq =
        enter image irq [32 + UInt8.ofNat irq.line.val, 11, 8]
          (requested machine irq pics) := by
  obtain ⟨pics, request, ended⟩ := remapped_request irq.line
  refine ⟨pics, ended, ?_⟩
  rw [deliver, steady.running, if_neg Bool.false_ne_true, steady.pics, request]

theorem enter_stub {irq : Irq} {vector : UInt8} (faults : List UInt8) {isr : Isr}
    (idt : machine.idt = idtInit image noEntries)
    (gated : gates.lookup vector = some isr) :
    enter image irq (vector :: faults) machine =
      interruptHandler machine irq.data (frameOf isr irq.context) := by
  rw [enter, idt, idtInit_stub, gated]

theorem trap_divideError (idt : machine.idt = idtInit image noEntries)
    (context : Context) :
    trap image machine 0 context =
      { machine with
        exceptions := machine.exceptions ++ [0]
        vectors := machine.vectors ++ [0]
        rsod := some (frameOf .isr0 context), halted := true } := by
  have gated : gates.lookup 0 = some .isr0 := rfl
  have exception : (frameOf .isr0 context).vector < 32 :=
    (by decide : (0 : UInt64) < 32)
  have entered := @enter_stub image
    { machine with exceptions := machine.exceptions ++ [0] } ⟨0, 0, context⟩ 0
    [11, 8] .isr0 idt gated
  exact entered.trans (interruptHandler_exception _ _ exception)

theorem trap_keyboard (idt : machine.idt = idtInit image noEntries)
    (context : Context) :
    (trap image machine 0 context).keyboard = machine.keyboard := by
  rw [trap_divideError idt]

theorem enter_fault {irq : Irq} {vector : UInt8} (faults : List UInt8)
    (idt : machine.idt = idtInit image noEntries)
    (missing : gates.lookup vector = none) :
    enter image irq (vector :: faults) machine =
      enter image irq faults
        { machine with exceptions := machine.exceptions ++ faults.take 1 } := by
  rw [enter, idt, idtInit_stub, missing]

theorem steady_deliver (steady : Steady image systemTicks machine) (irq : Irq)
    (gated : HasGate irq.line) :
    Steady image systemTicks (deliver image machine irq) := by
  obtain ⟨pics, ended, delivers⟩ := deliver_steady steady irq
  obtain ⟨isr, found, vector⟩ := lookup_of_hasGate gated
  have served := steady.served
  have frame : (frameOf isr irq.context).vector =
      32 + UInt64.ofNat irq.line.val := vector
  have interrupt : ¬ (frameOf isr irq.context).vector < 32 := by
    rw [frame]
    exact line_vector_interrupt irq.line
  have idt : (requested machine irq pics).idt = idtInit image noEntries := steady.idt
  rw [delivers, enter_stub _ idt found]
  have handled := interruptHandler_handled (requested machine irq pics) irq.data
    interrupt
  have signalled := handled.pics
  rw [frame] at signalled
  have acknowledged := signalled.trans ended
  refine ⟨handled.idt.trans steady.idt, acknowledged,
    handled.halted.trans steady.running, ?_, ?_, ?_, ?_, ?_⟩
  · rw [handled.vectors, handled.delivered, requested_vectors,
      requested_delivered, List.map_append, frame, served.vectors]
    rfl
  · exact handled.exceptions.trans served.noException
  · exact handled.rsod.trans served.noRsod
  · rw [acknowledged]
    exact ⟨rfl, rfl⟩
  · rw [handled.systemTicks, handled.delivered, requested_systemTicks,
      requested_delivered, ticks_append, frame]
    simp only [line_vector_timer, served.ticks, UInt64.add_assoc]

/-- A line with a gate is served by the handler with its vector. -/
theorem deliver_gated (steady : Steady image systemTicks machine) (irq : Irq)
    (gated : HasGate irq.line) :
    ∃ pics isr, (frameOf isr irq.context).vector =
        32 + UInt64.ofNat irq.line.val ∧
      ¬ (frameOf isr irq.context).vector < 32 ∧
      deliver image machine irq =
        interruptHandler (requested machine irq pics) irq.data
          (frameOf isr irq.context) := by
  obtain ⟨pics, -, delivers⟩ := deliver_steady steady irq
  obtain ⟨isr, found, vector⟩ := lookup_of_hasGate gated
  have frame : (frameOf isr irq.context).vector =
      32 + UInt64.ofNat irq.line.val := vector
  have idt : (requested machine irq pics).idt = idtInit image noEntries :=
    steady.idt
  refine ⟨pics, isr, frame, ?_, ?_⟩
  · rw [frame]
    exact line_vector_interrupt irq.line
  · rw [delivers, enter_stub _ idt found]

/-- Without a gate the exceptions lead to the stub of the double fault. -/
theorem enter_noGate {irq : Irq} {vector : UInt8}
    (idt : machine.idt = idtInit image noEntries)
    (missing : gates.lookup vector = none) :
    (enter image irq [vector, 11, 8] machine).exceptions =
        machine.exceptions ++ [11, 8] ∧
      (enter image irq [vector, 11, 8] machine).rsod =
        some (frameOf .isr8 irq.context) := by
  have noGate : gates.lookup 11 = none := rfl
  have doubleFault : gates.lookup 8 = some .isr8 := rfl
  have exception : (frameOf .isr8 irq.context).vector < 32 :=
    (by decide : (8 : UInt64) < 32)
  have second : enter image irq [11, 8]
      { machine with exceptions := machine.exceptions ++ [11] } =
        enter image irq [8]
          { machine with exceptions := machine.exceptions ++ [11] ++ [8] } :=
    enter_fault [8] idt noGate
  have last : enter image irq [8]
      { machine with exceptions := machine.exceptions ++ [11] ++ [8] } = _ :=
    enter_stub [] idt doubleFault
  rw [enter_fault [11, 8] idt missing]
  change (enter image irq [11, 8]
      { machine with exceptions := machine.exceptions ++ [11] }).exceptions = _ ∧
    (enter image irq [11, 8]
      { machine with exceptions := machine.exceptions ++ [11] }).rsod = _
  rw [second, last, interruptHandler_exception _ _ exception]
  refine ⟨?_, rfl⟩
  rw [List.append_assoc]
  rfl

theorem deliver_noGate (steady : Steady image systemTicks machine) (irq : Irq)
    (missing : ¬ HasGate irq.line) :
    (deliver image machine irq).exceptions = [11, 8] ∧
      (deliver image machine irq).rsod = some (frameOf .isr8 irq.context) := by
  obtain ⟨pics, ended, delivers⟩ := deliver_steady steady irq
  have idt : (requested machine irq pics).idt = idtInit image noEntries := steady.idt
  have before : (requested machine irq pics).exceptions = [] :=
    steady.served.noException
  obtain ⟨exceptions, rsod⟩ :=
    @enter_noGate image _ irq _ idt (lookup_of_not_hasGate missing)
  rw [before, List.nil_append] at exceptions
  rw [delivers]
  exact ⟨exceptions, rsod⟩

end Requests

/-! ## The run -/

/-- Every interrupt is served and acknowledged exactly when all of them come
from lines with a gate. -/
theorem interrupts_served_iff (image : Image) (pics : Pics)
    (keyboard : KeyboardState) (systemTicks : UInt64) (irqs : List Irq) :
    Always (deliver image) (Served systemTicks)
        (booted image pics keyboard systemTicks) irqs ↔
      ∀ irq ∈ irqs, HasGate irq.line := by
  have needs : ∀ machine, ∀ irq ∈ irqs, Steady image systemTicks machine →
      Served systemTicks (deliver image machine irq) → HasGate irq.line := by
    intro machine irq _ steady served
    by_contra missing
    have raised := (deliver_noGate steady irq missing).1
    rw [served.noException] at raised
    cases raised
  have guarded : Always (deliver image) (Served systemTicks)
      (booted image pics keyboard systemTicks) irqs ↔
        Guarded (deliver image) (fun _ irq => HasGate irq.line)
          (booted image pics keyboard systemTicks) irqs :=
    always_iff_guarded (fun _ => Steady.served)
      (fun machine irq _ steady => steady_deliver steady irq) needs
      (steady_booted image pics keyboard systemTicks)
  rw [guarded, guarded_action]

/-! ## The first ATA controller -/

def spacedImage : Image where
  address isr := 0xFFFFFFFF80001000 + 16 * isr.vector
  distinct := by
    have found : Function.LeftInverse
        (fun address : UInt64 => (Isr.all.find? (fun isr =>
          0xFFFFFFFF80001000 + 16 * isr.vector = address)).getD .isr0)
        (fun isr : Isr => 0xFFFFFFFF80001000 + 16 * isr.vector) := by
      intro isr
      cases isr <;> rfl
    exact found.injective

def requestOn (line : Nat) (data : UInt8) : Irq :=
  ⟨Fin.ofNat 16 line, data, ⟨0, 0, 0, 0, 0, 0, 0, 0, 0, 0, 0, 0, 0, 0, 0, 0, 8, 0x202, 0, 0⟩⟩

/-- The drive reports the end of a command on line 14. -/
def ataIrq : Irq where
  line := Fin.ofNat 16 14
  data := 0
  context := ⟨0, 0, 0, 0, 0, 0, 0, 0, 0, 0, 0, 0, 0, 0, 0, 0, 8, 0x202, 0, 0⟩

theorem ataIrq_crashes :
    ¬ Always (deliver spacedImage) (Served 0)
        (booted spacedImage remapped ⟨.enUs, false, 0⟩ 0) [ataIrq] ∧
      (deliver spacedImage (booted spacedImage remapped ⟨.enUs, false, 0⟩ 0)
        ataIrq).rsod = some (frameOf .isr8 ataIrq.context) := by
  have missing : ¬ HasGate ataIrq.line := by decide
  obtain ⟨_, crashes⟩ := deliver_noGate
    (steady_booted spacedImage remapped ⟨.enUs, false, 0⟩ 0) ataIrq missing
  refine ⟨?_, crashes⟩
  intro always
  have served := (always_end always).noRsod
  rw [run_cons, run_nil, crashes] at served
  cases served

end Lumie.Interrupts
