import Lumie.Arch.Interrupts
import Lumie.Base.WhileLoop
import Lumie.Base.WordStack

/-!
# The interrupt stubs

`interrupts.s` over a processor with the fifteen general registers that it
saves, `rsp` and byte memory.  The processor has pushed the interrupted `ss`,
`rsp`, `rflags`, `cs` and `rip`, and for some exceptions an error code; the stub
completes this to a `struct interrupt_frame`, calls `interrupt_handler` with its
address and takes everything off again.
-/

set_option autoImplicit false

namespace Lumie.Stubs

open WhileLoop WordStack
open Lumie.Idt Lumie.Interrupts

inductive Reg where
  | rax | rbx | rcx | rdx | rsi | rdi | rbp
  | r8 | r9 | r10 | r11 | r12 | r13 | r14 | r15
  deriving DecidableEq, Repr

abbrev Cpu := Machine Reg

def movRsp (cpu : Cpu) (register : Reg) : Cpu :=
  { cpu with registers := Function.update cpu.registers register cpu.rsp }

def addRsp (cpu : Cpu) (value : UInt64) : Cpu :=
  { cpu with rsp := cpu.rsp + value }

@[simp] theorem addRsp_rsp (cpu : Cpu) (value : UInt64) :
    (addRsp cpu value).rsp = cpu.rsp + value := rfl

@[simp] theorem movRsp_rsp (cpu : Cpu) (register : Reg) :
    (movRsp cpu register).rsp = cpu.rsp := rfl

@[simp] theorem movRsp_self (cpu : Cpu) (register : Reg) :
    (movRsp cpu register).registers register = cpu.rsp := by
  simp [movRsp]

theorem movRsp_other (cpu : Cpu) {register other : Reg}
    (different : other ≠ register) :
    (movRsp cpu register).registers other = cpu.registers other := by
  simp [movRsp, different]

inductive Instr where
  /-- `push` of a number, the sign-extended immediate. -/
  | pushImm (value : UInt64)
  | push (register : Reg)
  | pop (register : Reg)
  /-- `mov register, rsp` -/
  | movRsp (register : Reg)
  /-- `add rsp, value` -/
  | addRsp (value : UInt64)
  | jmpIsrCommon
  | callInterruptHandler
  | iretq
  deriving DecidableEq, Repr

/-! ## The code -/

/-- `%macro isr_no_err 1` -/
def isrNoErr (n : UInt64) : List Instr :=
  [.pushImm 0, .pushImm n, .jmpIsrCommon]

/-- `%macro isr_err 1` -/
def isrErr (n : UInt64) : List Instr := [.pushImm n, .jmpIsrCommon]

def isrCommon : List Instr :=
  [.push .rbp,
    .movRsp .rbp,
    .push .rax, .push .rbx, .push .rcx, .push .rdx, .push .rsi, .push .rdi,
    .push .r8, .push .r9, .push .r10, .push .r11, .push .r12, .push .r13,
    .push .r14, .push .r15,
    .movRsp .rdi,
    .callInterruptHandler,
    .pop .r15, .pop .r14, .pop .r13, .pop .r12, .pop .r11, .pop .r10,
    .pop .r9, .pop .r8, .pop .rdi, .pop .rsi, .pop .rdx, .pop .rcx, .pop .rbx,
    .pop .rax, .pop .rbp,
    .addRsp 16,
    .iretq]

structure Config where
  cpu : Cpu
  code : List Instr
  /-- The processor at each call of `interrupt_handler` so far. -/
  calls : List Cpu

/-- The instructions up to `iretq`.  `handler` takes the processor from the
call of `interrupt_handler` to the instruction behind it; `none` is a call that
does not return. -/
def stubBody (handler : Cpu → Option Cpu) :
    Config → Option (Config ⊕ (Cpu × List Cpu))
  | ⟨cpu, .pushImm value :: rest, calls⟩ =>
      some (.inl ⟨cpu.push value, rest, calls⟩)
  | ⟨cpu, .push register :: rest, calls⟩ =>
      some (.inl ⟨cpu.pushRegister register, rest, calls⟩)
  | ⟨cpu, .pop register :: rest, calls⟩ =>
      some (.inl ⟨cpu.popRegister register, rest, calls⟩)
  | ⟨cpu, .movRsp register :: rest, calls⟩ =>
      some (.inl ⟨movRsp cpu register, rest, calls⟩)
  | ⟨cpu, .addRsp value :: rest, calls⟩ =>
      some (.inl ⟨addRsp cpu value, rest, calls⟩)
  | ⟨cpu, .jmpIsrCommon :: _, calls⟩ => some (.inl ⟨cpu, isrCommon, calls⟩)
  | ⟨cpu, .callInterruptHandler :: rest, calls⟩ =>
      (handler cpu).map fun after => .inl ⟨after, rest, calls ++ [cpu]⟩
  | ⟨cpu, .iretq :: _, calls⟩ => some (.inr (cpu, calls))
  | ⟨_, [], _⟩ => none

/-! ## The interrupt -/

def generalRegister (context : Context) : Reg → UInt64
  | .rax => context.rax
  | .rbx => context.rbx
  | .rcx => context.rcx
  | .rdx => context.rdx
  | .rsi => context.rsi
  | .rdi => context.rdi
  | .rbp => context.rbp
  | .r8 => context.r8
  | .r9 => context.r9
  | .r10 => context.r10
  | .r11 => context.r11
  | .r12 => context.r12
  | .r13 => context.r13
  | .r14 => context.r14
  | .r15 => context.r15

inductive Shape where
  | isrNoErr
  | isrErr
  deriving DecidableEq, Repr

def Shape.code : Shape → UInt64 → List Instr
  | .isrNoErr, n => Stubs.isrNoErr n
  | .isrErr, n => Stubs.isrErr n

/-- What the processor pushes, in order, from the address `top` down. -/
def Shape.processorWords (shape : Shape) (context : Context)
    (errorCode : UInt64) : List UInt64 :=
  [context.ss, context.rsp, context.rflags, context.cs, context.rip] ++
    match shape with
    | .isrNoErr => []
    | .isrErr => [errorCode]

def entered (shape : Shape) (n errorCode top : UInt64) (context : Context)
    (memory : Memory) : Config where
  cpu := (shape.processorWords context errorCode).foldl Machine.push
    ⟨generalRegister context, top, memory⟩
  code := shape.code n
  calls := []

def Shape.errorCode : Shape → UInt64 → UInt64
  | .isrNoErr, _ => 0
  | .isrErr, errorCode => errorCode

/-- `struct interrupt_frame` of its fields in the order of their
declaration. -/
def frameOfFields (field : Nat → UInt64) : InterruptFrame where
  r15 := field 0
  r14 := field 1
  r13 := field 2
  r12 := field 3
  r11 := field 4
  r10 := field 5
  r9 := field 6
  r8 := field 7
  rdi := field 8
  rsi := field 9
  rdx := field 10
  rcx := field 11
  rbx := field 12
  rax := field 13
  rbp := field 14
  vector := field 15
  errorCode := field 16
  rip := field 17
  cs := field 18
  rflags := field 19
  rsp := field 20
  ss := field 21

/-- What `frame->...` reads through a pointer. -/
def frameAt (memory : Memory) (frame : UInt64) : InterruptFrame :=
  frameOfFields fun k => load64 memory (frame + UInt64.ofNat (8 * k))

/-- `interrupt_handler` returns, with the stack pointer and the frame as they
were. -/
structure Returns (handler : Cpu → Option Cpu) (cpu after : Cpu) : Prop where
  returns : handler cpu = some after
  rsp : after.rsp = cpu.rsp
  frame : frameAt after.memory (cpu.registers .rdi) =
    frameAt cpu.memory (cpu.registers .rdi)

def resumed (cpu : Cpu) : Context where
  r15 := cpu.registers .r15
  r14 := cpu.registers .r14
  r13 := cpu.registers .r13
  r12 := cpu.registers .r12
  r11 := cpu.registers .r11
  r10 := cpu.registers .r10
  r9 := cpu.registers .r9
  r8 := cpu.registers .r8
  rdi := cpu.registers .rdi
  rsi := cpu.registers .rsi
  rdx := cpu.registers .rdx
  rcx := cpu.registers .rcx
  rbx := cpu.registers .rbx
  rax := cpu.registers .rax
  rbp := cpu.registers .rbp
  rip := load64 cpu.memory cpu.rsp
  cs := load64 cpu.memory (cpu.rsp + 8)
  rflags := load64 cpu.memory (cpu.rsp + 16)
  rsp := load64 cpu.memory (cpu.rsp + 24)
  ss := load64 cpu.memory (cpu.rsp + 32)

def frameWords (frame : InterruptFrame) : List UInt64 :=
  [frame.r15, frame.r14, frame.r13, frame.r12, frame.r11, frame.r10, frame.r9,
    frame.r8, frame.rdi, frame.rsi, frame.rdx, frame.rcx, frame.rbx, frame.rax,
    frame.rbp, frame.vector, frame.errorCode, frame.rip, frame.cs, frame.rflags,
    frame.rsp, frame.ss]

theorem frameOfFields_congr {first second : Nat → UInt64}
    (agree : ∀ k, k < 22 → first k = second k) :
    frameOfFields first = frameOfFields second := by
  simp [frameOfFields, agree]

theorem frameAt_of_holds {memory : Memory} {pointer : UInt64}
    {frame : InterruptFrame} (held : Holds memory pointer (frameWords frame)) :
    frameAt memory pointer = frame := by
  have field : ∀ k, k < 22 → load64 memory (pointer + UInt64.ofNat (8 * k)) =
      (frameWords frame).getD k 0 := by
    intro k inside
    rw [List.getD_eq_getElem _ _ inside]
    exact held.word inside
  exact (frameOfFields_congr field).trans rfl

theorem holds_frameAt (memory : Memory) (pointer : UInt64) :
    Holds memory pointer (frameWords (frameAt memory pointer)) := by
  apply holds_of_words
  intro k inside
  change k < 22 at inside
  interval_cases k <;> rfl

theorem resumed_of_holds {cpu : Cpu} {context : Context}
    (registers : ∀ register, cpu.registers register =
      generalRegister context register)
    (held : Holds cpu.memory cpu.rsp
      [context.rip, context.cs, context.rflags, context.rsp, context.ss]) :
    resumed cpu = context := by
  have rip : load64 cpu.memory cpu.rsp = context.rip := held.1
  have cs : load64 cpu.memory (cpu.rsp + 8) = context.cs :=
    @Holds.word _ _ _ held 1 (by simp)
  have rflags : load64 cpu.memory (cpu.rsp + 16) = context.rflags :=
    @Holds.word _ _ _ held 2 (by simp)
  have rsp : load64 cpu.memory (cpu.rsp + 24) = context.rsp :=
    @Holds.word _ _ _ held 3 (by simp)
  have ss : load64 cpu.memory (cpu.rsp + 32) = context.ss :=
    @Holds.word _ _ _ held 4 (by simp)
  simp only [resumed, registers, generalRegister, rip, cs, rflags, rsp, ss]

/-! ## Running a stub -/

section Run

variable {handler : Cpu → Option Cpu} {start : Config} {calls : List Cpu}

theorem visits_pushes (saved : List Reg) {rest : List Instr} {cpu : Cpu}
    (seen : Visits (stubBody handler) start
      ⟨cpu, saved.map .push ++ rest, calls⟩) :
    Visits (stubBody handler) start
      ⟨saved.foldl Machine.pushRegister cpu, rest, calls⟩ := by
  induction saved generalizing cpu with
  | nil => exact seen
  | cons register others ih =>
      rw [List.foldl_cons]
      apply ih
      exact .next seen rfl

theorem visits_pops (restored : List Reg) {rest : List Instr} {cpu : Cpu}
    (seen : Visits (stubBody handler) start
      ⟨cpu, restored.map .pop ++ rest, calls⟩) :
    Visits (stubBody handler) start
      ⟨restored.foldl Machine.popRegister cpu, rest, calls⟩ := by
  induction restored generalizing cpu with
  | nil => exact seen
  | cons register others ih =>
      rw [List.foldl_cons]
      apply ih
      exact .next seen rfl

end Run

def savedRegisters : List Reg :=
  [.rax, .rbx, .rcx, .rdx, .rsi, .rdi, .r8, .r9, .r10, .r11, .r12, .r13, .r14,
    .r15]

def restoredRegisters : List Reg := savedRegisters.reverse ++ [.rbp]

def leaveCode : List Instr :=
  restoredRegisters.map .pop ++ [.addRsp 16, .iretq]

theorem isrCommon_eq : isrCommon =
    .push .rbp :: .movRsp .rbp :: (savedRegisters.map .push ++
      .movRsp .rdi :: .callInterruptHandler :: leaveCode) := rfl

section Stub

variable (shape : Shape) (n errorCode top : UInt64) (context : Context)
  (memory : Memory)

def stubFrame : InterruptFrame :=
  { context with vector := n, errorCode := shape.errorCode errorCode }

def baseWords : List UInt64 :=
  [context.ss, context.rsp, context.rflags, context.cs, context.rip,
    shape.errorCode errorCode, n, context.rbp]

def based : Cpu :=
  movRsp ((baseWords shape n errorCode context).foldl Machine.push
    ⟨generalRegister context, top, memory⟩) .rbp

def atCall : Cpu :=
  movRsp (savedRegisters.foldl Machine.pushRegister
    (based shape n errorCode top context memory)) .rdi

theorem visits_call (handler : Cpu → Option Cpu) :
    Visits (stubBody handler) (entered shape n errorCode top context memory)
      ⟨atCall shape n errorCode top context memory,
        .callInterruptHandler :: leaveCode, []⟩ := by
  have common : Visits (stubBody handler)
      (entered shape n errorCode top context memory)
      ⟨(baseWords shape n errorCode context).dropLast.foldl Machine.push
        ⟨generalRegister context, top, memory⟩, isrCommon, []⟩ := by
    cases shape with
    | isrNoErr => exact .next (.next (.next .start rfl) rfl) rfl
    | isrErr => exact .next (.next .start rfl) rfl
  rw [isrCommon_eq] at common
  have saves : Visits (stubBody handler)
      (entered shape n errorCode top context memory)
      ⟨based shape n errorCode top context memory, savedRegisters.map .push ++
        .movRsp .rdi :: .callInterruptHandler :: leaveCode, []⟩ :=
    .next (.next common rfl) rfl
  exact .next (visits_pushes savedRegisters saves) rfl

/-- `rbp` is saved first and not pushed again, so the block is one of
interrupted values. -/
theorem atCall_eq : atCall shape n errorCode top context memory =
    movRsp ((savedRegisters.map (generalRegister context)).foldl Machine.push
      (based shape n errorCode top context memory)) .rdi := by
  have values : savedRegisters.map
        (based shape n errorCode top context memory).registers =
      savedRegisters.map (generalRegister context) := by
    apply List.map_congr_left
    intro register member
    have other : register ≠ .rbp := by
      rintro rfl
      revert member
      decide
    rw [based, movRsp_other _ other, Machine.foldl_push_registers]
  rw [atCall, Machine.foldl_pushRegister, values]

theorem stacked_atCall :
    (atCall shape n errorCode top context memory).Stacked
      (frameWords (stubFrame shape n errorCode context)) := by
  have below : (based shape n errorCode top context memory).Stacked
      ((baseWords shape n errorCode context).reverse ++ []) :=
    @Machine.Stacked.pushAll _ ⟨generalRegister context, top, memory⟩ [] trivial
      (baseWords shape n errorCode context) (by simp [baseWords])
  have whole := below.pushAll (savedRegisters.map (generalRegister context))
    (by simp [baseWords, savedRegisters])
  rw [atCall_eq]
  exact whole

theorem atCall_rsp :
    (atCall shape n errorCode top context memory).rsp + 176 = top := by
  have saved := Machine.foldl_push_rsp
    (based shape n errorCode top context memory)
    (savedRegisters.map (generalRegister context))
  have base := Machine.foldl_push_rsp
    (⟨generalRegister context, top, memory⟩ : Cpu)
    (baseWords shape n errorCode context)
  have savedBytes : (savedRegisters.map (generalRegister context)).length = 14 := rfl
  have baseBytes : (baseWords shape n errorCode context).length = 8 := rfl
  have bytes : (176 : UInt64) = UInt64.ofNat (8 * 14) + UInt64.ofNat (8 * 8) := rfl
  rw [savedBytes] at saved
  rw [baseBytes] at base
  rw [atCall_eq, movRsp_rsp, bytes, ← UInt64.add_assoc, saved, based, movRsp_rsp,
    base]

theorem atCall_rdi :
    (atCall shape n errorCode top context memory).registers .rdi =
      (atCall shape n errorCode top context memory).rsp := by
  rw [atCall, movRsp_self, movRsp_rsp]

theorem atCall_frame :
    frameAt (atCall shape n errorCode top context memory).memory
        ((atCall shape n errorCode top context memory).registers .rdi) =
      stubFrame shape n errorCode context := by
  rw [atCall_rdi]
  exact frameAt_of_holds (stacked_atCall shape n errorCode top context memory)

/-- Behind a handler that gives back the frame the stub gives back everything
else. -/
theorem iretq_of_returns (handler : Cpu → Option Cpu) {after : Cpu}
    (returned : Returns handler (atCall shape n errorCode top context memory)
      after) :
    ∃ fuel atIretq, iterate (stubBody handler) fuel
        (entered shape n errorCode top context memory) =
          some (atIretq, [atCall shape n errorCode top context memory]) ∧
      (∀ register, atIretq.registers register = generalRegister context register) ∧
      atIretq.rsp + 40 = top ∧ resumed atIretq = context := by
  have called := visits_call shape n errorCode top context memory handler
  have height := atCall_rsp shape n errorCode top context memory
  have frame := returned.frame.trans
    (atCall_frame shape n errorCode top context memory)
  rw [atCall_rdi] at frame
  have pointer := returned.rsp
  have goesOn := returned.returns
  generalize atCall shape n errorCode top context memory = cpu at *
  have held : after.Stacked
      (frameWords (stubFrame shape n errorCode context)) := by
    rw [Machine.Stacked, pointer, ← frame]
    exact holds_frameAt _ _
  obtain ⟨left, rsp, -, registers⟩ :=
    Machine.Stacked.popAll restoredRegisters (generalRegister context) held
  have behind : Visits (stubBody handler)
      (entered shape n errorCode top context memory)
      ⟨after, leaveCode, [cpu]⟩ :=
    .next called (by simp [stubBody, goesOn])
  have pops := visits_pops restoredRegisters behind
  generalize restoredRegisters.foldl Machine.popRegister after = popped at *
  have restored : ∀ register,
      popped.registers register = generalRegister context register := by
    intro register
    rw [registers]
    exact if_pos (by cases register <;> decide)
  have last : stubBody handler ⟨addRsp popped 16, [.iretq], [cpu]⟩ =
      some (.inr (addRsp popped 16, [cpu])) := rfl
  obtain ⟨total, ends⟩ := iterate_of_visits (.next pops rfl) (iterate_stop 0 last)
  refine ⟨total, addRsp popped 16, ends, restored, ?_, ?_⟩
  · have words : UInt64.ofNat (8 * restoredRegisters.length) = 120 := rfl
    have bytes : (176 : UInt64) = 120 + (16 + 40) := rfl
    rw [addRsp_rsp, rsp, pointer, words, ← height, bytes, UInt64.add_assoc,
      UInt64.add_assoc]
  · apply @resumed_of_holds (addRsp popped 16) context restored
    have twoWords : (16 : UInt64) = 8 + 8 := rfl
    rw [addRsp_rsp, twoWords, ← UInt64.add_assoc]
    exact left.2.2

theorem atCall_aligned (aligned : top.toNat % 16 = 0) :
    (atCall shape n errorCode top context memory).rsp.toNat % 16 = 0 := by
  have height := congrArg UInt64.toNat
    (atCall_rsp shape n errorCode top context memory)
  have bytes : (176 : UInt64).toNat = 176 := rfl
  rw [UInt64.toNat_add, bytes] at height
  omega

/-- A stub calls `interrupt_handler` with a frame of the interrupted state, its
own number and the error code, on a stack as aligned as it was.  When this call
returns the frame and the stack pointer as they were, `iretq` is executed after
it, with every register restored, at the saved `rip`, and resumes the
interrupted state. -/
theorem stub_transparent (handler : Cpu → Option Cpu) :
    ∃ cpu rest,
      Visits (stubBody handler) (entered shape n errorCode top context memory)
        ⟨cpu, .callInterruptHandler :: rest, []⟩ ∧
      frameAt cpu.memory (cpu.registers .rdi) =
        { context with vector := n, errorCode := shape.errorCode errorCode } ∧
      (top.toNat % 16 = 0 → cpu.rsp.toNat % 16 = 0) ∧
      ∀ after, Returns handler cpu after → ∃ fuel atIretq,
        iterate (stubBody handler) fuel
          (entered shape n errorCode top context memory) =
            some (atIretq, [cpu]) ∧
        (∀ register,
          atIretq.registers register = generalRegister context register) ∧
        atIretq.rsp + 40 = top ∧ resumed atIretq = context :=
  ⟨atCall shape n errorCode top context memory, leaveCode,
    visits_call shape n errorCode top context memory handler,
    atCall_frame shape n errorCode top context memory,
    atCall_aligned shape n errorCode top context memory,
    fun _ returned =>
      iretq_of_returns shape n errorCode top context memory handler returned⟩

end Stub

/-- What compiled code does to the registers that a caller has to save. -/
def clobberCallerSaved (cpu : Cpu) : Option Cpu :=
  some { cpu with
    registers := fun register =>
      if register ∈ [.rax, .rcx, .rdx, .rsi, .rdi, .r8, .r9, .r10, .r11] then 0
      else cpu.registers register }

def countedContext : Context :=
  ⟨1, 2, 3, 4, 5, 6, 7, 8, 9, 10, 11, 12, 13, 14, 15, 0xFFFFFFFF80001234, 8,
    0x202, 0xFFFF800000007FF8, 0x10⟩

theorem stub_transparent_pageFault :
    ∃ fuel atIretq calls, iterate (stubBody clobberCallerSaved) fuel
        (entered .isrErr 14 2 0xFFFF800000007FF0 countedContext fun _ => 0) =
          some (atIretq, calls) ∧
      resumed atIretq = countedContext := by
  obtain ⟨cpu, rest, -, -, -, leaves⟩ := stub_transparent .isrErr 14 2
    0xFFFF800000007FF0 countedContext (fun _ => 0) clobberCallerSaved
  obtain ⟨fuel, atIretq, ends, -, -, whole⟩ := leaves _ ⟨rfl, rfl, rfl⟩
  exact ⟨fuel, atIretq, [cpu], ends, whole⟩

/-! ## The stubs of the kernel -/

def isrShape : Isr → Shape
  | .isr0 => .isrNoErr
  | .isr1 => .isrNoErr
  | .isr6 => .isrNoErr
  | .isr8 => .isrErr
  | .isr13 => .isrErr
  | .isr14 => .isrErr
  | .isr32 => .isrNoErr
  | .isr33 => .isrNoErr
  | .isr39 => .isrNoErr

/-- Each stub passes on the frame that the handling of interrupts starts
from. -/
theorem isr_calls_with_frameOf (isr : Isr) (top : UInt64) (context : Context)
    (memory : Memory) (handler : Cpu → Option Cpu) :
    ∃ cpu rest,
      Visits (stubBody handler)
        (entered (isrShape isr) isr.vector 0 top context memory)
        ⟨cpu, .callInterruptHandler :: rest, []⟩ ∧
      frameAt cpu.memory (cpu.registers .rdi) = frameOf isr context := by
  have noError : stubFrame (isrShape isr) isr.vector 0 context =
      frameOf isr context := by
    cases isr <;> rfl
  rw [← noError]
  exact ⟨_, _, visits_call (isrShape isr) isr.vector 0 top context memory handler,
    atCall_frame (isrShape isr) isr.vector 0 top context memory⟩

end Lumie.Stubs
