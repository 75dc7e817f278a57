import Lumie.Arch.Stubs
import Lumie.Base.ByteMemory

/-!
# The global descriptor table

`gdt_init` writes three descriptors and their pointer to memory, and `gdt_load`
makes the processor use them.  The only way to a new code segment is a far
return, for which the selector and the address of the next instruction are
pushed; behind it the data segments are loaded and the near return goes back.
The processor is at privilege level 0.
-/

set_option autoImplicit false

namespace Lumie.Gdt

open WordStack ByteMemory
open Lumie.Idt Lumie.Stubs

structure GdtEntry where
  limitLow : UInt16
  baseLow : UInt16
  baseMiddle : UInt8
  access : UInt8
  granularity : UInt8
  baseHigh : UInt8

def bytes16 (value : UInt16) : List UInt8 :=
  [value.toUInt8, (value >>> 8).toUInt8]

/-- `struct gdt_entry` is packed. -/
def GdtEntry.bytes (entry : GdtEntry) : List UInt8 :=
  bytes16 entry.limitLow ++ bytes16 entry.baseLow ++
    [entry.baseMiddle, entry.access, entry.granularity, entry.baseHigh]

def nullEntry : GdtEntry := ⟨0, 0, 0, 0, 0, 0⟩

def codeEntry : GdtEntry := ⟨0, 0, 0, 0x9A, 0x20, 0⟩

def dataEntry : GdtEntry := ⟨0, 0, 0, 0x92, 0x00, 0⟩

/-- `(sizeof(struct gdt_entry) * 3) - 1` -/
def gdtLimit : UInt16 := 8 * 3 - 1

/-- Where the linker has put `gdt`, `gdt_ptr`, the label `.reload_segments` and
the instruction behind the call of `gdt_load`. -/
structure Addresses where
  gdt : UInt64
  gdtPtr : UInt64
  reloadSegments : UInt64
  back : UInt64

/-- The assignments of `gdt_init`. -/
def writeTables (addresses : Addresses) (memory : Memory) : Memory :=
  let first := storeBytes memory addresses.gdt nullEntry.bytes
  let second := storeBytes first (addresses.gdt + 8) codeEntry.bytes
  let third := storeBytes second (addresses.gdt + 16) dataEntry.bytes
  let limit := storeBytes third addresses.gdtPtr (bytes16 gdtLimit)
  storeBytes limit (addresses.gdtPtr + 2) (bytesOf addresses.gdt)

def gdtBytes : List UInt8 := nullEntry.bytes ++ codeEntry.bytes ++ dataEntry.bytes

def gdtPtrBytes (base : UInt64) : List UInt8 := bytes16 gdtLimit ++ bytesOf base

/-! ## Segments -/

structure Gdtr where
  limit : Nat
  base : UInt64
  deriving DecidableEq, Repr

def lgdt (memory : Memory) (pointer : UInt64) : Gdtr where
  limit := (memory pointer).toNat + 256 * (memory (pointer + 1)).toNat
  base := load64 memory (pointer + 2)

structure Descriptor where
  access : UInt8
  flags : UInt8
  deriving DecidableEq, Repr

/-- The descriptor a selector names, when its table bit is clear and all of it
is inside the limit. -/
def fetch (memory : Memory) (gdtr : Gdtr) (selector : UInt16) :
    Option Descriptor :=
  let offset := 8 * (selector.toNat / 8)
  if selector &&& 4 = 0 ∧ offset + 7 ≤ gdtr.limit then
    some ⟨memory (gdtr.base + UInt64.ofNat (offset + 5)),
      memory (gdtr.base + UInt64.ofNat (offset + 6))⟩
  else none

def Descriptor.usable (descriptor : Descriptor) : Bool :=
  descriptor.access &&& 0xF0 == 0x90

def Descriptor.isCode (descriptor : Descriptor) : Bool :=
  descriptor.usable && descriptor.access &&& 0x08 != 0

def Descriptor.isWritableData (descriptor : Descriptor) : Bool :=
  descriptor.usable && descriptor.access &&& 0x0A == 0x02

def Descriptor.is64Bit (descriptor : Descriptor) : Bool :=
  descriptor.flags &&& 0x60 == 0x20

inductive Seg where
  | cs | ds | es | fs | gs | ss
  deriving DecidableEq, Repr

structure Processor where
  cpu : Cpu
  gdtr : Gdtr
  segment : Seg → UInt16
  /-- The code segment is one of 64 bits. -/
  long : Bool

def Processor.setSegment (processor : Processor) (seg : Seg)
    (selector : UInt16) : Processor :=
  { processor with segment := Function.update processor.segment seg selector }

/-- Loading a data segment with a selector of privilege level 0; the exception
is `none`.  Only writable segments are accepted, which `ss` needs. -/
def Processor.loadData (processor : Processor) (seg : Seg)
    (selector : UInt16) : Option Processor := do
  let descriptor ← fetch processor.cpu.memory processor.gdtr selector
  if selector &&& 3 = 0 ∧ descriptor.isWritableData then
    some (processor.setSegment seg selector)
  else none

/-! ## The code -/

inductive Instr where
  /-- `lgdt [register]` -/
  | lgdt (register : Reg)
  | pushImm (value : UInt64)
  /-- `lea register, [rel .reload_segments]` -/
  | lea (register : Reg)
  | push (register : Reg)
  | retfq
  /-- `mov ax, value` -/
  | movAx (value : UInt16)
  /-- `mov seg, ax` -/
  | movSeg (seg : Seg)
  | ret
  deriving DecidableEq, Repr

def reloadSegments : List Instr :=
  [.movAx 0x10, .movSeg .ds, .movSeg .es, .movSeg .fs, .movSeg .gs, .movSeg .ss,
    .ret]

def gdtLoad : List Instr :=
  [.lgdt .rdi, .pushImm 0x08, .lea .rax, .push .rax, .retfq] ++ reloadSegments

def setRegister (cpu : Cpu) (register : Reg) (value : UInt64) : Cpu :=
  { cpu with registers := Function.update cpu.registers register value }

@[simp] theorem setRegister_self (cpu : Cpu) (register : Reg) (value : UInt64) :
    (setRegister cpu register value).registers register = value := by
  simp [setRegister]

theorem setRegister_other (cpu : Cpu) {register other : Reg}
    (different : other ≠ register) (value : UInt64) :
    (setRegister cpu register value).registers other = cpu.registers other := by
  simp [setRegister, different]

def withAx (rax : UInt64) (value : UInt16) : UInt64 :=
  UInt64.ofNat (rax.toNat / 2 ^ 16 * 2 ^ 16 + value.toNat)

/-- The far return to a segment of the same privilege level.  Both size bits
together are not allowed. -/
def retfq (processor : Processor) : Option (Processor × UInt64) := do
  let cpu := processor.cpu
  let selector := (load64 cpu.memory (cpu.rsp + 8)).toUInt16
  let descriptor ← fetch cpu.memory processor.gdtr selector
  if 8 ≤ selector.toNat ∧ selector &&& 3 = 0 ∧ descriptor.isCode ∧
      descriptor.flags &&& 0x60 ≠ 0x60 then
    some ({ processor.setSegment .cs selector with
      cpu := { cpu with rsp := cpu.rsp + 16 }
      long := descriptor.is64Bit }, load64 cpu.memory cpu.rsp)
  else none

/-- The code up to its near return: the processor then and where it goes on.
The label `.reload_segments` stands behind `retfq`; `none` is an exception or a
jump to somewhere else. -/
def runCode (reload : UInt64) :
    List Instr → Processor → Option (Processor × UInt64)
  | [], _ => none
  | .lgdt register :: rest, processor =>
      runCode reload rest { processor with
        gdtr := lgdt processor.cpu.memory (processor.cpu.registers register) }
  | .pushImm value :: rest, processor =>
      runCode reload rest { processor with cpu := processor.cpu.push value }
  | .lea register :: rest, processor =>
      runCode reload rest
        { processor with cpu := setRegister processor.cpu register reload }
  | .push register :: rest, processor =>
      runCode reload rest
        { processor with cpu := processor.cpu.pushRegister register }
  | .retfq :: rest, processor => do
      let (after, target) ← retfq processor
      if target = reload then runCode reload rest after else none
  | .movAx value :: rest, processor =>
      runCode reload rest { processor with
        cpu := setRegister processor.cpu .rax
          (withAx (processor.cpu.registers .rax) value) }
  | .movSeg seg :: rest, processor => do
      let after ← processor.loadData seg (processor.cpu.registers .rax).toUInt16
      runCode reload rest after
  | .ret :: _, processor =>
      some ({ processor with
        cpu := { processor.cpu with rsp := processor.cpu.rsp + 8 } },
        load64 processor.cpu.memory processor.cpu.rsp)

/-- `gdt_init` up to its message: the tables, the argument in `rdi` and the
call. -/
def gdtInit (addresses : Addresses) (processor : Processor) :
    Option (Processor × UInt64) :=
  let written : Cpu :=
    { processor.cpu with memory := writeTables addresses processor.cpu.memory }
  let called := (setRegister written .rdi addresses.gdtPtr).push addresses.back
  runCode addresses.reloadSegments gdtLoad { processor with cpu := called }

theorem writeTables_eq (addresses : Addresses) (memory : Memory) :
    writeTables addresses memory =
      storeBytes (storeBytes memory addresses.gdt gdtBytes) addresses.gdtPtr
        (gdtPtrBytes addresses.gdt) := by
  have tail : (bytesOf addresses.gdt).length = 8 := bytesOf_length _
  have two := storeBytes_append memory addresses.gdt nullEntry.bytes
    codeEntry.bytes (by decide)
  have three := storeBytes_append memory addresses.gdt
    (nullEntry.bytes ++ codeEntry.bytes) dataEntry.bytes (by decide)
  have pointer := storeBytes_append
    (storeBytes memory addresses.gdt gdtBytes) addresses.gdtPtr
    (bytes16 gdtLimit) (bytesOf addresses.gdt) (by
      rw [tail]
      decide)
  rw [gdtPtrBytes, ← pointer]
  rw [← two] at three
  rw [gdtBytes, ← three]
  rfl

theorem gdtPtrBytes_length (base : UInt64) : (gdtPtrBytes base).length = 10 := by
  rw [gdtPtrBytes, List.length_append, bytesOf_length]
  rfl

theorem lgdt_of_holds {memory : Memory} {pointer base : UInt64}
    (holds : HoldsBytes memory pointer (gdtPtrBytes base)) :
    lgdt memory pointer = ⟨23, base⟩ := by
  obtain ⟨limit, word⟩ := holdsBytes_append.mp holds
  have low := limit 0 (by decide)
  have high := limit 1 (by decide)
  have first : pointer + UInt64.ofNat 0 = pointer := UInt64.add_zero pointer
  rw [first] at low
  have loaded : load64 memory (pointer + 2) = base := load64_of_holds word
  rw [lgdt, low, loaded]
  change Gdtr.mk (_ + 256 * (memory (pointer + UInt64.ofNat 1)).toNat) base = _
  rw [high]
  rfl

theorem fetch_of_holds {memory : Memory} {base : UInt64}
    (holds : HoldsBytes memory base gdtBytes) :
    fetch memory ⟨23, base⟩ 0x08 = some ⟨0x9A, 0x20⟩ ∧
      fetch memory ⟨23, base⟩ 0x10 = some ⟨0x92, 0x00⟩ := by
  have codeAccess := holds 13 (by decide)
  have codeFlags := holds 14 (by decide)
  have dataAccess := holds 21 (by decide)
  have dataFlags := holds 22 (by decide)
  have inLimit : ∀ offset, offset ≤ 23 → offset ≤ (Gdtr.mk 23 base).limit :=
    fun _ bound => bound
  constructor
  · rw [fetch, if_pos ⟨rfl, inLimit _ (by decide)⟩]
    change some (Descriptor.mk (memory (base + UInt64.ofNat 13))
      (memory (base + UInt64.ofNat 14))) = _
    rw [codeAccess, codeFlags]
    rfl
  · rw [fetch, if_pos ⟨rfl, inLimit _ (by decide)⟩]
    change some (Descriptor.mk (memory (base + UInt64.ofNat 21))
      (memory (base + UInt64.ofNat 22))) = _
    rw [dataAccess, dataFlags]
    rfl

/-! ## The run -/

theorem withAx_selector (rax : UInt64) (value : UInt16) :
    (withAx rax value).toUInt16 = value := by
  apply UInt16.toNat_inj.mp
  have low := value.toNat_lt
  rw [withAx, UInt64.toNat_toUInt16, UInt64.toNat_ofNat']
  omega

theorem loadData_of_fetch {processor : Processor}
    (fetched : fetch processor.cpu.memory processor.gdtr 0x10 =
      some ⟨0x92, 0x00⟩) (seg : Seg) :
    processor.loadData seg 0x10 = some (processor.setSegment seg 0x10) := by
  have accepted : (0x10 : UInt16) &&& 3 = 0 ∧
      (Descriptor.mk 0x92 0x00).isWritableData := by decide
  simp only [Processor.loadData, fetched, Option.bind_eq_bind, Option.bind_some,
    if_pos accepted]

theorem retfq_of_stacked {processor : Processor} {target : UInt64}
    (stacked : processor.cpu.Stacked [target, 0x08])
    (fetched : fetch processor.cpu.memory processor.gdtr 0x08 =
      some ⟨0x9A, 0x20⟩) :
    retfq processor =
      some ({ processor.setSegment .cs 0x08 with
        cpu := { processor.cpu with rsp := processor.cpu.rsp + 16 }
        long := true }, target) := by
  obtain ⟨top, selector, -⟩ := stacked
  have code : (0x08 : UInt64).toUInt16 = 0x08 := rfl
  have accepted : 8 ≤ (0x08 : UInt16).toNat ∧ (0x08 : UInt16) &&& 3 = 0 ∧
      (Descriptor.mk 0x9A 0x20).isCode ∧
      (Descriptor.mk 0x9A 0x20).flags &&& 0x60 ≠ 0x60 := by decide
  simp only [retfq, selector, top, code, fetched, Option.bind_eq_bind,
    Option.bind_some, if_pos accepted]
  rfl

structure Reloaded (before : Processor) (base : UInt64) (after : Processor) :
    Prop where
  rsp : after.cpu.rsp = before.cpu.rsp + 8
  registers : ∀ register ≠ .rax,
    after.cpu.registers register = before.cpu.registers register
  memory : ∀ byte, 16 ≤ (byte - (before.cpu.rsp - 16)).toNat →
    after.cpu.memory byte = before.cpu.memory byte
  gdtr : after.gdtr = ⟨23, base⟩
  segment : ∀ seg, after.segment seg = if seg = .cs then 0x08 else 0x10
  long : after.long = true

section Run

variable (reload : UInt64)

theorem runCode_movSegs (segs : List Seg) {rest : List Instr}
    {processor : Processor}
    (ax : (processor.cpu.registers .rax).toUInt16 = 0x10)
    (fetched : fetch processor.cpu.memory processor.gdtr 0x10 =
      some ⟨0x92, 0x00⟩) :
    runCode reload (segs.map .movSeg ++ rest) processor =
      runCode reload rest
        (segs.foldl (fun loaded seg => loaded.setSegment seg 0x10) processor) := by
  induction segs generalizing processor with
  | nil => rfl
  | cons seg others ih =>
      have loads := loadData_of_fetch fetched seg
      rw [List.map_cons, List.cons_append, runCode, ax, loads, List.foldl_cons]
      exact ih ax fetched

theorem foldl_setSegment (segs : List Seg) (processor : Processor) :
    segs.foldl (fun loaded seg => loaded.setSegment seg 0x10) processor =
      { processor with segment := fun seg =>
          if seg ∈ segs then 0x10 else processor.segment seg } := by
  induction segs generalizing processor with
  | nil => rfl
  | cons seg others ih =>
      rw [List.foldl_cons, ih]
      simp only [Processor.setSegment, Processor.mk.injEq, true_and, and_true]
      funext other
      by_cases later : other ∈ others
      · rw [if_pos later, if_pos (List.mem_cons_of_mem _ later)]
      · rw [if_neg later, Function.update_apply]
        simp only [List.mem_cons, later, or_false]

theorem reloadSegments_runs {processor : Processor} {back : UInt64}
    (stacked : processor.cpu.Stacked [back])
    (fetched : fetch processor.cpu.memory processor.gdtr 0x10 =
      some ⟨0x92, 0x00⟩) :
    runCode reload reloadSegments processor =
      some (⟨⟨Function.update processor.cpu.registers .rax
          (withAx (processor.cpu.registers .rax) 0x10),
          processor.cpu.rsp + 8, processor.cpu.memory⟩, processor.gdtr,
        fun seg => if seg ∈ [.ds, .es, .fs, .gs, .ss] then 0x10
          else processor.segment seg, processor.long⟩, back) := by
  have top : load64 processor.cpu.memory processor.cpu.rsp = back := stacked.1
  have code : reloadSegments =
      .movAx 0x10 :: ([Seg.ds, .es, .fs, .gs, .ss].map .movSeg ++ [.ret]) := rfl
  have ax : ((setRegister processor.cpu .rax
      (withAx (processor.cpu.registers .rax) 0x10)).registers .rax).toUInt16 =
        0x10 := by
    rw [setRegister_self, withAx_selector]
  have loads := @runCode_movSegs reload [.ds, .es, .fs, .gs, .ss] [.ret]
    ⟨setRegister processor.cpu .rax (withAx (processor.cpu.registers .rax) 0x10),
      processor.gdtr, processor.segment, processor.long⟩ ax fetched
  rw [code, runCode, loads, foldl_setSegment, runCode]
  simp only [setRegister, top]

def pushedFar (cpu : Cpu) : Cpu :=
  (setRegister (cpu.push 0x08) .rax reload).push reload

section Pushed

variable {cpu : Cpu}

theorem pushedFar_rsp : (pushedFar reload cpu).rsp = cpu.rsp - 16 := by
  change cpu.rsp - 8 - 8 = cpu.rsp - 16
  apply UInt64.toNat_inj.mp
  have low := cpu.rsp.toNat_lt
  simp only [UInt64.toNat_sub, UInt64.reduceToNat]
  omega

theorem pushedFar_registers {register : Reg} (other : register ≠ .rax) :
    (pushedFar reload cpu).registers register = cpu.registers register :=
  setRegister_other _ other _

theorem pushedFar_stacked {back : UInt64} (stacked : cpu.Stacked [back]) :
    (pushedFar reload cpu).Stacked [reload, 0x08, back] := by
  have once : (setRegister (cpu.push 0x08) .rax reload).Stacked [0x08, back] :=
    stacked.push 0x08 (show 8 * (1 + 1) ≤ 2 ^ 64 by decide)
  exact once.push reload (show 8 * (2 + 1) ≤ 2 ^ 64 by decide)

theorem pushedFar_memory (cpu : Cpu) :
    (pushedFar reload cpu).memory =
      store64 (store64 cpu.memory (cpu.rsp - 16 + UInt64.ofNat 8) 0x08)
        (cpu.rsp - 16) reload := by
  have upper : cpu.rsp - 16 + UInt64.ofNat 8 = cpu.rsp - 8 := by
    apply UInt64.toNat_inj.mp
    have low := cpu.rsp.toNat_lt
    simp only [UInt64.toNat_sub, UInt64.toNat_add, UInt64.reduceToNat,
      UInt64.reduceOfNat]
    omega
  rw [upper, ← @pushedFar_rsp reload cpu]
  rfl

theorem pushedFar_outside {byte : UInt64}
    (outside : 16 ≤ (byte - (cpu.rsp - 16)).toNat) :
    (pushedFar reload cpu).memory byte = cpu.memory byte := by
  have upper : 8 ≤ (byte - (cpu.rsp - 16 + UInt64.ofNat 8)).toNat := by
    generalize cpu.rsp - 16 = bottom at outside
    have low := bottom.toNat_lt
    have byteLow := byte.toNat_lt
    simp only [UInt64.toNat_sub, UInt64.toNat_add, UInt64.reduceToNat,
      UInt64.reduceOfNat] at outside ⊢
    omega
  rw [pushedFar_memory, store64_outside (Nat.le_trans (by decide) outside),
    store64_outside upper]

theorem pushedFar_holds {held : List UInt8} {place : UInt64}
    (holds : HoldsBytes cpu.memory place held)
    (apart : Apart (cpu.rsp - 16) 16 place held.length) :
    HoldsBytes (pushedFar reload cpu).memory place held := by
  intro k inside
  rw [pushedFar_outside reload (apart.offset inside)]
  exact holds k inside

end Pushed

theorem gdtLoad_retfq {processor : Processor} {base : UInt64}
    (pointer : HoldsBytes processor.cpu.memory (processor.cpu.registers .rdi)
      (gdtPtrBytes base)) :
    runCode reload gdtLoad processor =
      runCode reload (.retfq :: reloadSegments)
        ⟨pushedFar reload processor.cpu, ⟨23, base⟩, processor.segment,
          processor.long⟩ := by
  have selected : (setRegister (processor.cpu.push 0x08) .rax reload).pushRegister
      .rax = pushedFar reload processor.cpu := by
    rw [Machine.pushRegister, setRegister_self]
    rfl
  simp only [gdtLoad, List.cons_append, List.nil_append]
  rw [runCode, runCode, runCode, runCode, selected, lgdt_of_holds pointer]

/-- The far return goes to the label, in the new code segment. -/
theorem retfq_reload {cpu : Cpu} {base back : UInt64} (segment : Seg → UInt16)
    (long : Bool) (far : cpu.Stacked [reload, 0x08, back])
    (table : HoldsBytes cpu.memory base gdtBytes) :
    runCode reload (.retfq :: reloadSegments) ⟨cpu, ⟨23, base⟩, segment, long⟩ =
      runCode reload reloadSegments
        ⟨{ cpu with rsp := cpu.rsp + 16 }, ⟨23, base⟩,
          Function.update segment .cs 0x08, true⟩ := by
  have landed := @retfq_of_stacked ⟨cpu, ⟨23, base⟩, segment, long⟩ reload
    ⟨far.1, far.2.1, trivial⟩ (fetch_of_holds table).1
  rw [runCode, landed]
  simp only [Option.bind_eq_bind, Option.bind_some, if_true]
  rfl

/-- `gdt_load` returns to its caller with the table in use. -/
theorem gdtLoad_runs {processor : Processor} {base back : UInt64}
    (pointer : HoldsBytes processor.cpu.memory (processor.cpu.registers .rdi)
      (gdtPtrBytes base))
    (table : HoldsBytes processor.cpu.memory base gdtBytes)
    (stacked : processor.cpu.Stacked [back])
    (apart : Apart (processor.cpu.rsp - 16) 16 base 24) :
    ∃ after, runCode reload gdtLoad processor = some (after, back) ∧
      Reloaded processor base after := by
  have far := pushedFar_stacked reload stacked
  have kept := pushedFar_holds reload table apart
  have onTop : ({ pushedFar reload processor.cpu with
      rsp := (pushedFar reload processor.cpu).rsp + 16 } : Cpu).Stacked [back] := by
    have top := far.2.2
    rw [UInt64.add_assoc] at top
    exact top
  have loads := @reloadSegments_runs reload
    ⟨_, ⟨23, base⟩, Function.update processor.segment .cs 0x08, true⟩ back onTop
    (fetch_of_holds kept).2
  have reaches := (gdtLoad_retfq reload pointer).trans
    ((retfq_reload reload processor.segment processor.long far kept).trans loads)
  refine ⟨_, reaches, ?_, ?_, ?_, rfl, ?_, rfl⟩
  · change (pushedFar reload processor.cpu).rsp + 16 + 8 = processor.cpu.rsp + 8
    rw [pushedFar_rsp, UInt64.sub_add_cancel]
  · intro register other
    exact (Function.update_of_ne other _ _).trans
      (pushedFar_registers reload other)
  · intro byte outside
    exact pushedFar_outside reload outside
  · intro seg
    cases seg <;> simp

end Run

/-! ## `gdt_init` -/

structure Separate (addresses : Addresses) (rsp : UInt64) : Prop where
  tables : Apart addresses.gdt 24 addresses.gdtPtr 10
  stackTable : Apart (rsp - 24) 24 addresses.gdt 24
  stackPointer : Apart (rsp - 24) 24 addresses.gdtPtr 10

def Untouched (addresses : Addresses) (rsp byte : UInt64) : Prop :=
  24 ≤ (byte - addresses.gdt).toNat ∧ 10 ≤ (byte - addresses.gdtPtr).toNat ∧
    24 ≤ (byte - (rsp - 24)).toNat

def calledLoad (addresses : Addresses) (cpu : Cpu) : Cpu :=
  (setRegister { cpu with memory := writeTables addresses cpu.memory } .rdi
    addresses.gdtPtr).push addresses.back

section Init

variable {addresses : Addresses} {cpu : Cpu}

theorem calledLoad_stacked : (calledLoad addresses cpu).Stacked [addresses.back] := by
  have nothing : (setRegister { cpu with
      memory := writeTables addresses cpu.memory } .rdi addresses.gdtPtr).Stacked
        [] := trivial
  exact nothing.push addresses.back (show 8 * (0 + 1) ≤ 2 ^ 64 by decide)

theorem calledLoad_memory (addresses : Addresses) (cpu : Cpu) :
    (calledLoad addresses cpu).memory =
      store64 (writeTables addresses cpu.memory)
        (cpu.rsp - 24 + UInt64.ofNat 16) addresses.back := by
  have top : cpu.rsp - 24 + UInt64.ofNat 16 = cpu.rsp - 8 := by
    apply UInt64.toNat_inj.mp
    have low := cpu.rsp.toNat_lt
    simp only [UInt64.toNat_sub, UInt64.toNat_add, UInt64.reduceToNat,
      UInt64.reduceOfNat]
    omega
  rw [top]
  rfl

theorem calledLoad_rsp (addresses : Addresses) (cpu : Cpu) :
    (calledLoad addresses cpu).rsp - 16 = cpu.rsp - 24 := by
  change cpu.rsp - 8 - 16 = cpu.rsp - 24
  apply UInt64.toNat_inj.mp
  have low := cpu.rsp.toNat_lt
  simp only [UInt64.toNat_sub, UInt64.reduceToNat]
  omega

theorem calledLoad_table (separate : Separate addresses cpu.rsp) :
    HoldsBytes (calledLoad addresses cpu).memory addresses.gdt gdtBytes := by
  have written : HoldsBytes (storeBytes cpu.memory addresses.gdt gdtBytes)
      addresses.gdt gdtBytes := storeBytes_holds _ _ (by decide)
  have pointer : Apart addresses.gdtPtr (gdtPtrBytes addresses.gdt).length
      addresses.gdt gdtBytes.length := by
    rw [gdtPtrBytes_length]
    exact separate.tables.symm
  rw [calledLoad_memory, writeTables_eq]
  exact (written.storeBytes pointer).store64 _
    (separate.stackTable.part (by decide) (by decide))

theorem calledLoad_pointer (separate : Separate addresses cpu.rsp) :
    HoldsBytes (calledLoad addresses cpu).memory addresses.gdtPtr
      (gdtPtrBytes addresses.gdt) := by
  have length := gdtPtrBytes_length addresses.gdt
  have stack : Apart (cpu.rsp - 24 + UInt64.ofNat 16) 8 addresses.gdtPtr
      (gdtPtrBytes addresses.gdt).length := by
    rw [length]
    exact separate.stackPointer.part (by decide) (by decide)
  have fits : (gdtPtrBytes addresses.gdt).length ≤ 2 ^ 64 := by
    rw [length]
    decide
  rw [calledLoad_memory, writeTables_eq]
  exact (storeBytes_holds _ addresses.gdtPtr fits).store64 _ stack

theorem calledLoad_untouched {byte : UInt64}
    (untouched : Untouched addresses cpu.rsp byte) :
    (calledLoad addresses cpu).memory byte = cpu.memory byte := by
  obtain ⟨table, pointer, stack⟩ := untouched
  have word : 8 ≤ (byte - (cpu.rsp - 24 + UInt64.ofNat 16)).toNat := by
    generalize cpu.rsp - 24 = bottom at stack
    have low := bottom.toNat_lt
    have byteLow := byte.toNat_lt
    simp only [UInt64.toNat_sub, UInt64.toNat_add, UInt64.reduceToNat,
      UInt64.reduceOfNat] at stack ⊢
    omega
  have behind : (gdtPtrBytes addresses.gdt).length ≤
      (byte - addresses.gdtPtr).toNat := by
    rw [gdtPtrBytes_length]
    exact pointer
  rw [calledLoad_memory, writeTables_eq, store64_outside word,
    storeBytes_outside behind]
  exact storeBytes_outside table

end Init

theorem present_kernelCs {image : Image} {vector : UInt8}
    (present : (idtInit image noEntries vector).Present) :
    (idtInit image noEntries vector).kernelCs = 0x08 := by
  have distinct : (gates.map Prod.fst).Nodup := by decide
  have entry := setGates_entry image gates distinct noEntries vector
  rw [idtInit, entry] at present ⊢
  cases found : gates.lookup vector with
  | some isr => rfl
  | none =>
      have absent : ¬ (noEntries vector).Present :=
        (by decide : ¬ (0 : UInt8) &&& 0x80 ≠ 0)
      rw [found] at present
      exact absurd present absent

/-- `gdt_init` comes back on its own code segment with its table in use, and
every gate that `idt_init` installs names that segment. -/
theorem gdtInit_loads (addresses : Addresses) (processor : Processor)
    (separate : Separate addresses processor.cpu.rsp) :
    ∃ after, gdtInit addresses processor = some (after, addresses.back) ∧
      after.cpu.rsp = processor.cpu.rsp ∧
      (∀ register, register ≠ .rax → register ≠ .rdi →
        after.cpu.registers register = processor.cpu.registers register) ∧
      (∀ byte, Untouched addresses processor.cpu.rsp byte →
        after.cpu.memory byte = processor.cpu.memory byte) ∧
      HoldsBytes after.cpu.memory addresses.gdt gdtBytes ∧
      after.gdtr = ⟨23, addresses.gdt⟩ ∧
      (∀ seg, after.segment seg = if seg = .cs then 0x08 else 0x10) ∧
      after.long = true ∧
      ∀ (image : Image) (vector : UInt8),
        (idtInit image noEntries vector).Present →
          (idtInit image noEntries vector).kernelCs = after.segment .cs ∧
          ∃ descriptor, fetch after.cpu.memory after.gdtr
              (idtInit image noEntries vector).kernelCs = some descriptor ∧
            descriptor.isCode ∧ descriptor.is64Bit := by
  have pointer : HoldsBytes (calledLoad addresses processor.cpu).memory
      ((calledLoad addresses processor.cpu).registers .rdi)
      (gdtPtrBytes addresses.gdt) := by
    have argument : (calledLoad addresses processor.cpu).registers .rdi =
        addresses.gdtPtr :=
      setRegister_self { processor.cpu with
        memory := writeTables addresses processor.cpu.memory } .rdi
        addresses.gdtPtr
    rw [argument]
    exact calledLoad_pointer separate
  have table := calledLoad_table separate
  have apart : Apart ((calledLoad addresses processor.cpu).rsp - 16) 16
      addresses.gdt 24 := by
    have lower := separate.stackTable.part
      (by decide : 0 < 16) (by decide : 0 + 16 ≤ 24)
    rw [calledLoad_rsp]
    rwa [show UInt64.ofNat 0 = 0 from rfl, UInt64.add_zero] at lower
  obtain ⟨after, runs, reloaded⟩ := @gdtLoad_runs addresses.reloadSegments
    { processor with cpu := calledLoad addresses processor.cpu } addresses.gdt
    addresses.back pointer table calledLoad_stacked apart
  have kept : HoldsBytes after.cpu.memory addresses.gdt gdtBytes := by
    intro k inside
    rw [reloaded.memory _ (apart.offset inside)]
    exact table k inside
  refine ⟨after, runs, ?_, ?_, ?_, kept, reloaded.gdtr, reloaded.segment,
    reloaded.long, ?_⟩
  · rw [reloaded.rsp]
    exact UInt64.sub_add_cancel _ _
  · intro register notRax notRdi
    rw [reloaded.registers register notRax]
    exact setRegister_other _ notRdi _
  · intro byte untouched
    have outside : 16 ≤ (byte - ((calledLoad addresses processor.cpu).rsp - 16)).toNat := by
      rw [calledLoad_rsp]
      exact Nat.le_trans (by decide) untouched.2.2
    rw [reloaded.memory byte outside]
    exact calledLoad_untouched untouched
  · intro image vector present
    have names := present_kernelCs present
    have code := reloaded.segment .cs
    rw [if_pos rfl] at code
    refine ⟨names.trans code.symm, ⟨0x9A, 0x20⟩, ?_, rfl, rfl⟩
    rw [names, reloaded.gdtr]
    exact (fetch_of_holds kept).1

def sampleAddresses : Addresses where
  gdt := 0xFFFFFFFF80005000
  gdtPtr := 0xFFFFFFFF80005018
  reloadSegments := 0xFFFFFFFF80001234
  back := 0xFFFFFFFF80000420

def sampleProcessor : Processor where
  cpu := ⟨fun _ => 0, 0xFFFF800000010000, fun _ => 0⟩
  gdtr := ⟨55, 0xFFFF800000001000⟩
  segment := fun seg => if seg = .cs then 0x28 else 0x30
  long := true

theorem gdtInit_loads_sample :
    ∃ after, gdtInit sampleAddresses sampleProcessor =
        some (after, sampleAddresses.back) ∧
      after.cpu.rsp = sampleProcessor.cpu.rsp ∧ after.segment .cs = 0x08 := by
  obtain ⟨after, runs, rsp, -, -, -, -, segment, -⟩ :=
    gdtInit_loads sampleAddresses sampleProcessor
      ⟨⟨by decide, by decide⟩, ⟨by decide, by decide⟩, ⟨by decide, by decide⟩⟩
  exact ⟨after, runs, rsp, segment .cs⟩

end Lumie.Gdt
