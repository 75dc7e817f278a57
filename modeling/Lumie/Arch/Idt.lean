import Mathlib.Tactic

/-!
# The interrupt descriptor table

The entries as `idt_set_descriptor` writes them, the stubs of `interrupts.s` and
the gates that `idt_init` installs.  The processor finds a stub through the
present bit and the three parts of its address; which stub stands behind each
of the 256 vectors is read off the list of gates.
-/

set_option autoImplicit false

namespace Lumie.Idt

structure IdtEntry where
  isrLow : UInt16
  kernelCs : UInt16
  ist : UInt8
  attributes : UInt8
  isrMid : UInt16
  isrHigh : UInt32
  reserved : UInt32
  deriving DecidableEq, Repr

/-- `static struct idt_entry idt[256]` -/
abbrev Table := UInt8 → IdtEntry

def noEntries : Table := fun _ => ⟨0, 0, 0, 0, 0, 0, 0⟩

def descriptor (isr : UInt64) (flags : UInt8) : IdtEntry where
  isrLow := (isr &&& 0xFFFF).toUInt16
  kernelCs := 0x08
  ist := 0
  attributes := flags
  isrMid := ((isr >>> 16) &&& 0xFFFF).toUInt16
  isrHigh := ((isr >>> 32) &&& 0xFFFFFFFF).toUInt32
  reserved := 0

def idtSetDescriptor (idt : Table) (vector : UInt8) (isr : UInt64)
    (flags : UInt8) : Table :=
  Function.update idt vector (descriptor isr flags)

/-- `(uint16_t)sizeof(struct idt_entry) * 256 - 1` -/
def idtLimit : UInt16 := 16 * 256 - 1

namespace IdtEntry

def Present (entry : IdtEntry) : Prop := entry.attributes &&& 0x80 ≠ 0

instance (entry : IdtEntry) : Decidable entry.Present :=
  inferInstanceAs (Decidable (_ ≠ _))

def offset (entry : IdtEntry) : Nat :=
  entry.isrLow.toNat + 2 ^ 16 * entry.isrMid.toNat +
    2 ^ 32 * entry.isrHigh.toNat

end IdtEntry

def gate (idt : Table) (vector : UInt8) : Option Nat :=
  if 16 * vector.toNat + 15 ≤ idtLimit.toNat ∧ (idt vector).Present then
    some (idt vector).offset
  else none

/-! ## The stubs -/

/-- The labels of `interrupts.s`. -/
inductive Isr where
  | isr0
  | isr1
  | isr6
  | isr8
  | isr13
  | isr14
  | isr32
  | isr33
  | isr39
  deriving DecidableEq, Repr

def Isr.all : List Isr :=
  [.isr0, .isr1, .isr6, .isr8, .isr13, .isr14, .isr32, .isr33, .isr39]

def Isr.vector : Isr → UInt64
  | .isr0 => 0
  | .isr1 => 1
  | .isr6 => 6
  | .isr8 => 8
  | .isr13 => 13
  | .isr14 => 14
  | .isr32 => 32
  | .isr33 => 33
  | .isr39 => 39

/-- The linked kernel, with the stubs at addresses of their own. -/
structure Image where
  address : Isr → UInt64
  distinct : Function.Injective address

def Image.stubAt (image : Image) (offset : Nat) : Option Isr :=
  Isr.all.find? (fun isr => (image.address isr).toNat = offset)

def stub (image : Image) (idt : Table) (vector : UInt8) : Option Isr :=
  (gate idt vector).bind image.stubAt

/-- The calls of `idt_set_descriptor` in `idt_init`. -/
def gates : List (UInt8 × Isr) :=
  [(0, .isr0), (1, .isr1), (8, .isr8), (13, .isr13), (14, .isr14),
    (32, .isr32), (33, .isr33), (39, .isr39)]

def setGate (image : Image) (idt : Table) (entry : UInt8 × Isr) : Table :=
  idtSetDescriptor idt entry.1 (image.address entry.2) 0x8E

def idtInit (image : Image) (idt : Table) : Table := gates.foldl (setGate image) idt

/-! ## Which stub stands behind a vector -/

theorem descriptor_offset (isr : UInt64) (flags : UInt8) :
    (descriptor isr flags).offset = isr.toNat := by
  have small := isr.toNat_lt
  have low : (isr &&& 0xFFFF).toUInt16.toNat = isr.toNat % 2 ^ 16 := by
    rw [UInt64.toNat_toUInt16, UInt64.toNat_and]
    change (isr.toNat &&& 2 ^ 16 - 1) % 2 ^ 16 = isr.toNat % 2 ^ 16
    rw [Nat.and_two_pow_sub_one_eq_mod, Nat.mod_mod]
  have mid : ((isr >>> 16) &&& 0xFFFF).toUInt16.toNat =
      isr.toNat / 2 ^ 16 % 2 ^ 16 := by
    rw [UInt64.toNat_toUInt16, UInt64.toNat_and, UInt64.toNat_shiftRight]
    change (isr.toNat >>> 16 &&& 2 ^ 16 - 1) % 2 ^ 16 = _
    rw [Nat.and_two_pow_sub_one_eq_mod, Nat.mod_mod, Nat.shiftRight_eq_div_pow]
  have high : ((isr >>> 32) &&& 0xFFFFFFFF).toUInt32.toNat =
      isr.toNat / 2 ^ 32 % 2 ^ 32 := by
    rw [UInt64.toNat_toUInt32, UInt64.toNat_and, UInt64.toNat_shiftRight]
    change (isr.toNat >>> 32 &&& 2 ^ 32 - 1) % 2 ^ 32 = _
    rw [Nat.and_two_pow_sub_one_eq_mod, Nat.mod_mod, Nat.shiftRight_eq_div_pow]
  simp only [IdtEntry.offset, descriptor, low, mid, high]
  omega

theorem stubAt_address (image : Image) (isr : Isr) :
    image.stubAt (image.address isr).toNat = some isr := by
  have same : ∀ other, (image.address other).toNat = (image.address isr).toNat ↔
      other = isr := by
    intro other
    rw [UInt64.toNat_inj, image.distinct.eq_iff]
  simp only [Image.stubAt, same]
  cases isr <;> decide

section Gates

variable (image : Image)

theorem setGates_entry (entries : List (UInt8 × Isr))
    (distinct : (entries.map Prod.fst).Nodup) (idt : Table) (vector : UInt8) :
    entries.foldl (setGate image) idt vector =
      match entries.lookup vector with
      | some isr => descriptor (image.address isr) 0x8E
      | none => idt vector := by
  induction entries generalizing idt with
  | nil => rfl
  | cons entry rest ih =>
      obtain ⟨key, isr⟩ := entry
      rw [List.map_cons, List.nodup_cons] at distinct
      rw [List.foldl_cons, ih distinct.2, List.lookup_cons]
      by_cases here : vector = key
      · -- no later call sets the same vector
        have last : rest.lookup key = none := by
          rw [List.lookup_eq_none_iff]
          intro later member
          have other : key ≠ later.1 := by
            intro equal
            rw [equal] at distinct
            exact distinct.1 (List.mem_map.mpr ⟨later, member, rfl⟩)
          simpa using other
        subst here
        rw [last, beq_self_eq_true]
        exact Function.update_self vector _ idt
      · have other : (vector == key) = false := by simpa using here
        rw [other]
        cases rest.lookup vector with
        | none => exact Function.update_of_ne here _ idt
        | some found => rfl

theorem descriptor_gate {idt : Table} {vector : UInt8} {isr : UInt64}
    (entry : idt vector = descriptor isr 0x8E) :
    gate idt vector = some isr.toNat := by
  have bound := vector.toNat_lt
  have present : (descriptor isr 0x8E).Present :=
    (by decide : (0x8E : UInt8) &&& 0x80 ≠ 0)
  have inside : 16 * vector.toNat + 15 ≤ idtLimit.toNat := by
    change 16 * vector.toNat + 15 ≤ 4095
    omega
  rw [gate, entry, if_pos ⟨inside, present⟩, descriptor_offset]

theorem noEntry_gate {idt : Table} {vector : UInt8}
    (entry : idt vector = noEntries vector) : gate idt vector = none := by
  have absent : ¬ (noEntries vector).Present :=
    (by decide : ¬ (0 : UInt8) &&& 0x80 ≠ 0)
  rw [gate, entry, if_neg (fun both => absent both.2)]

/-- Behind a vector stands the stub of its gate, and nothing without a gate. -/
theorem idtInit_stub (vector : UInt8) :
    stub image (idtInit image noEntries) vector = gates.lookup vector := by
  have distinct : (gates.map Prod.fst).Nodup := by decide
  have entry := setGates_entry image gates distinct noEntries vector
  cases found : gates.lookup vector with
  | none =>
      rw [found] at entry
      rw [stub, idtInit, noEntry_gate entry]
      rfl
  | some isr =>
      rw [found] at entry
      rw [stub, idtInit, descriptor_gate entry]
      exact stubAt_address image isr

end Gates

end Lumie.Idt
