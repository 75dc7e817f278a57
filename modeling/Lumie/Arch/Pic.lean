import Mathlib.Tactic

/-!
# The interrupt controllers

A pair of 8259 chips as the kernel programs them through the ports 0x20, 0x21,
0xA0 and 0xA1, and `pic_remap`.  A chip has an in-service bit for each line it
has passed on; the bit stays set until the end of the interrupt is signalled
and holds back the lines of the same and of lower priority.
-/

set_option autoImplicit false

namespace Lumie.Pic

/-- What the chip takes the next byte on its data port for. -/
inductive Expects where
  | mask
  | icw2
  | icw3
  | icw4
  deriving DecidableEq, Repr

structure Chip where
  expects : Expects
  single : Bool
  needsIcw4 : Bool
  base : UInt8
  cascade : UInt8
  autoEoi : Bool
  mask : UInt8
  inService : UInt8
  deriving DecidableEq, Repr

namespace Chip

/-- The end of the interrupt of highest priority, the lowest bit set. -/
def endOfInterrupt (chip : Chip) : Chip :=
  { chip with inService := chip.inService &&& (chip.inService - 1) }

/-- A byte on the command port.  Bit 4 starts the initialization; of the other
commands only the one that the kernel gives has an effect here. -/
def command (chip : Chip) (value : UInt8) : Chip :=
  if value &&& 0x10 ≠ 0 then
    { chip with
      expects := .icw2
      single := value &&& 2 ≠ 0
      needsIcw4 := value &&& 1 ≠ 0
      autoEoi := false
      mask := 0
      inService := 0 }
  else if value = 0x20 then chip.endOfInterrupt
  else chip

def data (chip : Chip) (value : UInt8) : Chip :=
  let last : Expects := if chip.needsIcw4 then .icw4 else .mask
  match chip.expects with
  | .icw2 =>
      { chip with
        base := value &&& 0xF8
        expects := if chip.single then last else .icw3 }
  | .icw3 => { chip with cascade := value, expects := last }
  | .icw4 => { chip with autoEoi := value &&& 2 ≠ 0, expects := .mask }
  | .mask => { chip with mask := value }

def bit (line : Nat) : UInt8 := UInt8.ofNat (2 ^ line)

/-- Whether a request on the line is passed on: it is not masked and no line
of the same or a higher priority is in service. -/
def Passes (chip : Chip) (line : Nat) : Prop :=
  chip.mask &&& bit line = 0 ∧ chip.inService &&& (2 * bit line - 1) = 0

instance (chip : Chip) (line : Nat) : Decidable (chip.Passes line) :=
  inferInstanceAs (Decidable (_ ∧ _))

def raise (chip : Chip) (line : Nat) : Chip :=
  if chip.autoEoi then chip
  else { chip with inService := chip.inService ||| bit line }

def vector (chip : Chip) (line : Nat) : UInt8 := chip.base + UInt8.ofNat line

structure Idle (chip : Chip) : Prop where
  open_ : chip.mask = 0
  served : chip.inService = 0

theorem Idle.passes {chip : Chip} (idle : chip.Idle) (line : Nat) :
    chip.Passes line := by
  refine ⟨?_, ?_⟩
  · rw [idle.open_, UInt8.zero_and]
  · rw [idle.served, UInt8.zero_and]

theorem bit_end {line : Nat} (bound : line < 8) :
    bit line &&& (bit line - 1) = 0 := by
  have all : ∀ line : Fin 8, bit line.val &&& (bit line.val - 1) = 0 := by decide
  exact all ⟨line, bound⟩

theorem Idle.raise_command {chip : Chip} (idle : chip.Idle)
    (manual : chip.autoEoi = false) {line : Nat} (bound : line < 8) :
    (chip.raise line).command 0x20 = chip := by
  have raised : chip.raise line = { chip with inService := bit line } := by
    simp [raise, manual, idle.served]
  have ended : (chip.raise line).command 0x20 = (chip.raise line).endOfInterrupt :=
    rfl
  rw [ended, raised, endOfInterrupt]
  simp only [bit_end bound]
  rw [← idle.served]

end Chip

/-- The slave's output is line 2 of the master. -/
structure Pics where
  master : Chip
  slave : Chip
  deriving DecidableEq, Repr

namespace Pics

def outb (pics : Pics) (port : UInt16) (value : UInt8) : Pics :=
  if port = 0x20 then { pics with master := pics.master.command value }
  else if port = 0x21 then { pics with master := pics.master.data value }
  else if port = 0xA0 then { pics with slave := pics.slave.command value }
  else if port = 0xA1 then { pics with slave := pics.slave.data value }
  else pics

def inb (pics : Pics) (port : UInt16) : UInt8 :=
  if port = 0x21 then pics.master.mask else pics.slave.mask

def request (pics : Pics) (line : Fin 16) : Option (UInt8 × Pics) :=
  if line.val < 8 then
    if pics.master.Passes line.val then
      some (pics.master.vector line.val,
        { pics with master := pics.master.raise line.val })
    else none
  else
    if pics.slave.Passes (line.val - 8) ∧ pics.master.Passes 2 then
      some (pics.slave.vector (line.val - 8),
        ⟨pics.master.raise 2, pics.slave.raise (line.val - 8)⟩)
    else none

end Pics

/-- The writes of `pic_remap` in order, `io_wait` included. -/
def remapWrites (a1 a2 : UInt8) : List (UInt16 × UInt8) :=
  [(0x20, 0x11), (0x80, 0), (0xA0, 0x11), (0x80, 0),
    (0x21, 0x20), (0x80, 0), (0xA1, 0x28), (0x80, 0),
    (0x21, 0x04), (0x80, 0), (0xA1, 0x02), (0x80, 0),
    (0x21, 0x01), (0x80, 0), (0xA1, 0x01), (0x80, 0),
    (0x21, a1), (0xA1, a2),
    (0x21, 0x00), (0x80, 0), (0xA1, 0x00), (0x80, 0)]

def picRemap (pics : Pics) : Pics :=
  (remapWrites (pics.inb 0x21) (pics.inb 0xA1)).foldl
    (fun pics write => pics.outb write.1 write.2) pics

def remapped : Pics where
  master := ⟨.mask, false, true, 0x20, 0x04, false, 0, 0⟩
  slave := ⟨.mask, false, true, 0x28, 0x02, false, 0, 0⟩

/-- The chips end up the same from any state, also from the middle of another
initialization. -/
theorem picRemap_eq (pics : Pics) : picRemap pics = remapped := rfl

/-- The branches of `interrupt_handler` that signal the end. -/
def acknowledge (pics : Pics) (vector : UInt64) : Pics :=
  if 32 ≤ vector ∧ vector < 48 then
    let pics := if 40 ≤ vector then pics.outb 0xA0 0x20 else pics
    pics.outb 0x20 0x20
  else pics

theorem remapped_idle : remapped.master.Idle ∧ remapped.slave.Idle :=
  ⟨⟨rfl, rfl⟩, ⟨rfl, rfl⟩⟩

theorem line_vector_toNat (line : Fin 16) :
    (32 + UInt64.ofNat line.val).toNat = 32 + line.val := by
  have bound := line.isLt
  rw [UInt64.toNat_add, UInt64.toNat_ofNat']
  change (32 + line.val % 2 ^ 64) % 2 ^ 64 = 32 + line.val
  omega

theorem acknowledge_line (pics : Pics) (line : Fin 16) :
    acknowledge pics (32 + UInt64.ofNat line.val) =
      if 8 ≤ line.val then (pics.outb 0xA0 0x20).outb 0x20 0x20
      else pics.outb 0x20 0x20 := by
  have bound := line.isLt
  have served : (32 : UInt64) ≤ 32 + UInt64.ofNat line.val ∧
      32 + UInt64.ofNat line.val < 48 := by
    rw [UInt64.le_iff_toNat_le, UInt64.lt_iff_toNat_lt, line_vector_toNat]
    refine ⟨?_, ?_⟩
    · exact Nat.le_add_right 32 line.val
    · change 32 + line.val < 48
      omega
  have fromSlave : (40 : UInt64) ≤ 32 + UInt64.ofNat line.val ↔ 8 ≤ line.val := by
    rw [UInt64.le_iff_toNat_le, line_vector_toNat]
    change 40 ≤ 32 + line.val ↔ 8 ≤ line.val
    omega
  rw [acknowledge, if_pos served]
  by_cases slave : 8 ≤ line.val
  · rw [if_pos (fromSlave.mpr slave), if_pos slave]
  · rw [if_neg (fun above => slave (fromSlave.mp above)), if_neg slave]

/-- After `pic_remap` every line is passed on with its vector, and the writes of
the handler end all that the request has put in service. -/
theorem remapped_request (line : Fin 16) :
    ∃ pics, remapped.request line = some (32 + UInt8.ofNat line.val, pics) ∧
      acknowledge pics (32 + UInt64.ofNat line.val) = remapped := by
  obtain ⟨master, slave⟩ := remapped_idle
  have bound := line.isLt
  by_cases onMaster : line.val < 8
  · refine ⟨{ remapped with master := remapped.master.raise line.val }, ?_, ?_⟩
    · rw [Pics.request, if_pos onMaster, if_pos (master.passes line.val)]
      rfl
    · rw [acknowledge_line, if_neg (Nat.not_le_of_lt onMaster)]
      have ended := master.raise_command rfl onMaster
      exact congrArg (fun chip => Pics.mk chip remapped.slave) ended
  · have inSlave : line.val - 8 < 8 := by omega
    have vector : remapped.slave.vector (line.val - 8) =
        32 + UInt8.ofNat line.val := by
      apply UInt8.toNat_inj.mp
      simp only [Chip.vector, remapped, UInt8.toNat_add, UInt8.toNat_ofNat']
      change (40 + (line.val - 8) % 2 ^ 8) % 2 ^ 8 = (32 + line.val % 2 ^ 8) % 2 ^ 8
      omega
    refine ⟨⟨remapped.master.raise 2, remapped.slave.raise (line.val - 8)⟩,
      ?_, ?_⟩
    · rw [Pics.request, if_neg onMaster,
        if_pos ⟨slave.passes (line.val - 8), master.passes 2⟩, vector]
    · rw [acknowledge_line, if_pos (Nat.le_of_not_lt onMaster)]
      have slaveEnded := slave.raise_command rfl inSlave
      have masterEnded := master.raise_command rfl (by decide : 2 < 8)
      exact congrArg₂ Pics.mk masterEnded slaveEnded

end Lumie.Pic
