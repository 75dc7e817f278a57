import Lumie.Base.MachineInt
import Mathlib.Tactic

/-!
# The disk driver

`ata_read_sector` selects a sector through four task-file registers.  The disk
answers with the sector whose 28-bit number those registers hold, so what a
read returns depends on the number only through `ataRegisterWrites`.  This is
the driver over a disk that completes every read.
-/

set_option autoImplicit false

namespace Lumie.Ata

open MachineInt

abbrev Sector := Fin 512 → UInt8

abbrev Disk := Nat → Sector

def ataPrimarySeccount : Nat := 0x1F2
def ataPrimaryLbaLo : Nat := 0x1F3
def ataPrimaryLbaMid : Nat := 0x1F4
def ataPrimaryLbaHi : Nat := 0x1F5
def ataPrimaryDriveSel : Nat := 0x1F6
def ataPrimaryCommStat : Nat := 0x1F7

/-- The `outb` calls of `ata_read_sector`, port and value, in order. -/
def ataRegisterWrites (lba : Nat) : List (Nat × UInt8) :=
  [(ataPrimaryDriveSel, u8 (0xE0 ||| ((lba >>> 24) &&& 0x0F) : Nat)),
    (ataPrimarySeccount, 1),
    (ataPrimaryLbaLo, u8 lba),
    (ataPrimaryLbaMid, u8 (lba >>> 8 : Nat)),
    (ataPrimaryLbaHi, u8 (lba >>> 16 : Nat)),
    (ataPrimaryCommStat, 0x20)]

def latched (writes : List (Nat × UInt8)) (port : Nat) : Nat :=
  writes.foldl (fun value write =>
    if write.1 = port then write.2.toNat else value) 0

/-- The sector number in the task file: 8 bits each from the three address
registers and the low nibble of the drive register. -/
def taskFileLba (writes : List (Nat × UInt8)) : Nat :=
  latched writes ataPrimaryLbaLo + latched writes ataPrimaryLbaMid * 2 ^ 8 +
    latched writes ataPrimaryLbaHi * 2 ^ 16 +
    (latched writes ataPrimaryDriveSel &&& 0x0F) * 2 ^ 24

def ataReadSector (disk : Disk) (lba : Nat) : Sector :=
  disk (taskFileLba (ataRegisterWrites lba))

def byteAt (sector : Sector) (offset : Nat) : UInt8 :=
  if bound : offset < 512 then sector ⟨offset, bound⟩ else 0

def u16At (sector : Sector) (offset : Nat) : Nat :=
  (byteAt sector offset).toNat + (byteAt sector (offset + 1)).toNat * 2 ^ 8

def u32At (sector : Sector) (offset : Nat) : Nat :=
  u16At sector offset + u16At sector (offset + 2) * 2 ^ 16

theorem u16At_lt (sector : Sector) (offset : Nat) :
    u16At sector offset < 2 ^ 16 := by
  have low := (byteAt sector offset).toNat_lt
  have high := (byteAt sector (offset + 1)).toNat_lt
  unfold u16At
  omega

theorem driveSelect_low (nibble : Nat) :
    (0xE0 ||| (nibble &&& 0x0F)) % 256 &&& 0x0F = nibble % 2 ^ 4 := by
  have low : ∀ m, m &&& 0x0F = m % 2 ^ 4 :=
    fun m => Nat.and_two_pow_sub_one_eq_mod m 4
  have bound : nibble % 2 ^ 4 < 2 ^ 5 := by omega
  have disjoint : 0xE0 ||| nibble % 2 ^ 4 = 2 ^ 5 * 7 + nibble % 2 ^ 4 :=
    (Nat.two_pow_add_eq_or_of_lt bound 7).symm
  rw [low, low, disjoint]
  omega

theorem taskFileLba_eq (lba : Nat) :
    taskFileLba (ataRegisterWrites lba) = lba % 2 ^ 28 := by
  have drive := driveSelect_low (lba / 2 ^ 24)
  simp only [taskFileLba, ataRegisterWrites, latched, List.foldl_cons,
    List.foldl_nil, ataPrimarySeccount, ataPrimaryLbaLo, ataPrimaryLbaMid,
    ataPrimaryLbaHi, ataPrimaryDriveSel, ataPrimaryCommStat, Nat.reduceEqDiff,
    reduceIte, u8_natCast_toNat, Nat.shiftRight_eq_div_pow, drive]
  omega

theorem ataReadSector_of_lt (disk : Disk) {lba : Nat} (bound : lba < 2 ^ 28) :
    ataReadSector disk lba = disk lba := by
  rw [ataReadSector, taskFileLba_eq, Nat.mod_eq_of_lt bound]

end Lumie.Ata
