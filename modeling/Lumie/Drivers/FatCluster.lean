import Lumie.Drivers.Fat

/-!
# Sector numbers of clusters

`fat_read_file` computes the sector of a cluster in wrapping arithmetic.  The
fields of the boot sector are small enough for all of it to be exact from
cluster 2 on, the first cluster that has data; below that the subtraction wraps
or leads back into the root directory.
-/

set_option autoImplicit false

namespace Lumie.Fat

open MachineInt
open Lumie.Ata

def firstDataSector (bpb : FatBpb) : Nat :=
  bpb.reservedSectors + bpb.fatCount * bpb.sectorsPerFat +
    (bpb.rootEntries * 32 + (bpb.bytesPerSector - 1)) / bpb.bytesPerSector

structure BpbBounds (bpb : FatBpb) : Prop where
  bytesPerSector : bpb.bytesPerSector < 2 ^ 16
  sectorsPerCluster : bpb.sectorsPerCluster < 2 ^ 8
  reservedSectors : bpb.reservedSectors < 2 ^ 16
  rootEntries : bpb.rootEntries < 2 ^ 16
  fatSectors : bpb.fatCount * bpb.sectorsPerFat ≤ 255 * 65535

theorem fatBpb_bounds (bootSector : Sector) : BpbBounds (fatBpb bootSector) where
  bytesPerSector := u16At_lt _ _
  sectorsPerCluster := UInt8.toNat_lt _
  reservedSectors := u16At_lt _ _
  rootEntries := u16At_lt _ _
  fatSectors := Nat.mul_le_mul (Nat.le_of_lt_succ (UInt8.toNat_lt _))
    (Nat.le_of_lt_succ (u16At_lt _ _))

section Bounds

variable {bpb : FatBpb}

theorem rootLba_eq (bounds : BpbBounds bpb) :
    rootLba bpb = bpb.reservedSectors + bpb.fatCount * bpb.sectorsPerFat := by
  have reserved := bounds.reservedSectors
  have fats := bounds.fatSectors
  have sum : (bpb.reservedSectors : Int) + bpb.fatCount * bpb.sectorsPerFat =
      (bpb.reservedSectors + bpb.fatCount * bpb.sectorsPerFat : Nat) := by
    push_cast
    rfl
  rw [rootLba, sum, u32_natCast (by omega)]

theorem rootDirSectors_le (bounds : BpbBounds bpb) :
    (bpb.rootEntries * 32 + (bpb.bytesPerSector - 1)) / bpb.bytesPerSector <
      2 ^ 22 := by
  have bytes := bounds.bytesPerSector
  have entries := bounds.rootEntries
  exact lt_of_le_of_lt (Nat.div_le_self _ _) (by omega)

theorem rootDirSectors_eq (bounds : BpbBounds bpb)
    (sectorSize : bpb.bytesPerSector ≠ 0) :
    u32 (((bpb.rootEntries : Int) * 32 + (bpb.bytesPerSector - 1)).tdiv
        bpb.bytesPerSector) =
      (bpb.rootEntries * 32 + (bpb.bytesPerSector - 1)) / bpb.bytesPerSector := by
  have numerator : (bpb.rootEntries : Int) * 32 + (bpb.bytesPerSector - 1) =
      (bpb.rootEntries * 32 + (bpb.bytesPerSector - 1) : Nat) := by omega
  have small := rootDirSectors_le bounds
  rw [numerator, ← Int.ofNat_tdiv, u32_natCast (by omega)]

theorem clusterLba_eq (bounds : BpbBounds bpb)
    (sectorSize : bpb.bytesPerSector ≠ 0) {cluster : Nat}
    (narrow : cluster < 2 ^ 16)
    (forwards : 2 ≤ cluster ∨ bpb.sectorsPerCluster = 0) :
    clusterLba bpb cluster =
      firstDataSector bpb + (cluster - 2) * bpb.sectorsPerCluster := by
  have reserved := bounds.reservedSectors
  have fats := bounds.fatSectors
  have rootDir := rootDirSectors_le bounds
  have product : ((cluster : Int) - 2) * bpb.sectorsPerCluster =
      ((cluster - 2) * bpb.sectorsPerCluster : Nat) := by
    rcases forwards with data | none
    · push_cast [Nat.cast_sub data]
      rfl
    · simp [none]
  have offset : (cluster - 2) * bpb.sectorsPerCluster ≤ 65535 * 255 := by
    have each := bounds.sectorsPerCluster
    exact Nat.mul_le_mul (by omega) (by omega)
  have tables := rootLba_eq bounds
  rw [rootLba] at tables
  rw [clusterLba, rootDirSectors_eq bounds sectorSize, tables, product,
    u32_natCast (by omega)]
  generalize (cluster - 2) * bpb.sectorsPerCluster = behind at offset ⊢
  unfold firstDataSector
  generalize bpb.fatCount * bpb.sectorsPerFat = tableSectors at fats ⊢
  generalize (bpb.rootEntries * 32 + (bpb.bytesPerSector - 1)) /
    bpb.bytesPerSector = rootSectors at rootDir ⊢
  have first : u32 ((bpb.reservedSectors + tableSectors : Nat) +
      (rootSectors : Int)) = bpb.reservedSectors + tableSectors + rootSectors := by
    rw [← Nat.cast_add, u32_natCast (by omega)]
  rw [first, ← Nat.cast_add, u32_natCast (by omega), Nat.add_comm]

theorem clusterLba_lt (bounds : BpbBounds bpb)
    (sectorSize : bpb.bytesPerSector ≠ 0) {cluster : Nat}
    (narrow : cluster < 2 ^ 16) (data : 2 ≤ cluster) :
    clusterLba bpb cluster < 2 ^ 28 := by
  have reserved := bounds.reservedSectors
  have fats := bounds.fatSectors
  have rootDir := rootDirSectors_le bounds
  have offset : (cluster - 2) * bpb.sectorsPerCluster ≤ 65535 * 255 := by
    have each := bounds.sectorsPerCluster
    exact Nat.mul_le_mul (by omega) (by omega)
  rw [clusterLba_eq bounds sectorSize narrow (Or.inl data), firstDataSector]
  omega

end Bounds

end Lumie.Fat
