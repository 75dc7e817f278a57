import Lumie.Drivers.FatCluster
import Mathlib.Algebra.Order.Floor.Div

/-!
# Addresses on the drive

The sector numbers of clusters and of the root directory, from the fields of
the boot sector to the task file.  `checkedClusterLba` is the computation of
`fat_read_file` in which every `int` operation and every `uint32_t` sum must be
exact; it succeeds with the sector number itself.
-/

set_option autoImplicit false

namespace Lumie.Fat

open MachineInt
open Lumie.Ata

/-- The expressions of `fat_read_file`, operation by operation. -/
def checkedClusterLba (bpb : FatBpb) (cluster : Nat) : Option Nat := do
  let entryBytes ← checkedInt ((bpb.rootEntries : Int) * 32)
  let lastByte ← checkedInt ((bpb.bytesPerSector : Int) - 1)
  let rounded ← checkedInt (entryBytes + lastByte)
  let rootDirSectors ← checkedUint32 (rounded.tdiv bpb.bytesPerSector)
  let fatSectors ← checkedInt ((bpb.fatCount : Int) * bpb.sectorsPerFat)
  let tables ← checkedInt (bpb.reservedSectors + fatSectors)
  let rootLba ← checkedUint32 tables
  let firstDataSector ← checkedUint32 (rootLba + rootDirSectors)
  let index ← checkedInt ((cluster : Int) - 2)
  let product ← checkedInt (index * bpb.sectorsPerCluster)
  let offset ← checkedUint32 product
  checkedUint32 (offset + firstDataSector)

section Bounds

variable {bpb : FatBpb}

theorem clusterOffset_le (bounds : BpbBounds bpb) {cluster : Nat}
    (narrow : cluster < 2 ^ 16) :
    (cluster - 2) * bpb.sectorsPerCluster ≤ 65535 * 255 := by
  have each := bounds.sectorsPerCluster
  exact Nat.mul_le_mul (by omega) (by omega)

theorem checkedClusterLba_eq (bounds : BpbBounds bpb)
    (sectorSize : bpb.bytesPerSector ≠ 0) {cluster : Nat}
    (narrow : cluster < 2 ^ 16) (data : 2 ≤ cluster) :
    checkedClusterLba bpb cluster = some (clusterLba bpb cluster) := by
  have bytes := bounds.bytesPerSector
  have reserved := bounds.reservedSectors
  have entries := bounds.rootEntries
  have fats := bounds.fatSectors
  have rootDir := rootDirSectors_le bounds
  have offset := clusterOffset_le bounds narrow
  have entryBytes : (bpb.rootEntries : Int) * 32 =
      (bpb.rootEntries * 32 : Nat) := by
    push_cast
    rfl
  have lastByte : (bpb.bytesPerSector : Int) - 1 =
      (bpb.bytesPerSector - 1 : Nat) := by omega
  have index : (cluster : Int) - 2 = (cluster - 2 : Nat) := by omega
  rw [clusterLba_eq bounds sectorSize narrow (Or.inl data), firstDataSector]
  simp only [checkedClusterLba, entryBytes, lastByte, index, ← Nat.cast_mul,
    Option.bind_eq_bind]
  rw [checkedInt_natCast (by omega), Option.bind_some,
    checkedInt_natCast (by omega), Option.bind_some, ← Nat.cast_add,
    checkedInt_natCast (by omega), Option.bind_some, ← Int.ofNat_tdiv,
    checkedUint32_natCast (by omega), Option.bind_some,
    checkedInt_natCast (by omega), Option.bind_some, ← Nat.cast_add,
    checkedInt_natCast (by omega), Option.bind_some,
    checkedUint32_natCast (by omega), Option.bind_some, ← Nat.cast_add,
    checkedUint32_natCast (by omega), Option.bind_some,
    checkedInt_natCast (by omega), Option.bind_some, ← Nat.cast_mul,
    checkedInt_natCast (by omega), Option.bind_some,
    checkedUint32_natCast (by omega), Option.bind_some, ← Nat.cast_add,
    checkedUint32_natCast (by omega), Nat.add_comm]

theorem clusterSector_ne (first spc : Nat) {cluster other : Nat}
    (data : 2 ≤ cluster) (otherData : 2 ≤ other) (different : cluster ≠ other)
    {offset otherOffset : Nat} (inside : offset < spc)
    (otherInside : otherOffset < spc) :
    first + (cluster - 2) * spc + offset ≠
      first + (other - 2) * spc + otherOffset := by
  have apart : ∀ {low high : Nat}, low < high →
      low * spc + spc ≤ high * spc := by
    intro low high less
    have rows := Nat.mul_le_mul_right spc (Nat.succ_le_of_lt less)
    rwa [Nat.succ_mul] at rows
  rcases Nat.lt_or_gt_of_ne different with before | behind
  · have below := apart (show cluster - 2 < other - 2 by omega)
    omega
  · have below := apart (show other - 2 < cluster - 2 by omega)
    omega

end Bounds

/-- The sector number that the registers hold for a cluster is that of the
volume's layout, and no operation on the way overflows, wraps or is cut off. -/
theorem clusterLba_decodes (bootSector : Sector)
    (sectorSize : (fatBpb bootSector).bytesPerSector = 512)
    (cluster : Nat) (data : 2 ≤ cluster) (narrow : cluster ≤ 65535) :
    let bpb := fatBpb bootSector
    let dataStart := bpb.reservedSectors + bpb.fatCount * bpb.sectorsPerFat +
      bpb.rootEntries * 32 ⌈/⌉ 512
    let decoded := fun c => taskFileLba (ataRegisterWrites (clusterLba bpb c))
    decoded cluster = dataStart + (cluster - 2) * bpb.sectorsPerCluster ∧
    checkedClusterLba bpb cluster = some (decoded cluster) ∧
    (∀ disk, fatReadFile disk bootSector cluster =
      some (disk (decoded cluster))) ∧
    dataStart ≤ decoded cluster ∧
    (∀ other, 2 ≤ other → other ≤ 65535 → cluster ≠ other →
      ∀ offset < bpb.sectorsPerCluster,
        ∀ otherOffset < bpb.sectorsPerCluster,
          decoded cluster + offset ≠ decoded other + otherOffset) ∧
    taskFileLba (ataRegisterWrites (rootLba bpb)) =
      bpb.reservedSectors + bpb.fatCount * bpb.sectorsPerFat ∧
    ∀ disk, rootSector disk bootSector =
      disk (bpb.reservedSectors + bpb.fatCount * bpb.sectorsPerFat) := by
  intro bpb dataStart decoded
  have bounds : BpbBounds bpb := fatBpb_bounds bootSector
  have nonzero : bpb.bytesPerSector ≠ 0 := by
    rw [sectorSize]
    decide
  have start : firstDataSector bpb = dataStart := by
    rw [firstDataSector, sectorSize]
    rfl
  have exact : ∀ c, 2 ≤ c → c ≤ 65535 →
      decoded c = clusterLba bpb c := by
    intro c low high
    have small := clusterLba_lt bounds nonzero (Nat.lt_succ_of_le high) low
    exact (taskFileLba_eq _).trans (Nat.mod_eq_of_lt small)
  have value : ∀ c, 2 ≤ c → c ≤ 65535 →
      decoded c = dataStart + (c - 2) * bpb.sectorsPerCluster := by
    intro c low high
    rw [exact c low high, clusterLba_eq bounds nonzero
      (Nat.lt_succ_of_le high) (Or.inl low), start]
  have root : taskFileLba (ataRegisterWrites (rootLba bpb)) =
      bpb.reservedSectors + bpb.fatCount * bpb.sectorsPerFat := by
    have reserved := bounds.reservedSectors
    have fats := bounds.fatSectors
    rw [taskFileLba_eq, rootLba_eq bounds, Nat.mod_eq_of_lt (by omega)]
  refine ⟨value cluster data narrow, ?_, ?_, ?_, ?_, root, ?_⟩
  · rw [checkedClusterLba_eq bounds nonzero (Nat.lt_succ_of_le narrow) data,
      exact cluster data narrow]
  · intro disk
    exact if_neg nonzero
  · rw [value cluster data narrow]
    exact Nat.le_add_right _ _
  · intro other otherData otherNarrow different offset inside _ otherInside
    rw [value cluster data narrow, value other otherData otherNarrow]
    exact clusterSector_ne _ _ data otherData different inside otherInside
  · intro disk
    rw [rootSector, ataReadSector, root]

/-- Two FATs of nine sectors, 512 root entries and clusters of four sectors. -/
theorem clusterLba_decodes_layout :
    let bootSector : Sector := fun offset =>
      [0, 2, 4, 1, 0, 2, 0, 2, 0, 0, 0, 9].getD (offset.val - 11) 0
    taskFileLba (ataRegisterWrites (clusterLba (fatBpb bootSector) 3)) =
      1 + 2 * 9 + 32 + 4 :=
  (clusterLba_decodes _ rfl 3 (by decide) (by decide)).1

end Lumie.Fat
