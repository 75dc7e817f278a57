import Lumie.Drivers.FatCluster
import Lumie.Drivers.FatLookup
import Lumie.Shell.Cat

/-!
# `cat` on a damaged disk

Everything `cat` computes with comes from the disk.  Its only check is that the
entry has a cluster other than 0, so a boot sector without a sector size stops
the machine, and cluster 1, which has no data either, leads back in front of
the data area.
-/

set_option autoImplicit false

namespace Lumie.CatDisk

open FirstIndex
open Lumie.Strings Lumie.Ata Lumie.Fat Lumie.FatLookup Lumie.Cat

/-- The sector that `fat_read_file` asks the drive for in a run of the command,
if the run gets there. -/
def catSector (disk : Disk) (bootSector : Sector) (args : CString) :
    Option Nat :=
  if strlen args = 0 then none
  else
    let found := fatFindFile disk bootSector (fatFormatName args)
    if found.cluster ≠ 0 ∧ (fatBpb bootSector).bytesPerSector ≠ 0 then
      some (clusterLba (fatBpb bootSector) found.cluster)
    else none

/-- The run does not divide by zero, and the sector it asks for is the exact
number of a sector in the data area. -/
structure SafeRun (disk : Disk) (bootSector : Sector)
    (stackBehind : Nat → UInt8) (args : CString) : Prop where
  noDivide : cmdCat disk bootSector stackBehind args ≠ none
  inData : ∀ lba, catSector disk bootSector args = some lba →
    firstDataSector (fatBpb bootSector) ≤ lba ∧
      (lba : Int) = firstDataSector (fatBpb bootSector) +
        ((fatFindFile disk bootSector (fatFormatName args)).cluster - 2) *
          (fatBpb bootSector).sectorsPerCluster

/-- The entry that the argument names, if it has a cluster, has one of the data
area on a volume with a sector size. -/
def EntryReadable (disk : Disk) (bootSector : Sector) (args : CString) :
    Prop :=
  args.bytes ≠ [] →
    ∀ i, IsFirst
        (MatchesAt (rootSector disk bootSector) (fatFormatName args)) 16 i →
      (fatDirent (rootSector disk bootSector) i).firstClusterLo ≠ 0 →
      (fatBpb bootSector).bytesPerSector ≠ 0 ∧
        (2 ≤ (fatDirent (rootSector disk bootSector) i).firstClusterLo ∨
          (fatBpb bootSector).sectorsPerCluster = 0)

section Runs

variable {disk : Disk} {bootSector : Sector} {stackBehind : Nat → UInt8}
  {args : CString}

theorem catSector_eq_some_iff {lba : Nat} :
    catSector disk bootSector args = some lba ↔
      args.bytes ≠ [] ∧
        (fatFindFile disk bootSector (fatFormatName args)).cluster ≠ 0 ∧
        (fatBpb bootSector).bytesPerSector ≠ 0 ∧
        lba = clusterLba (fatBpb bootSector)
          (fatFindFile disk bootSector (fatFormatName args)).cluster := by
  have noText : strlen args = 0 ↔ args.bytes = [] := by simp
  unfold catSector
  by_cases empty : args.bytes = []
  · rw [if_pos (noText.mpr empty)]
    simp [empty]
  · rw [if_neg (fun zero => empty (noText.mp zero))]
    by_cases reads :
        (fatFindFile disk bootSector (fatFormatName args)).cluster ≠ 0 ∧
          (fatBpb bootSector).bytesPerSector ≠ 0
    · simp [reads, empty, eq_comm]
    · simp only [if_neg reads, reduceCtorEq, false_iff]
      rintro ⟨-, found, sectorSize, -⟩
      exact reads ⟨found, sectorSize⟩

theorem cmdCat_of_catSector {lba : Nat}
    (asked : catSector disk bootSector args = some lba) :
    ∃ size, cmdCat disk bootSector stackBehind args =
      some ⟨(List.range size).map (fun i =>
          ⟨charString (bufByte (ataReadSector disk lba) stackBehind i),
            0x00FF00⟩) ++
        [⟨CString.ofString "\n", 0xFFFFFF⟩], List.range size⟩ := by
  obtain ⟨nonempty, found, sectorSize, rfl⟩ := catSector_eq_some_iff.mp asked
  obtain ⟨size, lookup⟩ := fatFindFile_stored found
  exact ⟨size, cmdCat_prints nonempty lookup found sectorSize⟩

/-- A command stops the machine exactly when it gets to a division by a zero
sector size. -/
theorem cmdCat_eq_none_iff :
    cmdCat disk bootSector stackBehind args = none ↔
      args.bytes ≠ [] ∧
        (fatFindFile disk bootSector (fatFormatName args)).cluster ≠ 0 ∧
        (fatBpb bootSector).bytesPerSector = 0 := by
  by_cases empty : args.bytes = []
  · simp [cmdCat_usage empty, empty]
  · by_cases missing :
        (fatFindFile disk bootSector (fatFormatName args)).cluster = 0
    · simp [cmdCat_notFound empty missing, missing]
    · have runs := cmdCat_runs_iff stackBehind empty missing
      rw [← not_iff_not, ← ne_eq, Option.ne_none_iff_exists', runs]
      simp [empty, missing]

theorem forwards_of_exact {bpb : FatBpb} {cluster lba : Nat}
    (inside : firstDataSector bpb ≤ lba)
    (exact_number : (lba : Int) =
      firstDataSector bpb + ((cluster : Int) - 2) * bpb.sectorsPerCluster) :
    2 ≤ cluster ∨ bpb.sectorsPerCluster = 0 := by
  by_contra backwards
  simp only [not_or, not_le] at backwards
  obtain ⟨before, sectors⟩ := backwards
  have negative : ((cluster : Int) - 2) * bpb.sectorsPerCluster < 0 :=
    mul_neg_of_neg_of_pos (by omega) (by omega)
  omega

theorem opened_of_readable (readable : EntryReadable disk bootSector args)
    (nonempty : args.bytes ≠ [])
    (found : (fatFindFile disk bootSector (fatFormatName args)).cluster ≠ 0) :
    (fatBpb bootSector).bytesPerSector ≠ 0 ∧
      (2 ≤ (fatFindFile disk bootSector (fatFormatName args)).cluster ∨
        (fatBpb bootSector).sectorsPerCluster = 0) ∧
      (fatFindFile disk bootSector (fatFormatName args)).cluster < 2 ^ 16 := by
  rcases isFirst_or_none (MatchesAt (rootSector disk bootSector)
      (fatFormatName args)) 16 with ⟨i, first⟩ | missing
  · rw [fatFindFile_of_first first] at found ⊢
    obtain ⟨sectorSize, forwards⟩ := readable nonempty i first found
    exact ⟨sectorSize, forwards, u16At_lt _ _⟩
  · rw [fatFindFile_of_none missing] at found
    exact absurd rfl found

end Runs

/-- `cat` is safe on a disk exactly when the entry it opens is readable. -/
theorem cmdCat_safe_iff (disk : Disk) (bootSector : Sector)
    (stackBehind : Nat → UInt8) (args : CString) :
    SafeRun disk bootSector stackBehind args ↔
      EntryReadable disk bootSector args := by
  constructor
  · rintro ⟨noDivide, inData⟩ nonempty i first cluster
    have lookup := fatFindFile_of_first first
    have found : (fatFindFile disk bootSector
        (fatFormatName args)).cluster ≠ 0 := by
      rw [lookup]
      exact cluster
    have sectorSize : (fatBpb bootSector).bytesPerSector ≠ 0 := by
      intro zero
      exact noDivide (cmdCat_eq_none_iff.mpr ⟨nonempty, found, zero⟩)
    obtain ⟨inside, exact_number⟩ := inData _
      (catSector_eq_some_iff.mpr ⟨nonempty, found, sectorSize, rfl⟩)
    have forwards := forwards_of_exact inside exact_number
    rw [lookup] at forwards
    exact ⟨sectorSize, forwards⟩
  · intro readable
    refine ⟨?_, ?_⟩
    · intro divides
      obtain ⟨nonempty, found, zero⟩ := cmdCat_eq_none_iff.mp divides
      exact (opened_of_readable readable nonempty found).1 zero
    · intro lba asked
      obtain ⟨nonempty, found, -, rfl⟩ := catSector_eq_some_iff.mp asked
      obtain ⟨sectorSize, forwards, narrow⟩ :=
        opened_of_readable readable nonempty found
      rw [clusterLba_eq (fatBpb_bounds bootSector) sectorSize narrow forwards]
      refine ⟨Nat.le_add_right _ _, ?_⟩
      rcases forwards with data | noSectors
      · push_cast [Nat.cast_sub data]
        rfl
      · simp [noSectors]

def blankBoot : Sector := fun i => if i.val = 14 then 1 else 0

def clusterOneRoot : Sector := fun i =>
  (direntBytes readmeName 0x20 1 5).getD i 0

/-- Without a sector size the command divides by zero; with cluster 1 it reads
the root directory as the file. -/
theorem cmdCat_damaged :
    ¬ SafeRun (twoSectors blankBoot plainRoot)
        (fatInit (twoSectors blankBoot plainRoot)) (fun _ => 0) readmeInput ∧
      ¬ SafeRun (twoSectors formattedBoot clusterOneRoot)
        (fatInit (twoSectors formattedBoot clusterOneRoot)) (fun _ => 0)
        readmeInput := by
  constructor
  · intro safe
    have lookup : fatFindFile (twoSectors blankBoot plainRoot)
        (fatInit (twoSectors blankBoot plainRoot))
        (fatFormatName readmeInput) = ⟨2, some 5⟩ := by decide
    apply safe.noDivide
    exact cmdCat_divides (by decide) (by rw [lookup]; decide) (by decide)
  · intro safe
    have asked : catSector (twoSectors formattedBoot clusterOneRoot)
        (fatInit (twoSectors formattedBoot clusterOneRoot)) readmeInput =
          some 1 := by decide
    have inside := (safe.inData 1 asked).1
    revert inside
    decide

end Lumie.CatDisk
