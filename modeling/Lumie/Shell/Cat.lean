import Lumie.Drivers.Fat

/-!
# The `cat` command

`cmd_cat` formats its argument, looks it up, reads one sector into a local
buffer and prints as many bytes as the directory entry says.  The model keeps
the index of every read of the buffer; a read past its end yields whatever the
stack holds there.
-/

set_option autoImplicit false

namespace Lumie.Cat

open FirstIndex
open Lumie.Strings Lumie.Ata Lumie.Fat

structure CatRun where
  prints : List PrintCall
  bufReads : List Nat

/-- `buf[i]`, with the stack behind the array. -/
def bufByte (buf : Sector) (stackBehind : Nat → UInt8) (i : Nat) : UInt8 :=
  if bound : i < 512 then buf ⟨i, bound⟩ else stackBehind (i - 512)

/-- `none` is the divide error of `fat_read_file`.  The local `size` is
written whenever the cluster is not zero: `fatFindFile_sizeOut`. -/
def cmdCat (disk : Disk) (bootSector : Sector) (stackBehind : Nat → UInt8)
    (args : CString) : Option CatRun :=
  if strlen args = 0 then
    some ⟨[⟨CString.ofString "Usage: cat <filename.txt>\n", 0xFFFFFF⟩], []⟩
  else
    let found := fatFindFile disk bootSector (fatFormatName args)
    if found.cluster ≠ 0 then
      match fatReadFile disk bootSector found.cluster with
      | none => none
      | some buf =>
          let size := found.sizeOut.getD 0
          some ⟨(List.range size).map (fun i =>
              ⟨charString (bufByte buf stackBehind i), 0x00FF00⟩) ++
            [⟨CString.ofString "\n", 0xFFFFFF⟩], List.range size⟩
    else
      some ⟨[⟨CString.ofString "File not found on A: drive.\n", 0xFF0000⟩], []⟩

theorem fatFindFile_sizeOut {disk : Disk} {bootSector : Sector}
    {name : FatName}
    (found : (fatFindFile disk bootSector name).cluster ≠ 0) :
    ∃ size, (fatFindFile disk bootSector name).sizeOut = some size := by
  rcases isFirst_or_none (MatchesAt (rootSector disk bootSector) name) 16 with
    ⟨i, first⟩ | missing
  · rw [fatFindFile_of_first first]
    exact ⟨_, rfl⟩
  · rw [fatFindFile_of_none missing] at found
    exact absurd rfl found

theorem fatFindFile_stored {disk : Disk} {bootSector : Sector}
    {name : FatName}
    (found : (fatFindFile disk bootSector name).cluster ≠ 0) :
    ∃ size, fatFindFile disk bootSector name =
      ⟨(fatFindFile disk bootSector name).cluster, some size⟩ := by
  obtain ⟨size, stored⟩ := fatFindFile_sizeOut found
  exact ⟨size, by rw [← stored]⟩

/-! ## The ends of the command -/

section Ends

variable {disk : Disk} {bootSector : Sector} {stackBehind : Nat → UInt8}
  {args : CString}

def usage : PrintCall := ⟨CString.ofString "Usage: cat <filename.txt>\n", 0xFFFFFF⟩

def notFound : PrintCall :=
  ⟨CString.ofString "File not found on A: drive.\n", 0xFF0000⟩

theorem cmdCat_usage (empty : args.bytes = []) :
    cmdCat disk bootSector stackBehind args = some ⟨[usage], []⟩ := by
  have noText : strlen args = 0 := by simpa using empty
  rw [cmdCat, if_pos noText]
  rfl

theorem cmdCat_notFound (nonempty : args.bytes ≠ [])
    (missing : (fatFindFile disk bootSector (fatFormatName args)).cluster = 0) :
    cmdCat disk bootSector stackBehind args = some ⟨[notFound], []⟩ := by
  have hasText : ¬ strlen args = 0 := by simpa using nonempty
  simp only [cmdCat]
  rw [if_neg hasText, if_neg (not_not.mpr missing)]
  rfl

theorem cmdCat_divides (nonempty : args.bytes ≠ [])
    (found : (fatFindFile disk bootSector (fatFormatName args)).cluster ≠ 0)
    (zero : (fatBpb bootSector).bytesPerSector = 0) :
    cmdCat disk bootSector stackBehind args = none := by
  have hasText : ¬ strlen args = 0 := by simpa using nonempty
  simp only [cmdCat]
  rw [if_neg hasText, if_pos found, fatReadFile, if_pos zero]

theorem cmdCat_prints (nonempty : args.bytes ≠ []) {cluster size : Nat}
    (lookup : fatFindFile disk bootSector (fatFormatName args) =
      ⟨cluster, some size⟩)
    (found : cluster ≠ 0)
    (sectorSize : (fatBpb bootSector).bytesPerSector ≠ 0) :
    cmdCat disk bootSector stackBehind args =
      some ⟨(List.range size).map (fun i =>
          ⟨charString (bufByte (ataReadSector disk
            (clusterLba (fatBpb bootSector) cluster)) stackBehind i),
            0x00FF00⟩) ++
        [⟨CString.ofString "\n", 0xFFFFFF⟩], List.range size⟩ := by
  have hasText : ¬ strlen args = 0 := by simpa using nonempty
  simp only [cmdCat, lookup]
  rw [if_neg hasText, if_pos found, fatReadFile, if_neg sectorSize]
  rfl

end Ends

theorem cmdCat_bufReads {disk : Disk} {bootSector : Sector}
    {stackBehind : Nat → UInt8} {args : CString} {run : CatRun}
    (success : cmdCat disk bootSector stackBehind args = some run) {i : Nat} :
    i ∈ run.bufReads ↔
      args.bytes ≠ [] ∧
        (fatFindFile disk bootSector (fatFormatName args)).cluster ≠ 0 ∧
        ∃ size, (fatFindFile disk bootSector (fatFormatName args)).sizeOut =
          some size ∧ i < size := by
  by_cases empty : args.bytes = []
  · rw [cmdCat_usage empty] at success
    cases success
    simp [empty]
  · by_cases missing :
        (fatFindFile disk bootSector (fatFormatName args)).cluster = 0
    · rw [cmdCat_notFound empty missing] at success
      cases success
      simp [missing]
    · by_cases zero : (fatBpb bootSector).bytesPerSector = 0
      · rw [cmdCat_divides empty missing zero] at success
        cases success
      · obtain ⟨size, lookup⟩ := fatFindFile_stored missing
        have stored := congrArg FindReturn.sizeOut lookup
        rw [cmdCat_prints empty lookup missing zero] at success
        cases success
        simp [empty, missing, stored]

/-- A command whose entry gives a cluster runs unless the division traps. -/
theorem cmdCat_runs_iff {disk : Disk} {bootSector : Sector}
    (stackBehind : Nat → UInt8) {args : CString}
    (nonempty : args.bytes ≠ [])
    (found : (fatFindFile disk bootSector (fatFormatName args)).cluster ≠ 0) :
    (∃ run, cmdCat disk bootSector stackBehind args = some run) ↔
      (fatBpb bootSector).bytesPerSector ≠ 0 := by
  by_cases zero : (fatBpb bootSector).bytesPerSector = 0
  · simp [cmdCat_divides nonempty found zero, zero]
  · obtain ⟨size, lookup⟩ := fatFindFile_stored found
    simp [cmdCat_prints nonempty lookup found zero, zero]

/-- When the argument names an entry with a cluster, that is the first entry
the comparison accepts, its size is at most one sector. -/
def EntryFitsSector (disk : Disk) (bootSector : Sector)
    (args : CString) : Prop :=
  args.bytes ≠ [] → (fatBpb bootSector).bytesPerSector ≠ 0 →
    ∀ i, IsFirst
        (MatchesAt (rootSector disk bootSector) (fatFormatName args)) 16 i →
      (fatDirent (rootSector disk bootSector) i).firstClusterLo ≠ 0 →
      (fatDirent (rootSector disk bootSector) i).fileSize ≤ 512

/-- `cat` reads inside its buffer exactly when the entry it opens is not
longer than the buffer. -/
theorem cmdCat_bufReads_inside_iff (disk : Disk) (bootSector : Sector)
    (stackBehind : Nat → UInt8) (args : CString) :
    (∀ run, cmdCat disk bootSector stackBehind args = some run →
        ∀ i ∈ run.bufReads, i < 512) ↔
      EntryFitsSector disk bootSector args := by
  constructor
  · intro inside nonempty sectorSize i first cluster
    have lookup := fatFindFile_of_first first
    have found : (fatFindFile disk bootSector
        (fatFormatName args)).cluster ≠ 0 := by
      rw [lookup]
      exact cluster
    obtain ⟨run, success⟩ := (cmdCat_runs_iff stackBehind nonempty
      found).mpr sectorSize
    by_contra long
    have read : 512 ∈ run.bufReads := by
      rw [cmdCat_bufReads success]
      exact ⟨nonempty, found, _, by rw [lookup], by omega⟩
    exact absurd (inside run success 512 read) (by omega)
  · intro fits run success i read
    obtain ⟨nonempty, found, size, stored, below⟩ :=
      (cmdCat_bufReads success).mp read
    have sectorSize := (cmdCat_runs_iff stackBehind nonempty found).mp ⟨run, success⟩
    rcases isFirst_or_none (MatchesAt (rootSector disk bootSector)
        (fatFormatName args)) 16 with ⟨k, first⟩ | missing
    · have lookup := fatFindFile_of_first first
      rw [lookup] at found stored
      have short := fits nonempty sectorSize k first found
      simp only [Option.some.injEq] at stored
      omega
    · rw [fatFindFile_of_none missing] at found
      exact absurd rfl found

def longFileRoot : Sector := fun i =>
  let entry : List UInt8 := [0x41] ++ List.replicate 11 0x20 ++
    List.replicate 14 0 ++ [2, 0, 1, 2, 0, 0]
  entry.getD i 0

def longFileName : CString := ⟨[0x41], by simp⟩

def longFileDisk : Disk := twoSectors formattedBoot longFileRoot

theorem cmdCat_longFile :
    ¬ ∀ run, cmdCat longFileDisk (fatInit longFileDisk) (fun _ => 0)
        longFileName = some run → ∀ i ∈ run.bufReads, i < 512 := by
  intro inside
  have lookup : fatFindFile longFileDisk (fatInit longFileDisk)
      (fatFormatName longFileName) = ⟨2, some 513⟩ := by decide
  have found : (fatFindFile longFileDisk (fatInit longFileDisk)
      (fatFormatName longFileName)).cluster ≠ 0 := by
    rw [lookup]
    decide
  obtain ⟨run, success⟩ := (cmdCat_runs_iff (fun _ => 0) (by decide)
    found).mpr (by decide)
  have read : 512 ∈ run.bufReads := by
    rw [cmdCat_bufReads success]
    exact ⟨by decide, found, 513, by rw [lookup], by omega⟩
  exact absurd (inside run success 512 read) (by omega)

end Lumie.Cat
