import Lumie.Drivers.FatCluster
import Lumie.Drivers.FatLookup
import Lumie.Shell.Cat

/-!
# `cat` on a plain volume

A volume whose root directory holds only ordinary files of at most one sector.
On it `cat` is the composition of formatting, lookup, cluster arithmetic and
printing, and it shows the file that is named unless that file is empty: the
cluster number of an empty file is the lookup's answer for no file.
-/

set_option autoImplicit false

namespace Lumie.CatFile

open FirstIndex
open Lumie.Strings Lumie.Ata Lumie.Fat Lumie.FatLookup Lumie.Cat

/-- The first `count` entries of the sector are ordinary files, the rest is
zero. -/
structure OrdinaryRoot (root : Sector) (count : Nat) : Prop where
  fits : count ≤ 16
  ascii : ∀ i < count, ∀ k, ((fatDirent root i).name k).toNat < 128
  inUse : ∀ i < count, (fatDirent root i).firstByte ≠ 0x00 ∧
    (fatDirent root i).firstByte ≠ 0xE5
  plain : ∀ i < count, (fatDirent root i).attr &&& 0x08 = 0
  distinct : ∀ i < count, ∀ j < count,
    (fatDirent root i).name = (fatDirent root j).name → i = j
  file : ∀ i < count,
    (1 ≤ (fatDirent root i).fileSize ∧ (fatDirent root i).fileSize ≤ 512 ∧
      2 ≤ (fatDirent root i).firstClusterLo) ∨
    ((fatDirent root i).fileSize = 0 ∧ (fatDirent root i).firstClusterLo = 0)
  unused : ∀ i, count ≤ i → i < 16 → ∀ k < 32, byteAt root (32 * i + k) = 0

def filePrints (sector : Sector) (size : Nat) : List PrintCall :=
  (List.range size).map (fun i => ⟨charString (byteAt sector i), 0x00FF00⟩) ++
    [⟨CString.ofString "\n", 0xFFFFFF⟩]

def fileSector (disk : Disk) (bpb : FatBpb) (cluster : Nat) : Sector :=
  disk (firstDataSector bpb + (cluster - 2) * bpb.sectorsPerCluster)

structure ShowsFile (disk : Disk) (bootSector : Sector) (count : Nat)
    (name : FatName) (prints : List PrintCall) : Prop where
  missing : prints = [notFound] ↔
    ∀ i < count, (fatDirent (rootSector disk bootSector) i).name ≠ name
  named : ∀ i < count, (fatDirent (rootSector disk bootSector) i).name = name →
    prints = filePrints
      (fileSector disk (fatBpb bootSector)
        (fatDirent (rootSector disk bootSector) i).firstClusterLo)
      (fatDirent (rootSector disk bootSector) i).fileSize

section Volume

variable {disk : Disk} {bootSector : Sector} {count : Nat} {name : FatName}

theorem OrdinaryRoot.matchesAt_iff {root : Sector}
    (ordinary : OrdinaryRoot root count) (nonzero : ∀ k, name k ≠ 0) {i : Nat}
    (below : i < 16) :
    MatchesAt root name i ↔ i < count ∧ (fatDirent root i).name = name := by
  by_cases used : i < count
  · rw [MatchesAt, fatNameMatch_asciiEntry_iff (ordinary.ascii i used),
      ← funext_iff]
    exact (and_iff_right used).symm
  · refine iff_of_false ?_ (fun both => used both.1)
    intro matched
    have first := (fatNameMatch_iff _ _).mp matched 0
    have zero : (fatDirent root i).name 0 = 0 :=
      ordinary.unused i (by omega) below 0 (by omega)
    rw [zero] at first
    exact nonzero 0 (MachineInt.charVal_eq_zero.mp first.symm)

theorem OrdinaryRoot.find_named
    (ordinary : OrdinaryRoot (rootSector disk bootSector) count)
    (nonzero : ∀ k, name k ≠ 0) {i : Nat} (used : i < count)
    (named : (fatDirent (rootSector disk bootSector) i).name = name) :
    fatFindFile disk bootSector name =
      ⟨(fatDirent (rootSector disk bootSector) i).firstClusterLo,
        some (fatDirent (rootSector disk bootSector) i).fileSize⟩ := by
  have fits := ordinary.fits
  refine fatFindFile_of_first ⟨by omega, ?_, ?_⟩
  · exact (ordinary.matchesAt_iff nonzero (by omega)).mpr ⟨used, named⟩
  · intro earlier lower matched
    obtain ⟨inside, same⟩ :=
      (ordinary.matchesAt_iff nonzero (by omega)).mp matched
    have equal := ordinary.distinct earlier inside i used (same.trans named.symm)
    omega

theorem OrdinaryRoot.find_missing
    (ordinary : OrdinaryRoot (rootSector disk bootSector) count)
    (nonzero : ∀ k, name k ≠ 0)
    (missing : ∀ i < count,
      (fatDirent (rootSector disk bootSector) i).name ≠ name) :
    fatFindFile disk bootSector name = ⟨0, none⟩ := by
  apply fatFindFile_of_none
  intro i below matched
  obtain ⟨used, named⟩ := (ordinary.matchesAt_iff nonzero below).mp matched
  exact missing i used named

end Volume

/-! ## The command -/

theorem filePrints_ne_notFound (sector : Sector) {size : Nat}
    (positive : 1 ≤ size) : filePrints sector size ≠ [notFound] := by
  intro same
  have lengths := congrArg List.length same
  simp [filePrints] at lengths
  omega

theorem bufByte_prints (sector : Sector) (stackBehind : Nat → UInt8)
    {size : Nat} (short : size ≤ 512) :
    (List.range size).map (fun i =>
        (⟨charString (bufByte sector stackBehind i), 0x00FF00⟩ : PrintCall)) ++
      [⟨CString.ofString "\n", 0xFFFFFF⟩] = filePrints sector size := by
  unfold filePrints
  congr 1
  apply List.map_congr_left
  intro i member
  have bound : i < 512 := by
    have below := List.mem_range.mp member
    omega
  rw [bufByte, dif_pos bound, byteAt, dif_pos bound]

theorem showsFile_named {disk : Disk} {bootSector : Sector}
    {stackBehind : Nat → UInt8} {count : Nat} {name : FatName}
    (sectorSize : (fatBpb bootSector).bytesPerSector = 512)
    (ordinary : OrdinaryRoot (rootSector disk bootSector) count)
    {i : Nat} (used : i < count)
    (named : (fatDirent (rootSector disk bootSector) i).name = name)
    (cluster : (fatDirent (rootSector disk bootSector) i).firstClusterLo ≠ 0) :
    ShowsFile disk bootSector count name
      ((List.range (fatDirent (rootSector disk bootSector) i).fileSize).map
          (fun k => ⟨charString (bufByte (ataReadSector disk
            (clusterLba (fatBpb bootSector)
              (fatDirent (rootSector disk bootSector) i).firstClusterLo))
            stackBehind k), 0x00FF00⟩) ++
        [⟨CString.ofString "\n", 0xFFFFFF⟩]) := by
  obtain ⟨positive, short, data⟩ | ⟨-, empty⟩ := ordinary.file i used
  · have bounds := fatBpb_bounds bootSector
    have traps : (fatBpb bootSector).bytesPerSector ≠ 0 := by omega
    have narrow : (fatDirent (rootSector disk bootSector) i).firstClusterLo <
        2 ^ 16 := u16At_lt _ _
    rw [bufByte_prints _ _ short,
      ataReadSector_of_lt disk (clusterLba_lt bounds traps narrow data),
      clusterLba_eq bounds traps narrow (Or.inl data)]
    refine ⟨?_, ?_⟩
    · refine iff_of_false (filePrints_ne_notFound _ positive) ?_
      intro none
      exact none i used named
    · intro j other same
      rw [ordinary.distinct j other i used (same.trans named.symm)]
      rfl
  · exact absurd empty cluster

/-- `cat` shows the named file on a plain volume exactly when the file is not
empty. -/
theorem cmdCat_showsFile_iff (disk : Disk) (bootSector : Sector)
    (stackBehind : Nat → UInt8) (args : CString) (count : Nat)
    (sectorSize : (fatBpb bootSector).bytesPerSector = 512)
    (ordinary : OrdinaryRoot (rootSector disk bootSector) count)
    (nonempty : args.bytes ≠ []) :
    (∃ run, cmdCat disk bootSector stackBehind args = some run ∧
        ShowsFile disk bootSector count (fatFormatName args) run.prints) ↔
      ∀ i < count,
        (fatDirent (rootSector disk bootSector) i).name = fatFormatName args →
        (fatDirent (rootSector disk bootSector) i).firstClusterLo ≠ 0 := by
  have nonzero := fatFormatName_ne_zero args
  have traps : (fatBpb bootSector).bytesPerSector ≠ 0 := by omega
  constructor
  · rintro ⟨run, success, shows⟩ i used named empty
    have lookup := ordinary.find_named nonzero used named
    have nothing : cmdCat disk bootSector stackBehind args =
        some ⟨[notFound], []⟩ :=
      cmdCat_notFound nonempty (by rw [lookup]; exact empty)
    rw [success, Option.some.injEq] at nothing
    exact shows.missing.mp (by rw [nothing]) i used named
  · intro holds
    by_cases missing : ∀ i < count,
        (fatDirent (rootSector disk bootSector) i).name ≠ fatFormatName args
    · have lookup := ordinary.find_missing nonzero missing
      refine ⟨_, cmdCat_notFound nonempty (by rw [lookup]), ?_, ?_⟩
      · exact iff_of_true rfl missing
      · intro i used named
        exact absurd named (missing i used)
    · simp only [not_forall, not_not] at missing
      obtain ⟨i, used, named⟩ := missing
      have lookup := ordinary.find_named nonzero used named
      have cluster := holds i used named
      exact ⟨_, cmdCat_prints nonempty lookup cluster traps,
        showsFile_named sectorSize ordinary used named cluster⟩

def helloName : List UInt8 :=
  [0x48, 0x45, 0x4C, 0x4C, 0x4F, 0x20, 0x20, 0x20, 0x20, 0x20, 0x20]

def twoFiles : List UInt8 :=
  direntBytes helloName 0x20 3 7 ++ direntBytes readmeName 0x20 2 5

def twoFilesDisk : Disk :=
  twoSectors formattedBoot fun i => twoFiles.getD i 0

def emptyFile : List UInt8 :=
  direntBytes helloName 0x20 3 7 ++ direntBytes readmeName 0x20 0 0

def emptyFileDisk : Disk :=
  twoSectors formattedBoot fun i => emptyFile.getD i 0

theorem byteAt_behind {bytes : List UInt8} {i : Nat} (k : Nat)
    (behind : bytes.length ≤ 32 * i) :
    byteAt (fun n => bytes.getD n 0) (32 * i + k) = 0 := by
  rw [byteAt]
  split
  · exact List.getD_eq_default _ _ (by simp only; omega)
  · rfl

theorem ordinaryRoot_twoFiles :
    OrdinaryRoot (rootSector twoFilesDisk (fatInit twoFilesDisk)) 2 := by
  rw [twoFilesDisk, rootSector_formatted]
  refine ⟨by decide, by decide, by decide, by decide, by decide, by decide, ?_⟩
  intro i later _ k _
  apply byteAt_behind
  change 64 ≤ 32 * i
  omega

theorem ordinaryRoot_emptyFile :
    OrdinaryRoot (rootSector emptyFileDisk (fatInit emptyFileDisk)) 2 := by
  rw [emptyFileDisk, rootSector_formatted]
  refine ⟨by decide, by decide, by decide, by decide, by decide, by decide, ?_⟩
  intro i later _ k _
  apply byteAt_behind
  change 64 ≤ 32 * i
  omega

theorem cmdCat_plainReadme :
    ((fatBpb (fatInit twoFilesDisk)).bytesPerSector = 512 ∧
      OrdinaryRoot (rootSector twoFilesDisk (fatInit twoFilesDisk)) 2 ∧
      readmeInput.bytes ≠ []) ∧
    ∃ run, cmdCat twoFilesDisk (fatInit twoFilesDisk) (fun _ => 0)
        readmeInput = some run ∧
      ShowsFile twoFilesDisk (fatInit twoFilesDisk) 2
        (fatFormatName readmeInput) run.prints := by
  have sectorSize : (fatBpb (fatInit twoFilesDisk)).bytesPerSector = 512 := by
    decide
  have nonempty : readmeInput.bytes ≠ [] := by decide
  refine ⟨⟨sectorSize, ordinaryRoot_twoFiles, nonempty⟩, ?_⟩
  apply (cmdCat_showsFile_iff twoFilesDisk (fatInit twoFilesDisk) (fun _ => 0)
    readmeInput 2 sectorSize ordinaryRoot_twoFiles nonempty).mpr
  decide

theorem cmdCat_emptyFile :
    ((fatBpb (fatInit emptyFileDisk)).bytesPerSector = 512 ∧
      OrdinaryRoot (rootSector emptyFileDisk (fatInit emptyFileDisk)) 2 ∧
      readmeInput.bytes ≠ []) ∧
    ¬ ∃ run, cmdCat emptyFileDisk (fatInit emptyFileDisk) (fun _ => 0)
        readmeInput = some run ∧
      ShowsFile emptyFileDisk (fatInit emptyFileDisk) 2
        (fatFormatName readmeInput) run.prints := by
  refine ⟨⟨by decide, ordinaryRoot_emptyFile, by decide⟩, ?_⟩
  rintro ⟨run, success, shows⟩
  have lookup : fatFindFile emptyFileDisk (fatInit emptyFileDisk)
      (fatFormatName readmeInput) = ⟨0, some 0⟩ := by decide
  rw [cmdCat_notFound (by decide) (by rw [lookup])] at success
  cases success
  exact shows.missing.mp rfl 1 (by decide) (by decide)

end Lumie.CatFile
