import Lumie.Base.FirstIndex
import Lumie.Drivers.Ata
import Lumie.Lib.Strings

/-!
# The FAT driver

`fat.c` over a disk that answers every read.  The packed records are decoded
from their byte offsets; the fields that no function of the driver reads are
left out.  Each directory function reads one sector of sixteen entries.
-/

set_option autoImplicit false

namespace Lumie.Fat

open MachineInt FirstIndex
open Lumie.Strings Lumie.Ata

structure FatBpb where
  bytesPerSector : Nat
  sectorsPerCluster : Nat
  reservedSectors : Nat
  fatCount : Nat
  rootEntries : Nat
  sectorsPerFat : Nat

/-- `(fat_bpb_t*)boot_sector` -/
def fatBpb (bootSector : Sector) : FatBpb where
  bytesPerSector := u16At bootSector 11
  sectorsPerCluster := (byteAt bootSector 13).toNat
  reservedSectors := u16At bootSector 14
  fatCount := (byteAt bootSector 16).toNat
  rootEntries := u16At bootSector 17
  sectorsPerFat := u16At bootSector 22

/-- What `fat_init` leaves in `boot_sector`.  It also reads the first root
sector, into a local that nothing uses. -/
def fatInit (disk : Disk) : Sector := ataReadSector disk 0

/-- The eleven bytes of a name on disk or of a formatted search name. -/
abbrev FatName := Fin 11 → UInt8

structure FatDirent where
  name : FatName
  attr : UInt8
  firstClusterLo : Nat
  fileSize : Nat

def FatDirent.firstByte (dirent : FatDirent) : UInt8 := dirent.name 0

/-- `((fat_dirent_t*)buf)[i]` -/
def fatDirent (buf : Sector) (i : Nat) : FatDirent where
  name := fun j => byteAt buf (32 * i + j)
  attr := byteAt buf (32 * i + 11)
  firstClusterLo := u16At buf (32 * i + 26)
  fileSize := u32At buf (32 * i + 28)

/-! ## Names -/

/-- `c >= 'a' && c <= 'z' ? c - 32 : c` -/
def upperCase (c : UInt8) : UInt8 :=
  if 97 ≤ charVal c ∧ charVal c ≤ 122 then u8 (charVal c - 32) else c

def setByte (output : FatName) (index : Nat) (byte : UInt8) : FatName :=
  fun k => if k.val = index then byte else output k

/-- The first loop: up to eight characters before a dot. -/
def formatBase : List UInt8 → Nat → FatName → FatName
  | [], _, output => output
  | c :: rest, i, output =>
      if c ≠ 0x2E ∧ i < 8 then
        formatBase rest (i + 1) (setByte output i (upperCase c))
      else output

def afterDot : List UInt8 → Option (List UInt8)
  | [] => none
  | c :: rest => if c = 0x2E then some rest else afterDot rest

/-- The last loop: up to three characters behind the dot. -/
def formatExtension : List UInt8 → Nat → FatName → FatName
  | [], _, output => output
  | c :: rest, j, output =>
      if j < 3 then
        formatExtension rest (j + 1) (setByte output (8 + j) (upperCase c))
      else output

def fatFormatName (input : CString) : FatName :=
  let output := formatBase input.bytes 0 (fun _ => 0x20)
  match afterDot input.bytes with
  | some dot => formatExtension dot 0 output
  | none => output

/-- `fat_name[i]` is promoted from `uint8_t`, `search_name[i]` from a signed
`char`. -/
def fatNameMatch (fatName searchName : FatName) : Bool :=
  (List.finRange 11).all fun i =>
    ((fatName i).toNat : Int) == charVal (searchName i)

/-! ## The root directory -/

/-- The operands are `int`s, the sum is stored in a `uint32_t`. -/
def rootLba (bpb : FatBpb) : Nat :=
  u32 (bpb.reservedSectors + bpb.fatCount * bpb.sectorsPerFat)

/-- The sector that `fat_list_files` and `fat_find_file` read into `buf`. -/
def rootSector (disk : Disk) (bootSector : Sector) : Sector :=
  ataReadSector disk (rootLba (fatBpb bootSector))

/-- The indices at which the listing loop prints, with its `break` at a zero
first byte and its two `continue`s. -/
def listedEntries (buf : Sector) : List Nat → List Nat
  | [] => []
  | i :: rest =>
      if (fatDirent buf i).firstByte = 0x00 then []
      else if (fatDirent buf i).firstByte = 0xE5 then listedEntries buf rest
      else if (fatDirent buf i).attr &&& 0x08 ≠ 0 then listedEntries buf rest
      else i :: listedEntries buf rest

structure PrintCall where
  str : CString
  color : Nat

/-- `char s[2] = {c, '\0'};` -/
def charString (c : UInt8) : CString :=
  if zero : c = 0 then CString.empty else ⟨[c], by simpa using zero⟩

def printEntry (entry : FatDirent) : List PrintCall :=
  ((List.finRange 11).take 8).map (fun j => ⟨charString (entry.name j), 0x00FF00⟩) ++
    [⟨charString 0x2E, 0x00FF00⟩] ++
    ((List.finRange 11).drop 8).map (fun j => ⟨charString (entry.name j), 0x00FF00⟩) ++
    [⟨charString 0x0A, 0xFFFFFF⟩]

def fatListFiles (disk : Disk) (bootSector : Sector) : List PrintCall :=
  let buf := rootSector disk bootSector
  (listedEntries buf (List.range 16)).flatMap fun i =>
    printEntry (fatDirent buf i)

/-- The return value of `fat_find_file` and what it stored through
`size_out`, if anything. -/
structure FindReturn where
  cluster : Nat
  sizeOut : Option Nat
  deriving DecidableEq, Repr

def MatchesAt (buf : Sector) (name : FatName) (i : Nat) : Prop :=
  fatNameMatch (fatDirent buf i).name name = true

instance (buf : Sector) (name : FatName) : DecidablePred (MatchesAt buf name) :=
  fun _ => inferInstanceAs (Decidable (_ = true))

def fatFindFile (disk : Disk) (bootSector : Sector) (name : FatName) :
    FindReturn :=
  let buf := rootSector disk bootSector
  match (List.range 16).find? (fun i => decide (MatchesAt buf name i)) with
  | some i => ⟨(fatDirent buf i).firstClusterLo, some (fatDirent buf i).fileSize⟩
  | none => ⟨0, none⟩

/-- The sector number of a cluster.  `cluster - 2` and the product are `int`s,
the division is an `int` division, the sums are `uint32_t`s. -/
def clusterLba (bpb : FatBpb) (cluster : Nat) : Nat :=
  let rootDirSectors := u32 (((bpb.rootEntries : Int) * 32 +
    (bpb.bytesPerSector - 1)).tdiv bpb.bytesPerSector)
  let firstDataSector := u32 (u32 (bpb.reservedSectors +
    bpb.fatCount * bpb.sectorsPerFat) + rootDirSectors)
  u32 (u32 (((cluster : Int) - 2) * bpb.sectorsPerCluster) + firstDataSector)

/-- The sector `fat_read_file` reads into its target; `none` is the divide
error the CPU raises when the boot sector gives no sector size. -/
def fatReadFile (disk : Disk) (bootSector : Sector) (cluster : Nat) :
    Option Sector :=
  if (fatBpb bootSector).bytesPerSector = 0 then none
  else some (ataReadSector disk (clusterLba (fatBpb bootSector) cluster))

/-! ## What the scans find -/

theorem fatNameMatch_iff (fatName searchName : FatName) :
    fatNameMatch fatName searchName = true ↔
      ∀ i, ((fatName i).toNat : Int) = charVal (searchName i) := by
  simp [fatNameMatch]

/-- On ASCII search names the comparison is equality of the eleven bytes. -/
theorem fatNameMatch_ascii_iff {fatName searchName : FatName}
    (ascii : ∀ i, (searchName i).toNat < 128) :
    fatNameMatch fatName searchName = true ↔
      ∀ i, fatName i = searchName i := by
  rw [fatNameMatch_iff]
  refine forall_congr' fun i => ?_
  rw [toNat_eq_charVal_iff]
  exact and_iff_left (ascii i)

/-- So it is on ASCII names of the directory, where a search character of the
upper half is negative and matches nothing. -/
theorem fatNameMatch_asciiEntry_iff {fatName searchName : FatName}
    (ascii : ∀ i, (fatName i).toNat < 128) :
    fatNameMatch fatName searchName = true ↔
      ∀ i, fatName i = searchName i := by
  rw [fatNameMatch_iff]
  refine forall_congr' fun i => ?_
  rw [toNat_eq_charVal_iff]
  exact and_iff_left_of_imp fun same => same ▸ ascii i

theorem upperCase_toNat (c : UInt8) :
    (upperCase c).toNat =
      if 97 ≤ c.toNat ∧ c.toNat ≤ 122 then c.toNat - 32 else c.toNat := by
  unfold upperCase
  by_cases ascii : c.toNat < 128
  · rw [charVal_of_ascii ascii]
    by_cases lower : 97 ≤ c.toNat ∧ c.toNat ≤ 122
    · have value : u8 ((c.toNat : Int) - 32) = u8 ((c.toNat - 32 : Nat) : Int) := by
        rw [Nat.cast_sub (by omega)]
        rfl
      rw [if_pos (by omega), if_pos lower, value, u8_natCast_toNat]
      omega
    · rw [if_neg (by omega), if_neg lower]
  · have negative : charVal c = c.toNat - 256 := by simp [charVal, ascii]
    have bound := c.toNat_lt
    rw [negative, if_neg (by omega), if_neg (by omega)]

theorem upperCase_ne_zero {c : UInt8} (nonzero : c ≠ 0) : upperCase c ≠ 0 := by
  have value := upperCase_toNat c
  rw [ne_eq, ← UInt8.toNat_inj] at nonzero ⊢
  rw [value]
  split <;> simp only [UInt8.toNat_zero] at nonzero ⊢ <;> omega

theorem setByte_ne_zero {output : FatName} (nonzero : ∀ k, output k ≠ 0)
    (index : Nat) {byte : UInt8} (byteNonzero : byte ≠ 0) (k : Fin 11) :
    setByte output index byte k ≠ 0 := by
  unfold setByte
  split
  · exact byteNonzero
  · exact nonzero k

theorem formatBase_ne_zero {input : List UInt8} (noNul : ∀ c ∈ input, c ≠ 0)
    (i : Nat) {output : FatName} (nonzero : ∀ k, output k ≠ 0) (k : Fin 11) :
    formatBase input i output k ≠ 0 := by
  induction input generalizing i output with
  | nil => exact nonzero k
  | cons c rest ih =>
      obtain ⟨nonNul, later⟩ := List.forall_mem_cons.mp noNul
      have upper := upperCase_ne_zero nonNul
      rw [formatBase]
      split
      · exact ih later (i + 1) (setByte_ne_zero nonzero i upper)
      · exact nonzero k

theorem formatExtension_ne_zero {input : List UInt8}
    (noNul : ∀ c ∈ input, c ≠ 0) (j : Nat) {output : FatName}
    (nonzero : ∀ k, output k ≠ 0) (k : Fin 11) :
    formatExtension input j output k ≠ 0 := by
  induction input generalizing j output with
  | nil => exact nonzero k
  | cons c rest ih =>
      obtain ⟨nonNul, later⟩ := List.forall_mem_cons.mp noNul
      have upper := upperCase_ne_zero nonNul
      rw [formatExtension]
      split
      · exact ih later (j + 1) (setByte_ne_zero nonzero (8 + j) upper)
      · exact nonzero k

theorem afterDot_suffix {input dot : List UInt8}
    (found : afterDot input = some dot) : dot <:+ input := by
  induction input with
  | nil => simp [afterDot] at found
  | cons c rest ih =>
      rw [afterDot] at found
      split at found
      · cases found
        exact List.suffix_cons c dot
      · exact (ih found).trans (List.suffix_cons c rest)

/-- Formatting pads with spaces, so no byte of the search name is zero. -/
theorem fatFormatName_ne_zero (input : CString) (k : Fin 11) :
    fatFormatName input k ≠ 0 := by
  have blank : ∀ _ : Fin 11, (0x20 : UInt8) ≠ 0 := fun _ => by decide
  have base := formatBase_ne_zero input.noNul 0 blank
  simp only [fatFormatName]
  cases found : afterDot input.bytes with
  | none => exact base k
  | some dot =>
      have noNul : ∀ c ∈ dot, c ≠ 0 := by
        intro c member
        exact input.noNul c ((afterDot_suffix found).subset member)
      exact formatExtension_ne_zero noNul 0 base k

theorem fatFindFile_of_first {disk : Disk} {bootSector : Sector}
    {name : FatName} {i : Nat}
    (first : IsFirst (MatchesAt (rootSector disk bootSector) name) 16 i) :
    fatFindFile disk bootSector name =
      ⟨(fatDirent (rootSector disk bootSector) i).firstClusterLo,
        some (fatDirent (rootSector disk bootSector) i).fileSize⟩ := by
  have scan := find?_range_eq_some_iff.mpr first
  simp only [fatFindFile, scan]

theorem fatFindFile_of_none {disk : Disk} {bootSector : Sector}
    {name : FatName}
    (missing : ∀ i < 16, ¬ MatchesAt (rootSector disk bootSector) name i) :
    fatFindFile disk bootSector name = ⟨0, none⟩ := by
  have scan := find?_range_eq_none_iff.mpr missing
  simp only [fatFindFile, scan]

def formattedBoot : Sector := fun i =>
  if i.val = 12 then 2
  else if i.val = 13 ∨ i.val = 14 then 1
  else if i.val = 17 then 16 else 0

def twoSectors (bootSector root : Sector) : Disk := fun lba =>
  if lba = 0 then bootSector else root

theorem fatInit_twoSectors (bootSector root : Sector) :
    fatInit (twoSectors bootSector root) = bootSector := by
  rw [fatInit, ataReadSector_of_lt _ (by decide)]
  rfl

theorem rootSector_formatted (root : Sector) :
    rootSector (twoSectors formattedBoot root)
      (fatInit (twoSectors formattedBoot root)) = root := by
  have lba : rootLba (fatBpb formattedBoot) = 1 := by decide
  rw [fatInit_twoSectors, rootSector, lba, ataReadSector_of_lt _ (by decide)]
  rfl

end Lumie.Fat
