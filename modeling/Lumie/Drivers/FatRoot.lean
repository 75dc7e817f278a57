import Lumie.Drivers.FatLookup
import Mathlib.Data.List.Flatten

/-!
# The whole root directory

A root directory has as many entries as the boot sector says, sixteen to a
sector, in consecutive sectors.  Both scans of the driver look at the first
sector only.
-/

set_option autoImplicit false

namespace Lumie.FatRoot

open FirstIndex
open Lumie.Strings Lumie.Ata Lumie.Fat Lumie.FatLookup

def rootDirent (disk : Disk) (bootSector : Sector) (e : Nat) : FatDirent :=
  fatDirent (ataReadSector disk (rootLba (fatBpb bootSector) + e / 16)) (e % 16)

/-- An entry in front of the end of the directory that is neither deleted nor
a volume label. -/
def InRoot (disk : Disk) (bootSector : Sector) (e : Nat) : Prop :=
  (∀ k ≤ e, (rootDirent disk bootSector k).firstByte ≠ 0x00) ∧
    (rootDirent disk bootSector e).firstByte ≠ 0xE5 ∧
    (rootDirent disk bootSector e).attr &&& 0x08 = 0

instance (disk : Disk) (bootSector : Sector) :
    DecidablePred (InRoot disk bootSector) :=
  fun _ => inferInstanceAs (Decidable (_ ∧ _))

def rootListing (disk : Disk) (bootSector : Sector) : List Nat :=
  (List.range (fatBpb bootSector).rootEntries).filter
    fun e => decide (InRoot disk bootSector e)

/-- Every entry of the directory is printed, and the first one of an ASCII
name is the one that is found. -/
structure ServesRoot (disk : Disk) (bootSector : Sector) : Prop where
  prints : ((rootListing disk bootSector).flatMap fun e =>
    printEntry (rootDirent disk bootSector e)).Sublist
      (fatListFiles disk bootSector)
  finds : ∀ e ∈ rootListing disk bootSector,
    (∀ k, ((rootDirent disk bootSector e).name k).toNat < 128) →
    (∀ f < e, InRoot disk bootSector f →
      (rootDirent disk bootSector f).name ≠
        (rootDirent disk bootSector e).name) →
    fatFindFile disk bootSector (rootDirent disk bootSector e).name =
      ⟨(rootDirent disk bootSector e).firstClusterLo,
        some (rootDirent disk bootSector e).fileSize⟩

/-- No entry of the directory stands behind its first sector, and none has a
hidden entry of its name with other data in front of it. -/
structure FirstSectorOnly (disk : Disk) (bootSector : Sector) : Prop where
  noneBehind : ∀ e ∈ rootListing disk bootSector, e < 16
  unshadowed : ∀ e ∈ rootListing disk bootSector,
    (∀ k, ((rootDirent disk bootSector e).name k).toNat < 128) →
    (∀ f < e, InRoot disk bootSector f →
      (rootDirent disk bootSector f).name ≠
        (rootDirent disk bootSector e).name) →
    ∀ h, IsFirst (fun i => (rootDirent disk bootSector i).name =
        (rootDirent disk bootSector e).name) 16 h →
      (rootDirent disk bootSector h).firstClusterLo =
          (rootDirent disk bootSector e).firstClusterLo ∧
        (rootDirent disk bootSector h).fileSize =
          (rootDirent disk bootSector e).fileSize

/-! ## The first sector -/

section Sector

variable {disk : Disk} {bootSector : Sector}

theorem rootDirent_first {i : Nat} (below : i < 16) :
    rootDirent disk bootSector i =
      fatDirent (rootSector disk bootSector) i := by
  rw [rootDirent, Nat.div_eq_of_lt below, Nat.mod_eq_of_lt below, Nat.add_zero]
  rfl

theorem inRoot_first {i : Nat} (below : i < 16) :
    InRoot disk bootSector i ↔ Visible (rootSector disk bootSector) i := by
  unfold InRoot Visible
  rw [rootDirent_first below]
  refine and_congr_left fun _ => forall₂_congr fun k bound => ?_
  rw [rootDirent_first (by omega)]

theorem fatListFiles_eq_inRoot (disk : Disk) (bootSector : Sector) :
    fatListFiles disk bootSector =
      ((List.range 16).filter
        fun e => decide (InRoot disk bootSector e)).flatMap
          fun e => printEntry (rootDirent disk bootSector e) := by
  have same : (List.range 16).filter
        (fun i => decide (Visible (rootSector disk bootSector) i)) =
      (List.range 16).filter fun e => decide (InRoot disk bootSector e) := by
    apply List.filter_congr
    intro i member
    rw [decide_eq_decide]
    exact (inRoot_first (List.mem_range.mp member)).symm
  rw [fatListFiles_eq_visible, same]
  apply List.flatMap_congr
  intro i member
  have below := List.mem_range.mp (List.mem_filter.mp member).1
  rw [rootDirent_first below]

theorem printEntry_length (entry : FatDirent) :
    (printEntry entry).length = 13 := by
  simp [printEntry]

theorem listing_length (entries : List Nat) :
    (entries.flatMap fun e =>
      printEntry (rootDirent disk bootSector e)).length =
        entries.length * 13 := by
  induction entries with
  | nil => rfl
  | cons e rest ih =>
      rw [List.flatMap_cons, List.length_append, ih, printEntry_length,
        List.length_cons]
      ring

/-- Of a directory longer than a sector, the scan of the first sector sees what
remains when the rest is taken away. -/
theorem rootListing_split (disk : Disk) {more : Nat}
    (entries : (fatBpb bootSector).rootEntries = 16 + more) :
    rootListing disk bootSector =
      (List.range 16).filter (fun e => decide (InRoot disk bootSector e)) ++
        ((List.range more).map (16 + ·)).filter
          fun e => decide (InRoot disk bootSector e) := by
  rw [rootListing, entries, List.range_add, List.filter_append]

theorem rootListing_sublist
    (noneBehind : ∀ e ∈ rootListing disk bootSector, e < 16) :
    (rootListing disk bootSector).Sublist
      ((List.range 16).filter fun e => decide (InRoot disk bootSector e)) := by
  by_cases long : 16 ≤ (fatBpb bootSector).rootEntries
  · obtain ⟨more, entries⟩ := Nat.exists_eq_add_of_le long
    have split := rootListing_split disk entries
    have nothing : ((List.range more).map (16 + ·)).filter
        (fun e => decide (InRoot disk bootSector e)) = [] := by
      rw [List.eq_nil_iff_forall_not_mem]
      intro e member
      have inside := noneBehind e (by rw [split]; simp [member])
      obtain ⟨k, -, rfl⟩ := List.mem_map.mp (List.mem_filter.mp member).1
      omega
    rw [split, nothing, List.append_nil]
  · exact (List.range_sublist.mpr (by omega)).filter _

theorem noneBehind_of_prints
    (prints : ((rootListing disk bootSector).flatMap fun e =>
      printEntry (rootDirent disk bootSector e)).Sublist
        (fatListFiles disk bootSector)) :
    ∀ e ∈ rootListing disk bootSector, e < 16 := by
  intro e member
  by_contra behind
  have counted : e < (fatBpb bootSector).rootEntries :=
    List.mem_range.mp (List.mem_filter.mp member).1
  obtain ⟨more, entries⟩ :=
    Nat.exists_eq_add_of_le (show 16 ≤ (fatBpb bootSector).rootEntries by omega)
  have split := rootListing_split disk entries
  have lengths := prints.length_le
  rw [fatListFiles_eq_inRoot, listing_length, listing_length, split,
    List.length_append] at lengths
  have later : e ∈ ((List.range more).map (16 + ·)).filter
      fun e => decide (InRoot disk bootSector e) := by
    rw [split] at member
    rcases List.mem_append.mp member with early | late
    · exact absurd (List.mem_range.mp (List.mem_filter.mp early).1) behind
    · exact late
  have positive := List.length_pos_of_mem later
  omega

theorem fatFindFile_of_firstRoot {name : FatName}
    (ascii : ∀ k, (name k).toNat < 128) {h : Nat}
    (first : IsFirst (fun i => (rootDirent disk bootSector i).name = name)
      16 h) :
    fatFindFile disk bootSector name =
      ⟨(rootDirent disk bootSector h).firstClusterLo,
        some (rootDirent disk bootSector h).fileSize⟩ := by
  have named : ∀ i < 16, (rootDirent disk bootSector i).name = name ↔
      NamedAt (rootSector disk bootSector) name i := by
    intro i below
    rw [rootDirent_first below, funext_iff]
    rfl
  have below := first.below
  have scan : IsFirst (NamedAt (rootSector disk bootSector) name) 16 h := by
    refine ⟨below, (named h below).mp first.meets, ?_⟩
    intro earlier lower found
    exact first.least earlier lower ((named earlier (by omega)).mpr found)
  rw [fatFindFile_of_firstNamed ascii scan, foundAt, rootDirent_first below]

end Sector

/-- The driver serves the root directory exactly when all of it stands in the
first sector and nothing hidden shadows it. -/
theorem servesRoot_iff (disk : Disk) (bootSector : Sector) :
    ServesRoot disk bootSector ↔ FirstSectorOnly disk bootSector := by
  constructor
  · intro serves
    refine ⟨noneBehind_of_prints serves.prints, ?_⟩
    intro e member ascii fresh h first
    have found := serves.finds e member ascii fresh
    rw [fatFindFile_of_firstRoot ascii first, FindReturn.mk.injEq,
      Option.some.injEq] at found
    exact found
  · intro within
    refine ⟨?_, ?_⟩
    · rw [fatListFiles_eq_inRoot]
      exact (rootListing_sublist within.noneBehind).flatMap _
    · intro e member ascii fresh
      have below := within.noneBehind e member
      obtain ⟨h, -, first⟩ : ∃ h ≤ e, IsFirst (fun i =>
          (rootDirent disk bootSector i).name =
            (rootDirent disk bootSector e).name) 16 h :=
        exists_isFirst below rfl
      obtain ⟨cluster, size⟩ := within.unshadowed e member ascii fresh h first
      rw [fatFindFile_of_firstRoot ascii first, cluster, size]

def wideRootBoot : Sector := fun i =>
  if i.val = 12 ∨ i.val = 18 then 2 else if i.val = 14 then 1 else 0

def sixteenFiles : Sector := fun i =>
  if i.val % 32 = 0 then UInt8.ofNat (0x41 + i.val / 32)
  else if i.val % 32 < 11 then 0x20 else 0

def wideRootDisk : Disk := fun lba =>
  if lba = 0 then wideRootBoot
  else if lba = 1 then sixteenFiles else plainRoot

theorem wideRoot_not_served :
    (fatBpb (fatInit wideRootDisk)).bytesPerSector = 512 ∧
      ¬ ServesRoot wideRootDisk (fatInit wideRootDisk) := by
  refine ⟨by decide, ?_⟩
  intro serves
  have seventeenth : 16 ∈ rootListing wideRootDisk (fatInit wideRootDisk) := by
    refine List.mem_filter.mpr ⟨List.mem_range.mpr (by decide), ?_⟩
    decide
  have below := noneBehind_of_prints serves.prints 16 seventeenth
  omega

end Lumie.FatRoot
