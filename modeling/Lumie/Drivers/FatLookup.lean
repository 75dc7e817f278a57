import Lumie.Drivers.Fat

/-!
# Lookup against the listing

The listing shows an entry exactly when it is visible: in front of the
terminator, not deleted, and without the volume-label bit.  The lookup compares
names only.  The two agree on a directory exactly when no hidden entry of the
wanted name shadows the first visible one with other file data.
-/

set_option autoImplicit false

namespace Lumie.FatLookup

open FirstIndex
open Lumie.Strings Lumie.Ata Lumie.Fat

/-- No entry at or before this one ends the directory, it is not deleted and
it is not a volume label. -/
def Visible (buf : Sector) (i : Nat) : Prop :=
  (∀ k ≤ i, (fatDirent buf k).firstByte ≠ 0x00) ∧
    (fatDirent buf i).firstByte ≠ 0xE5 ∧ (fatDirent buf i).attr &&& 0x08 = 0

instance (buf : Sector) : DecidablePred (Visible buf) :=
  fun _ => inferInstanceAs (Decidable (_ ∧ _))

def NamedAt (buf : Sector) (name : FatName) (i : Nat) : Prop :=
  ∀ k, (fatDirent buf i).name k = name k

instance (buf : Sector) (name : FatName) : DecidablePred (NamedAt buf name) :=
  fun _ => inferInstanceAs (Decidable (∀ _, _))

def VisibleNamed (buf : Sector) (name : FatName) (i : Nat) : Prop :=
  Visible buf i ∧ NamedAt buf name i

instance (buf : Sector) (name : FatName) :
    DecidablePred (VisibleNamed buf name) :=
  fun _ => inferInstanceAs (Decidable (_ ∧ _))

def foundAt (buf : Sector) (i : Nat) : FindReturn :=
  ⟨(fatDirent buf i).firstClusterLo, some (fatDirent buf i).fileSize⟩

/-- The lookup that answers with the first visible entry of the name, and
with nothing when there is none. -/
structure FindsFirstVisible (buf : Sector) (name : FatName)
    (result : FindReturn) : Prop where
  found : ∀ v, IsFirst (VisibleNamed buf name) 16 v → result = foundAt buf v
  missing : (∀ i < 16, ¬ VisibleNamed buf name i) → result = ⟨0, none⟩

/-- The first entry of the name, hidden or not, is visible, or it carries the
cluster and size of the first visible entry of the name. -/
def NotShadowed (buf : Sector) (name : FatName) : Prop :=
  ∀ h, IsFirst (NamedAt buf name) 16 h →
    Visible buf h ∨
      ∃ v, IsFirst (VisibleNamed buf name) 16 v ∧
        (fatDirent buf h).firstClusterLo = (fatDirent buf v).firstClusterLo ∧
        (fatDirent buf h).fileSize = (fatDirent buf v).fileSize

/-! ## The listing prints the visible entries -/

theorem listedEntries_eq_filter (buf : Sector) (count start : Nat)
    (open_before : ∀ k < start, (fatDirent buf k).firstByte ≠ 0x00) :
    listedEntries buf (List.range' start count) =
      (List.range' start count).filter (fun i => decide (Visible buf i)) := by
  induction count generalizing start with
  | zero => rfl
  | succ count ih =>
      rw [List.range'_succ, listedEntries]
      by_cases ended : (fatDirent buf start).firstByte = 0x00
      · rw [if_pos ended]
        symm
        rw [List.filter_eq_nil_iff]
        intro i member
        have reached : start ≤ i := by
          rcases List.mem_cons.mp member with rfl | later
          · exact Nat.le_refl _
          · exact Nat.le_of_succ_le (List.mem_range'_1.mp later).1
        simp only [decide_eq_true_eq]
        intro visible
        exact visible.1 start reached ended
      · have stillOpen : ∀ k < start + 1, (fatDirent buf k).firstByte ≠ 0x00 := by
          intro k bound
          rcases Nat.lt_succ_iff_lt_or_eq.mp bound with earlier | rfl
          · exact open_before k earlier
          · exact ended
        have opened : ∀ k ≤ start, (fatDirent buf k).firstByte ≠ 0x00 :=
          fun k bound => stillOpen k (by omega)
        have rest := ih (start + 1) stillOpen
        rw [if_neg ended, rest, List.filter_cons]
        by_cases deleted : (fatDirent buf start).firstByte = 0xE5
        · have hidden : ¬ Visible buf start := fun visible => visible.2.1 deleted
          simp [deleted, hidden]
        · by_cases label : (fatDirent buf start).attr &&& 0x08 = 0
          · have shown : Visible buf start := ⟨opened, deleted, label⟩
            simp [deleted, label, shown]
          · have hidden : ¬ Visible buf start := fun visible => label visible.2.2
            simp [deleted, label, hidden]

theorem fatListFiles_eq_visible (disk : Disk) (bootSector : Sector) :
    fatListFiles disk bootSector =
      ((List.range 16).filter
        (fun i => decide (Visible (rootSector disk bootSector) i))).flatMap
          fun i => printEntry (fatDirent (rootSector disk bootSector) i) := by
  have listed := listedEntries_eq_filter (rootSector disk bootSector) 16 0
    (by omega)
  rw [← List.range_eq_range'] at listed
  rw [fatListFiles, listed]

/-! ## The lookup -/

theorem namedAt_iff_matchesAt {buf : Sector} {name : FatName}
    (ascii : ∀ i, (name i).toNat < 128) (i : Nat) :
    NamedAt buf name i ↔ MatchesAt buf name i :=
  (fatNameMatch_ascii_iff ascii).symm

theorem fatFindFile_of_firstNamed {disk : Disk} {bootSector : Sector}
    {name : FatName} (ascii : ∀ i, (name i).toNat < 128) {h : Nat}
    (first : IsFirst (NamedAt (rootSector disk bootSector) name) 16 h) :
    fatFindFile disk bootSector name =
      foundAt (rootSector disk bootSector) h := by
  refine fatFindFile_of_first ⟨first.below, ?_, ?_⟩
  · exact (namedAt_iff_matchesAt ascii h).mp first.meets
  · intro earlier lower matched
    exact first.least earlier lower
      ((namedAt_iff_matchesAt ascii earlier).mpr matched)

theorem fatFindFile_of_noneNamed {disk : Disk} {bootSector : Sector}
    {name : FatName} (ascii : ∀ i, (name i).toNat < 128)
    (missing : ∀ i < 16, ¬ NamedAt (rootSector disk bootSector) name i) :
    fatFindFile disk bootSector name = ⟨0, none⟩ := by
  apply fatFindFile_of_none
  intro i below matched
  exact missing i below ((namedAt_iff_matchesAt ascii i).mpr matched)

theorem notShadowed_of_finds {disk : Disk} {bootSector : Sector}
    {name : FatName} (ascii : ∀ i, (name i).toNat < 128)
    (finds : FindsFirstVisible (rootSector disk bootSector) name
      (fatFindFile disk bootSector name)) :
    NotShadowed (rootSector disk bootSector) name := by
  intro h first
  rw [fatFindFile_of_firstNamed ascii first] at finds
  rcases isFirst_or_none
    (VisibleNamed (rootSector disk bootSector) name) 16 with
    ⟨v, visible⟩ | missing
  · have same := finds.found v visible
    simp only [foundAt, FindReturn.mk.injEq, Option.some.injEq] at same
    exact Or.inr ⟨v, visible, same⟩
  · -- an unlisted name must not be found, but the hidden entry is
    have nothing := finds.missing missing
    simp [foundAt] at nothing

theorem finds_of_notShadowed {disk : Disk} {bootSector : Sector}
    {name : FatName} (ascii : ∀ i, (name i).toNat < 128)
    (unshadowed : NotShadowed (rootSector disk bootSector) name) :
    FindsFirstVisible (rootSector disk bootSector) name
      (fatFindFile disk bootSector name) := by
  rcases isFirst_or_none (NamedAt (rootSector disk bootSector) name) 16 with
    ⟨h, first⟩ | missing
  · rw [fatFindFile_of_firstNamed ascii first]
    rcases unshadowed h first with visible | ⟨v, visible, cluster, size⟩
    · have firstVisible :
          IsFirst (VisibleNamed (rootSector disk bootSector) name) 16 h :=
        ⟨first.below, ⟨visible, first.meets⟩,
          fun earlier lower both => first.least earlier lower both.2⟩
      refine ⟨?_, ?_⟩
      · intro v other
        rw [isFirst_unique firstVisible other]
      · intro missing
        exact absurd firstVisible.meets (missing h first.below)
    · refine ⟨?_, ?_⟩
      · intro w other
        rw [isFirst_unique other visible]
        simp [foundAt, cluster, size]
      · intro missing
        exact absurd visible.meets (missing v visible.below)
  · rw [fatFindFile_of_noneNamed ascii missing]
    refine ⟨?_, fun _ => rfl⟩
    intro v visible
    exact absurd visible.meets.2 (missing v visible.below)

/-- For every root directory and every ASCII name that formatting yields, the
lookup finds the first visible entry exactly when that entry is not
shadowed. -/
theorem fatFindFile_firstVisible_iff (disk : Disk) (bootSector : Sector)
    (input : CString)
    (ascii : ∀ i, (fatFormatName input i).toNat < 128) :
    FindsFirstVisible (rootSector disk bootSector) (fatFormatName input)
        (fatFindFile disk bootSector (fatFormatName input)) ↔
      NotShadowed (rootSector disk bootSector) (fatFormatName input) := by
  constructor
  · exact notShadowed_of_finds ascii
  · exact finds_of_notShadowed ascii

def direntBytes (name : List UInt8) (attr cluster size : UInt8) : List UInt8 :=
  name ++ [attr] ++ List.replicate 14 0 ++ [cluster, 0, size, 0, 0, 0]

def readmeName : List UInt8 :=
  [0x52, 0x45, 0x41, 0x44, 0x4D, 0x45, 0x20, 0x20, 0x20, 0x20, 0x20]

def readmeInput : CString := ⟨[0x52, 0x45, 0x41, 0x44, 0x4D, 0x45], by simp⟩

def plainRoot : Sector := fun i =>
  (direntBytes readmeName 0x20 2 5).getD i 0

def labelledRoot : Sector := fun i =>
  (direntBytes readmeName 0x08 0 0 ++
    direntBytes readmeName 0x20 2 5).getD i 0

def plainDisk : Disk := twoSectors formattedBoot plainRoot

def labelledDisk : Disk := twoSectors formattedBoot labelledRoot

theorem fatFindFile_plain :
    FindsFirstVisible (rootSector plainDisk (fatInit plainDisk))
      (fatFormatName readmeInput)
      (fatFindFile plainDisk (fatInit plainDisk)
        (fatFormatName readmeInput)) := by
  refine (fatFindFile_firstVisible_iff plainDisk (fatInit plainDisk)
    readmeInput (by decide)).mpr ?_
  have root : rootSector plainDisk (fatInit plainDisk) = plainRoot :=
    rootSector_formatted plainRoot
  rw [root]
  intro h first
  have only : IsFirst (NamedAt plainRoot (fatFormatName readmeInput)) 16 0 := by
    refine ⟨by decide, by decide, ?_⟩
    intro earlier lower
    omega
  rw [isFirst_unique first only]
  exact Or.inl (by decide)

theorem fatFindFile_labelled :
    ¬ FindsFirstVisible (rootSector labelledDisk (fatInit labelledDisk))
      (fatFormatName readmeInput)
      (fatFindFile labelledDisk (fatInit labelledDisk)
        (fatFormatName readmeInput)) := by
  have root : rootSector labelledDisk (fatInit labelledDisk) = labelledRoot :=
    rootSector_formatted labelledRoot
  intro finds
  rw [root] at finds
  have file : IsFirst (VisibleNamed labelledRoot (fatFormatName readmeInput))
      16 1 := by
    refine ⟨by decide, by decide, ?_⟩
    intro earlier lower
    obtain rfl : earlier = 0 := by omega
    decide
  have wanted := finds.found 1 file
  revert wanted
  decide

end Lumie.FatLookup
