import Lumie.Drivers.Tar

/-!
# Lookup in a well-formed archive

A ustar archive as the build lays it out: one 512-byte header for each entry,
its contents padded to whole blocks, and an all-zero block at the end.  Only
the fields the driver reads are constrained.  On such an archive the walk of
`tarGetFile` stands at the header of each entry in turn, so it answers with the
first entry of the wanted name.
-/

set_option autoImplicit false

namespace Lumie.TarArchive

open MachineInt WhileLoop
open Lumie.Strings Lumie.Tar

structure TarEntry where
  name : List UInt8
  contents : List UInt8
  named : name ≠ []
  nameFits : name.length ≤ 99
  nameNoNul : ∀ byte ∈ name, byte ≠ 0
  contentsFit : contents.length < 8 ^ 11

/-- The header block of an entry; every other field is arbitrary. -/
structure HeaderAt (mem : Mem) (address : Nat) (entry : TarEntry) : Prop where
  name : ∀ i < entry.name.length, load mem (address + i) = entry.name.getD i 0
  nameEnd : load mem (address + entry.name.length) = 0
  size : ∃ digits : List UInt8, digits.length = 11 ∧
    (∀ digit ∈ digits, IsOctal digit) ∧
    octalValue digits = entry.contents.length ∧
    ∀ i < 11, load mem (address + sizeOffset + i) = digits.getD i 0
  sizeEnd : load mem (address + sizeOffset + 11) = 0 ∨
    load mem (address + sizeOffset + 11) = 0x20

def ContentsAt (mem : Mem) (address : Nat) (contents : List UInt8) : Prop :=
  ∀ i < contents.length, load mem (address + i) = contents.getD i 0

def paddedLength (length : Nat) : Nat := (length + 511) / 512 * 512

def LaidOut (mem : Mem) : Nat → List TarEntry → Prop
  | address, [] => ∀ i < 512, load mem (address + i) = 0
  | address, entry :: rest =>
      HeaderAt mem address entry ∧
        ContentsAt mem (address + 512) entry.contents ∧
        LaidOut mem (address + 512 + paddedLength entry.contents.length) rest

def archiveLength : List TarEntry → Nat
  | [] => 0
  | entry :: rest =>
      512 + paddedLength entry.contents.length + archiveLength rest

def HeadersWithin (entries : List TarEntry) : Prop :=
  ∀ k < entries.length, archiveLength (entries.take k) ≤ 1024 * 1024 * 10

def TarEntry.Named (filename : CString) (entry : TarEntry) : Prop :=
  entry.name = filename.bytes ∨ entry.name = [0x2E, 0x2F] ++ filename.bytes

instance (filename : CString) (entry : TarEntry) :
    Decidable (entry.Named filename) :=
  inferInstanceAs (Decidable (_ ∨ _))

/-- All of an entry that a lookup may depend on. -/
def TarEntry.label (entry : TarEntry) : List UInt8 × Nat :=
  (entry.name, entry.contents.length)

def archiveLookup (filename : CString) : Nat → List TarEntry → TarReturn
  | _, [] => ⟨0, none⟩
  | address, entry :: rest =>
      if entry.Named filename then ⟨address + 512, some entry.contents.length⟩
      else archiveLookup filename
        (address + 512 + paddedLength entry.contents.length) rest

theorem firstByte_ne_zero {mem : Mem} {address : Nat} {entry : TarEntry}
    (header : HeaderAt mem address entry) : load mem address ≠ 0 := by
  have positive : 0 < entry.name.length :=
    List.length_pos_iff.mpr entry.named
  have first := header.name 0 positive
  rw [Nat.add_zero] at first
  rw [first]
  exact getD_ne_zero entry.nameNoNul positive

theorem header_size {mem : Mem} {address : Nat} {entry : TarEntry}
    (header : HeaderAt mem address entry) :
    octalToInt mem (address + sizeOffset) = some entry.contents.length := by
  obtain ⟨digits, length, octal, value, reads⟩ := header.size
  have ends : ¬ IsOctal (load mem (address + sizeOffset + digits.length)) := by
    rw [length]
    rcases header.sizeEnd with nul | space
    · rw [nul]
      decide
    · rw [space]
      decide
  rw [← value]
  exact octalToInt_digits mem _ digits (by rwa [length]) octal (by omega) ends

theorem header_matches {mem : Mem} {address : Nat} {entry : TarEntry}
    (header : HeaderAt mem address entry) (filename : CString) :
    NameMatches mem address filename ↔ entry.Named filename := by
  have held : HoldsString (pointerView mem address)
      ⟨entry.name, entry.nameNoNul⟩ := by
    intro k bound
    rcases Nat.lt_or_eq_of_le bound with inside | rfl
    · exact header.name k inside
    · rw [CString.view, List.getD_eq_default _ _ (Nat.le_refl _)]
      exact header.nameEnd
  exact nameMatches_iff held filename

theorem nextHeader_eq (address : Nat) {size : Nat} (small : size < 8 ^ 11)
    (below : address + 512 + paddedLength size < 2 ^ 64) :
    nextHeader address size = address + 512 + paddedLength size := by
  have aligned : alignedSize size = paddedLength size := by
    have sum : u64 ((size : Int) + 511) = size + 511 := by
      rw [u64_of_bounds (by omega) (by omega)]
      omega
    rw [alignedSize, sum, u64_natCast (by omega), paddedLength]
  rw [nextHeader, aligned, u64_of_bounds (by omega) (by omega)]
  omega

theorem pastLimit_iff {tarStart header : Nat} (after : tarStart ≤ header)
    (below : header < 2 ^ 64) :
    PastLimit tarStart header ↔ 1024 * 1024 * 10 < header - tarStart := by
  rw [PastLimit, u64_of_bounds (by omega) (by omega)]
  omega

/-! ## The walk -/

theorem tarBody_closing {mem : Mem} {address : Nat} (tarStart : Nat)
    (filename : CString) (closing : load mem address = 0) :
    tarBody mem tarStart filename address = some (.inr ⟨0, none⟩) := by
  simp [tarBody, closing]

theorem tarBody_named {mem : Mem} {address : Nat} {entry : TarEntry}
    (header : HeaderAt mem address entry) (tarStart : Nat)
    {filename : CString} (found : entry.Named filename)
    (below : address + 512 < 2 ^ 64) :
    tarBody mem tarStart filename address =
      some (.inr ⟨address + 512, some entry.contents.length⟩) := by
  have first := firstByte_ne_zero header
  have size := header_size header
  have isNamed := header_matches header filename
  have pointer : u64 ((address : Int) + 512) = address + 512 := by
    rw [u64_of_bounds (by omega) (by omega)]
    omega
  simp [tarBody, first, size, isNamed, found, pointer]

theorem tarBody_other {mem : Mem} {address : Nat} {entry : TarEntry}
    (header : HeaderAt mem address entry) (tarStart : Nat)
    {filename : CString} (different : ¬ entry.Named filename)
    (below : address + 512 + paddedLength entry.contents.length < 2 ^ 64) :
    tarBody mem tarStart filename address =
      if PastLimit tarStart
          (address + 512 + paddedLength entry.contents.length) then
        some (.inr ⟨0, none⟩)
      else some (.inl
        (address + 512 + paddedLength entry.contents.length)) := by
  have first := firstByte_ne_zero header
  have size := header_size header
  have isNamed := header_matches header filename
  have next := nextHeader_eq address entry.contentsFit below
  by_cases past : PastLimit tarStart
      (address + 512 + paddedLength entry.contents.length)
  · simp [tarBody, first, size, isNamed, different, next, past]
  · simp [tarBody, first, size, isNamed, different, next, past]

/-- The walk from the header of an entry, by induction on the entries that are
left.  Offsets are counted from `tarStart`, where the limit is measured. -/
theorem walk_from (mem : Mem) (tarStart : Nat) (filename : CString)
    (entries : List TarEntry) (address : Nat) (after : tarStart ≤ address)
    (laid : LaidOut mem address entries)
    (within : ∀ k < entries.length,
      address - tarStart + archiveLength (entries.take k) ≤ 1024 * 1024 * 10)
    (below : address + archiveLength entries + 512 ≤ 2 ^ 64) :
    ∃ fuel, iterate (tarBody mem tarStart filename) fuel address =
      some (archiveLookup filename address entries) := by
  induction entries generalizing address with
  | nil =>
      have closing : load mem address = 0 := by simpa using laid 0 (by omega)
      exact ⟨1, iterate_stop 0 (tarBody_closing tarStart filename closing)⟩
  | cons entry rest ih =>
      obtain ⟨header, -, later⟩ := laid
      rw [archiveLength] at below
      by_cases found : entry.Named filename
      · have stops := tarBody_named header tarStart found (by omega)
        refine ⟨1, ?_⟩
        rw [iterate_stop 0 stops, archiveLookup, if_pos found]
      · have body := tarBody_other header tarStart found (by omega)
        rw [archiveLookup, if_neg found]
        by_cases past : PastLimit tarStart
            (address + 512 + paddedLength entry.contents.length)
        · rw [if_pos past] at body
          -- only the closing block may lie behind the limit
          have last : rest = [] := by
            cases rest with
            | nil => rfl
            | cons other others =>
                have bound := within 1 (by simp)
                simp only [List.take_succ_cons, List.take_zero, archiveLength]
                  at bound
                have reached := (pastLimit_iff (by omega) (by omega)).mp past
                omega
          refine ⟨1, ?_⟩
          rw [iterate_stop 0 body, last, archiveLookup]
        · rw [if_neg past] at body
          have restWithin : ∀ k < rest.length,
              address + 512 + paddedLength entry.contents.length - tarStart +
                archiveLength (rest.take k) ≤ 1024 * 1024 * 10 := by
            intro k bound
            have outer := within (k + 1) (by simpa using bound)
            simp only [List.take_succ_cons, archiveLength] at outer
            omega
          obtain ⟨fuel, success⟩ :=
            ih (address + 512 + paddedLength entry.contents.length)
              (by omega) later restWithin (by omega)
          exact ⟨fuel + 1, by rw [iterate_next fuel body, success]⟩

theorem archiveLookup_label (filename : CString) (address : Nat)
    (entries others : List TarEntry)
    (labels : entries.map TarEntry.label = others.map TarEntry.label) :
    archiveLookup filename address entries =
      archiveLookup filename address others := by
  induction entries generalizing address others with
  | nil =>
      cases others with
      | nil => rfl
      | cons other rest => simp at labels
  | cons entry rest ih =>
      cases others with
      | nil => simp at labels
      | cons other otherRest =>
          simp only [List.map_cons, List.cons.injEq, TarEntry.label,
            Prod.mk.injEq] at labels
          obtain ⟨⟨name, length⟩, tail⟩ := labels
          have same : entry.Named filename ↔ other.Named filename := by
            simp only [TarEntry.Named, name]
          have later := ih (address + 512 + paddedLength other.contents.length)
            otherRest (by simpa [TarEntry.label] using tail)
          simp only [archiveLookup, same, length, later]

theorem archiveLength_label (entries others : List TarEntry)
    (labels : entries.map TarEntry.label = others.map TarEntry.label) :
    archiveLength entries = archiveLength others := by
  induction entries generalizing others with
  | nil =>
      cases others with
      | nil => rfl
      | cons other rest => simp at labels
  | cons entry rest ih =>
      cases others with
      | nil => simp at labels
      | cons other otherRest =>
          simp only [List.map_cons, List.cons.injEq, TarEntry.label,
            Prod.mk.injEq] at labels
          rw [archiveLength, archiveLength, labels.1.2,
            ih otherRest (by simpa [TarEntry.label] using labels.2)]

theorem archiveLength_append (first second : List TarEntry) :
    archiveLength (first ++ second) =
      archiveLength first + archiveLength second := by
  induction first with
  | nil => simp [archiveLength]
  | cons entry rest ih =>
      rw [List.cons_append, archiveLength, archiveLength, ih]
      omega

theorem archiveLookup_first (filename : CString) (address : Nat)
    (before after : List TarEntry) (entry : TarEntry)
    (others : ∀ other ∈ before, ¬ other.Named filename)
    (found : entry.Named filename) :
    archiveLookup filename address (before ++ entry :: after) =
      ⟨address + archiveLength before + 512,
        some entry.contents.length⟩ := by
  induction before generalizing address with
  | nil => simp [archiveLookup, archiveLength, found]
  | cons other rest ih =>
      obtain ⟨skipped, tail⟩ := List.forall_mem_cons.mp others
      rw [List.cons_append, archiveLookup, if_neg skipped, ih _ tail,
        archiveLength]
      congr 1
      omega

theorem archiveLookup_none_iff (filename : CString) (address : Nat)
    (entries : List TarEntry) :
    archiveLookup filename address entries = ⟨0, none⟩ ↔
      ∀ entry ∈ entries, ¬ entry.Named filename := by
  induction entries generalizing address with
  | nil => simp [archiveLookup]
  | cons entry rest ih =>
      rw [archiveLookup]
      by_cases found : entry.Named filename
      · simp [found]
      · rw [if_neg found, ih]
        simp [found]

theorem laidOut_append (mem : Mem) (address : Nat)
    (before rest : List TarEntry)
    (laid : LaidOut mem address (before ++ rest)) :
    LaidOut mem (address + archiveLength before) rest := by
  induction before generalizing address with
  | nil => simpa [archiveLength] using laid
  | cons other others ih =>
      have tail := ih _ laid.2.2
      rw [archiveLength]
      convert tail using 1
      omega

/-- On a laid-out archive the walk ends with the contents of the first entry
of the wanted name, or with `NULL` when there is none, and the bytes of the
files have no part in it. -/
theorem tarGetFile_laidOut (mem : Mem) (tarStart : Nat)
    (entries : List TarEntry) (filename : CString)
    (laid : LaidOut mem tarStart entries) (within : HeadersWithin entries)
    (below : tarStart + archiveLength entries + 512 ≤ 2 ^ 64) :
    ∃ result,
      (∃ fuel, tarGetFile fuel mem tarStart filename = some result) ∧
      (∀ before entry after, entries = before ++ entry :: after →
        (∀ other ∈ before, ¬ other.Named filename) →
        entry.Named filename →
        result.ptr = tarStart + archiveLength before + 512 ∧
          result.ptr ≠ 0 ∧ result.ptr < 2 ^ 64 ∧
          result.outSize = some entry.contents.length ∧
          ContentsAt mem result.ptr entry.contents) ∧
      (result = ⟨0, none⟩ ↔ ∀ entry ∈ entries, ¬ entry.Named filename) ∧
      (∀ (otherMem : Mem) (others : List TarEntry),
        others.map TarEntry.label = entries.map TarEntry.label →
        LaidOut otherMem tarStart others →
        ∃ fuel, tarGetFile fuel otherMem tarStart filename = some result) := by
  refine ⟨archiveLookup filename tarStart entries, ?_, ?_, ?_, ?_⟩
  · refine walk_from mem tarStart filename entries tarStart (Nat.le_refl _) laid
      ?_ below
    intro k bound
    simpa using within k bound
  · intro before entry after split others found
    subst split
    have inside := (laidOut_append mem tarStart before _ laid).2.1
    have total : archiveLength before + 512 ≤
        archiveLength (before ++ entry :: after) := by
      rw [archiveLength_append, archiveLength]
      omega
    rw [archiveLookup_first filename tarStart before after entry others found]
    refine ⟨rfl, ?_, ?_, rfl, inside⟩
    · simp only
      omega
    · simp only
      omega
  · exact archiveLookup_none_iff filename tarStart entries
  · intro otherMem others labels otherLaid
    rw [← archiveLookup_label filename tarStart others entries labels]
    have lengths := archiveLength_label others entries labels
    refine walk_from otherMem tarStart filename others tarStart (Nat.le_refl _)
      otherLaid ?_ (by omega)
    intro k bound
    have segment := archiveLength_label (others.take k) (entries.take k)
      (by rw [List.map_take, List.map_take, labels])
    have counts : others.length = entries.length := by
      simpa using congrArg List.length labels
    have limit := within k (by omega)
    omega

def sampleEntry : TarEntry where
  name := [0x2E, 0x2F, 0x61]
  contents := [0x68, 0x69]
  named := by decide
  nameFits := by decide
  nameNoNul := by simp
  contentsFit := by decide

def sampleMem : Mem := fun address =>
  if address = 4096 then 0x2E
  else if address = 4097 then 0x2F
  else if address = 4098 then 0x61
  else if 4220 ≤ address ∧ address < 4230 then 0x30
  else if address = 4230 then 0x32
  else if address = 4608 then 0x68
  else if address = 4609 then 0x69
  else 0

def otherEntry : TarEntry where
  name := [0x62]
  contents := [0x78, 0x78, 0x78]
  named := by decide
  nameFits := by decide
  nameNoNul := by simp
  contentsFit := by decide

def pairMem : Mem := fun address =>
  if address = 4096 then 0x62
  else if 4220 ≤ address ∧ address < 4230 then 0x30
  else if address = 4230 then 0x33
  else if 4608 ≤ address ∧ address < 4611 then 0x78
  else sampleMem (address - 1024)

theorem sizeDigits_octal {digit : UInt8} (octal : IsOctal digit) :
    ∀ other ∈ List.replicate 10 0x30 ++ [digit], IsOctal other := by
  intro other member
  rcases List.mem_append.mp member with zero | last
  · rw [List.eq_of_mem_replicate zero]
    decide
  · rw [List.mem_singleton.mp last]
    exact octal

theorem sample_laidOut : LaidOut sampleMem 4096 [sampleEntry] := by
  refine ⟨⟨by decide, by decide, ?_, by decide⟩, by unfold ContentsAt; decide, ?_⟩
  · exact ⟨List.replicate 10 0x30 ++ [0x32], rfl, sizeDigits_octal (by decide),
      by decide, by decide⟩
  · intro i bound
    have length : paddedLength sampleEntry.contents.length = 512 := by decide
    rw [length]
    simp only [load, sampleMem]
    repeat rw [if_neg (by omega)]

theorem otherEntry_header : HeaderAt pairMem 4096 otherEntry :=
  ⟨by decide, by decide, ⟨List.replicate 10 0x30 ++ [0x33], rfl,
    sizeDigits_octal (by decide), by decide, by decide⟩, by decide⟩

theorem sampleEntry_header : HeaderAt pairMem 5120 sampleEntry :=
  ⟨by decide, by decide, ⟨List.replicate 10 0x30 ++ [0x32], rfl,
    sizeDigits_octal (by decide), by decide, by decide⟩, by decide⟩

theorem pair_laidOut : LaidOut pairMem 4096 [otherEntry, sampleEntry] := by
  refine ⟨otherEntry_header, by unfold ContentsAt; decide, sampleEntry_header,
    by unfold ContentsAt; decide, ?_⟩
  intro i bound
  have first : paddedLength otherEntry.contents.length = 512 := by decide
  have second : paddedLength sampleEntry.contents.length = 512 := by decide
  rw [first, second]
  simp only [load, pairMem, sampleMem]
  repeat rw [if_neg (by omega)]

theorem tarGetFile_sample :
    ∃ fuel, tarGetFile fuel pairMem 4096 ⟨[0x61], by simp⟩ =
      some ⟨5632, some 2⟩ := by
  obtain ⟨result, runs, hit, -, -⟩ := tarGetFile_laidOut pairMem 4096
    [otherEntry, sampleEntry] ⟨[0x61], by simp⟩ pair_laidOut
    (by unfold HeadersWithin; decide) (by decide)
  obtain ⟨ptr, -, -, size, -⟩ := hit [otherEntry] sampleEntry [] rfl (by decide)
    (by decide)
  have value : result = ⟨5632, some 2⟩ := by
    obtain ⟨pointer, outSize⟩ := result
    exact congrArg₂ TarReturn.mk ptr size
  rwa [value] at runs

end Lumie.TarArchive
