import Lumie.Drivers.Fat
import Lumie.Drivers.TarArchive

/-!
# The listing of the ramdisk

`tar_list_files` repeats the walk of `tar_get_file` without its early exit.
`Walk` is the sequence of headers that both of them pass, on any memory; the
listing prints the names of that sequence and the lookup returns the first
record of the wanted name in it.
-/

set_option autoImplicit false

namespace Lumie.TarList

open MachineInt WhileLoop
open Lumie.Strings Lumie.Tar Lumie.TarArchive
open Lumie.Fat (PrintCall)

/-- The string that `kprint(header->name)` reads.  There are `2 ^ 64`
addresses, so without a terminator among them it reads for ever. -/
def headerName (mem : Mem) (header : Nat) : Option CString :=
  stringFrom (load mem) (2 ^ 64) header

def namePrints (name : CString) : List PrintCall :=
  [⟨name, 0xFFFF00⟩, ⟨CString.ofString "\n", 0xFFFFFF⟩]

def listBody (mem : Mem) (tarStart : Nat) :
    Nat × List PrintCall → Option ((Nat × List PrintCall) ⊕ List PrintCall)
  | (header, prints) =>
      if load mem header = 0 then some (.inr prints)
      else
        match headerName mem header with
        | none => none
        | some name =>
            match octalToInt mem (header + sizeOffset) with
            | none => none
            | some size =>
                if PastLimit tarStart (nextHeader header size) then
                  some (.inr (prints ++ namePrints name))
                else
                  some (.inl (nextHeader header size, prints ++ namePrints name))

def tarListFiles (fuel : Nat) (mem : Mem) (tarStart : Nat) :
    Option (List PrintCall) :=
  iterate (listBody mem tarStart) fuel (tarStart, [])

/-! ## The records of a walk -/

structure TarRecord where
  header : Nat
  name : CString
  size : Nat

def TarRecord.next (record : TarRecord) : Nat :=
  nextHeader record.header record.size

/-- What both loops read at a header that does not end the walk. -/
structure RecordAt (mem : Mem) (record : TarRecord) : Prop where
  inUse : load mem record.header ≠ 0
  name : headerName mem record.header = some record.name
  size : octalToInt mem (record.header + sizeOffset) = some record.size

inductive Walk (mem : Mem) (tarStart : Nat) : Nat → List TarRecord → Prop
  | empty {header : Nat} (ends : load mem header = 0) :
      Walk mem tarStart header []
  | last {record : TarRecord} (here : RecordAt mem record)
      (past : PastLimit tarStart record.next) :
      Walk mem tarStart record.header [record]
  | step {record : TarRecord} {rest : List TarRecord}
      (here : RecordAt mem record) (within : ¬ PastLimit tarStart record.next)
      (later : Walk mem tarStart record.next rest) :
      Walk mem tarStart record.header (record :: rest)

def NamedBy (name filename : CString) : Prop :=
  name.bytes = filename.bytes ∨ name.bytes = [0x2E, 0x2F] ++ filename.bytes

instance (name filename : CString) : Decidable (NamedBy name filename) :=
  inferInstanceAs (Decidable (_ ∨ _))

def lookupRecord (filename : CString) : List TarRecord → TarReturn
  | [] => ⟨0, none⟩
  | record :: rest =>
      if NamedBy record.name filename then
        ⟨u64 (record.header + 512), some record.size⟩
      else lookupRecord filename rest

/-- The names among the prints, which alone are yellow. -/
def printedNames (prints : List PrintCall) : List CString :=
  (prints.filter fun call => call.color = 0xFFFF00).map PrintCall.str

theorem printedNames_records (records : List TarRecord) :
    printedNames (records.flatMap fun record => namePrints record.name) =
      records.map TarRecord.name := by
  induction records with
  | nil => rfl
  | cons record rest ih =>
      have here : printedNames (namePrints record.name) = [record.name] := by
        simp [printedNames, namePrints]
      rw [printedNames] at here ih ⊢
      rw [List.flatMap_cons, List.filter_append, List.map_append, here, ih]
      rfl

section Walks

variable {mem : Mem} {tarStart : Nat}

theorem RecordAt.held {record : TarRecord} (here : RecordAt mem record) :
    HoldsString (pointerView mem record.header) record.name :=
  stringFrom_holds here.name

theorem listBody_record (tarStart : Nat) {record : TarRecord}
    (here : RecordAt mem record) (prints : List PrintCall) :
    listBody mem tarStart (record.header, prints) =
      if PastLimit tarStart record.next then
        some (.inr (prints ++ namePrints record.name))
      else some (.inl (record.next, prints ++ namePrints record.name)) := by
  simp only [listBody, if_neg here.inUse, here.name, here.size]
  rfl

theorem listBody_cases {header : Nat} {prints : List PrintCall}
    {outcome : (Nat × List PrintCall) ⊕ List PrintCall}
    (turn : listBody mem tarStart (header, prints) = some outcome) :
    (load mem header = 0 ∧ outcome = .inr prints) ∨
      ∃ record, RecordAt mem record ∧ record.header = header := by
  by_cases ends : load mem header = 0
  · rw [listBody, if_pos ends] at turn
    exact Or.inl ⟨ends, (Option.some.inj turn).symm⟩
  · rw [listBody, if_neg ends] at turn
    cases named : headerName mem header with
    | none => simp [named] at turn
    | some name =>
        cases parsed : octalToInt mem (header + sizeOffset) with
        | none => simp [named, parsed] at turn
        | some size =>
            exact Or.inr ⟨⟨header, name, size⟩, ⟨ends, named, parsed⟩, rfl⟩

/-- A listing that ends has printed the names of a walk, by induction on the
turns. -/
theorem walk_of_list {fuel header : Nat} {prints final : List PrintCall}
    (success : iterate (listBody mem tarStart) fuel (header, prints) =
      some final) :
    ∃ records, Walk mem tarStart header records ∧
      final = prints ++ records.flatMap fun record =>
        namePrints record.name := by
  induction fuel generalizing header prints with
  | zero => cases success
  | succ fuel ih =>
      cases turn : listBody mem tarStart (header, prints) with
      | none => simp [iterate, turn] at success
      | some outcome =>
          rcases listBody_cases turn with ⟨ends, rfl⟩ | ⟨record, here, rfl⟩
          · rw [iterate_stop fuel turn] at success
            exact ⟨[], .empty ends, by simpa using success.symm⟩
          · have body := listBody_record tarStart here prints
            by_cases past : PastLimit tarStart record.next
            · rw [if_pos past] at body
              rw [iterate_stop fuel body] at success
              exact ⟨[record], .last here past, by simpa using success.symm⟩
            · rw [if_neg past] at body
              rw [iterate_next fuel body] at success
              obtain ⟨rest, later, shown⟩ := ih success
              refine ⟨record :: rest, .step here past later, ?_⟩
              rw [shown, List.flatMap_cons, List.append_assoc]

theorem tarBody_record (tarStart : Nat) {record : TarRecord}
    (here : RecordAt mem record) (filename : CString) :
    tarBody mem tarStart filename record.header =
      if NamedBy record.name filename then
        some (.inr ⟨u64 (record.header + 512), some record.size⟩)
      else if PastLimit tarStart record.next then some (.inr ⟨0, none⟩)
      else some (.inl record.next) := by
  have named := nameMatches_iff here.held filename
  simp only [tarBody, if_neg here.inUse, here.size, named]
  rfl

theorem lookup_of_walk {header : Nat} {records : List TarRecord}
    (walk : Walk mem tarStart header records) (filename : CString) :
    ∃ fuel, iterate (tarBody mem tarStart filename) fuel header =
      some (lookupRecord filename records) := by
  induction walk with
  | @empty header ends =>
      have stops : tarBody mem tarStart filename header =
          some (.inr ⟨0, none⟩) := by simp [tarBody, ends]
      exact ⟨1, iterate_stop 0 stops⟩
  | @last record here past =>
      have body := tarBody_record tarStart here filename
      rw [if_pos past] at body
      refine ⟨1, ?_⟩
      rw [lookupRecord]
      by_cases named : NamedBy record.name filename
      · rw [if_pos named] at body ⊢
        exact iterate_stop 0 body
      · rw [if_neg named] at body ⊢
        exact iterate_stop 0 body
  | @step record rest here within later ih =>
      have body := tarBody_record tarStart here filename
      rw [if_neg within] at body
      rw [lookupRecord]
      by_cases named : NamedBy record.name filename
      · rw [if_pos named] at body ⊢
        exact ⟨1, iterate_stop 0 body⟩
      · rw [if_neg named] at body ⊢
        obtain ⟨fuel, success⟩ := ih
        exact ⟨fuel + 1, by rw [iterate_next fuel body, success]⟩

end Walks

theorem lookupRecord_first {filename : CString} {before after : List TarRecord}
    {record : TarRecord}
    (others : ∀ other ∈ before, ¬ NamedBy other.name filename)
    (found : NamedBy record.name filename) :
    lookupRecord filename (before ++ record :: after) =
      ⟨u64 (record.header + 512), some record.size⟩ := by
  induction before with
  | nil => rw [List.nil_append, lookupRecord, if_pos found]
  | cons other rest ih =>
      rw [List.cons_append, lookupRecord, if_neg (others other (by simp))]
      exact ih fun next member => others next (by simp [member])

theorem lookupRecord_missing_iff {filename : CString}
    {records : List TarRecord} :
    (lookupRecord filename records).outSize = none ↔
      ∀ record ∈ records, ¬ NamedBy record.name filename := by
  induction records with
  | nil => simp [lookupRecord]
  | cons record rest ih =>
      rw [lookupRecord]
      by_cases found : NamedBy record.name filename
      · simp [found]
      · simp [found, ih]

theorem lookupRecord_missing_null {filename : CString}
    {records : List TarRecord}
    (missing : (lookupRecord filename records).outSize = none) :
    (lookupRecord filename records).ptr = 0 := by
  induction records with
  | nil => rfl
  | cons record rest ih =>
      rw [lookupRecord] at missing ⊢
      by_cases found : NamedBy record.name filename
      · rw [if_pos found] at missing
        cases missing
      · rw [if_neg found] at missing ⊢
        exact ih missing

theorem dataPointer_eq_zero_iff (header : Nat) :
    u64 ((header : Int) + 512) = 0 ↔ header % 2 ^ 64 = 2 ^ 64 - 512 := by
  unfold u64
  omega

/-- Whenever the listing ends, the lookup ends as well: it finds a file exactly
if a printed name is the wanted one, and returns the data address and size of
the first such header, where the address is null only for a header in the last
block of the address space. -/
theorem tarGetFile_listed (mem : Mem) (tarStart fuel : Nat)
    (prints : List PrintCall)
    (ends : tarListFiles fuel mem tarStart = some prints)
    (filename : CString) :
    ∃ records result,
      Walk mem tarStart tarStart records ∧
      printedNames prints = records.map TarRecord.name ∧
      (∃ turns, tarGetFile turns mem tarStart filename = some result) ∧
      (result.outSize ≠ none ↔
        ∃ name ∈ printedNames prints, NamedBy name filename) ∧
      (result.outSize = none → result.ptr = 0) ∧
      ∀ before record after, records = before ++ record :: after →
        (∀ other ∈ before, ¬ NamedBy other.name filename) →
        NamedBy record.name filename →
        result = ⟨u64 (record.header + 512), some record.size⟩ ∧
          (result.ptr = 0 ↔ record.header % 2 ^ 64 = 2 ^ 64 - 512) := by
  obtain ⟨records, walk, shown⟩ := walk_of_list ends
  rw [List.nil_append] at shown
  have names : printedNames prints = records.map TarRecord.name := by
    rw [shown, printedNames_records]
  refine ⟨records, lookupRecord filename records, walk, names,
    lookup_of_walk walk filename, ?_, lookupRecord_missing_null, ?_⟩
  · rw [ne_eq, lookupRecord_missing_iff, names]
    simp
  · intro before record after split others found
    subst split
    rw [lookupRecord_first others found]
    exact ⟨rfl, dataPointer_eq_zero_iff record.header⟩

/-! ## A single name -/

def letterName : CString := ⟨[0x61], by simp⟩

theorem letterName_holds {buffer : View} (first : buffer 0 = 0x61)
    (ends : buffer 1 = 0) : HoldsString buffer letterName := by
  intro k bound
  rcases Nat.lt_or_ge k 1 with zero | later
  · obtain rfl : k = 0 := by omega
    exact first
  · obtain rfl : k = 1 := Nat.le_antisymm bound later
    exact ends

def oneName (header : Nat) : Mem := fun address =>
  if address = header then 0x61 else 0

theorem oneName_record {header : Nat} (pointer : header < 2 ^ 64) :
    RecordAt (oneName header) ⟨header, letterName, 0⟩ := by
  have first : load (oneName header) header = 0x61 := by
    rw [load, Nat.mod_eq_of_lt pointer, oneName, if_pos rfl]
  have behind : ∀ k, 1 ≤ k → k < 512 → load (oneName header) (header + k) = 0 := by
    intro k low high
    rw [load, oneName, if_neg (by omega)]
  refine ⟨?_, ?_, ?_⟩
  · rw [first]
    decide
  · have held : HoldsString (pointerView (oneName header) header) letterName :=
      letterName_holds first (behind 1 (by omega) (by omega))
    exact stringFrom_of_holds letterName held (by decide)
  · have noDigit : ¬ IsOctal (load (oneName header) (header + sizeOffset)) := by
      rw [behind sizeOffset (by decide) (by decide)]
      decide
    have empty : ∀ i < ([] : List UInt8).length,
        load (oneName header) (header + sizeOffset + i) =
          ([] : List UInt8).getD i 0 := fun _ bound => by cases bound
    exact octalToInt_run _ _ [] empty (by simp) noDigit

theorem recordAt_of_header {mem : Mem} {address : Nat} {entry : TarEntry}
    (header : HeaderAt mem address entry) :
    RecordAt mem ⟨address, ⟨entry.name, entry.nameNoNul⟩,
      entry.contents.length⟩ := by
  refine ⟨firstByte_ne_zero header, ?_, header_size header⟩
  have short := entry.nameFits
  refine stringFrom_of_holds ⟨entry.name, entry.nameNoNul⟩ ?_ ?_
  · intro k bound
    rcases Nat.lt_or_eq_of_le bound with inside | rfl
    · exact header.name k inside
    · rw [CString.view, List.getD_eq_default _ _ (Nat.le_refl _)]
      exact header.nameEnd
  · simp only
    omega

def pairPrints : List PrintCall :=
  namePrints ⟨otherEntry.name, otherEntry.nameNoNul⟩ ++
    namePrints ⟨sampleEntry.name, sampleEntry.nameNoNul⟩

theorem pair_lists : tarListFiles 3 pairMem 4096 = some pairPrints := by
  have toSecond : nextHeader 4096 otherEntry.contents.length = 5120 := by decide
  have toZeros : nextHeader 5120 sampleEntry.contents.length = 6144 := by decide
  have first := listBody_record 4096 (recordAt_of_header otherEntry_header) []
  have second := listBody_record 4096 (recordAt_of_header sampleEntry_header)
    (namePrints ⟨otherEntry.name, otherEntry.nameNoNul⟩)
  simp only [TarRecord.next, toSecond] at first
  simp only [TarRecord.next, toZeros] at second
  rw [if_neg (by decide)] at first second
  have zeros : load pairMem 6144 = 0 := by decide
  have ends : listBody pairMem 4096 (6144, pairPrints) =
      some (.inr pairPrints) := by rw [listBody, if_pos zeros]
  rw [tarListFiles, iterate_next 2 first, List.nil_append,
    iterate_next 1 second]
  exact iterate_stop 0 ends

theorem tarGetFile_pair :
    tarListFiles 3 pairMem 4096 = some pairPrints ∧
    ∃ records result,
      Walk pairMem 4096 4096 records ∧
      printedNames pairPrints = records.map TarRecord.name ∧
      (∃ turns, tarGetFile turns pairMem 4096 letterName = some result) ∧
      (result.outSize ≠ none ↔
        ∃ name ∈ printedNames pairPrints, NamedBy name letterName) ∧
      (result.outSize = none → result.ptr = 0) ∧
      ∀ before record after, records = before ++ record :: after →
        (∀ other ∈ before, ¬ NamedBy other.name letterName) →
        NamedBy record.name letterName →
        result = ⟨u64 (record.header + 512), some record.size⟩ ∧
          (result.ptr = 0 ↔ record.header % 2 ^ 64 = 2 ^ 64 - 512) :=
  ⟨pair_lists, tarGetFile_listed pairMem 4096 3 pairPrints pair_lists
    letterName⟩

theorem oneName_lists {header : Nat} (pointer : header < 2 ^ 64) :
    tarListFiles 2 (oneName header) header = some (namePrints letterName) := by
  have aligned : alignedSize 0 = 0 := by decide
  have next : nextHeader header 0 = (header + 512) % 2 ^ 64 := by
    rw [nextHeader, aligned, u64]
    omega
  have within : ¬ PastLimit header (nextHeader header 0) := by
    rw [PastLimit, next, u64]
    omega
  have empty : load (oneName header) (nextHeader header 0) = 0 := by
    rw [load, oneName, next, if_neg (by omega)]
  have turn := listBody_record header (oneName_record pointer) []
  rw [TarRecord.next, if_neg within] at turn
  rw [tarListFiles, iterate_next 1 turn]
  apply iterate_stop 0
  rw [listBody, if_pos empty]
  rfl

/-- A name in the last block of the address space is printed, but the address
of its data is the null pointer. -/
theorem tarGetFile_lastBlock :
    tarListFiles 2 (oneName (2 ^ 64 - 512)) (2 ^ 64 - 512) =
        some (namePrints letterName) ∧
      tarGetFile 1 (oneName (2 ^ 64 - 512)) (2 ^ 64 - 512) letterName =
        some ⟨0, some 0⟩ ∧
      ¬ ∀ fuel prints,
        tarListFiles fuel (oneName (2 ^ 64 - 512)) (2 ^ 64 - 512) =
          some prints →
        ∀ (filename : CString) turns result,
          tarGetFile turns (oneName (2 ^ 64 - 512)) (2 ^ 64 - 512) filename =
            some result →
          (result.ptr ≠ 0 ↔
            ∃ name ∈ printedNames prints, NamedBy name filename) := by
  have listed := oneName_lists (by omega : 2 ^ 64 - 512 < 2 ^ 64)
  have found : tarGetFile 1 (oneName (2 ^ 64 - 512)) (2 ^ 64 - 512) letterName =
      some ⟨0, some 0⟩ := by
    have body := tarBody_record (2 ^ 64 - 512)
      (oneName_record (by omega : 2 ^ 64 - 512 < 2 ^ 64)) letterName
    have named : NamedBy letterName letterName := Or.inl rfl
    rw [if_pos named] at body
    rw [tarGetFile, iterate_stop 0 body]
    rfl
  refine ⟨listed, found, ?_⟩
  intro agrees
  have printed : ∃ name ∈ printedNames (namePrints letterName),
      NamedBy name letterName :=
    ⟨letterName, by simp [printedNames, namePrints], Or.inl rfl⟩
  exact (agrees 2 _ listed letterName 1 _ found).mpr printed rfl

end Lumie.TarList
