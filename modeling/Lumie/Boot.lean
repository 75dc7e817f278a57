import Lumie.Drivers.TarArchive
import Lumie.Drivers.TarFields

/-!
# The ramdisk at boot

`kmain` hands the address of the first loaded module to `tar_init` and then
looks up the message of the day.  The driver knows neither whether a module was
loaded nor how long it is, so what its walk may read is decided by the bytes of
the module alone.  `staysInside_iff` gives the archives on which the walk keeps
to the module.
-/

set_option autoImplicit false

namespace Lumie.Boot

open MachineInt WhileLoop
open Lumie.Strings Lumie.Tar Lumie.TarArchive

/-- A file the boot loader has placed in memory.  The pointer one past its end
does not wrap. -/
structure LimineFile where
  address : Nat
  size : Nat
  fits : address + size < 2 ^ 64

def LimineFile.Contains (file : LimineFile) (address length : Nat) : Prop :=
  file.address ≤ address ∧ address + length ≤ file.address + file.size

/-- `modules[0]`, when there is a response with at least one module. -/
def bootModule : Option (List LimineFile) → Option LimineFile
  | some (initFile :: _) => some initFile
  | _ => none

/-- `tar_start` after the call of `tar_init`, if there is one: the variable is
static, so without the call it is null. -/
def kmainTarStart (modules : Option (List LimineFile)) : Nat :=
  match bootModule modules with
  | some initFile => initFile.address
  | none => 0

/-- The headers whose `name[0]` the walk reads. -/
def Inspects (mem : Mem) (modules : Option (List LimineFile))
    (filename : CString) (header : Nat) : Prop :=
  Visits (tarBody mem (kmainTarStart modules) filename)
    (kmainTarStart modules) header

/-- The lookup keeps to the module: every header block it inspects, and the
range it returns, lie inside; with no module it returns `NULL` and inspects
nothing. -/
structure StaysInside (mem : Mem) (modules : Option (List LimineFile))
    (filename : CString) : Prop where
  headers : ∀ initFile, bootModule modules = some initFile →
    ∀ header, Inspects mem modules filename header →
      initFile.Contains header 512
  result : ∀ initFile, bootModule modules = some initFile →
    ∀ fuel result,
      tarGetFile fuel mem (kmainTarStart modules) filename = some result →
      result.ptr ≠ 0 → ∃ size, result.outSize = some size ∧
        initFile.Contains result.ptr size
  noModule : bootModule modules = none →
    (∀ header, ¬ Inspects mem modules filename header) ∧
      ∃ fuel, tarGetFile fuel mem (kmainTarStart modules) filename =
        some ⟨0, none⟩

structure ClosedHeader (mem : Mem) (file : LimineFile) (filename : CString)
    (headers : Set Nat) (header : Nat) : Prop where
  block : file.Contains header 512
  link : load mem header ≠ 0 →
    ∀ size, octalToInt mem (header + sizeOffset) = some size →
      if NameMatches mem header filename then
        file.Contains (header + 512) size
      else PastLimit file.address (nextHeader header size) ∨
        nextHeader header size ∈ headers

/-- The module holds an archive that is closed for this name: a set of whole
header blocks that begins at its first byte and that no link leaves, with the
contents of the named entry inside. -/
def ClosedArchive (mem : Mem) (file : LimineFile) (filename : CString) : Prop :=
  ∃ headers : Set Nat, file.address ∈ headers ∧
    ∀ header ∈ headers, ClosedHeader mem file filename headers header

theorem kmainTarStart_of_module {modules : Option (List LimineFile)}
    {initFile : LimineFile} (loaded : bootModule modules = some initFile) :
    kmainTarStart modules = initFile.address := by
  simp [kmainTarStart, loaded]

theorem contents_pointer {file : LimineFile} {header : Nat}
    (block : file.Contains header 512) :
    u64 ((header : Int) + 512) = header + 512 := by
  have upper := block.2
  have fits := file.fits
  rw [u64_of_bounds (by omega) (by omega)]
  omega

theorem closedArchive_of_staysInside {mem : Mem}
    {modules : Option (List LimineFile)} {filename : CString}
    {initFile : LimineFile} (loaded : bootModule modules = some initFile)
    (stays : StaysInside mem modules filename) :
    ClosedArchive mem initFile filename := by
  have start := kmainTarStart_of_module loaded
  refine ⟨{header | Inspects mem modules filename header}, ?_, ?_⟩
  · rw [← start]
    exact Visits.start
  · intro header seen
    have block := stays.headers initFile loaded header seen
    refine ⟨block, ?_⟩
    intro nonempty size parsed
    by_cases found : NameMatches mem header filename
    · rw [if_pos found]
      have stops := (tarBody_stops_iff mem (kmainTarStart modules) filename
        header ⟨u64 (header + 512), some size⟩).mpr
          (Or.inr ⟨nonempty, size, parsed, Or.inl ⟨found, rfl⟩⟩)
      obtain ⟨fuel, success⟩ := iterate_of_visits seen (iterate_stop 0 stops)
      have pointer := contents_pointer block
      obtain ⟨stored, storedEq, inside⟩ := stays.result initFile loaded fuel _
        success (by simp only [pointer]; omega)
      rw [pointer] at inside
      have sizeEq : size = stored := Option.some.inj storedEq
      rw [sizeEq]
      exact inside
    · rw [if_neg found]
      by_cases past : PastLimit initFile.address (nextHeader header size)
      · exact Or.inl past
      · have moves := (tarBody_moves_iff mem (kmainTarStart modules) filename
          header (nextHeader header size)).mpr
            ⟨nonempty, size, parsed, found, by rwa [start], rfl⟩
        exact Or.inr (Visits.next seen moves)

/-- The walk never leaves a set of headers that is closed for the name. -/
theorem inspects_closed {mem : Mem} {modules : Option (List LimineFile)}
    {filename : CString} {initFile : LimineFile}
    (loaded : bootModule modules = some initFile) {headers : Set Nat}
    (first : initFile.address ∈ headers)
    (closed : ∀ header ∈ headers,
      ClosedHeader mem initFile filename headers header)
    (header : Nat) (seen : Inspects mem modules filename header) :
    ClosedHeader mem initFile filename headers header := by
  have start := kmainTarStart_of_module loaded
  refine visits_iff_closed.mpr ⟨headers, by rwa [start], ?_⟩ header seen
  intro state member
  refine ⟨closed state member, ?_⟩
  intro after moves
  obtain ⟨nonempty, size, parsed, different, within, rfl⟩ :=
    (tarBody_moves_iff mem _ filename state after).mp moves
  have link := (closed state member).link nonempty size parsed
  rw [if_neg different] at link
  exact link.resolve_left (by rwa [start] at within)

theorem staysInside_of_closedArchive {mem : Mem}
    {modules : Option (List LimineFile)} {filename : CString}
    {initFile : LimineFile} (loaded : bootModule modules = some initFile)
    (archive : ClosedArchive mem initFile filename) :
    StaysInside mem modules filename := by
  obtain ⟨headers, first, closed⟩ := archive
  have inspected := inspects_closed loaded first closed
  refine ⟨?_, ?_, ?_⟩
  · intro file same header seen
    obtain rfl : initFile = file := Option.some.inj (loaded.symm.trans same)
    exact (inspected header seen).block
  · intro file same fuel result success nonnull
    obtain rfl : initFile = file := Option.some.inj (loaded.symm.trans same)
    obtain ⟨last, seen, stops⟩ := visits_of_iterate Visits.start success
    have header := inspected last seen
    rcases (tarBody_stops_iff mem _ filename last result).mp stops with
      ⟨-, rfl⟩ | ⟨nonempty, size, parsed, ⟨found, rfl⟩ | ⟨-, -, rfl⟩⟩
    · exact absurd rfl nonnull
    · have link := header.link nonempty size parsed
      rw [if_pos found] at link
      refine ⟨size, rfl, ?_⟩
      rw [contents_pointer header.block]
      exact link
    · exact absurd rfl nonnull
  · intro missing
    rw [loaded] at missing
    cases missing

/-! ## The condition on the bytes -/

/-- The bytes from `start` on are a name and its terminator. -/
def Titled (mem : Mem) (start : Nat) (name : List UInt8) : Prop :=
  ∀ i ≤ name.length, load mem (start + i) = name.getD i 0

def Wanted (mem : Mem) (header : Nat) (filename : CString) : Prop :=
  Titled mem header filename.bytes ∨
    Titled mem header ([0x2E, 0x2F] ++ filename.bytes)

/-- `'0'` to `'7'` -/
def OctalDigit (byte : UInt8) : Prop := 48 ≤ byte.toNat ∧ byte.toNat ≤ 55

structure SizeRun (mem : Mem) (field : Nat) (digits : List UInt8) : Prop where
  reads : ∀ i < digits.length, load mem (field + i) = digits.getD i 0
  octal : ∀ digit ∈ digits, OctalDigit digit
  ends : ¬ OctalDigit (load mem (field + digits.length))

/-- Where a header stands that follows entries with these sizes, each padded to
whole blocks, as an offset of 64 bits. -/
def headerOffset (sizes : List (List UInt8)) : Nat :=
  (sizes.map fun digits => 512 + paddedLength (octalValue digits)).sum % 2 ^ 64

structure PassedEntry (mem : Mem) (file : LimineFile) (filename : CString)
    (sizes : List (List UInt8)) (digits : List UInt8) : Prop where
  block : headerOffset sizes + 512 ≤ file.size
  inUse : load mem (file.address + headerOffset sizes) ≠ 0
  size : SizeRun mem (file.address + headerOffset sizes + sizeOffset) digits
  other : ¬ Wanted mem (file.address + headerOffset sizes) filename
  within : headerOffset (sizes ++ [digits]) ≤ 1024 * 1024 * 10

/-- The header behind these entries is the last one the lookup reads.  A size
field without an end keeps the scan of its digits going for ever. -/
structure LastHeader (mem : Mem) (file : LimineFile) (filename : CString)
    (sizes : List (List UInt8)) : Prop where
  block : headerOffset sizes + 512 ≤ file.size
  ends : load mem (file.address + headerOffset sizes) = 0 ∨
    (∀ i, OctalDigit
      (load mem (file.address + headerOffset sizes + sizeOffset + i))) ∨
    ∃ digits,
      SizeRun mem (file.address + headerOffset sizes + sizeOffset) digits ∧
      ((Wanted mem (file.address + headerOffset sizes) filename ∧
          headerOffset sizes + 512 + octalValue digits % 2 ^ 64 ≤ file.size) ∨
        (¬ Wanted mem (file.address + headerOffset sizes) filename ∧
          1024 * 1024 * 10 < headerOffset (sizes ++ [digits])))

/-- The module begins with entries whose size fields hold these digits, up to
the last header the lookup reads or, where the sizes lead around the address
space, back to an earlier one. -/
structure ModuleArchive (mem : Mem) (file : LimineFile) (filename : CString)
    (sizes : List (List UInt8)) : Prop where
  passed : ∀ before digits, before ++ [digits] <+: sizes →
    PassedEntry mem file filename before digits
  last : LastHeader mem file filename sizes ∨
    ∃ before digits, before ++ [digits] <+: sizes ∧
      headerOffset sizes = headerOffset before

section Fields

variable {mem : Mem}

theorem nameMatches_iff_wanted (header : Nat) (filename : CString) :
    NameMatches mem header filename ↔ Wanted mem header filename := by
  unfold NameMatches Wanted
  rw [strcmp_eq_zero_iff, strcmp_eq_zero_iff]
  refine or_congr Iff.rfl ?_
  constructor
  · rintro ⟨dot, slash, rest⟩ i bound
    match i with
    | 0 => exact dot
    | 1 => exact slash
    | i + 2 =>
        have here := rest i (by simpa using bound)
        rw [pointerView, Nat.add_assoc, Nat.add_comm 2 i] at here
        exact here
  · intro titled
    refine ⟨titled 0 (by simp), titled 1 (by simp), ?_⟩
    intro i bound
    have here := titled (i + 2) (by simpa using bound)
    rw [pointerView, Nat.add_assoc, Nat.add_comm 2 i]
    exact here

theorem octalToInt_of_run {field : Nat} {digits : List UInt8}
    (run : SizeRun mem field digits) :
    octalToInt mem field = some (octalValue digits % 2 ^ 64) :=
  octalToInt_run mem field digits run.reads
    (fun digit member => (isOctal_iff digit).mpr (run.octal digit member))
    (fun octal => run.ends ((isOctal_iff _).mp octal))

theorem octalToInt_none_iff (field : Nat) :
    octalToInt mem field = none ↔ ∀ i, OctalDigit (load mem (field + i)) := by
  rw [octalToInt_eq_none_iff]
  constructor
  · intro never i
    exact (isOctal_iff _).mp
      ((octalLoop_eq_none_iff mem (i + 1) field 0).mp (never _) i (by omega))
  · intro digits fuel
    exact (octalLoop_eq_none_iff mem fuel field 0).mpr
      fun i _ => (isOctal_iff _).mpr (digits i)

theorem run_of_octalToInt {field size : Nat}
    (parsed : octalToInt mem field = some size) :
    ∃ digits, SizeRun mem field digits ∧
      size = octalValue digits % 2 ^ 64 := by
  have finite : ∃ i, ¬ OctalDigit (load mem (field + i)) := by
    by_contra all
    rw [(octalToInt_none_iff field).mpr (by simpa using all)] at parsed
    cases parsed
  obtain ⟨i, other⟩ := finite
  have ends : ∃ k < i + 1, ¬ IsOctal (load mem (field + k)) :=
    ⟨i, by omega, fun octal => other ((isOctal_iff _).mp octal)⟩
  refine ⟨TarFields.leadingOctal mem (i + 1) field, ⟨?_, ?_, ?_⟩, ?_⟩
  · exact TarFields.leadingOctal_reads mem (i + 1) field
  · intro digit member
    exact (isOctal_iff digit).mp
      (TarFields.leadingOctal_octal mem (i + 1) field digit member)
  · exact fun octal =>
      TarFields.leadingOctal_ends ends ((isOctal_iff _).mpr octal)
  · exact Option.some.inj
      (parsed.symm.trans (TarFields.octalToInt_leading ends))

end Fields

theorem headerOffset_append (sizes : List (List UInt8)) (digits : List UInt8) :
    headerOffset (sizes ++ [digits]) =
      (headerOffset sizes + 512 + paddedLength (octalValue digits)) %
        2 ^ 64 := by
  simp only [headerOffset, List.map_append, List.sum_append, List.map_cons,
    List.map_nil, List.sum_cons, List.sum_nil]
  omega

/-- Rounding to blocks and reducing to 64 bits can change places. -/
theorem alignedSize_mod (value : Nat) :
    alignedSize (value % 2 ^ 64) = paddedLength value % 2 ^ 64 := by
  unfold alignedSize paddedLength u64
  omega

section Offsets

variable {file : LimineFile} {sizes : List (List UInt8)} {digits : List UInt8}

theorem nextHeader_offset (file : LimineFile) (sizes : List (List UInt8))
    (digits : List UInt8) :
    nextHeader (file.address + headerOffset sizes)
        (octalValue digits % 2 ^ 64) =
      (file.address + headerOffset (sizes ++ [digits])) % 2 ^ 64 := by
  rw [nextHeader, alignedSize_mod, headerOffset_append]
  unfold u64
  omega

theorem pastLimit_offset (file : LimineFile) (sizes : List (List UInt8))
    (digits : List UInt8) :
    PastLimit file.address
        (nextHeader (file.address + headerOffset sizes)
          (octalValue digits % 2 ^ 64)) ↔
      1024 * 1024 * 10 < headerOffset (sizes ++ [digits]) := by
  have small : headerOffset (sizes ++ [digits]) < 2 ^ 64 :=
    Nat.mod_lt _ (by decide)
  have fits := file.fits
  rw [nextHeader_offset]
  unfold PastLimit u64
  omega

theorem nextHeader_inside
    (block : headerOffset (sizes ++ [digits]) + 512 ≤ file.size) :
    nextHeader (file.address + headerOffset sizes)
        (octalValue digits % 2 ^ 64) =
      file.address + headerOffset (sizes ++ [digits]) := by
  have fits := file.fits
  rw [nextHeader_offset, Nat.mod_eq_of_lt (by omega)]

end Offsets

/-! ## Closed archives and their bytes -/

section Closed

variable {mem : Mem} {file : LimineFile} {filename : CString}

theorem sizes_of_course {headers : Set Nat} (first : file.address ∈ headers)
    (closed : ∀ header ∈ headers,
      ClosedHeader mem file filename headers header)
    {passed : List Nat} {last : Nat}
    (course : Course (tarBody mem file.address filename) file.address
      passed last) :
    last ∈ headers ∧ ∃ sizes : List (List UInt8),
      last = file.address + headerOffset sizes ∧
      (∀ before digits, before ++ [digits] <+: sizes →
        PassedEntry mem file filename before digits) ∧
      ∀ header ∈ passed, ∃ before digits, before ++ [digits] <+: sizes ∧
        header = file.address + headerOffset before := by
  induction course with
  | start =>
      refine ⟨first, [], by simp [headerOffset], ?_, by simp⟩
      intro before digits early
      simp at early
  | @next passed state after _ moves ih =>
      obtain ⟨member, sizes, rfl, entries, earlier⟩ := ih
      obtain ⟨nonempty, size, parsed, different, within, rfl⟩ :=
        (tarBody_moves_iff mem _ filename _ after).mp moves
      obtain ⟨digits, run, rfl⟩ := run_of_octalToInt parsed
      have here := closed _ member
      have link := here.link nonempty _ parsed
      rw [if_neg different] at link
      have nextMember := link.resolve_left within
      rw [pastLimit_offset, Nat.not_lt] at within
      have block := (closed _ nextMember).block
      have nextEq : nextHeader (file.address + headerOffset sizes)
          (octalValue digits % 2 ^ 64) =
          file.address + headerOffset (sizes ++ [digits]) := by
        have lower := block.1
        have upper := block.2
        have fits := file.fits
        have small : headerOffset (sizes ++ [digits]) < 2 ^ 64 :=
          Nat.mod_lt _ (by decide)
        rw [nextHeader_offset] at lower upper ⊢
        omega
      refine ⟨nextMember, sizes ++ [digits], nextEq, ?_, ?_⟩
      · intro before other early
        rcases List.prefix_concat_iff.mp early with same | inside
        · obtain ⟨rfl, tail⟩ := List.append_inj' same rfl
          obtain rfl := List.singleton_inj.mp tail
          refine ⟨?_, nonempty, run, ?_, within⟩
          · have upper := here.block.2
            omega
          · exact fun wanted =>
              different ((nameMatches_iff_wanted _ filename).mpr wanted)
        · exact entries before other inside
      · intro header seen
        rcases List.mem_append.mp seen with old | new
        · obtain ⟨before, other, early, same⟩ := earlier header old
          exact ⟨before, other, early.trans (List.prefix_append _ _), same⟩
        · exact ⟨sizes, digits, List.prefix_rfl, List.mem_singleton.mp new⟩

theorem lastHeader_of_stays {headers : Set Nat} {sizes : List (List UInt8)}
    (here : ClosedHeader mem file filename headers
      (file.address + headerOffset sizes))
    (stays : ∀ after, tarBody mem file.address filename
      (file.address + headerOffset sizes) ≠ some (.inl after)) :
    LastHeader mem file filename sizes := by
  have upper := here.block.2
  refine ⟨by omega, ?_⟩
  by_cases nonempty : load mem (file.address + headerOffset sizes) = 0
  · exact .inl nonempty
  right
  cases parsed : octalToInt mem
      (file.address + headerOffset sizes + sizeOffset) with
  | none => exact .inl ((octalToInt_none_iff _).mp parsed)
  | some size =>
      right
      obtain ⟨digits, run, rfl⟩ := run_of_octalToInt parsed
      refine ⟨digits, run, ?_⟩
      have link := here.link nonempty _ parsed
      rw [← nameMatches_iff_wanted]
      by_cases found : NameMatches mem (file.address + headerOffset sizes)
          filename
      · rw [if_pos found] at link
        have ends := link.2
        exact .inl ⟨found, by omega⟩
      · refine .inr ⟨found, ?_⟩
        rw [← pastLimit_offset file]
        by_contra within
        exact stays _ ((tarBody_moves_iff mem file.address filename _ _).mpr
          ⟨nonempty, _, parsed, found, within, rfl⟩)

theorem moduleArchive_of_closed
    (archive : ClosedArchive mem file filename) :
    ∃ sizes, ModuleArchive mem file filename sizes := by
  obtain ⟨headers, first, closed⟩ := archive
  have visited : ∀ header,
      Visits (tarBody mem file.address filename) file.address header →
      ClosedHeader mem file filename headers header :=
    @inspects_closed mem (some [file]) filename file rfl headers first closed
  have finite : {header | Visits (tarBody mem file.address filename)
      file.address header}.Finite := by
    refine (Set.finite_le_nat (file.address + file.size)).subset ?_
    intro header seen
    have upper := (visited header seen).block.2
    exact Nat.le_of_add_right_le upper
  obtain ⟨passed, last, course, ends⟩ := exists_course finite
  obtain ⟨member, sizes, rfl, entries, earlier⟩ :=
    sizes_of_course first closed course
  refine ⟨sizes, entries, ?_⟩
  rcases ends with back | stays
  · obtain ⟨before, digits, early, same⟩ := earlier _ back
    exact .inr ⟨before, digits, early, Nat.add_left_cancel same⟩
  · exact .inl (lastHeader_of_stays (closed _ member) stays)

theorem prefix_cases {α : Type*} {before whole : List α}
    (early : before <+: whole) :
    before = whole ∨ ∃ entry, before ++ [entry] <+: whole := by
  obtain ⟨rest, rfl⟩ := early
  cases rest with
  | nil => exact .inl (by simp)
  | cons entry rest => exact .inr ⟨entry, rest, by simp⟩

theorem ModuleArchive.block {sizes before : List (List UInt8)}
    (archive : ModuleArchive mem file filename sizes)
    (early : before <+: sizes) : headerOffset before + 512 ≤ file.size := by
  rcases prefix_cases early with rfl | ⟨digits, inside⟩
  · rcases archive.last with last | ⟨earlier, digits, inside, same⟩
    · exact last.block
    · rw [same]
      exact (archive.passed earlier digits inside).block
  · exact (archive.passed before digits inside).block

def headersOf (file : LimineFile) (sizes : List (List UInt8)) : Set Nat :=
  {header | ∃ before, before <+: sizes ∧
    header = file.address + headerOffset before}

theorem ModuleArchive.passed_closed {sizes before : List (List UInt8)}
    {digits : List UInt8} (archive : ModuleArchive mem file filename sizes)
    (inside : before ++ [digits] <+: sizes) :
    ClosedHeader mem file filename (headersOf file sizes)
      (file.address + headerOffset before) := by
  have entry := archive.passed before digits inside
  have block := entry.block
  refine ⟨⟨by omega, by omega⟩, ?_⟩
  intro _ size parsed
  obtain rfl : size = octalValue digits % 2 ^ 64 :=
    Option.some.inj (parsed.symm.trans (octalToInt_of_run entry.size))
  rw [if_neg (fun found =>
    entry.other ((nameMatches_iff_wanted _ filename).mp found))]
  exact .inr ⟨before ++ [digits], inside,
    nextHeader_inside (archive.block inside)⟩

theorem LastHeader.closed {sizes : List (List UInt8)}
    (last : LastHeader mem file filename sizes) (headers : Set Nat) :
    ClosedHeader mem file filename headers
      (file.address + headerOffset sizes) := by
  have block := last.block
  refine ⟨⟨by omega, by omega⟩, ?_⟩
  intro nonempty size parsed
  rcases last.ends with empty | endless | ⟨digits, run, ends⟩
  · exact absurd empty nonempty
  · rw [(octalToInt_none_iff _).mpr endless] at parsed
    cases parsed
  · obtain rfl : size = octalValue digits % 2 ^ 64 :=
      Option.some.inj (parsed.symm.trans (octalToInt_of_run run))
    rw [← nameMatches_iff_wanted] at ends
    rcases ends with ⟨found, inside⟩ | ⟨other, past⟩
    · rw [if_pos found]
      exact ⟨by omega, by omega⟩
    · rw [if_neg other]
      exact .inl ((pastLimit_offset file sizes digits).mpr past)

theorem ModuleArchive.closed {sizes : List (List UInt8)}
    (archive : ModuleArchive mem file filename sizes) :
    ClosedArchive mem file filename := by
  refine ⟨headersOf file sizes, ⟨[], List.nil_prefix, rfl⟩, ?_⟩
  rintro header ⟨before, early, rfl⟩
  rcases prefix_cases early with rfl | ⟨digits, inside⟩
  · rcases archive.last with last | ⟨earlier, digits, inside, same⟩
    · exact last.closed _
    · rw [same]
      exact archive.passed_closed inside
  · exact archive.passed_closed inside

end Closed

/-- The lookup keeps to the module exactly when one was loaded and its bytes
are an archive whose headers, and the contents under the wanted name, end
inside it. -/
theorem staysInside_iff (mem : Mem) (modules : Option (List LimineFile))
    (filename : CString) :
    StaysInside mem modules filename ↔
      ∃ initFile, bootModule modules = some initFile ∧
        ∃ sizes, ModuleArchive mem initFile filename sizes := by
  constructor
  · intro stays
    cases loaded : bootModule modules with
    | none =>
        -- the loop test itself reads `name[0]` at the null pointer
        exact absurd Visits.start ((stays.noModule loaded).1 _)
    | some initFile =>
        exact ⟨initFile, rfl, moduleArchive_of_closed
          (closedArchive_of_staysInside loaded stays)⟩
  · rintro ⟨initFile, loaded, sizes, archive⟩
    exact staysInside_of_closedArchive loaded archive.closed

def motdName : CString :=
  ⟨[0x2E, 0x2F, 0x6D, 0x6F, 0x74, 0x64, 0x2E, 0x74, 0x78, 0x74], by simp⟩

def truncatedModule : LimineFile := ⟨4096, 1024, by decide⟩

/-- Without a module the header at the null pointer is read, and a module that
ends without a closing block is read past its end. -/
theorem staysInside_fails :
    ¬ StaysInside (fun _ => 0) none motdName ∧
      ¬ StaysInside sampleMem (some [truncatedModule]) motdName := by
  refine ⟨?_, ?_⟩
  · intro stays
    exact (stays.noModule rfl).1 0 Visits.start
  · intro stays
    have header := sample_laidOut.1
    have next : nextHeader 4096 sampleEntry.contents.length = 5120 :=
      nextHeader_eq _ sampleEntry.contentsFit (by decide)
    have different : ¬ NameMatches sampleMem 4096 motdName := by
      rw [header_matches header]
      decide
    have moves := (tarBody_moves_iff sampleMem 4096 motdName 4096 5120).mpr
      ⟨firstByte_ne_zero header, _, header_size header, different,
        by rw [next]; decide, next.symm⟩
    have inside := stays.headers truncatedModule rfl 5120
      (Visits.next Visits.start moves)
    exact absurd inside.2 (by decide)

/-- Every laid-out archive that the module holds with its closing block is
closed, for every name. -/
theorem laidOut_closedArchive (mem : Mem) (file : LimineFile)
    (entries : List TarEntry) (filename : CString)
    (laid : LaidOut mem file.address entries)
    (whole : archiveLength entries + 512 ≤ file.size) :
    ClosedArchive mem file filename := by
  have fits := file.fits
  refine ⟨{header | ∃ before rest, entries = before ++ rest ∧
    header = file.address + archiveLength before}, ⟨[], entries, rfl, rfl⟩, ?_⟩
  rintro header ⟨before, rest, split, rfl⟩
  subst split
  have here := laidOut_append mem file.address before rest laid
  rw [archiveLength_append] at whole
  refine ⟨⟨by omega, by omega⟩, ?_⟩
  intro nonempty size parsed
  cases rest with
  | nil => exact absurd (by simpa using here 0 (by omega)) nonempty
  | cons entry others =>
      rw [archiveLength] at whole
      obtain ⟨header, -, -⟩ := here
      have sizeEq : entry.contents.length = size :=
        Option.some.inj ((header_size header).symm.trans parsed)
      have padded : entry.contents.length ≤
          paddedLength entry.contents.length := by
        unfold paddedLength
        omega
      split
      · exact ⟨by omega, by omega⟩
      · right
        refine ⟨before ++ [entry], others, by simp, ?_⟩
        rw [← sizeEq, nextHeader_eq _ entry.contentsFit (by omega),
          archiveLength_append, archiveLength, archiveLength]
        omega

theorem laidOut_staysInside (mem : Mem) (file : LimineFile)
    (others : List LimineFile) (entries : List TarEntry) (filename : CString)
    (laid : LaidOut mem file.address entries)
    (whole : archiveLength entries + 512 ≤ file.size) :
    StaysInside mem (some (file :: others)) filename :=
  staysInside_of_closedArchive rfl
    (laidOut_closedArchive mem file entries filename laid whole)

end Lumie.Boot
