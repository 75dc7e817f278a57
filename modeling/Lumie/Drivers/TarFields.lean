import Lumie.Drivers.TarWalk

/-!
# The fields of a header

The name and the size of an entry are fields of fixed width, but `strcmp` stops
at a NUL and `octal_to_int` at a byte that is no digit, wherever these stand.
Two archives that differ only in other header fields are told apart exactly
when some header leaves one of the two to be found behind its field.
-/

set_option autoImplicit false

namespace Lumie.TarFields

open MachineInt WhileLoop
open Lumie.Strings Lumie.Tar Lumie.TarArchive Lumie.TarList Lumie.TarWalk

/-! ## Two archives of one layout -/

def leadingOctal (mem : Mem) : Nat → Nat → List UInt8
  | 0, _ => []
  | count + 1, inp =>
      if IsOctal (load mem inp) then
        load mem inp :: leadingOctal mem count (inp + 1)
      else []

def fieldSize (mem : Mem) (header : Nat) : Nat :=
  octalValue (leadingOctal mem 12 (header + sizeOffset))

/-- The headers of an archive whose sizes are read from their fields. -/
inductive FieldWalk (mem : Mem) (tarStart : Nat) : Nat → Prop
  | start (inUse : load mem tarStart ≠ 0) : FieldWalk mem tarStart tarStart
  | next {header : Nat} (before : FieldWalk mem tarStart header)
      (within : ¬ PastLimit tarStart
        (nextHeader header (fieldSize mem header)))
      (inUse : load mem (nextHeader header (fieldSize mem header)) ≠ 0) :
      FieldWalk mem tarStart (nextHeader header (fieldSize mem header))

def OtherField (i : Nat) : Prop :=
  (100 ≤ i ∧ i < sizeOffset) ∨ (sizeOffset + 12 ≤ i ∧ i < 500)

def SameFields (mem other : Mem) (tarStart : Nat) : Prop :=
  ∀ address, load other address ≠ load mem address →
    ∃ header i, FieldWalk mem tarStart header ∧ OtherField i ∧
      address % 2 ^ 64 = (header + i) % 2 ^ 64

def SameResults (mem other : Mem) (tarStart : Nat) (filename : CString) :
    Prop :=
  ∀ result, (∃ fuel, tarGetFile fuel mem tarStart filename = some result) ↔
    ∃ fuel, tarGetFile fuel other tarStart filename = some result

structure FieldsEnd (mem : Mem) (header : Nat) : Prop where
  name : ∃ i < 100, load mem (header + i) = 0
  size : ∃ i < 12, ¬ IsOctal (load mem (header + sizeOffset + i))

/-! ## Octal fields -/

section Octal

variable {mem : Mem}

theorem leadingOctal_length (mem : Mem) (count inp : Nat) :
    (leadingOctal mem count inp).length ≤ count := by
  induction count generalizing inp with
  | zero => exact Nat.le_refl 0
  | succ count ih =>
      rw [leadingOctal]
      split
      · exact Nat.succ_le_succ (ih (inp + 1))
      · exact Nat.zero_le _

theorem leadingOctal_octal (mem : Mem) (count inp : Nat) :
    ∀ digit ∈ leadingOctal mem count inp, IsOctal digit := by
  induction count generalizing inp with
  | zero =>
      intro digit member
      cases member
  | succ count ih =>
      intro digit member
      rw [leadingOctal] at member
      split at member
      · rename_i here
        rcases List.mem_cons.mp member with rfl | later
        · exact here
        · exact ih (inp + 1) digit later
      · cases member

theorem leadingOctal_reads (mem : Mem) (count inp : Nat) :
    ∀ i < (leadingOctal mem count inp).length,
      load mem (inp + i) = (leadingOctal mem count inp).getD i 0 := by
  induction count generalizing inp with
  | zero =>
      intro i bound
      cases bound
  | succ count ih =>
      intro i bound
      rw [leadingOctal] at bound ⊢
      split at bound
      · rename_i here
        rw [if_pos here]
        cases i with
        | zero => rfl
        | succ i =>
            rw [← Nat.add_assoc, Nat.add_right_comm, List.getD_cons_succ]
            exact ih (inp + 1) i (Nat.lt_of_succ_lt_succ bound)
      · cases bound

theorem leadingOctal_ends {count inp : Nat}
    (ends : ∃ i < count, ¬ IsOctal (load mem (inp + i))) :
    ¬ IsOctal (load mem (inp + (leadingOctal mem count inp).length)) := by
  induction count generalizing inp with
  | zero =>
      obtain ⟨i, bound, -⟩ := ends
      cases bound
  | succ count ih =>
      rw [leadingOctal]
      split
      · rename_i here
        obtain ⟨i, bound, other⟩ := ends
        cases i with
        | zero => exact absurd here other
        | succ i =>
            rw [← Nat.add_assoc, Nat.add_right_comm] at other
            rw [List.length_cons, ← Nat.add_assoc, Nat.add_right_comm]
            exact ih ⟨i, by omega, other⟩
      · rename_i here
        exact here

theorem octalToInt_leading {count inp : Nat}
    (ends : ∃ i < count, ¬ IsOctal (load mem (inp + i))) :
    octalToInt mem inp =
      some (octalValue (leadingOctal mem count inp) % 2 ^ 64) :=
  octalToInt_run mem inp _ (leadingOctal_reads mem count inp)
    (leadingOctal_octal mem count inp) (leadingOctal_ends ends)

theorem leadingOctal_congr {other : Mem} {count inp : Nat}
    (same : ∀ i < count, load other (inp + i) = load mem (inp + i)) :
    leadingOctal other count inp = leadingOctal mem count inp := by
  induction count generalizing inp with
  | zero => rfl
  | succ count ih =>
      have here : load other inp = load mem inp := same 0 (by omega)
      have later : ∀ i < count,
          load other (inp + 1 + i) = load mem (inp + 1 + i) := by
        intro i bound
        rw [Nat.add_assoc, Nat.add_comm 1]
        exact same (i + 1) (by omega)
      rw [leadingOctal, leadingOctal, here, ih later]

theorem fieldSize_lt (mem : Mem) (header : Nat) :
    fieldSize mem header < 2 ^ 36 := by
  have length := leadingOctal_length mem 12 (header + sizeOffset)
  have value := octalValue_lt _ (leadingOctal_octal mem 12 (header + sizeOffset))
  calc fieldSize mem header < 8 ^ (leadingOctal mem 12
        (header + sizeOffset)).length := value
    _ ≤ 8 ^ 12 := Nat.pow_le_pow_right (by omega) length
    _ = 2 ^ 36 := by norm_num

end Octal

section Blocks

variable {mem other : Mem} {tarStart header : Nat}

theorem alignedSize_dvd (size : Nat) : 512 ∣ alignedSize size := by
  unfold alignedSize u64
  omega

theorem offset_next_mod (size : Nat)
    (aligned : offset tarStart header % 512 = 0) :
    offset tarStart (nextHeader header size) % 512 = 0 := by
  have blocks := alignedSize_dvd size
  rw [offset_next]
  omega

theorem fieldWalk_aligned (walk : FieldWalk mem tarStart header) :
    offset tarStart header % 512 = 0 := by
  induction walk with
  | start => rw [offset_start]
  | next _ _ _ ih => exact offset_next_mod _ ih

theorem fieldWalk_inUse (walk : FieldWalk mem tarStart header) :
    load mem header ≠ 0 := by
  cases walk with
  | start inUse => exact inUse
  | next _ _ inUse => exact inUse

theorem fieldWalk_lt (pointer : tarStart < 2 ^ 64)
    (walk : FieldWalk mem tarStart header) : header < 2 ^ 64 := by
  cases walk with
  | start => exact pointer
  | next =>
      unfold nextHeader u64
      omega

theorem fieldWalk_below (walk : FieldWalk mem tarStart header) :
    offset tarStart header ≤ 1024 * 1024 * 10 := by
  cases walk with
  | start =>
      rw [offset_start]
      omega
  | next _ within _ => exact Nat.le_of_not_lt within

/-- Blocks are disjoint, so no byte of a name or a size is an other field of
some header. -/
theorem SameFields.load_eq (same : SameFields mem other tarStart)
    (aligned : offset tarStart header % 512 = 0) {i : Nat} (inside : i < 512)
    (fixed : ¬ OtherField i) :
    load other (header + i) = load mem (header + i) := by
  by_contra differs
  obtain ⟨place, j, walk, field, address⟩ := same _ differs
  have placeAligned := fieldWalk_aligned walk
  have bound : j < 512 := by
    unfold OtherField sizeOffset at field
    omega
  have equal : i = j := by
    unfold offset u64 at aligned placeAligned
    omega
  exact fixed (equal ▸ field)

theorem SameFields.name_eq (same : SameFields mem other tarStart)
    (aligned : offset tarStart header % 512 = 0) {i : Nat} (inside : i < 100) :
    load other (header + i) = load mem (header + i) := by
  apply same.load_eq aligned (by omega)
  unfold OtherField sizeOffset
  omega

theorem SameFields.size_eq (same : SameFields mem other tarStart)
    (aligned : offset tarStart header % 512 = 0) {i : Nat} (inside : i < 12) :
    load other (header + sizeOffset + i) =
      load mem (header + sizeOffset + i) := by
  rw [Nat.add_assoc]
  apply same.load_eq aligned (by unfold sizeOffset; omega)
  unfold OtherField sizeOffset
  omega

structure SharedRecord (mem : Mem) (header : Nat) (name : CString) : Prop where
  inUse : load mem header ≠ 0
  held : HoldsString (pointerView mem header) name
  short : name.bytes.length < 100
  size : ∃ i < 12, ¬ IsOctal (load mem (header + sizeOffset + i))

theorem exists_sharedRecord (inUse : load mem header ≠ 0)
    (ends : FieldsEnd mem header) : ∃ name, SharedRecord mem header name := by
  obtain ⟨i, inside, zero⟩ := ends.name
  obtain ⟨name, reads⟩ := exists_stringFrom inside zero
  exact ⟨name, inUse, stringFrom_holds reads, stringFrom_length reads, ends.size⟩

theorem SharedRecord.octalToInt_eq {name : CString}
    (record : SharedRecord mem header name) :
    octalToInt mem (header + sizeOffset) = some (fieldSize mem header) := by
  have small := fieldSize_lt mem header
  have scan := octalToInt_leading record.size
  rwa [← fieldSize, Nat.mod_eq_of_lt (by omega)] at scan

theorem SharedRecord.transfer {name : CString}
    (record : SharedRecord mem header name)
    (same : SameFields mem other tarStart)
    (aligned : offset tarStart header % 512 = 0) :
    SharedRecord other header name ∧
      fieldSize other header = fieldSize mem header := by
  have short := record.short
  refine ⟨⟨?_, ?_, short, ?_⟩, ?_⟩
  · have first : load other header = load mem header :=
      same.name_eq aligned (by omega : 0 < 100)
    rw [first]
    exact record.inUse
  · intro k bound
    rw [← record.held k bound]
    exact same.name_eq aligned (by omega)
  · obtain ⟨i, inside, noDigit⟩ := record.size
    exact ⟨i, inside, by rwa [same.size_eq aligned inside]⟩
  · unfold fieldSize
    rw [leadingOctal_congr fun i inside => same.size_eq aligned inside]

end Blocks

/-! ## Archives whose fields end -/

section Agreement

variable {mem other : Mem} {tarStart : Nat} {filename : CString}

theorem visits_fieldWalk
    (ends : ∀ header, FieldWalk mem tarStart header → FieldsEnd mem header)
    {header : Nat}
    (seen : Visits (tarBody mem tarStart filename) tarStart header) :
    offset tarStart header % 512 = 0 ∧
      (load mem header = 0 ∨ FieldWalk mem tarStart header) := by
  induction seen with
  | start =>
      rw [offset_start]
      refine ⟨rfl, ?_⟩
      by_cases empty : load mem tarStart = 0
      · exact Or.inl empty
      · exact Or.inr (.start empty)
  | @next state after _ turn ih =>
      obtain ⟨inUse, size, parsed, -, within, rfl⟩ :=
        (tarBody_moves_iff mem tarStart filename state after).mp turn
      refine ⟨offset_next_mod size ih.1, ?_⟩
      have walk : FieldWalk mem tarStart state := ih.2.resolve_left inUse
      obtain ⟨name, record⟩ := exists_sharedRecord inUse (ends state walk)
      obtain rfl : fieldSize mem state = size :=
        Option.some.inj (record.octalToInt_eq.symm.trans parsed)
      by_cases empty : load mem (nextHeader state (fieldSize mem state)) = 0
      · exact Or.inl empty
      · exact Or.inr (.next walk within empty)

theorem tarBody_agree (same : SameFields mem other tarStart)
    (ends : ∀ header, FieldWalk mem tarStart header → FieldsEnd mem header)
    {header : Nat}
    (seen : Visits (tarBody mem tarStart filename) tarStart header) :
    tarBody other tarStart filename header =
      tarBody mem tarStart filename header := by
  obtain ⟨aligned, state⟩ := visits_fieldWalk ends seen
  rcases state with empty | walk
  · have first : load other header = load mem header :=
      same.name_eq aligned (by omega : 0 < 100)
    simp [tarBody, first, empty]
  · obtain ⟨name, record⟩ :=
      exists_sharedRecord (fieldWalk_inUse walk) (ends header walk)
    obtain ⟨moved, size⟩ := record.transfer same aligned
    have here := nameMatches_iff record.held filename
    have there := nameMatches_iff moved.held filename
    simp only [tarBody, if_neg record.inUse, if_neg moved.inUse,
      record.octalToInt_eq, moved.octalToInt_eq, size, here, there]

theorem sameResults_of_fieldsEnd (same : SameFields mem other tarStart)
    (ends : ∀ header, FieldWalk mem tarStart header → FieldsEnd mem header)
    (filename : CString) : SameResults mem other tarStart filename := by
  intro result
  have turns : ∀ fuel, tarGetFile fuel other tarStart filename =
      tarGetFile fuel mem tarStart filename :=
    iterate_congr fun header seen => tarBody_agree same ends seen
  simp only [turns]

end Agreement

def patch (mem : Mem) (header : Nat) (field : Nat → Option UInt8) : Mem :=
  fun address => (field (offset header address)).getD (mem address)

/-- A byte for the first byte behind `name`, and no digit behind `size`. -/
def behindName (byte : UInt8) (i : Nat) : Option UInt8 :=
  if i = 100 then some byte
  else if i = sizeOffset + 12 then some 0 else none

def behindSize (digits : List UInt8) (i : Nat) : Option UInt8 :=
  if sizeOffset + 12 ≤ i ∧ i ≤ sizeOffset + 12 + digits.length then
    some (digits.getD (i - (sizeOffset + 12)) 0)
  else none

section Patches

variable {mem : Mem} {tarStart header : Nat}

theorem load_patch (mem : Mem) (header : Nat) (field : Nat → Option UInt8)
    {i : Nat} (inside : i < 512) :
    load (patch mem header field) (header + i) =
      (field i).getD (load mem (header + i)) := by
  have distance : offset header ((header + i) % 2 ^ 64) = i := by
    unfold offset u64
    omega
  rw [load, patch, distance, load]

theorem patch_sameFields (walk : FieldWalk mem tarStart header)
    {field : Nat → Option UInt8}
    (others : ∀ i, field i ≠ none → OtherField i) :
    SameFields mem (patch mem header field) tarStart := by
  intro address differs
  refine ⟨header, offset header (address % 2 ^ 64), walk, ?_, ?_⟩
  · apply others
    intro kept
    apply differs
    rw [load, patch, kept]
    rfl
  · unfold offset u64
    omega

theorem behindName_other (byte : UInt8) (i : Nat)
    (field : behindName byte i ≠ none) : OtherField i := by
  unfold behindName at field
  unfold OtherField sizeOffset
  split at field
  · omega
  · split at field
    · rename_i place
      rw [place, sizeOffset]
      omega
    · exact absurd rfl field

theorem behindSize_other {digits : List UInt8} (short : digits.length ≤ 22)
    (i : Nat) (field : behindSize digits i ≠ none) : OtherField i := by
  unfold behindSize at field
  unfold OtherField
  split at field
  · unfold sizeOffset at *
    omega
  · exact absurd rfl field

theorem load_mod {first second : Nat} (same : first % 2 ^ 64 = second % 2 ^ 64)
    (i : Nat) : load mem (first + i) = load mem (second + i) := by
  rw [load, load, Nat.add_mod, same, ← Nat.add_mod]

theorem dataPointer_inj {first second : Nat}
    (same : u64 ((first : Int) + 512) = u64 ((second : Int) + 512)) :
    second % 2 ^ 64 = first % 2 ^ 64 := by
  unfold u64 at same
  omega

theorem nameMatches_mod {first second : Nat}
    (same : first % 2 ^ 64 = second % 2 ^ 64) (filename : CString) :
    NameMatches mem first filename ↔ NameMatches mem second filename := by
  have views : pointerView mem first = pointerView mem second :=
    funext (load_mod same)
  have behind : pointerView mem (first + 2) = pointerView mem (second + 2) :=
    funext (load_mod (by omega))
  have start : load mem first = load mem second := load_mod same 0
  unfold NameMatches
  rw [views, behind, start, load_mod same 1]

end Patches

/-! ## Archives that are told apart -/

section Distinguished

variable {mem : Mem} {tarStart header : Nat}

/-- No other contents of the other fields change a lookup. -/
def Indifferent (mem : Mem) (tarStart : Nat) : Prop :=
  ∀ (other : Mem) (filename : CString), SameFields mem other tarStart →
    SameResults mem other tarStart filename

theorem Indifferent.results {first second : Mem} {filename : CString}
    {result : TarReturn} (indifferent : Indifferent mem tarStart)
    (firstSame : SameFields mem first tarStart)
    (secondSame : SameFields mem second tarStart)
    (success : ∃ fuel, tarGetFile fuel first tarStart filename = some result) :
    ∃ fuel, tarGetFile fuel second tarStart filename = some result :=
  (indifferent second filename secondSame result).mp
    ((indifferent first filename firstSame result).mpr success)

/-- Long names get past every header whose fields end, so the lookup of one
stands at this header in every archive of the layout. -/
def Reached (mem : Mem) (tarStart header : Nat) : Prop :=
  ∀ (other : Mem) (filename : CString), SameFields mem other tarStart →
    100 ≤ filename.bytes.length →
    Visits (tarBody other tarStart filename) tarStart header

theorem long_ne_short {name filename : CString}
    (short : name.bytes.length < 100) (long : 100 ≤ filename.bytes.length) :
    ¬ (name.bytes = filename.bytes ∨
      name.bytes = [0x2E, 0x2F] ++ filename.bytes) := by
  rintro (same | same)
  · rw [same] at short
    omega
  · rw [same, List.length_append] at short
    omega

theorem SharedRecord.long_unnamed {name filename : CString}
    (record : SharedRecord mem header name)
    (long : 100 ≤ filename.bytes.length) :
    ¬ NameMatches mem header filename := by
  rw [nameMatches_iff record.held]
  exact long_ne_short record.short long

theorem reached_next (walk : FieldWalk mem tarStart header)
    (reached : Reached mem tarStart header) (ends : FieldsEnd mem header)
    (within : ¬ PastLimit tarStart
      (nextHeader header (fieldSize mem header))) :
    Reached mem tarStart (nextHeader header (fieldSize mem header)) := by
  intro other filename same long
  obtain ⟨name, record⟩ := exists_sharedRecord (fieldWalk_inUse walk) ends
  obtain ⟨moved, size⟩ := record.transfer same (fieldWalk_aligned walk)
  refine .next (reached other filename same long) ?_
  rw [tarBody_moves_iff]
  exact ⟨moved.inUse, _, by rw [moved.octalToInt_eq, size],
    moved.long_unnamed long, within, rfl⟩

def fullName (mem : Mem) (header : Nat)
    (full : ∀ i < 100, load mem (header + i) ≠ 0) : CString where
  bytes := (List.range 100).map fun i => load mem (header + i)
  noNul := by
    intro byte member
    obtain ⟨i, inside, rfl⟩ := List.mem_map.mp member
    exact full i (List.mem_range.mp inside)

theorem fullName_view {full : ∀ i < 100, load mem (header + i) ≠ 0} {i : Nat}
    (inside : i < 100) :
    (fullName mem header full).view i = load mem (header + i) := by
  rw [CString.view, List.getD_eq_getElem _ _ (by simpa [fullName] using inside)]
  simp [fullName]

section FullName

variable (full : ∀ i < 100, load mem (header + i) ≠ 0)

theorem fullName_length : (fullName mem header full).bytes.length = 100 := by
  simp [fullName]

theorem behindName_kept (mem : Mem) (header : Nat) (byte : UInt8) {i : Nat}
    (inside : i < 100) :
    load (patch mem header (behindName byte)) (header + i) =
      load mem (header + i) := by
  have untouched : behindName byte i = none := by
    unfold behindName sizeOffset
    rw [if_neg (by omega), if_neg (by omega)]
  rw [load_patch _ _ _ (by omega), untouched, Option.getD_none]

theorem behindName_byte (mem : Mem) (header : Nat) (byte : UInt8) :
    load (patch mem header (behindName byte)) (header + 100) = byte := by
  rw [load_patch _ _ _ (by omega)]
  rfl

theorem fullName_found (tarStart : Nat) :
    ∃ size, tarBody (patch mem header (behindName 0)) tarStart
      (fullName mem header full) header =
        some (.inr ⟨u64 (header + 512), some size⟩) := by
  have inUse : load (patch mem header (behindName 0)) header ≠ 0 := by
    have first := behindName_kept mem header 0 (by omega : 0 < 100)
    rw [Nat.add_zero] at first
    rw [first]
    exact full 0 (by omega)
  have noDigit : ∃ i < 13, ¬ IsOctal
      (load (patch mem header (behindName 0)) (header + sizeOffset + i)) := by
    have zero : behindName 0 (sizeOffset + 12) = some 0 := rfl
    refine ⟨12, by omega, ?_⟩
    rw [Nat.add_assoc, load_patch _ _ _ (by unfold sizeOffset; omega), zero,
      Option.getD_some]
    decide
  have held : HoldsString (pointerView (patch mem header (behindName 0)) header)
      (fullName mem header full) := by
    have length := fullName_length full
    intro k bound
    rcases Nat.lt_or_ge k 100 with inside | _
    · rw [fullName_view inside]
      exact behindName_kept mem header 0 inside
    · obtain rfl : k = 100 := by omega
      rw [CString.view, List.getD_eq_default _ _ (by omega)]
      exact behindName_byte mem header 0
  have named := (nameMatches_iff held (fullName mem header full)).mpr
    (Or.inl rfl)
  exact ⟨_, (tarBody_stops_iff _ _ _ _ _).mpr (Or.inr ⟨inUse, _,
    octalToInt_leading noDigit, Or.inl ⟨named, rfl⟩⟩)⟩

theorem fullName_unnamed {byte : UInt8} (nonzero : byte ≠ 0)
    (unlike : byte ≠ load mem (header + 98)) :
    ¬ NameMatches (patch mem header (behindName byte)) header
      (fullName mem header full) := by
  have length := fullName_length full
  have behind := behindName_byte mem header byte
  rintro (whole | ⟨-, -, tail⟩)
  · have here := (strcmp_eq_zero_iff _ _).mp whole 100 (by omega)
    rw [CString.view, List.getD_eq_default _ _ (by omega)] at here
    exact nonzero (behind.symm.trans here)
  · have here := (strcmp_eq_zero_iff _ _).mp tail 98 (by omega)
    rw [pointerView, Nat.add_assoc, fullName_view (by omega)] at here
    exact unlike (behind.symm.trans here)

end FullName

theorem exists_thirdByte (other : UInt8) : ∃ byte : UInt8, byte ≠ 0 ∧ byte ≠ other := by
  by_cases one : other = 1
  · exact ⟨2, by decide, by rw [one]; decide⟩
  · exact ⟨1, by decide, fun same => one same.symm⟩

theorem nul_of_indifferent (indifferent : Indifferent mem tarStart)
    (walk : FieldWalk mem tarStart header)
    (reached : Reached mem tarStart header) :
    ∃ i < 100, load mem (header + i) = 0 := by
  by_contra none
  have full : ∀ i < 100, load mem (header + i) ≠ 0 := by
    intro i inside zero
    exact none ⟨i, inside, zero⟩
  have long := fullName_length full
  have same : ∀ byte, SameFields mem (patch mem header (behindName byte))
      tarStart := fun byte => patch_sameFields walk (behindName_other byte)
  obtain ⟨byte, nonzero, unlike⟩ := exists_thirdByte (load mem (header + 98))
  have unnamed := fullName_unnamed full nonzero unlike
  obtain ⟨size, found⟩ := fullName_found full tarStart
  have success := iterate_of_visits
    (reached _ (fullName mem header full) (same 0) (by omega))
    (iterate_stop 0 found)
  obtain ⟨fuel, other⟩ := indifferent.results (same 0) (same byte) success
  obtain ⟨last, -, stops⟩ := visits_of_iterate .start other
  rcases (tarBody_stops_iff _ _ _ _ _).mp stops with
    ⟨-, missing⟩ | ⟨-, _, -, ⟨matched, result⟩ | ⟨-, -, missing⟩⟩
  · simp at missing
  · -- only this header has this data address
    have pointer := (TarReturn.mk.inj result).1
    exact unnamed ((nameMatches_mod (dataPointer_inj pointer) _).mp matched)
  · simp at missing

/-- The octal digits of `2 ^ 32`, as many as those of `2 ^ 64 - 512`. -/
def distantDigits : List UInt8 :=
  List.replicate 11 0x30 ++ [0x34] ++ List.replicate 10 0x30

theorem octalValue_append (first second : List UInt8) :
    octalValue (first ++ second) =
      octalValue first * 8 ^ second.length + octalValue second := by
  induction second using List.reverseRecOn with
  | nil => simp [octalValue]
  | append_singleton front digit ih =>
      rw [← List.append_assoc, octalValue_append_one, octalValue_append_one, ih,
        List.length_append, List.length_singleton, pow_succ]
      ring

theorem behindSize_inside (digits : List UInt8) {i : Nat} (inside : i < 12) :
    load (patch mem header (behindSize digits)) (header + sizeOffset + i) =
      load mem (header + sizeOffset + i) := by
  have untouched : behindSize digits (sizeOffset + i) = none := by
    unfold behindSize
    rw [if_neg (by omega)]
  rw [Nat.add_assoc, load_patch _ _ _ (by unfold sizeOffset; omega),
    untouched, Option.getD_none]

theorem behindSize_behind {digits : List UInt8} (length : digits.length = 22)
    {i : Nat} (inside : i ≤ 22) :
    load (patch mem header (behindSize digits))
      (header + sizeOffset + (12 + i)) = digits.getD i 0 := by
  have patched : behindSize digits (sizeOffset + (12 + i)) =
      some (digits.getD i 0) := by
    have shift : sizeOffset + (12 + i) - (sizeOffset + 12) = i := by omega
    unfold behindSize
    rw [if_pos (by omega), shift]
  rw [Nat.add_assoc, load_patch _ _ _ (by unfold sizeOffset; omega), patched,
    Option.getD_some]

/-- Twenty-two digits behind a full field shift its own digits out of the
word. -/
theorem behindSize_value
    (full : ∀ i < 12, IsOctal (load mem (header + sizeOffset + i)))
    {digits : List UInt8} (octal : ∀ digit ∈ digits, IsOctal digit)
    (length : digits.length = 22) :
    octalToInt (patch mem header (behindSize digits)) (header + sizeOffset) =
      some (octalValue digits % 2 ^ 64) := by
  generalize own : (List.range 12).map
    (fun i => load mem (header + sizeOffset + i)) = front
  have frontLength : front.length = 12 := by simp [← own]
  have run := octalToInt_run (patch mem header (behindSize digits))
    (header + sizeOffset) (front ++ digits) ?_ ?_ ?_
  · rw [run, octalValue_append, length]
    congr 1
    omega
  · intro i bound
    rw [List.length_append, frontLength, length] at bound
    rcases Nat.lt_or_ge i 12 with inside | later
    · rw [behindSize_inside digits inside, List.getD_append _ _ _ _ (by omega),
        ← own, List.getD_eq_getElem _ _ (by simpa using inside)]
      simp
    · obtain ⟨k, rfl⟩ := Nat.exists_eq_add_of_le later
      rw [behindSize_behind length (by omega),
        List.getD_append_right _ _ _ _ (by omega), frontLength,
        Nat.add_sub_cancel_left]
  · intro digit member
    rcases List.mem_append.mp member with inField | later
    · rw [← own] at inField
      obtain ⟨i, inside, rfl⟩ := List.mem_map.mp inField
      exact full i (List.mem_range.mp inside)
    · exact octal digit later
  · rw [List.length_append, frontLength, length,
      behindSize_behind length (Nat.le_refl _),
      List.getD_eq_default _ _ (by omega)]
    decide

theorem behindSize_record {name : CString}
    (held : HoldsString (pointerView mem header) name)
    (short : name.bytes.length < 100) (walk : FieldWalk mem tarStart header)
    (full : ∀ i < 12, IsOctal (load mem (header + sizeOffset + i)))
    {digits : List UInt8} (octal : ∀ digit ∈ digits, IsOctal digit)
    (length : digits.length = 22) {filename : CString}
    (long : 100 ≤ filename.bytes.length) :
    tarBody (patch mem header (behindSize digits)) tarStart filename header =
      if PastLimit tarStart
          (nextHeader header (octalValue digits % 2 ^ 64)) then
        some (.inr ⟨0, none⟩)
      else some (.inl (nextHeader header (octalValue digits % 2 ^ 64))) := by
  have same : SameFields mem (patch mem header (behindSize digits)) tarStart :=
    patch_sameFields walk (behindSize_other (by omega))
  have aligned := fieldWalk_aligned walk
  have first : load (patch mem header (behindSize digits)) header =
      load mem header := same.name_eq aligned (by omega : 0 < 100)
  have inUse : load (patch mem header (behindSize digits)) header ≠ 0 := by
    rw [first]
    exact fieldWalk_inUse walk
  have moved : HoldsString
      (pointerView (patch mem header (behindSize digits)) header) name := by
    intro k bound
    rw [← held k bound]
    exact same.name_eq aligned (by omega)
  have unnamed : ¬ NameMatches (patch mem header (behindSize digits)) header
      filename := by
    rw [nameMatches_iff moved]
    exact long_ne_short short long
  simp only [tarBody, if_neg inUse, behindSize_value full octal length,
    if_neg unnamed]

theorem distantDigits_octal : ∀ digit ∈ distantDigits, IsOctal digit :=
  octal_of_all rfl

/-- A step of `2 ^ 64 - 512` stays, a step of `2 ^ 32` goes behind the
limit. -/
theorem nextHeader_wrapping (pointer : header < 2 ^ 64) :
    nextHeader header (octalValue wrappingDigits % 2 ^ 64) = header := by
  have aligned : alignedSize (octalValue wrappingDigits % 2 ^ 64) =
      2 ^ 64 - 512 := by decide
  rw [nextHeader, aligned, u64]
  omega

theorem nextHeader_distant (below : offset tarStart header ≤ 1024 * 1024 * 10) :
    PastLimit tarStart
      (nextHeader header (octalValue distantDigits % 2 ^ 64)) := by
  have aligned : alignedSize (octalValue distantDigits % 2 ^ 64) = 2 ^ 32 := by
    decide
  rw [pastLimit_iff_offset, offset_next, aligned]
  omega

def longFilename : CString :=
  ⟨List.replicate 100 0x78, by simp⟩

/-- A full size lets the bytes behind it keep the lookup at the header or send
it behind the limit. -/
theorem noDigit_of_indifferent (indifferent : Indifferent mem tarStart)
    (pointer : tarStart < 2 ^ 64) (walk : FieldWalk mem tarStart header)
    (reached : Reached mem tarStart header)
    (named : ∃ i < 100, load mem (header + i) = 0) :
    ∃ i < 12, ¬ IsOctal (load mem (header + sizeOffset + i)) := by
  by_contra none
  have full : ∀ i < 12, IsOctal (load mem (header + sizeOffset + i)) := by
    intro i inside
    by_contra noDigit
    exact none ⟨i, inside, noDigit⟩
  obtain ⟨i, inside, zero⟩ := named
  obtain ⟨name, reads⟩ := exists_stringFrom inside zero
  have held := stringFrom_holds reads
  have short := stringFrom_length reads
  have long : 100 ≤ longFilename.bytes.length := by decide
  have staysSame : SameFields mem (patch mem header (behindSize wrappingDigits))
      tarStart := patch_sameFields walk (behindSize_other (by decide))
  have leavesSame : SameFields mem
      (patch mem header (behindSize distantDigits)) tarStart :=
    patch_sameFields walk (behindSize_other (by decide))
  have stays := behindSize_record held short walk full wrappingDigits_octal
    (by decide) long
  have leaves := behindSize_record held short walk full distantDigits_octal
    (by decide) long
  have below := fieldWalk_below walk
  have within : ¬ PastLimit tarStart header := Nat.not_lt_of_le below
  rw [nextHeader_wrapping (fieldWalk_lt pointer walk), if_neg within] at stays
  rw [if_pos (nextHeader_distant below)] at leaves
  have success := iterate_of_visits (reached _ longFilename leavesSame long)
    (iterate_stop 0 leaves)
  obtain ⟨fuel, other⟩ := indifferent.results leavesSame staysSame success
  obtain ⟨rest, result⟩ :=
    iterate_through (reached _ longFilename staysSame long) other
  rw [iterate_stuck stays] at result
  cases result

/-- By induction along the layout: the fields of each header end, and so every
archive with these fields leads a long name to the next. -/
theorem fieldsEnd_of_indifferent (indifferent : Indifferent mem tarStart)
    (pointer : tarStart < 2 ^ 64) (walk : FieldWalk mem tarStart header) :
    FieldsEnd mem header ∧ Reached mem tarStart header := by
  have ends : ∀ place, FieldWalk mem tarStart place →
      Reached mem tarStart place → FieldsEnd mem place := by
    intro place here reached
    have named := nul_of_indifferent indifferent here reached
    exact ⟨named, noDigit_of_indifferent indifferent pointer here reached named⟩
  induction walk with
  | start inUse =>
      have reached : Reached mem tarStart tarStart := fun _ _ _ _ => .start
      exact ⟨ends tarStart (.start inUse) reached, reached⟩
  | next before within inUse ih =>
      have reached := reached_next before ih.2 ih.1 within
      exact ⟨ends _ (.next before within inUse) reached, reached⟩

end Distinguished

/-- An archive whose lookups depend on no other fields of its headers is one
whose names end in a NUL and whose sizes end in a byte that is no digit, all
inside their fields. -/
theorem tarGetFile_ownFields_iff (mem : Mem) (tarStart : Nat)
    (pointer : tarStart < 2 ^ 64) :
    (∀ (other : Mem) (filename : CString), SameFields mem other tarStart →
        SameResults mem other tarStart filename) ↔
      ∀ header, FieldWalk mem tarStart header → FieldsEnd mem header := by
  constructor
  · intro indifferent header walk
    exact (fieldsEnd_of_indifferent indifferent pointer walk).1
  · intro ends other filename same
    exact sameResults_of_fieldsEnd same ends filename

theorem fieldWalk_pair {header : Nat} (walk : FieldWalk pairMem 4096 header) :
    header = 4096 ∨ header = 5120 := by
  induction walk with
  | start => exact Or.inl rfl
  | next _ _ inUse ih =>
      have first : nextHeader 4096 (fieldSize pairMem 4096) = 5120 := by decide
      have second : nextHeader 5120 (fieldSize pairMem 5120) = 6144 := by decide
      rcases ih with rfl | rfl
      · exact Or.inr first
      · rw [second] at inUse
        exact absurd (by decide) inUse

theorem tarGetFile_pair_ownFields :
    4096 < 2 ^ 64 ∧
    ∀ (other : Mem) (filename : CString), SameFields pairMem other 4096 →
      SameResults pairMem other 4096 filename := by
  refine ⟨by decide, (tarGetFile_ownFields_iff pairMem 4096
    (by decide)).mpr ?_⟩
  intro header walk
  rcases fieldWalk_pair walk with rfl | rfl
  · exact ⟨⟨1, by decide, by decide⟩, 11, by decide, by decide⟩
  · exact ⟨⟨3, by decide, by decide⟩, 11, by decide, by decide⟩

def fullSizeMem (mtime : UInt8) : Mem := fun address =>
  if address = 4096 then 0x61
  else if 4220 ≤ address ∧ address < 4232 then 0x30
  else if address = 4232 then mtime else 0

theorem fullSize_sameFields :
    SameFields (fullSizeMem 0) (fullSizeMem 0x37) 4096 := by
  intro address differs
  refine ⟨4096, 136, .start (by decide), by unfold OtherField; decide, ?_⟩
  by_contra elsewhere
  apply differs
  simp only [load, fullSizeMem]
  rw [if_neg (by omega : ¬ address % 2 ^ 64 = 4232),
    if_neg (by omega : ¬ address % 2 ^ 64 = 4232)]

theorem fullSize_found (mtime : UInt8) (digits : List UInt8)
    (octal : ∀ digit ∈ digits, IsOctal digit)
    (reads : ∀ i < digits.length, load (fullSizeMem mtime) (4220 + i) =
      digits.getD i 0)
    (ends : ¬ IsOctal (load (fullSizeMem mtime) (4220 + digits.length))) :
    tarGetFile 1 (fullSizeMem mtime) 4096 letterName =
      some ⟨4608, some (octalValue digits % 2 ^ 64)⟩ := by
  have held : HoldsString (pointerView (fullSizeMem mtime) 4096) letterName :=
    letterName_holds rfl rfl
  apply iterate_stop 0
  rw [tarBody_stops_iff]
  refine Or.inr ⟨?_, _, octalToInt_run _ _ digits reads octal ends, Or.inl
    ⟨(nameMatches_iff held letterName).mpr (Or.inl rfl), rfl⟩⟩
  exact (by decide : (0x61 : UInt8) ≠ 0)

/-- The first digit of `mtime` becomes the last digit of the size. -/
theorem tarGetFile_fullSize :
    SameFields (fullSizeMem 0) (fullSizeMem 0x37) 4096 ∧
      ¬ SameResults (fullSizeMem 0) (fullSizeMem 0x37) 4096 letterName := by
  refine ⟨fullSize_sameFields, ?_⟩
  intro same
  have noSize : octalValue (List.replicate 12 0x30) % 2 ^ 64 = 0 := by decide
  have oneDigit :
      octalValue (List.replicate 12 0x30 ++ [0x37]) % 2 ^ 64 = 7 := by decide
  have empty : tarGetFile 1 (fullSizeMem 0) 4096 letterName =
      some ⟨4608, some 0⟩ := by
    rw [← noSize]
    exact fullSize_found 0 (List.replicate 12 0x30)
      (octal_of_all rfl) (by decide) (by decide)
  have seven : tarGetFile 1 (fullSizeMem 0x37) 4096 letterName =
      some ⟨4608, some 7⟩ := by
    rw [← oneDigit]
    exact fullSize_found 0x37 (List.replicate 12 0x30 ++ [0x37])
      (octal_of_all rfl) (by decide) (by decide)
  obtain ⟨fuel, other⟩ := (same _).mp ⟨1, empty⟩
  have equal := iterate_unique other seven
  simp at equal

end Lumie.TarFields
