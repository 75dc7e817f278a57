import Lumie.Drivers.TarList

/-!
# The end of the archive walk

A step of the walk adds a multiple of 512 that is parsed from the data to the
header, modulo `2 ^ 64`.  Measured from `tar_start` the headers stay below the
10 MiB limit, so a walk whose steps do not wrap around passes at most 20481 of
them; a step that wraps leads back, in the worst case to the same header.
-/

set_option autoImplicit false

namespace Lumie.TarWalk

open MachineInt WhileLoop
open Lumie.Strings Lumie.Tar Lumie.TarArchive Lumie.TarList
open Lumie.Fat (PrintCall)

/-- `(uintptr_t)header - (uintptr_t)tar_start` -/
def offset (tarStart header : Nat) : Nat := u64 ((header : Int) - tarStart)

/-- The loop moves its header forward by at least 512 at every turn, and it
ends before it has evaluated its head more than 20481 times. -/
structure WalkEnds {State Result : Type*}
    (body : State → Option (State ⊕ Result)) (headerOf : State → Nat)
    (start : State) : Prop where
  forward : ∀ state after, Visits body start state →
    body state = some (.inl after) →
    offset (headerOf start) (headerOf state) + 512 ≤
      offset (headerOf start) (headerOf after)
  ends : ∃ result, iterate body (1024 * 1024 * 10 / 512 + 1) start = some result

def StepFits (mem : Mem) (tarStart header : Nat) : Prop :=
  ∀ size, octalToInt mem (header + sizeOffset) = some size →
    offset tarStart header + 512 + alignedSize size < 2 ^ 64

theorem offset_start (tarStart : Nat) : offset tarStart tarStart = 0 := by
  simp [offset, u64]

theorem pastLimit_iff_offset (tarStart header : Nat) :
    PastLimit tarStart header ↔ 1024 * 1024 * 10 < offset tarStart header :=
  Iff.rfl

theorem offset_next (tarStart header size : Nat) :
    offset tarStart (nextHeader header size) =
      (offset tarStart header + 512 + alignedSize size) % 2 ^ 64 := by
  unfold offset nextHeader u64
  omega

theorem alignedSize_le (size : Nat) : alignedSize size ≤ 2 ^ 64 - 512 := by
  unfold alignedSize u64
  omega

theorem forward_of_fits {tarStart header size : Nat}
    (fits : offset tarStart header + 512 + alignedSize size < 2 ^ 64) :
    offset tarStart header + 512 ≤ offset tarStart (nextHeader header size) := by
  rw [offset_next, Nat.mod_eq_of_lt fits]
  omega

theorem backward_of_wraps {tarStart header size : Nat}
    (below : offset tarStart header ≤ 1024 * 1024 * 10)
    (wraps : 2 ^ 64 ≤ offset tarStart header + 512 + alignedSize size) :
    offset tarStart (nextHeader header size) ≤ offset tarStart header := by
  have aligned := alignedSize_le size
  rw [offset_next]
  omega

theorem zero_behind {mem : Mem} {start length : Nat}
    (zero : load mem (start + length) = 0) (address : Nat) :
    ∃ n < 2 ^ 64, load mem (address + n) = 0 := by
  refine ⟨u64 ((start + length : Nat) - (address : Int)), ?_, ?_⟩
  · unfold u64
    omega
  · have same : (address + u64 ((start + length : Nat) - (address : Int))) %
        2 ^ 64 = (start + length) % 2 ^ 64 := by
      unfold u64
      omega
    rw [load, same]
    exact zero

theorem octalToInt_terminates {mem : Mem} {start length : Nat}
    (zero : load mem (start + length) = 0) (inp : Nat) :
    ∃ size, octalToInt mem inp = some size := by
  obtain ⟨n, inside, ends⟩ := zero_behind zero inp
  rw [← Option.isSome_iff_exists, Option.isSome_iff_ne_none, octalToInt]
  intro stuck
  have digit := (octalLoop_eq_none_iff mem (2 ^ 64) inp 0).mp stuck n inside
  rw [ends] at digit
  revert digit
  decide

/-! ## Loops along headers -/

section Loops

variable {State Result : Type*} {body : State → Option (State ⊕ Result)}
  {headerOf : State → Nat} {start : State}

def MovesWithin (mem : Mem) (body : State → Option (State ⊕ Result))
    (headerOf : State → Nat) (start : State) : Prop :=
  ∀ state after, body state = some (.inl after) →
    ∃ size, octalToInt mem (headerOf state + sizeOffset) = some size ∧
      headerOf after = nextHeader (headerOf state) size ∧
      ¬ PastLimit (headerOf start) (headerOf after)

theorem offset_of_visits {mem : Mem}
    (moves : MovesWithin mem body headerOf start) {state : State}
    (seen : Visits body start state) :
    offset (headerOf start) (headerOf state) ≤ 1024 * 1024 * 10 := by
  cases seen with
  | start =>
      rw [offset_start]
      omega
  | next before turn =>
      obtain ⟨-, -, -, within⟩ := moves _ _ turn
      exact Nat.le_of_not_lt within

/-- A loop whose steps all fit ends: the distance to the limit is its rank. -/
theorem walkEnds_of_fits {mem : Mem}
    (moves : MovesWithin mem body headerOf start)
    (answers : ∀ state, Visits body start state → body state ≠ none)
    (fits : ∀ state after, Visits body start state →
      body state = some (.inl after) →
      StepFits mem (headerOf start) (headerOf state)) :
    WalkEnds body headerOf start := by
  have forward : ∀ state after, Visits body start state →
      body state = some (.inl after) →
      offset (headerOf start) (headerOf state) + 512 ≤
        offset (headerOf start) (headerOf after) := by
    intro state after seen turn
    obtain ⟨size, parsed, next, -⟩ := moves state after turn
    rw [next]
    exact forward_of_fits (fits state after seen turn size parsed)
  refine ⟨forward, ?_⟩
  apply iterate_of_rank
    (fun state => (1024 * 1024 * 10 - offset (headerOf start) (headerOf state)) /
      512) answers
  · intro state after seen turn
    have further := forward state after seen turn
    have below := offset_of_visits moves (.next seen turn)
    omega
  · rw [offset_start]
    omega

end Loops

/-! ## The two walks -/

section Walks

variable {mem : Mem} {tarStart length : Nat}

theorem tarBody_movesWithin (mem : Mem) (tarStart : Nat) (filename : CString) :
    MovesWithin mem (tarBody mem tarStart filename) id tarStart := by
  intro header next turn
  obtain ⟨-, size, parsed, -, within, rfl⟩ :=
    (tarBody_moves_iff mem tarStart filename header next).mp turn
  exact ⟨size, parsed, rfl, within⟩

theorem listBody_movesWithin (mem : Mem) (tarStart : Nat) :
    MovesWithin mem (listBody mem tarStart) Prod.fst (tarStart, []) := by
  rintro ⟨header, prints⟩ ⟨next, later⟩ turn
  rcases listBody_cases turn with ⟨-, ends⟩ | ⟨record, here, rfl⟩
  · cases ends
  · rw [listBody_record tarStart here] at turn
    by_cases past : PastLimit tarStart record.next
    · rw [if_pos past] at turn
      cases turn
    · rw [if_neg past] at turn
      cases turn
      exact ⟨record.size, here.size, rfl, past⟩

theorem tarBody_answers (zero : load mem (tarStart + length) = 0)
    (filename : CString) (header : Nat) :
    tarBody mem tarStart filename header ≠ none := by
  obtain ⟨size, parsed⟩ := octalToInt_terminates zero (header + sizeOffset)
  unfold tarBody
  split
  · simp
  · rw [parsed]
    simp only
    split
    · simp
    · split <;> simp

theorem exists_record (zero : load mem (tarStart + length) = 0) {header : Nat}
    (inUse : load mem header ≠ 0) :
    ∃ record, RecordAt mem record ∧ record.header = header := by
  obtain ⟨n, inside, ends⟩ := zero_behind zero header
  obtain ⟨name, named⟩ := exists_stringFrom inside ends
  obtain ⟨size, parsed⟩ := octalToInt_terminates zero (header + sizeOffset)
  exact ⟨⟨header, name, size⟩, ⟨inUse, named, parsed⟩, rfl⟩

theorem listBody_answers (zero : load mem (tarStart + length) = 0)
    (state : Nat × List PrintCall) : listBody mem tarStart state ≠ none := by
  obtain ⟨header, prints⟩ := state
  by_cases empty : load mem header = 0
  · simp [listBody, empty]
  · obtain ⟨record, here, rfl⟩ := exists_record zero empty
    rw [listBody_record tarStart here]
    split <;> simp

def LookupFits (mem : Mem) (tarStart : Nat) (filename : CString) : Prop :=
  ∀ header, Visits (tarBody mem tarStart filename) tarStart header →
    load mem header ≠ 0 → ¬ NameMatches mem header filename →
    StepFits mem tarStart header

def ListingFits (mem : Mem) (tarStart : Nat) : Prop :=
  ∀ state, Visits (listBody mem tarStart) (tarStart, []) state →
    load mem state.1 ≠ 0 → StepFits mem tarStart state.1

theorem lookup_walkEnds_iff (zero : load mem (tarStart + length) = 0)
    (filename : CString) :
    WalkEnds (tarBody mem tarStart filename) id tarStart ↔
      LookupFits mem tarStart filename := by
  have moves := tarBody_movesWithin mem tarStart filename
  constructor
  · intro walk header seen inUse unnamed size parsed
    by_contra wraps
    have below : offset tarStart header ≤ 1024 * 1024 * 10 :=
      offset_of_visits moves seen
    have back : offset tarStart (nextHeader header size) ≤
        offset tarStart header := backward_of_wraps below (by omega)
    have within : ¬ PastLimit tarStart (nextHeader header size) := by
      rw [pastLimit_iff_offset]
      omega
    have turn := (tarBody_moves_iff mem tarStart filename header _).mpr
      ⟨inUse, size, parsed, unnamed, within, rfl⟩
    have further : offset tarStart header + 512 ≤
        offset tarStart (nextHeader header size) :=
      walk.forward header _ seen turn
    omega
  · intro fits
    refine walkEnds_of_fits moves (fun header _ =>
      tarBody_answers zero filename header) ?_
    intro header next seen turn
    obtain ⟨inUse, -, -, unnamed, -, -⟩ :=
      (tarBody_moves_iff mem tarStart filename header next).mp turn
    exact fits header seen inUse unnamed

theorem listing_walkEnds_iff (zero : load mem (tarStart + length) = 0) :
    WalkEnds (listBody mem tarStart) Prod.fst (tarStart, []) ↔
      ListingFits mem tarStart := by
  have moves := listBody_movesWithin mem tarStart
  constructor
  · rintro walk ⟨header, prints⟩ seen inUse size parsed
    by_contra wraps
    obtain ⟨record, here, rfl⟩ := exists_record zero inUse
    obtain rfl : record.size = size :=
      Option.some.inj (here.size.symm.trans parsed)
    have below : offset tarStart record.header ≤ 1024 * 1024 * 10 :=
      offset_of_visits moves seen
    have back : offset tarStart record.next ≤ offset tarStart record.header :=
      backward_of_wraps below (by simp only at wraps; omega)
    have within : ¬ PastLimit tarStart record.next := by
      rw [pastLimit_iff_offset]
      omega
    have turn := listBody_record tarStart here prints
    rw [if_neg within] at turn
    have further : offset tarStart record.header + 512 ≤
        offset tarStart record.next := walk.forward _ _ seen turn
    omega
  · intro fits
    refine walkEnds_of_fits moves (fun state _ => listBody_answers zero state) ?_
    rintro ⟨header, prints⟩ ⟨next, later⟩ seen turn
    rcases listBody_cases turn with ⟨-, ends⟩ | ⟨record, here, rfl⟩
    · cases ends
    · exact fits _ seen here.inUse

end Walks

/-- On terminated memory both walks go forward and end within 20481 headers
exactly when no step they take leads around the address space. -/
theorem tarWalks_end_iff (mem : Mem) (tarStart : Nat) (filename : CString)
    (terminated : ∃ length, load mem (tarStart + length) = 0) :
    (WalkEnds (tarBody mem tarStart filename) id tarStart ↔
        LookupFits mem tarStart filename) ∧
      (WalkEnds (listBody mem tarStart) Prod.fst (tarStart, []) ↔
        ListingFits mem tarStart) := by
  obtain ⟨length, zero⟩ := terminated
  exact ⟨lookup_walkEnds_iff zero filename, listing_walkEnds_iff zero⟩

theorem visits_pair {State Result : Type*}
    {body : State → Option (State ⊕ Result)} {headerOf : State → Nat}
    {start : State} (moves : MovesWithin pairMem body headerOf start)
    (inUse : ∀ state after, body state = some (.inl after) →
      load pairMem (headerOf state) ≠ 0)
    (starts : headerOf start = 4096) {state : State}
    (seen : Visits body start state) :
    headerOf state = 4096 ∨ headerOf state = 5120 ∨ headerOf state = 6144 := by
  induction seen with
  | start => exact Or.inl starts
  | next _ turn ih =>
      obtain ⟨size, parsed, next, -⟩ := moves _ _ turn
      rw [next]
      rcases ih with first | second | zeros
      · rw [first, header_size otherEntry_header] at parsed
        rw [first, ← Option.some.inj parsed]
        decide
      · rw [second, header_size sampleEntry_header] at parsed
        rw [second, ← Option.some.inj parsed]
        decide
      · exact absurd (by rw [zeros]; decide) (inUse _ _ turn)

theorem stepFits_pair {header : Nat}
    (place : header = 4096 ∨ header = 5120 ∨ header = 6144)
    (inUse : load pairMem header ≠ 0) : StepFits pairMem 4096 header := by
  intro size parsed
  rcases place with rfl | rfl | rfl
  · rw [header_size otherEntry_header] at parsed
    rw [← Option.some.inj parsed]
    decide
  · rw [header_size sampleEntry_header] at parsed
    rw [← Option.some.inj parsed]
    decide
  · exact absurd (by decide) inUse

theorem tarWalks_pair :
    WalkEnds (tarBody pairMem 4096 letterName) id 4096 ∧
      WalkEnds (listBody pairMem 4096) Prod.fst (4096, []) := by
  obtain ⟨lookup, listing⟩ := tarWalks_end_iff pairMem 4096 letterName
    ⟨1, by decide⟩
  refine ⟨lookup.mpr ?_, listing.mpr ?_⟩
  · intro header seen inUse _
    refine stepFits_pair (visits_pair
      (tarBody_movesWithin pairMem 4096 letterName) ?_ rfl seen) inUse
    intro state after turn
    exact ((tarBody_moves_iff pairMem 4096 letterName state after).mp turn).1
  · intro state seen inUse
    refine stepFits_pair (visits_pair (listBody_movesWithin pairMem 4096) ?_ rfl
      seen) inUse
    rintro ⟨header, prints⟩ after turn
    rcases listBody_cases turn with ⟨-, ends⟩ | ⟨record, here, rfl⟩
    · cases ends
    · exact here.inUse

def wrappingDigits : List UInt8 :=
  [0x31] ++ List.replicate 18 0x37 ++ [0x30, 0x30, 0x30]

theorem wrappingDigits_octal : ∀ digit ∈ wrappingDigits, IsOctal digit :=
  octal_of_all rfl

def wrappingMem : Mem := fun address =>
  if address = 4096 then 0x61
  else if 4220 ≤ address ∧ address < 4242 then
    wrappingDigits.getD (address - 4220) 0
  else 0

theorem wrapping_record :
    RecordAt wrappingMem ⟨4096, letterName, 2 ^ 64 - 512⟩ := by
  refine ⟨by decide, ?_, ?_⟩
  · have held : HoldsString (pointerView wrappingMem 4096) letterName :=
      letterName_holds rfl rfl
    exact stringFrom_of_holds letterName held (by decide)
  · have value : octalValue wrappingDigits % 2 ^ 64 = 2 ^ 64 - 512 := by decide
    rw [← value]
    exact octalToInt_run wrappingMem _ wrappingDigits (by decide)
      wrappingDigits_octal (by decide)

theorem wrapping_next :
    TarRecord.next ⟨4096, letterName, 2 ^ 64 - 512⟩ = 4096 := by decide

theorem tarWalks_wrapping :
    (∃ length, load wrappingMem (4096 + length) = 0) ∧
      (∀ fuel, tarGetFile fuel wrappingMem 4096 CString.empty = none) ∧
      ¬ WalkEnds (tarBody wrappingMem 4096 CString.empty) id 4096 ∧
      ¬ WalkEnds (listBody wrappingMem 4096) Prod.fst (4096, []) := by
  have within : ¬ PastLimit 4096
      (TarRecord.next ⟨4096, letterName, 2 ^ 64 - 512⟩) := by
    rw [wrapping_next]
    decide
  have unnamed : ¬ NamedBy letterName CString.empty := by decide
  have lookup := tarBody_record 4096 wrapping_record CString.empty
  rw [if_neg unnamed, if_neg within, wrapping_next] at lookup
  have listing := listBody_record 4096 wrapping_record []
  rw [if_neg within, wrapping_next] at listing
  refine ⟨⟨1, by decide⟩, iterate_stuck lookup, ?_, ?_⟩
  · intro walk
    have further := walk.forward 4096 4096 .start lookup
    simp only [id, offset_start] at further
    omega
  · intro walk
    have further := walk.forward _ _ .start listing
    simp only [offset_start] at further
    omega

end Lumie.TarWalk
