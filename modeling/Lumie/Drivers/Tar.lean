import Lumie.Base.MachineInt
import Lumie.Base.WhileLoop
import Lumie.Lib.Strings

/-!
# The ramdisk driver

`tar.c` over the whole 64-bit address space: a header is an address, its
fields are the bytes at the offsets of the packed `tar_header_t`, and
`uintptr_t` and `size_t` arithmetic wraps at `2 ^ 64`.  Both loops are loops of
`WhileLoop`, so a walk that never ends has no result.
-/

set_option autoImplicit false

namespace Lumie.Tar

open MachineInt WhileLoop
open Lumie.Strings

/-- The byte held at each of the `2 ^ 64` addresses. -/
abbrev Mem := Nat → UInt8

def load (mem : Mem) (address : Nat) : UInt8 := mem (address % 2 ^ 64)

/-- `name` is the first field of `tar_header_t`. -/
def pointerView (mem : Mem) (address : Nat) : View :=
  fun i => load mem (address + i)

/-- The fields `name`, `mode`, `uid` and `gid` stand before `size`. -/
def sizeOffset : Nat := 100 + 8 + 8 + 8

/-- `*in >= '0' && *in <= '7'` on plain `char`s. -/
def IsOctal (byte : UInt8) : Prop := 48 ≤ charVal byte ∧ charVal byte ≤ 55

instance (byte : UInt8) : Decidable (IsOctal byte) :=
  inferInstanceAs (Decidable (_ ∧ _))

theorem octal_of_all {digits : List UInt8}
    (all : digits.all (fun digit => decide (IsOctal digit)) = true) :
    ∀ digit ∈ digits, IsOctal digit := by
  intro digit member
  exact of_decide_eq_true (List.all_eq_true.mp all digit member)

def octalBody (mem : Mem) : Nat × Nat → Option ((Nat × Nat) ⊕ Nat)
  | (inp, size) =>
      if IsOctal (load mem inp) then
        some (.inl (inp + 1, u64 (size * 8 + (charVal (load mem inp) - 48))))
      else some (.inr size)

/-- There are `2 ^ 64` addresses, so a scan that has not stopped after that
many bytes never stops: `octalToInt_eq_none_iff`. -/
def octalToInt (mem : Mem) (inp : Nat) : Option Nat :=
  iterate (octalBody mem) (2 ^ 64) (inp, 0)

/-- The return value of `tar_get_file`, zero for `NULL`, and what it stored
through `out_size`, if anything. -/
structure TarReturn where
  ptr : Nat
  outSize : Option Nat
  deriving DecidableEq, Repr

/-- The name test of `tar_get_file`: the filename itself or behind `./`. -/
def NameMatches (mem : Mem) (header : Nat) (filename : CString) : Prop :=
  strcmp (pointerView mem header) filename = 0 ∨
    (load mem header = 0x2E ∧ load mem (header + 1) = 0x2F ∧
      strcmp (pointerView mem (header + 2)) filename = 0)

instance (mem : Mem) (header : Nat) (filename : CString) :
    Decidable (NameMatches mem header filename) :=
  inferInstanceAs (Decidable (_ ∨ _))

def alignedSize (size : Nat) : Nat := u64 (u64 (size + 511) / 512 * 512 : Nat)

def nextHeader (header size : Nat) : Nat :=
  u64 (header + 512 + alignedSize size)

/-- `(uintptr_t)header - (uintptr_t)tar_start > 1024 * 1024 * 10` -/
def PastLimit (tarStart header : Nat) : Prop :=
  1024 * 1024 * 10 < u64 ((header : Int) - tarStart)

instance (tarStart header : Nat) : Decidable (PastLimit tarStart header) :=
  inferInstanceAs (Decidable (_ < _))

/-- One turn of the walk: the loop test on `header->name[0]` and the body. -/
def tarBody (mem : Mem) (tarStart : Nat) (filename : CString) (header : Nat) :
    Option (Nat ⊕ TarReturn) :=
  if load mem header = 0 then some (.inr ⟨0, none⟩)
  else
    match octalToInt mem (header + sizeOffset) with
    | none => none
    | some size =>
        if NameMatches mem header filename then
          some (.inr ⟨u64 (header + 512), some size⟩)
        else if PastLimit tarStart (nextHeader header size) then
          some (.inr ⟨0, none⟩)
        else some (.inl (nextHeader header size))

def tarGetFile (fuel : Nat) (mem : Mem) (tarStart : Nat)
    (filename : CString) : Option TarReturn :=
  iterate (tarBody mem tarStart filename) fuel tarStart

theorem tarBody_moves_iff (mem : Mem) (tarStart : Nat) (filename : CString)
    (header next : Nat) :
    tarBody mem tarStart filename header = some (.inl next) ↔
      load mem header ≠ 0 ∧
        ∃ size, octalToInt mem (header + sizeOffset) = some size ∧
          ¬ NameMatches mem header filename ∧
          ¬ PastLimit tarStart (nextHeader header size) ∧
          next = nextHeader header size := by
  unfold tarBody
  by_cases empty : load mem header = 0
  · simp [empty]
  · rw [if_neg empty]
    cases parsed : octalToInt mem (header + sizeOffset) with
    | none => simp
    | some size =>
        by_cases found : NameMatches mem header filename
        · simp [found]
        · by_cases past : PastLimit tarStart (nextHeader header size)
          · simp [found, past]
          · simp [empty, found, past, eq_comm]

theorem tarBody_stops_iff (mem : Mem) (tarStart : Nat) (filename : CString)
    (header : Nat) (result : TarReturn) :
    tarBody mem tarStart filename header = some (.inr result) ↔
      (load mem header = 0 ∧ result = ⟨0, none⟩) ∨
        (load mem header ≠ 0 ∧
          ∃ size, octalToInt mem (header + sizeOffset) = some size ∧
            ((NameMatches mem header filename ∧
                result = ⟨u64 (header + 512), some size⟩) ∨
              (¬ NameMatches mem header filename ∧
                PastLimit tarStart (nextHeader header size) ∧
                result = ⟨0, none⟩))) := by
  unfold tarBody
  by_cases empty : load mem header = 0
  · simp [empty, eq_comm]
  · rw [if_neg empty]
    cases parsed : octalToInt mem (header + sizeOffset) with
    | none => simp [empty]
    | some size =>
        by_cases found : NameMatches mem header filename
        · simp [empty, found, eq_comm]
        · by_cases past : PastLimit tarStart (nextHeader header size)
          · simp [empty, found, past, eq_comm]
          · simp [empty, found, past]

/-! ## The octal field -/

theorem isOctal_iff (byte : UInt8) :
    IsOctal byte ↔ 48 ≤ byte.toNat ∧ byte.toNat ≤ 55 := by
  have bound := byte.toNat_lt
  unfold IsOctal charVal
  split <;> omega

def octalValue (digits : List UInt8) : Nat :=
  digits.foldl (fun value digit => value * 8 + (digit.toNat - 48)) 0

theorem octalValue_append_one (digits : List UInt8) (digit : UInt8) :
    octalValue (digits ++ [digit]) =
      octalValue digits * 8 + (digit.toNat - 48) := by
  simp [octalValue, List.foldl_append]

theorem octalValue_lt (digits : List UInt8)
    (octal : ∀ digit ∈ digits, IsOctal digit) :
    octalValue digits < 8 ^ digits.length := by
  induction digits using List.reverseRecOn with
  | nil => simp [octalValue]
  | append_singleton front digit ih =>
      have last := (isOctal_iff digit).mp (octal digit (by simp))
      have first := ih (fun other member => octal other (by simp [member]))
      rw [octalValue_append_one, List.length_append, List.length_singleton,
        pow_succ]
      omega

theorem octalLoop_eq_none_iff (mem : Mem) (fuel inp size : Nat) :
    iterate (octalBody mem) fuel (inp, size) = none ↔
      ∀ k < fuel, IsOctal (load mem (inp + k)) := by
  induction fuel generalizing inp size with
  | zero => simp [iterate]
  | succ fuel ih =>
      by_cases digit : IsOctal (load mem inp)
      · have moves : octalBody mem (inp, size) = some (.inl (inp + 1,
            u64 (size * 8 + (charVal (load mem inp) - 48)))) := by
          simp [octalBody, digit]
        rw [iterate_next fuel moves, ih]
        refine ⟨?_, ?_⟩
        · intro later k bound
          cases k with
          | zero => exact digit
          | succ k =>
              have here := later k (by omega)
              rwa [Nat.add_right_comm] at here
        · intro all k bound
          have here := all (k + 1) (by omega)
          rwa [← Nat.add_assoc, Nat.add_right_comm] at here
      · have stops : octalBody mem (inp, size) = some (.inr size) := by
          simp [octalBody, digit]
        rw [iterate_stop fuel stops]
        refine ⟨fun impossible => by simp at impossible, ?_⟩
        intro all
        exact absurd (all 0 (by omega)) digit

/-- The scan has no value exactly when the loop of the source never ends. -/
theorem octalToInt_eq_none_iff (mem : Mem) (inp : Nat) :
    octalToInt mem inp = none ↔
      ∀ fuel, iterate (octalBody mem) fuel (inp, 0) = none := by
  refine ⟨?_, fun never => never _⟩
  intro stuck fuel
  rw [octalToInt, octalLoop_eq_none_iff] at stuck
  rw [octalLoop_eq_none_iff]
  intro k _
  have period : load mem (inp + k) = load mem (inp + k % 2 ^ 64) := by
    simp [load, Nat.add_mod]
  rw [period]
  exact stuck (k % 2 ^ 64) (Nat.mod_lt _ (by omega))

theorem octalToInt_of_iterate {mem : Mem} {inp fuel value : Nat}
    (success : iterate (octalBody mem) fuel (inp, 0) = some value) :
    octalToInt mem inp = some value := by
  cases outcome : octalToInt mem inp with
  | none =>
      have never := (octalToInt_eq_none_iff mem inp).mp outcome fuel
      simp [success] at never
  | some other => rw [iterate_unique outcome success]

theorem octal_visits (mem : Mem) (inp : Nat) (digits : List UInt8)
    (reads : ∀ i < digits.length, load mem (inp + i) = digits.getD i 0)
    (octal : ∀ digit ∈ digits, IsOctal digit) :
    Visits (octalBody mem) (inp, 0)
      (inp + digits.length, octalValue digits % 2 ^ 64) := by
  induction digits using List.reverseRecOn with
  | nil => exact .start
  | append_singleton front digit ih =>
      have frontOctal : ∀ other ∈ front, IsOctal other :=
        fun other member => octal other (by simp [member])
      have frontReads : ∀ i < front.length,
          load mem (inp + i) = front.getD i 0 := by
        intro i bound
        rw [reads i (by simp; omega), List.getD_append _ _ _ _ bound]
      refine .next (ih frontReads frontOctal) ?_
      have here : load mem (inp + front.length) = digit := by
        rw [reads front.length (by simp)]
        simp
      have isDigit := octal digit (by simp)
      have range := (isOctal_iff digit).mp isDigit
      have value : u64 (((octalValue front % 2 ^ 64 : Nat) : Int) * 8 +
          (charVal digit - 48)) =
          (octalValue front * 8 + (digit.toNat - 48)) % 2 ^ 64 := by
        rw [charVal_of_ascii (by omega), u64]
        omega
      simp only [octalBody, here, if_pos isDigit, value,
        octalValue_append_one, List.length_append, List.length_singleton,
        Nat.add_assoc]

theorem octalToInt_run (mem : Mem) (inp : Nat) (digits : List UInt8)
    (reads : ∀ i < digits.length, load mem (inp + i) = digits.getD i 0)
    (octal : ∀ digit ∈ digits, IsOctal digit)
    (ends : ¬ IsOctal (load mem (inp + digits.length))) :
    octalToInt mem inp = some (octalValue digits % 2 ^ 64) := by
  have seen := octal_visits mem inp digits reads octal
  have stops : octalBody mem (inp + digits.length,
      octalValue digits % 2 ^ 64) = some (.inr (octalValue digits % 2 ^ 64)) := by
    simp only [octalBody, if_neg ends]
  obtain ⟨total, success⟩ := iterate_of_visits seen (iterate_stop 0 stops)
  exact octalToInt_of_iterate success

theorem octalToInt_digits (mem : Mem) (inp : Nat) (digits : List UInt8)
    (reads : ∀ i < digits.length, load mem (inp + i) = digits.getD i 0)
    (octal : ∀ digit ∈ digits, IsOctal digit) (short : digits.length ≤ 21)
    (ends : ¬ IsOctal (load mem (inp + digits.length))) :
    octalToInt mem inp = some (octalValue digits) := by
  have small : octalValue digits < 8 ^ 21 :=
    lt_of_lt_of_le (octalValue_lt digits octal)
      (Nat.pow_le_pow_right (by omega) short)
  rw [octalToInt_run mem inp digits reads octal ends,
    Nat.mod_eq_of_lt (by omega)]

/-! ## Names -/

/-- On a terminated name the test of `tar_get_file` is equality with the
filename, with or without a leading `./`. -/
theorem nameMatches_iff {mem : Mem} {header : Nat} {name : CString}
    (held : HoldsString (pointerView mem header) name) (filename : CString) :
    NameMatches mem header filename ↔
      name.bytes = filename.bytes ∨
        name.bytes = [0x2E, 0x2F] ++ filename.bytes := by
  unfold NameMatches
  rw [held.strcmp_iff filename, eq_comm]
  refine or_congr_right ?_
  have reads : ∀ k ≤ name.bytes.length,
      load mem (header + k) = name.bytes.getD k 0 := held
  have noNul := name.noNul
  generalize name.bytes = bytes at reads noNul
  match bytes with
  | [] =>
      have first : load mem header = 0 := reads 0 (by simp)
      simp [first]
  | [_] =>
      have second : load mem (header + 1) = 0 := reads 1 (by simp)
      simp [second]
  | one :: two :: tail =>
      have first : load mem header = one := reads 0 (by simp)
      have second : load mem (header + 1) = two := reads 1 (by simp)
      have behind : HoldsString (pointerView mem (header + 2))
          ⟨tail, fun byte member => noNul byte (by simp [member])⟩ := by
        intro k bound
        have here := reads (k + 2) (by simpa using bound)
        rw [pointerView, Nat.add_assoc, Nat.add_comm 2 k, here]
        rfl
      rw [first, second, behind.strcmp_iff filename]
      simp [eq_comm]

end Lumie.Tar
