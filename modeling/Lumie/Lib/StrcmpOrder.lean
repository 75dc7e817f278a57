import Lumie.Base.MachineInt
import Lumie.Base.WhileLoop
import Lumie.Lib.Strings

/-!
# The order of `strcmp`

The loop of `strcmp` over two pointers, with the bytes it reads.  On terminated
strings it comes to an end inside both of them, and the sign it answers is the
lexicographic order of the bytes as unsigned numbers.
-/

set_option autoImplicit false

namespace Lumie.StrcmpOrder

open MachineInt WhileLoop
open Lumie.Strings

inductive Read where
  | s1 (index : Nat)
  | s2 (index : Nat)
  deriving DecidableEq, Repr

/-- `while (*s1 && (*s1 == *s2)) { s1++; s2++; }` with the number of turns and
the reads so far; the second string is read only when the first has not ended. -/
def strcmpBody (s1 s2 : View) :
    Nat × List Read → Option ((Nat × List Read) ⊕ (Nat × List Read))
  | (i, reads) =>
      if charVal (s1 i) = 0 then some (.inr (i, reads ++ [.s1 i]))
      else if charVal (s1 i) = charVal (s2 i) then
        some (.inl (i + 1, reads ++ [.s1 i, .s1 i, .s2 i]))
      else some (.inr (i, reads ++ [.s1 i, .s1 i, .s2 i]))

def strcmpRun (s1 s2 : View) (fuel : Nat) : Option (Int × List Read) := do
  let (i, reads) ← iterate (strcmpBody s1 s2) fuel (0, [])
  some ((s1 i).toNat - (s2 i).toNat, reads ++ [.s1 i, .s2 i])

def Returns (s1 s2 : View) (value : Int) (reads : List Read) : Prop :=
  ∃ fuel, strcmpRun s1 s2 fuel = some (value, reads)

/-! ## Comparing byte lists -/

/-- The difference of the first two bytes that differ; a list that ends goes on
with zero. -/
def compareBytes : List UInt8 → List UInt8 → Int
  | [], [] => 0
  | [], right :: _ => -right.toNat
  | left :: _, [] => left.toNat
  | left :: lefts, right :: rights =>
      if left = right then compareBytes lefts rights
      else left.toNat - right.toNat

def Precedes (first second : CString) : Prop :=
  List.Lex (fun left right => left.toNat < right.toNat) first.bytes second.bytes

theorem compareBytes_swap (left right : List UInt8) :
    compareBytes right left = -compareBytes left right := by
  induction left generalizing right with
  | nil =>
      cases right with
      | nil => rfl
      | cons byte rest => simp [compareBytes]
  | cons byte rest ih =>
      cases right with
      | nil => rfl
      | cons other others =>
          simp only [compareBytes]
          by_cases same : byte = other
          · rw [if_pos same, if_pos same.symm, ih]
          · rw [if_neg same, if_neg (Ne.symm same)]
            omega

theorem compareBytes_neg_iff {left right : List UInt8}
    (noNul : ∀ byte ∈ right, byte ≠ 0) :
    compareBytes left right < 0 ↔
      List.Lex (fun a b : UInt8 => a.toNat < b.toNat) left right := by
  induction left generalizing right with
  | nil =>
      cases right with
      | nil => simp [compareBytes]
      | cons byte rest =>
          have nonzero : byte.toNat ≠ 0 := by
            intro zero
            exact noNul byte (by simp) (UInt8.toNat_inj.mp zero)
          simp only [compareBytes, List.nil_lex_cons', iff_true]
          omega
  | cons byte rest ih =>
      cases right with
      | nil => simp [compareBytes]
      | cons other others =>
          rw [List.cons_lex_cons_iff, compareBytes]
          by_cases same : byte = other
          · subst same
            rw [if_pos rfl, ih (List.forall_mem_cons.mp noNul).2]
            simp
          · rw [if_neg same]
            simp only [same, false_and, or_false]
            omega

theorem compareBytes_self (bytes : List UInt8) : compareBytes bytes bytes = 0 := by
  induction bytes with
  | nil => rfl
  | cons byte rest ih => rw [compareBytes, if_pos rfl, ih]

/-- The first place where two strings differ, the terminator counted. -/
structure FirstDifference (left right : List UInt8) (k : Nat) : Prop where
  before : ∀ j < k, left.getD j 0 = right.getD j 0
  differ : left.getD k 0 ≠ right.getD k 0
  leftInside : k ≤ left.length
  rightInside : k ≤ right.length

theorem compareBytes_firstDifference {left right : List UInt8}
    (leftNoNul : ∀ byte ∈ left, byte ≠ 0)
    (rightNoNul : ∀ byte ∈ right, byte ≠ 0) (differ : left ≠ right) :
    ∃ k, FirstDifference left right k ∧ compareBytes left right =
      ((left.getD k 0).toNat : Int) - (right.getD k 0).toNat := by
  induction left generalizing right with
  | nil =>
      cases right with
      | nil => exact absurd rfl differ
      | cons byte rest =>
          have nonzero := rightNoNul byte (by simp)
          exact ⟨0, ⟨by simp, nonzero.symm, by simp, by simp⟩,
            by simp [compareBytes]⟩
  | cons byte rest ih =>
      obtain ⟨head, tail⟩ := List.forall_mem_cons.mp leftNoNul
      cases right with
      | nil => exact ⟨0, ⟨by simp, head, by simp, by simp⟩, by simp [compareBytes]⟩
      | cons other others =>
          rw [compareBytes]
          by_cases same : byte = other
          · have rests : rest ≠ others := by
              intro equal
              exact differ (by rw [same, equal])
            obtain ⟨k, first, result⟩ :=
              ih tail (List.forall_mem_cons.mp rightNoNul).2 rests
            refine ⟨k + 1, ⟨?_, first.differ, Nat.succ_le_succ first.leftInside,
              Nat.succ_le_succ first.rightInside⟩, ?_⟩
            · intro j below
              cases j with
              | zero => exact same
              | succ j => exact first.before j (by omega)
            · rw [if_pos same]
              exact result
          · exact ⟨0, ⟨by simp, same, by simp, by simp⟩, by rw [if_neg same]; rfl⟩

theorem compareBytes_eq_zero_iff {left right : List UInt8}
    (leftNoNul : ∀ byte ∈ left, byte ≠ 0)
    (rightNoNul : ∀ byte ∈ right, byte ≠ 0) :
    compareBytes left right = 0 ↔ left = right := by
  constructor
  · intro zero
    by_contra differ
    obtain ⟨k, first, result⟩ :=
      compareBytes_firstDifference leftNoNul rightNoNul differ
    have codes : (left.getD k 0).toNat ≠ (right.getD k 0).toNat :=
      fun equal => first.differ (UInt8.toNat_inj.mp equal)
    omega
  · rintro rfl
    exact compareBytes_self left

theorem Precedes.trans {first second third : CString}
    (left : Precedes first second) (right : Precedes second third) :
    Precedes first third :=
  List.lex_trans (fun below above => Nat.lt_trans below above) left right

/-! ## What the loop returns -/

def Read.index : Read → Nat
  | .s1 index => index
  | .s2 index => index

section Turn

variable {s1 s2 : View} {i : Nat} (reads : List Read)

theorem strcmpBody_ended (ended : s1 i = 0) :
    strcmpBody s1 s2 (i, reads) = some (.inr (i, reads ++ [.s1 i])) :=
  if_pos (charVal_eq_zero.mpr ended)

theorem strcmpBody_same (goesOn : s1 i ≠ 0) (same : s1 i = s2 i) :
    strcmpBody s1 s2 (i, reads) =
      some (.inl (i + 1, reads ++ [.s1 i, .s1 i, .s2 i])) := by
  rw [strcmpBody, if_neg (mt charVal_eq_zero.mp goesOn),
    if_pos (charVal_inj.mpr same)]

theorem strcmpBody_differ (goesOn : s1 i ≠ 0) (differ : s1 i ≠ s2 i) :
    strcmpBody s1 s2 (i, reads) =
      some (.inr (i, reads ++ [.s1 i, .s1 i, .s2 i])) := by
  rw [strcmpBody, if_neg (mt charVal_eq_zero.mp goesOn),
    if_neg (mt charVal_inj.mp differ)]

theorem index_of_turn {read : Read}
    (member : read ∈ [Read.s1 i, .s1 i, .s2 i]) : read.index = i := by
  revert member
  simp only [List.mem_cons, List.not_mem_nil, or_false]
  rintro (rfl | rfl | rfl) <;> rfl

end Turn

/-- The loop leaves off at a place inside both strings, whose bytes decide the
comparison, and reads nothing behind it. -/
theorem strcmpLoop_stops {s1 s2 : View} (left : List UInt8) {right : List UInt8}
    {i : Nat} (reads : List Read) (leftNoNul : ∀ byte ∈ left, byte ≠ 0)
    (atLeft : TailAt s1 i left) (atRight : TailAt s2 i right) :
    ∃ k more, iterate (strcmpBody s1 s2) (left.length + 1) (i, reads) =
        some (i + k, reads ++ more) ∧
      k ≤ left.length ∧ k ≤ right.length ∧
      (∀ read ∈ more, read.index ≤ i + k) ∧
      ((s1 (i + k)).toNat : Int) - (s2 (i + k)).toNat =
        compareBytes left right := by
  induction left generalizing i right reads with
  | nil =>
      have stops := @strcmpBody_ended s1 s2 i reads atLeft.nil
      refine ⟨0, [.s1 i], ?_, Nat.le_refl 0, Nat.zero_le _, ?_, ?_⟩
      · exact iterate_stop 0 stops
      · intro read member
        rw [List.mem_singleton.mp member]
        exact Nat.le_refl i
      · rw [Nat.add_zero, atLeft.nil]
        cases right with
        | nil => rw [atRight.nil]; rfl
        | cons byte rest => rw [atRight.head]; simp [compareBytes]
  | cons byte rest ih =>
      obtain ⟨nonzero, tail⟩ := List.forall_mem_cons.mp leftNoNul
      have here : s1 i = byte := atLeft.head
      have goesOn : s1 i ≠ 0 := here ▸ nonzero
      by_cases same : s1 i = s2 i
      · cases right with
        | nil => exact absurd (same.trans atRight.nil) goesOn
        | cons other others =>
            have equal : byte = other :=
              here.symm.trans (same.trans atRight.head)
            obtain ⟨k, more, result, inLeft, inRight, bounded, value⟩ :=
              ih (reads ++ [.s1 i, .s1 i, .s2 i]) tail atLeft.tail atRight.tail
            have position : i + (k + 1) = i + 1 + k := by omega
            refine ⟨k + 1, [.s1 i, .s1 i, .s2 i] ++ more, ?_,
              Nat.succ_le_succ inLeft, Nat.succ_le_succ inRight, ?_, ?_⟩
            · rw [List.length_cons, position,
                iterate_next _ (strcmpBody_same reads goesOn same), result,
                List.append_assoc]
            · intro read member
              rcases List.mem_append.mp member with now | later
              · rw [index_of_turn now]
                exact Nat.le_add_right _ _
              · rw [position]
                exact bounded read later
            · rw [position, value, compareBytes, if_pos equal]
      · have stops := strcmpBody_differ reads goesOn same
        refine ⟨0, [.s1 i, .s1 i, .s2 i], ?_, Nat.zero_le _, Nat.zero_le _, ?_, ?_⟩
        · exact iterate_stop rest.length.succ stops
        · intro read member
          rw [index_of_turn member]
          exact Nat.le_refl i
        · rw [Nat.add_zero]
          cases right with
          | nil =>
              rw [here, atRight.nil]
              simp [compareBytes]
          | cons other others =>
              rw [here, atRight.head] at same ⊢
              rw [compareBytes, if_neg same]

def InsideStrings (first second : CString) : Read → Prop
  | .s1 index => index ≤ first.bytes.length
  | .s2 index => index ≤ second.bytes.length

section Terminated

variable {s1 s2 : View} {first second : CString}

theorem returns_unique {value other : Int} {reads otherReads : List Read}
    (left : Returns s1 s2 value reads) (right : Returns s1 s2 other otherReads) :
    value = other := by
  obtain ⟨fuel, leftRun⟩ := left
  obtain ⟨more, rightRun⟩ := right
  obtain ⟨leftStop, leftLoop, leftEnd⟩ := Option.bind_eq_some_iff.mp leftRun
  obtain ⟨rightStop, rightLoop, rightEnd⟩ := Option.bind_eq_some_iff.mp rightRun
  rw [iterate_unique leftLoop rightLoop] at leftEnd
  exact congrArg Prod.fst (Option.some.inj (leftEnd.symm.trans rightEnd))

theorem exists_returns (heldFirst : HoldsString s1 first)
    (heldSecond : HoldsString s2 second) :
    ∃ reads, Returns s1 s2 (compareBytes first.bytes second.bytes) reads ∧
      ∀ read ∈ reads, InsideStrings first second read := by
  obtain ⟨k, more, result, inFirst, inSecond, bounded, value⟩ :=
    strcmpLoop_stops first.bytes [] first.noNul heldFirst.tailAt
      heldSecond.tailAt
  rw [List.nil_append] at result
  refine ⟨more ++ [.s1 (0 + k), .s2 (0 + k)], ⟨first.bytes.length + 1, ?_⟩, ?_⟩
  · rw [strcmpRun, result, ← value]
    rfl
  · intro read member
    have near : read.index ≤ k := by
      rcases List.mem_append.mp member with inLoop | atEnd
      · exact (Nat.zero_add k) ▸ bounded read inLoop
      · simp only [List.mem_cons, List.not_mem_nil, or_false] at atEnd
        rcases atEnd with rfl | rfl
        · exact Nat.le_of_eq (Nat.zero_add k)
        · exact Nat.le_of_eq (Nat.zero_add k)
    cases read with
    | s1 index => exact Nat.le_trans near inFirst
    | s2 index => exact Nat.le_trans near inSecond

theorem returns_eq_compareBytes (heldFirst : HoldsString s1 first)
    (heldSecond : HoldsString s2 second) {value : Int} {reads : List Read}
    (returned : Returns s1 s2 value reads) :
    value = compareBytes first.bytes second.bytes := by
  obtain ⟨_, compared, -⟩ := exists_returns heldFirst heldSecond
  exact returns_unique returned compared

end Terminated

/-- The function that stops at the end of a known second string agrees. -/
theorem strcmpStop_compareBytes {s1 : View} {left : List UInt8}
    (right : List UInt8) {i : Nat} (noNul : ∀ byte ∈ right, byte ≠ 0)
    (atLeft : TailAt s1 i left) :
    i ≤ strcmpStop s1 right i ∧
      ((s1 (strcmpStop s1 right i)).toNat : Int) -
          (right.getD (strcmpStop s1 right i - i) 0).toNat =
        compareBytes left right := by
  induction right generalizing i left with
  | nil =>
      cases left with
      | nil => simp [strcmpStop, compareBytes, atLeft.nil]
      | cons byte rest => simp [strcmpStop, compareBytes, atLeft.head]
  | cons other others ih =>
      obtain ⟨nonzero, tail⟩ := List.forall_mem_cons.mp noNul
      rw [strcmpStop]
      cases left with
      | nil =>
          rw [if_neg (fun both => both.1 atLeft.nil), atLeft.nil, Nat.sub_self]
          simp [compareBytes]
      | cons byte rest =>
          rw [atLeft.head, compareBytes]
          by_cases same : byte = other
          · rw [if_pos ⟨same ▸ nonzero, same⟩, if_pos same]
            obtain ⟨later, value⟩ := ih tail atLeft.tail
            have shift : strcmpStop s1 others (i + 1) - i =
                (strcmpStop s1 others (i + 1) - (i + 1)) + 1 := by omega
            rw [shift, List.getD_cons_succ]
            exact ⟨by omega, value⟩
          · rw [if_neg (fun both => same both.2), if_neg same, atLeft.head,
              Nat.sub_self, List.getD_cons_zero]
            exact ⟨Nat.le_refl i, rfl⟩

theorem strcmp_eq_compareBytes {s1 : View} {first : CString}
    (held : HoldsString s1 first) (second : CString) :
    strcmp s1 second = compareBytes first.bytes second.bytes :=
  (strcmpStop_compareBytes second.bytes second.noNul held.tailAt).2

/-- `strcmp` decides the lexicographic order of terminated strings by the sign
of the first difference, inside both strings, so its sign is that of an order.
Its value is the one that the shell and the archive work with. -/
theorem strcmp_lexicographic (s1 s2 s3 : View) (first second third : CString)
    (heldFirst : HoldsString s1 first) (heldSecond : HoldsString s2 second)
    (heldThird : HoldsString s3 third) :
    ∃ value reads, Returns s1 s2 value reads ∧
      (∀ read ∈ reads, InsideStrings first second read) ∧
      value = strcmp s1 second ∧
      (value = 0 ↔ first = second) ∧
      (first ≠ second → ∃ k, FirstDifference first.bytes second.bytes k ∧
        value = ((first.view k).toNat : Int) - (second.view k).toNat) ∧
      (value < 0 ↔ Precedes first second) ∧
      (0 < value ↔ Precedes second first) ∧
      (∀ back backReads, Returns s2 s1 back backReads → back = -value) ∧
      ∀ next nextReads whole wholeReads, Returns s2 s3 next nextReads →
        Returns s1 s3 whole wholeReads →
        (value < 0 → next < 0 → whole < 0) ∧
        (value ≤ 0 → next ≤ 0 → whole ≤ 0) := by
  obtain ⟨reads, returned, inside⟩ := exists_returns heldFirst heldSecond
  have below : ∀ left right : CString,
      compareBytes left.bytes right.bytes < 0 ↔ Precedes left right :=
    fun left right => compareBytes_neg_iff right.noNul
  have swap := compareBytes_swap first.bytes second.bytes
  have equal : ∀ left right : CString,
      compareBytes left.bytes right.bytes = 0 ↔ left = right := by
    intro left right
    rw [compareBytes_eq_zero_iff left.noNul right.noNul]
    exact ⟨CString.eq_of_bytes, congrArg CString.bytes⟩
  refine ⟨_, reads, returned, inside, (strcmp_eq_compareBytes heldFirst second).symm,
    equal first second, ?_, below first second, ?_, ?_, ?_⟩
  · intro differ
    exact compareBytes_firstDifference first.noNul second.noNul
      (fun same => differ (CString.eq_of_bytes same))
  · rw [← below second first, swap]
    omega
  · intro back backReads answered
    rw [returns_eq_compareBytes heldSecond heldFirst answered, swap]
  · intro next nextReads whole wholeReads answeredNext answeredWhole
    rw [returns_eq_compareBytes heldSecond heldThird answeredNext,
      returns_eq_compareBytes heldFirst heldThird answeredWhole]
    have strict : compareBytes first.bytes second.bytes < 0 →
        compareBytes second.bytes third.bytes < 0 →
        compareBytes first.bytes third.bytes < 0 := by
      intro left right
      rw [below] at left right ⊢
      exact left.trans right
    refine ⟨strict, ?_⟩
    intro left right
    rcases Int.lt_or_eq_of_le left with lower | same
    · rcases Int.lt_or_eq_of_le right with higher | same
      · exact Int.le_of_lt (strict lower higher)
      · obtain rfl := (equal second third).mp same
        exact left
    · obtain rfl := (equal first second).mp same
      exact right

/-- A byte above 0x7F is the larger one although it is a negative `char`. -/
theorem strcmp_lexicographic_highByte :
    ∃ value reads,
      Returns (CString.ofString "a").view
        (CString.cons 0xC3 (by decide) .empty).view value reads ∧ value < 0 := by
  obtain ⟨value, reads, returned, -, -, -, -, precedes, -⟩ :=
    strcmp_lexicographic (CString.ofString "a").view
      (CString.cons 0xC3 (by decide) .empty).view (CString.ofString "a").view
      (CString.ofString "a") (CString.cons 0xC3 (by decide) .empty)
      (CString.ofString "a") (fun _ _ => rfl) (fun _ _ => rfl) (fun _ _ => rfl)
  refine ⟨value, reads, returned, precedes.mpr ?_⟩
  exact List.Lex.rel (by decide)

end Lumie.StrcmpOrder
