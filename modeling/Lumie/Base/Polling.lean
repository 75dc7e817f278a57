import Lumie.Base.FirstIndex
import Lumie.Base.WhileLoop

/-!
# Polling loops

A loop that reads until a read lets it go on, and that looks at nothing else.
It notes what it does at each read, so its result says which reads were made.
-/

set_option autoImplicit false

namespace Polling

open FirstIndex WhileLoop

variable {Note : Type*}

/-- One read, on the number of reads so far and the notes so far. -/
def pollingBody (again : Nat → Bool) (note : Nat → List Note) :
    Nat × List Note → Option ((Nat × List Note) ⊕ (Nat × List Note))
  | (k, notes) =>
      let seen := (k + 1, notes ++ note k)
      if again k then some (.inl seen) else some (.inr seen)

section Rules

variable {again : Nat → Bool} {note : Nat → List Note}

/-- The loop ends with the first read that lets it go on. -/
theorem polling_iff {fuel k : Nat} {notes : List Note}
    {after : Nat × List Note} :
    iterate (pollingBody again note) fuel (k, notes) = some after ↔
      ∃ i, FirstFrom (fun j => again j = false) k i ∧ i < k + fuel ∧
        after = (i + 1, notes ++ (List.range' k (i + 1 - k)).flatMap note) := by
  induction fuel generalizing k notes with
  | zero =>
      constructor
      · intro impossible
        cases impossible
      · rintro ⟨i, first, below, -⟩
        have reached := first.reached
        omega
  | succ fuel ih =>
      by_cases goesOn : again k = true
      · have moves : pollingBody again note (k, notes) =
            some (.inl (k + 1, notes ++ note k)) := if_pos goesOn
        rw [iterate_next fuel moves, ih]
        refine exists_congr fun i => ?_
        have later : FirstFrom (fun j => again j = false) k i ↔
            FirstFrom (fun j => again j = false) (k + 1) i :=
          firstFrom_next (by simp [goesOn])
        rw [later]
        refine and_congr_right fun first => ?_
        have reached := first.reached
        have count : i + 1 - k = i + 1 - (k + 1) + 1 := by omega
        have within : i < k + 1 + fuel ↔ i < k + (fuel + 1) := by omega
        rw [count, List.range'_succ, List.flatMap_cons, within,
          List.append_assoc]
      · have stops : pollingBody again note (k, notes) =
            some (.inr (k + 1, notes ++ note k)) := if_neg goesOn
        have here : again k = false := by simpa using goesOn
        rw [iterate_stop fuel stops, Option.some.injEq]
        constructor
        · rintro rfl
          refine ⟨k, (firstFrom_here here).mpr rfl, by omega, ?_⟩
          rw [Nat.add_sub_cancel_left, List.range'_one, List.flatMap_singleton]
        · rintro ⟨i, first, -, ends⟩
          obtain rfl := (firstFrom_here here).mp first
          rw [ends, Nat.add_sub_cancel_left, List.range'_one,
            List.flatMap_singleton]

theorem polling_ends {k i : Nat} (reached : k ≤ i) (done : again i = false)
    (notes : List Note) :
    ∃ fuel after, iterate (pollingBody again note) fuel (k, notes) =
      some after := by
  obtain ⟨first, -, firstFrom⟩ :=
    @exists_firstFrom (fun j => again j = false) k i reached done
  exact ⟨first + 1, _, polling_iff.mpr ⟨first, firstFrom, by omega, rfl⟩⟩

end Rules

end Polling
