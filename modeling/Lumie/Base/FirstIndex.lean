import Mathlib.Data.List.Basic
import Mathlib.Tactic

/-!
# The first index of a scan

A `for` loop over `0 .. bound` that returns at the first index meeting its
test finds `IsFirst` of the test, or no index below the bound meets it.  A
polling loop has no bound and stops at `FirstFrom` of its test, if anywhere.
-/

set_option autoImplicit false

namespace FirstIndex

structure IsFirst (test : Nat → Prop) (bound index : Nat) : Prop where
  below : index < bound
  meets : test index
  least : ∀ earlier < index, ¬ test earlier

theorem isFirst_unique {test : Nat → Prop} {bound first second : Nat}
    (left : IsFirst test bound first) (right : IsFirst test bound second) :
    first = second := by
  rcases Nat.lt_trichotomy first second with lower | equal | higher
  · exact absurd left.meets (right.least first lower)
  · exact equal
  · exact absurd right.meets (left.least second higher)

theorem exists_isFirst {test : Nat → Prop} {bound index : Nat}
    (below : index < bound) (meets : test index) :
    ∃ first ≤ index, IsFirst test bound first := by
  induction index using Nat.strong_induction_on with
  | _ index ih =>
      by_cases least : ∀ earlier < index, ¬ test earlier
      · exact ⟨index, Nat.le_refl _, below, meets, least⟩
      · simp only [not_forall, not_not] at least
        obtain ⟨earlier, lower, found⟩ := least
        obtain ⟨first, before, isFirst⟩ := ih earlier lower (by omega) found
        exact ⟨first, by omega, isFirst⟩

theorem isFirst_or_none (test : Nat → Prop) (bound : Nat) :
    (∃ first, IsFirst test bound first) ∨ ∀ index < bound, ¬ test index := by
  by_cases none : ∀ index < bound, ¬ test index
  · exact Or.inr none
  · simp only [not_forall, not_not] at none
    obtain ⟨index, below, meets⟩ := none
    obtain ⟨first, -, isFirst⟩ := exists_isFirst below meets
    exact Or.inl ⟨first, isFirst⟩

theorem find?_range_eq_some_iff {test : Nat → Prop} [DecidablePred test]
    {bound index : Nat} :
    (List.range bound).find? (fun i => decide (test i)) = some index ↔
      IsFirst test bound index := by
  rw [List.find?_range_eq_some]
  constructor
  · rintro ⟨meets, below, least⟩
    exact ⟨by simpa using below, by simpa using meets, by simpa using least⟩
  · rintro ⟨below, meets, least⟩
    exact ⟨by simpa using meets, by simpa using below, by simpa using least⟩

theorem find?_range_eq_none_iff {test : Nat → Prop} [DecidablePred test]
    {bound : Nat} :
    (List.range bound).find? (fun i => decide (test i)) = none ↔
      ∀ index < bound, ¬ test index := by
  simp

structure FirstFrom (test : Nat → Prop) (start index : Nat) : Prop where
  reached : start ≤ index
  meets : test index
  least : ∀ earlier, start ≤ earlier → earlier < index → ¬ test earlier

section Unbounded

variable {test : Nat → Prop} {start index : Nat}

theorem firstFrom_here (here : test start) :
    FirstFrom test start index ↔ index = start := by
  constructor
  · intro first
    by_contra other
    have reached := first.reached
    exact first.least start (Nat.le_refl _) (by omega) here
  · rintro rfl
    refine ⟨Nat.le_refl _, here, ?_⟩
    intro earlier reached below
    omega

theorem firstFrom_next (notHere : ¬ test start) :
    FirstFrom test start index ↔ FirstFrom test (start + 1) index := by
  constructor
  · intro first
    have other : index ≠ start := by
      rintro rfl
      exact notHere first.meets
    have reached := first.reached
    refine ⟨by omega, first.meets, ?_⟩
    intro earlier behind below
    exact first.least earlier (by omega) below
  · intro first
    have reached := first.reached
    refine ⟨by omega, first.meets, ?_⟩
    intro earlier reaches below
    rcases Nat.lt_or_eq_of_le reaches with later | rfl
    · exact first.least earlier later below
    · exact notHere

theorem firstFrom_unique {other : Nat} (first : FirstFrom test start index)
    (second : FirstFrom test start other) : index = other := by
  rcases Nat.lt_trichotomy index other with lower | equal | higher
  · exact absurd first.meets (second.least index first.reached lower)
  · exact equal
  · exact absurd second.meets (first.least other second.reached higher)

theorem exists_firstFrom (reached : start ≤ index) (meets : test index) :
    ∃ first ≤ index, FirstFrom test start first := by
  obtain ⟨first, bound, isFirst⟩ :=
    @exists_isFirst (fun i => start ≤ i ∧ test i) (index + 1) index
      (Nat.lt_succ_self index) ⟨reached, meets⟩
  refine ⟨first, bound, isFirst.meets.1, isFirst.meets.2, ?_⟩
  intro earlier reaches below found
  exact isFirst.least earlier below ⟨reaches, found⟩

end Unbounded

end FirstIndex
