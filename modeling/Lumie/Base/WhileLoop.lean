import Mathlib.Data.Set.Basic
import Mathlib.Data.Set.Finite.Basic
import Mathlib.Logic.Relation

/-!
# While loops with an explicit iteration bound

A loop body takes the loop state either to a next state or to a result; the
outcome `none` stands for a body that itself never comes back.  `iterate` runs
the body a bounded number of times, so a loop terminates with a result exactly
when some bound produces it.  `Visits` is the set of states the loop head sees,
which is meaningful for loops that never end as well.
-/

set_option autoImplicit false

namespace WhileLoop

variable {State Result : Type*}

def iterate (body : State → Option (State ⊕ Result)) :
    Nat → State → Option Result
  | 0, _ => none
  | fuel + 1, state =>
      match body state with
      | none => none
      | some (.inl next) => iterate body fuel next
      | some (.inr result) => some result

/-- The states at which the loop head is evaluated. -/
inductive Visits (body : State → Option (State ⊕ Result)) (start : State) :
    State → Prop
  | start : Visits body start start
  | next {state after : State} (before : Visits body start state)
      (moves : body state = some (.inl after)) : Visits body start after

/-- A run from `start` has passed these states and is at the last one. -/
inductive Course (body : State → Option (State ⊕ Result)) (start : State) :
    List State → State → Prop
  | start : Course body start [] start
  | next {passed : List State} {state after : State}
      (before : Course body start passed state)
      (moves : body state = some (.inl after)) :
      Course body start (passed ++ [state]) after

section Rules

variable {body : State → Option (State ⊕ Result)}

theorem iterate_next {state after : State} (fuel : Nat)
    (moves : body state = some (.inl after)) :
    iterate body (fuel + 1) state = iterate body fuel after := by
  simp [iterate, moves]

theorem iterate_stop {state : State} {result : Result} (fuel : Nat)
    (stops : body state = some (.inr result)) :
    iterate body (fuel + 1) state = some result := by
  simp [iterate, stops]

theorem iterate_mono {fuel more : Nat} (enough : fuel ≤ more) {state : State}
    {result : Result} (success : iterate body fuel state = some result) :
    iterate body more state = some result := by
  induction fuel generalizing more state with
  | zero => simp [iterate] at success
  | succ fuel ih =>
      obtain ⟨more, rfl⟩ : ∃ rest, more = rest + 1 := ⟨more - 1, by omega⟩
      cases outcome : body state with
      | none => simp [iterate, outcome] at success
      | some sum =>
          cases sum with
          | inl after =>
              rw [iterate_next fuel outcome] at success
              rw [iterate_next more outcome]
              exact ih (by omega) success
          | inr final =>
              rw [iterate_stop fuel outcome] at success
              rw [iterate_stop more outcome, success]

theorem iterate_unique {first second : Nat} {state : State}
    {left right : Result} (leftRun : iterate body first state = some left)
    (rightRun : iterate body second state = some right) : left = right := by
  have leftMax := iterate_mono (Nat.le_max_left first second) leftRun
  have rightMax := iterate_mono (Nat.le_max_right first second) rightRun
  exact Option.some.inj (leftMax.symm.trans rightMax)

/-- A body that comes back whenever the first one does, with the same outcome,
gives the loop the same results. -/
theorem iterate_body_mono {other : State → Option (State ⊕ Result)}
    (covers : ∀ state outcome, body state = some outcome →
      other state = some outcome)
    {fuel : Nat} {state : State} {result : Result}
    (success : iterate body fuel state = some result) :
    iterate other fuel state = some result := by
  induction fuel generalizing state with
  | zero => simp [iterate] at success
  | succ fuel ih =>
      cases outcome : body state with
      | none => simp [iterate, outcome] at success
      | some sum =>
          have same := covers state sum outcome
          cases sum with
          | inl after =>
              rw [iterate_next fuel outcome] at success
              rw [iterate_next fuel same]
              exact ih success
          | inr final =>
              rw [iterate_stop fuel outcome] at success
              rw [iterate_stop fuel same, success]

theorem visits_of_iterate {fuel : Nat} {start state : State} {result : Result}
    (seen : Visits body start state)
    (success : iterate body fuel state = some result) :
    ∃ last, Visits body start last ∧ body last = some (.inr result) := by
  induction fuel generalizing state with
  | zero => simp [iterate] at success
  | succ fuel ih =>
      cases outcome : body state with
      | none => simp [iterate, outcome] at success
      | some sum =>
          cases sum with
          | inl after =>
              rw [iterate_next fuel outcome] at success
              exact ih (.next seen outcome) success
          | inr final =>
              rw [iterate_stop fuel outcome] at success
              exact ⟨state, seen, by rw [outcome, Option.some.inj success]⟩

theorem iterate_of_visits {start state : State} {fuel : Nat} {result : Result}
    (seen : Visits body start state)
    (success : iterate body fuel state = some result) :
    ∃ total, iterate body total start = some result := by
  induction seen generalizing fuel with
  | start => exact ⟨fuel, success⟩
  | next _ moves ih =>
      have longer := iterate_next fuel moves
      rw [success] at longer
      exact ih longer

theorem iterate_through {start state : State} {fuel : Nat} {result : Result}
    (seen : Visits body start state)
    (success : iterate body fuel start = some result) :
    ∃ rest, iterate body rest state = some result := by
  induction seen with
  | start => exact ⟨fuel, success⟩
  | next _ moves ih =>
      obtain ⟨rest, before⟩ := ih
      cases rest with
      | zero => simp [iterate] at before
      | succ rest =>
          rw [iterate_next rest moves] at before
          exact ⟨rest, before⟩

theorem iterate_stuck {state : State} (moves : body state = some (.inl state))
    (fuel : Nat) : iterate body fuel state = none := by
  induction fuel with
  | zero => rfl
  | succ fuel ih => rw [iterate_next fuel moves, ih]

/-- A loop that goes on wherever the invariant holds, and keeps it, has no
result. -/
theorem iterate_endless {invariant : State → Prop}
    (goesOn : ∀ state, invariant state →
      ∃ after, body state = some (.inl after) ∧ invariant after)
    {state : State} (holds : invariant state) (fuel : Nat) :
    iterate body fuel state = none := by
  induction fuel generalizing state with
  | zero => rfl
  | succ fuel ih =>
      obtain ⟨after, moves, kept⟩ := goesOn state holds
      rw [iterate_next fuel moves, ih kept]

theorem iterate_of_rank {start : State} (rank : State → Nat)
    (answers : ∀ state, Visits body start state → body state ≠ none)
    (drops : ∀ state after, Visits body start state →
      body state = some (.inl after) → rank after < rank state)
    {fuel : Nat} (enough : rank start < fuel) :
    ∃ result, iterate body fuel start = some result := by
  have turns : ∀ fuel state, Visits body start state → rank state < fuel →
      ∃ result, iterate body fuel state = some result := by
    intro fuel
    induction fuel with
    | zero =>
        intro state _ impossible
        cases impossible
    | succ fuel ih =>
        intro state seen below
        cases outcome : body state with
        | none => exact absurd outcome (answers state seen)
        | some sum =>
            cases sum with
            | inl after =>
                have lower := drops state after seen outcome
                rw [iterate_next fuel outcome]
                exact ih after (.next seen outcome) (by omega)
            | inr result => exact ⟨result, iterate_stop fuel outcome⟩
  exact turns fuel start .start enough

theorem iterate_congr {other : State → Option (State ⊕ Result)} {start : State}
    (agree : ∀ state, Visits body start state → other state = body state)
    (fuel : Nat) : iterate other fuel start = iterate body fuel start := by
  have turns : ∀ fuel state, Visits body start state →
      iterate other fuel state = iterate body fuel state := by
    intro fuel
    induction fuel with
    | zero =>
        intro state _
        rfl
    | succ fuel ih =>
        intro state seen
        rw [iterate, iterate, agree state seen]
        cases outcome : body state with
        | none => rfl
        | some sum =>
            cases sum with
            | inl after => exact ih after (.next seen outcome)
            | inr result => rfl
  exact turns fuel start .start

/-- Every visited state has a property exactly when some set of states that
contains the start and is closed under the body has it. -/
theorem visits_iff_closed {property : State → Prop} {start : State} :
    (∀ state, Visits body start state → property state) ↔
      ∃ inside : Set State, start ∈ inside ∧
        ∀ state ∈ inside, property state ∧
          ∀ after, body state = some (.inl after) → after ∈ inside := by
  constructor
  · intro all
    refine ⟨{state | Visits body start state}, .start, ?_⟩
    intro state seen
    exact ⟨all state seen, fun after moves => .next seen moves⟩
  · rintro ⟨inside, first, closed⟩ state seen
    suffices member : state ∈ inside from (closed state member).1
    induction seen with
    | start => exact first
    | next _ moves ih => exact (closed _ ih).2 _ moves

theorem Course.visits {start last : State} {passed : List State}
    (course : Course body start passed last) :
    Visits body start last ∧ ∀ state ∈ passed, Visits body start state := by
  induction course with
  | start => exact ⟨.start, by simp⟩
  | next _ moves ih =>
      refine ⟨.next ih.1 moves, ?_⟩
      intro state member
      rcases List.mem_append.mp member with earlier | here
      · exact ih.2 state earlier
      · rw [List.mem_singleton.mp here]
        exact ih.1

/-- A run through finitely many states comes to a state it does not move on
from, or to one it has passed. -/
theorem exists_course {start : State}
    (finite : {state | Visits body start state}.Finite) :
    ∃ passed last, Course body start passed last ∧
      (last ∈ passed ∨ ∀ after, body last ≠ some (.inl after)) := by
  classical
  by_contra never
  have goesOn : ∀ n, ∃ passed last, Course body start passed last ∧
      passed.length = n ∧ passed.Nodup ∧ last ∉ passed := by
    intro n
    induction n with
    | zero => exact ⟨[], start, .start, rfl, List.nodup_nil, by simp⟩
    | succ n ih =>
        obtain ⟨passed, last, course, length, distinct, fresh⟩ := ih
        have moves : ∃ after, body last = some (.inl after) := by
          by_contra stays
          exact never ⟨passed, last, course, .inr (not_exists.mp stays)⟩
        obtain ⟨after, moves⟩ := moves
        have further := course.next moves
        refine ⟨passed ++ [last], after, further, by simp [length], ?_, ?_⟩
        · exact List.nodup_append_comm.mp
            (List.nodup_cons.mpr ⟨fresh, distinct⟩)
        · exact fun back => never ⟨_, after, further, .inl back⟩
  obtain ⟨passed, last, course, length, distinct, -⟩ :=
    goesOn (finite.toFinset.card + 1)
  have inside : passed.toFinset ⊆ finite.toFinset := by
    intro state member
    exact finite.mem_toFinset.mpr
      (course.visits.2 state (List.mem_toFinset.mp member))
  have most := Finset.card_le_card inside
  rw [List.toFinset_card_of_nodup distinct] at most
  omega

end Rules

end WhileLoop
