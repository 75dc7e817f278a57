import Mathlib.Data.List.Basic

/-!
# Runs of a deterministic step function

A run applies one total step function to a list of actions.  `Always` states a
property of every state the run passes through, `Guarded` states a condition on
each action at the state in which it is taken.  The rules below reduce both to
one step: an invariant carried along a guarded run, the exact guard of a
property, and the simulation of one run by another.
-/

set_option autoImplicit false

namespace FoldRun

variable {State Action : Type*}

def run (step : State → Action → State) (start : State)
    (actions : List Action) : State :=
  actions.foldl step start

/-- The property holds at the start and after every action of the run. -/
def Always (step : State → Action → State) (property : State → Prop) :
    State → List Action → Prop
  | state, [] => property state
  | state, action :: rest =>
      property state ∧ Always step property (step state action) rest

/-- Every action meets the guard at the state in which the run takes it. -/
def Guarded (step : State → Action → State)
    (guard : State → Action → Prop) : State → List Action → Prop
  | _, [] => True
  | state, action :: rest =>
      guard state action ∧ Guarded step guard (step state action) rest

instance decidableGuarded (step : State → Action → State)
    (guard : State → Action → Prop)
    [∀ state action, Decidable (guard state action)] :
    ∀ (start : State) (actions : List Action),
      Decidable (Guarded step guard start actions)
  | _, [] => inferInstanceAs (Decidable True)
  | start, action :: rest =>
      have := decidableGuarded step guard (step start action) rest
      inferInstanceAs (Decidable (_ ∧ _))

section Rules

variable {step : State → Action → State}

@[simp] theorem run_nil (start : State) : run step start [] = start := rfl

@[simp] theorem run_cons (start : State) (action : Action)
    (rest : List Action) :
    run step start (action :: rest) = run step (step start action) rest := rfl

theorem run_append (start : State) (first second : List Action) :
    run step start (first ++ second) = run step (run step start first) second :=
  List.foldl_append

theorem always_start {property : State → Prop} {start : State}
    {actions : List Action} (always : Always step property start actions) :
    property start := by
  cases actions with
  | nil => exact always
  | cons action rest => exact always.1

theorem always_end {property : State → Prop} {start : State}
    {actions : List Action} (always : Always step property start actions) :
    property (run step start actions) := by
  induction actions generalizing start with
  | nil => exact always
  | cons action rest ih => exact ih always.2

theorem always_imp {before after : State → Prop} {start : State}
    {actions : List Action} (imp : ∀ state, before state → after state)
    (always : Always step before start actions) :
    Always step after start actions := by
  induction actions generalizing start with
  | nil => exact imp start always
  | cons action rest ih => exact ⟨imp start always.1, ih always.2⟩

theorem always_iff (property : State → Prop) (start : State)
    (actions : List Action) :
    Always step property start actions ↔
      ∀ done, done <+: actions → property (run step start done) := by
  induction actions generalizing start with
  | nil => simp [Always]
  | cons action rest ih =>
      simp only [Always, ih]
      constructor
      · rintro ⟨first, later⟩ done segment
        cases done with
        | nil => exact first
        | cons head tail =>
            obtain ⟨rfl, inner⟩ := List.cons_prefix_cons.mp segment
            exact later tail inner
      · intro all
        refine ⟨all [] List.nil_prefix, ?_⟩
        intro done segment
        exact all (action :: done) (List.cons_prefix_cons.mpr ⟨rfl, segment⟩)

theorem guarded_iff (guard : State → Action → Prop) (start : State)
    (actions : List Action) :
    Guarded step guard start actions ↔
      ∀ done action rest, actions = done ++ action :: rest →
        guard (run step start done) action := by
  induction actions generalizing start with
  | nil => simp [Guarded]
  | cons head tail ih =>
      simp only [Guarded, ih]
      constructor
      · rintro ⟨first, later⟩ done action rest split
        cases done with
        | nil =>
            obtain ⟨rfl, rfl⟩ := List.cons.inj split
            exact first
        | cons doneHead doneTail =>
            obtain ⟨rfl, tailSplit⟩ := List.cons.inj split
            exact later doneTail action rest tailSplit
      · intro all
        refine ⟨all [] head tail rfl, ?_⟩
        intro done action rest split
        exact all (head :: done) action rest (by rw [split]; rfl)

theorem guarded_action (guard : Action → Prop) (start : State)
    (actions : List Action) :
    Guarded step (fun _ action => guard action) start actions ↔
      ∀ action ∈ actions, guard action := by
  induction actions generalizing start with
  | nil => simp [Guarded]
  | cons action rest ih =>
      rw [Guarded, ih, List.forall_mem_cons]

theorem run_invariant {invariant : State → Prop}
    (keeps : ∀ state action, invariant state →
      invariant (step state action))
    {start : State} (holds : invariant start) (actions : List Action) :
    invariant (run step start actions) := by
  induction actions generalizing start with
  | nil => exact holds
  | cons action rest ih => exact ih (keeps start action holds)

/-- When the guard keeps an invariant that gives the property, and the property
after a step gives the guard, the property holds all along a run exactly when
the run is guarded. -/
theorem always_iff_guarded {invariant property : State → Prop}
    {guard : State → Action → Prop} {start : State} {actions : List Action}
    (gives : ∀ state, invariant state → property state)
    (keeps : ∀ state, ∀ action ∈ actions, invariant state →
      guard state action → invariant (step state action))
    (needs : ∀ state, ∀ action ∈ actions, invariant state →
      property (step state action) → guard state action)
    (holds : invariant start) :
    Always step property start actions ↔
      Guarded step guard start actions := by
  induction actions generalizing start with
  | nil => exact iff_of_true (gives start holds) trivial
  | cons action rest ih =>
      have first : action ∈ action :: rest := by simp
      have others : ∀ next ∈ rest, next ∈ action :: rest := by
        intro next member
        simp [member]
      have later := @ih (step start action)
        (fun state next member => keeps state next (others next member))
        (fun state next member => needs state next (others next member))
      constructor
      · rintro ⟨_, all⟩
        have met := needs start action first holds (always_start all)
        exact ⟨met, (later (keeps start action first holds met)).mp all⟩
      · rintro ⟨met, guarded⟩
        exact ⟨gives start holds,
          (later (keeps start action first holds met)).mpr guarded⟩

/-- A run whose guard follows from an invariant that guarded steps keep. -/
theorem guarded_of_invariant {invariant : State → Prop}
    {guard : State → Action → Prop} {start : State} {actions : List Action}
    (meets : ∀ state action, invariant state → guard state action)
    (keeps : ∀ state, ∀ action ∈ actions, invariant state →
      guard state action → invariant (step state action))
    (holds : invariant start) : Guarded step guard start actions := by
  induction actions generalizing start with
  | nil => trivial
  | cons action rest ih =>
      have met := meets start action holds
      refine ⟨met, ih ?_ (keeps start action (by simp) holds met)⟩
      intro state next member
      exact keeps state next (by simp [member])

/-- A property of the recorded history splits into its part before the step
and the guard of the step, so it holds at the end exactly on guarded runs. -/
theorem run_iff_guarded {invariant property : State → Prop}
    {guard : State → Action → Prop}
    (exactStep : ∀ state action, invariant state →
      (property (step state action) ↔ property state ∧ guard state action))
    {start : State} (actions : List Action)
    (always : Always step invariant start actions) :
    property (run step start actions) ↔
      property start ∧ Guarded step guard start actions := by
  induction actions generalizing start with
  | nil => simp [Guarded]
  | cons action rest ih =>
      rw [run_cons, ih always.2, exactStep start action always.1]
      simp only [Guarded]
      tauto

/-- Where every action keeps two step functions in a relation, on states with
the invariant, their runs stay in it. -/
theorem run_related {Abstract AbstractAction : Type*}
    {abstractStep : Abstract → AbstractAction → Abstract}
    {image : Action → AbstractAction} {invariant : State → Prop}
    {related : State → Abstract → Prop} {start : State} {abstract : Abstract}
    {actions : List Action}
    (keeps : ∀ state abstract, ∀ action ∈ actions,
      invariant state → related state abstract →
        related (step state action) (abstractStep abstract (image action)))
    (always : Always step invariant start actions)
    (holds : related start abstract) :
    related (run step start actions)
      (run abstractStep abstract (actions.map image)) := by
  induction actions generalizing start abstract with
  | nil => exact holds
  | cons action rest ih =>
      refine ih ?_ always.2 (keeps start abstract action (by simp) always.1 holds)
      intro state abstract next member
      exact keeps state abstract next (by simp [member])

/-- A simulation in which some actions are not seen by the abstract run. -/
theorem run_stutters {Abstract AbstractAction : Type*}
    {abstractStep : Abstract → AbstractAction → Abstract}
    {image : Action → Option AbstractAction} {related : State → Abstract → Prop}
    {start : State} {abstract : Abstract} {actions : List Action}
    (keeps : ∀ state abstract, ∀ action ∈ actions, related state abstract →
      related (step state action)
        ((image action).elim abstract (abstractStep abstract)))
    (holds : related start abstract) :
    related (run step start actions)
      (run abstractStep abstract (actions.filterMap image)) := by
  induction actions generalizing start abstract with
  | nil => exact holds
  | cons action rest ih =>
      have here := keeps start abstract action (by simp) holds
      have later : ∀ state abstract, ∀ next ∈ rest, related state abstract →
          related (step state next)
            ((image next).elim abstract (abstractStep abstract)) := by
        intro state abstract next member
        exact keeps state abstract next (by simp [member])
      cases seen : image action with
      | none =>
          rw [seen] at here
          rw [List.filterMap_cons_none seen]
          exact ih later here
      | some shown =>
          rw [seen] at here
          rw [List.filterMap_cons_some seen]
          exact ih later here

theorem run_flatMap {Small : Type*} {small : State → Small → State}
    {parts : Action → List Small}
    (unfolds : ∀ state action,
      step state action = run small state (parts action))
    (start : State) (actions : List Action) :
    run step start actions = run small start (actions.flatMap parts) := by
  induction actions generalizing start with
  | nil => rfl
  | cons action rest ih =>
      rw [run_cons, List.flatMap_cons, run_append, ← unfolds, ih]

theorem always_append (property : State → Prop) (start : State)
    (first second : List Action) :
    Always step property start (first ++ second) ↔
      Always step property start first ∧
        Always step property (run step start first) second := by
  induction first generalizing start with
  | nil =>
      constructor
      · intro (all : Always step property start second)
        have here : property start := always_start all
        exact ⟨here, all⟩
      · exact And.right
  | cons action rest ih =>
      simp only [List.cons_append, Always, run_cons, ih]
      tauto

theorem guarded_append (guard : State → Action → Prop) (start : State)
    (first second : List Action) :
    Guarded step guard start (first ++ second) ↔
      Guarded step guard start first ∧
        Guarded step guard (run step start first) second := by
  induction first generalizing start with
  | nil => simp [Guarded]
  | cons action rest ih =>
      simp only [List.cons_append, Guarded, run_cons, ih]
      tauto

section Parts

variable {Small : Type*} {small : State → Small → State}
  {parts : Action → List Small}

/-- The small steps pass only through states with the property when one
operation between two such states does. -/
theorem always_flatMap {property : State → Prop}
    (unfolds : ∀ state action,
      step state action = run small state (parts action))
    (inside : ∀ state action, property state →
      property (step state action) → Always small property state (parts action))
    {start : State} {actions : List Action}
    (always : Always step property start actions) :
    Always small property start (actions.flatMap parts) := by
  induction actions generalizing start with
  | nil => exact always
  | cons action rest ih =>
      rw [List.flatMap_cons, always_append, ← unfolds]
      exact ⟨inside start action always.1 (always_start always.2), ih always.2⟩

theorem always_of_flatMap {property : State → Prop}
    (unfolds : ∀ state action,
      step state action = run small state (parts action))
    {start : State} {actions : List Action}
    (always : Always small property start (actions.flatMap parts)) :
    Always step property start actions := by
  induction actions generalizing start with
  | nil => exact always
  | cons action rest ih =>
      rw [List.flatMap_cons, always_append, ← unfolds] at always
      exact ⟨always_start always.1, ih always.2⟩

theorem guarded_flatMap {guard : State → Small → Prop}
    (unfolds : ∀ state action,
      step state action = run small state (parts action))
    (start : State) (actions : List Action) :
    Guarded small guard start (actions.flatMap parts) ↔
      Guarded step (fun state action => Guarded small guard state (parts action))
        start actions := by
  induction actions generalizing start with
  | nil => simp [Guarded]
  | cons action rest ih =>
      rw [List.flatMap_cons, guarded_append, ← unfolds, ih]
      rfl

end Parts

end Rules

end FoldRun
