import Lumie.Base.FoldRun
import Lumie.Drivers.Keyboard

/-!
# The character slot between the interrupt and the reader

The handler runs as one atomic step between any two steps of the main program;
`keyboard_get_char` is two steps, the load of the slot and the store of zero.
The session records every character the handler stores, numbered in order, and
follows each number until a call returns it or it is gone.  The record has no
influence on the steps.
-/

set_option autoImplicit false

namespace Lumie.KeyboardSlot

open FoldRun
open Lumie.Keyboard

inductive Loss where
  | overwritten
  | cleared
  deriving DecidableEq, Repr

structure Session where
  keyboard : KeyboardState
  /-- The local `c` of a call between its two steps. -/
  loaded : Option UInt8
  stored : List UInt8
  /-- The number of the stored character that the slot holds unloaded. -/
  unread : Option Nat
  /-- The number of the character that the call in progress has loaded. -/
  taking : Option Nat
  returned : List (UInt8 × Option Nat)
  lost : List (Nat × Loss)

inductive Step where
  | interrupt (scancode : UInt8)
  | main
  deriving DecidableEq, Repr

def handlerStep (session : Session) (scancode : UInt8) : Session :=
  let after := { session with
    keyboard := keyboardHandler session.keyboard scancode }
  match storedChar session.keyboard scancode with
  | none => after
  | some c =>
      { after with
        stored := session.stored ++ [c]
        unread := some session.stored.length
        lost := session.lost ++
          session.unread.toList.map (fun n => (n, Loss.overwritten)) }

/-- `char c = last_interrupt_char;` -/
def loadStep (session : Session) : Session :=
  { session with
    loaded := some session.keyboard.lastInterruptChar
    taking := session.unread
    unread := none }

/-- `last_interrupt_char = '\0'; return c;` -/
def clearStep (session : Session) (c : UInt8) : Session :=
  { session with
    keyboard := { session.keyboard with lastInterruptChar := 0 }
    loaded := none
    taking := none
    unread := none
    returned := session.returned ++ [(c, session.taking)]
    lost := session.lost ++
      session.unread.toList.map (fun n => (n, Loss.cleared)) }

def step (session : Session) : Step → Session
  | .interrupt scancode => handlerStep session scancode
  | .main =>
      match session.loaded with
      | none => loadStep session
      | some c => clearStep session c

def start (layout : Layout) : Session where
  keyboard := ⟨layout, false, 0⟩
  loaded := none
  stored := []
  unread := none
  taking := none
  returned := []
  lost := []

def nonzero (chars : List UInt8) : List UInt8 := chars.filter (· ≠ 0)

/-! ## What is returned is a subsequence of what was stored -/

/-- Returned, then loaded or pending, is a subsequence of stored. -/
def Ordered (session : Session) : Prop :=
  (nonzero (session.returned.map Prod.fst ++
    [session.loaded.getD session.keyboard.lastInterruptChar])).Sublist
      (nonzero session.stored)

theorem nonzero_append (first second : List UInt8) :
    nonzero (first ++ second) = nonzero first ++ nonzero second := by
  simp [nonzero]

theorem ordered_step (session : Session) (action : Step)
    (ordered : Ordered session) : Ordered (step session action) := by
  unfold Ordered at ordered ⊢
  cases action with
  | interrupt scancode =>
      simp only [step, handlerStep]
      have slot := keyboardHandler_slot session.keyboard scancode
      cases stores : storedChar session.keyboard scancode with
      | none =>
          rw [stores, Option.getD_none] at slot
          simp only [slot]
          exact ordered
      | some c =>
          rw [stores, Option.getD_some] at slot
          simp only [slot]
          cases inCall : session.loaded with
          | none =>
              -- the new character replaces the pending one
              rw [inCall] at ordered
              simp only [nonzero_append, Option.getD_none] at ordered ⊢
              have before := (List.sublist_append_left _ _).trans ordered
              exact before.append (List.Sublist.refl _)
          | some held =>
              rw [inCall] at ordered
              simp only [Option.getD_some] at ordered ⊢
              rw [nonzero_append session.stored]
              exact ordered.trans (List.sublist_append_left _ _)
  | main =>
      cases inCall : session.loaded with
      | none =>
          rw [inCall] at ordered
          simp only [step, inCall, loadStep]
          exact ordered
      | some c =>
          rw [inCall] at ordered
          simp only [step, inCall, clearStep, List.map_append, List.map_cons,
            List.map_nil, Option.getD_none, Option.getD_some] at ordered ⊢
          rw [nonzero_append]
          simpa [nonzero] using ordered

/-- The nonzero characters that calls return are a subsequence of the nonzero
characters the handler stores, whatever the order of steps. -/
theorem returned_sublist_stored (layout : Layout) (steps : List Step) :
    (nonzero ((run step (start layout) steps).returned.map Prod.fst)).Sublist
      (nonzero (run step (start layout) steps).stored) := by
  have initially : Ordered (start layout) := by
    simp [Ordered, start, nonzero]
  have ordered := run_invariant ordered_step initially steps
  unfold Ordered at ordered
  rw [nonzero_append] at ordered
  exact (List.sublist_append_left _ _).trans ordered

/-! ## Every stored character is accounted for -/

def places (session : Session) : List Nat :=
  session.returned.filterMap Prod.snd ++ session.taking.toList ++
    session.lost.map Prod.fst ++ session.unread.toList

structure Accounted (session : Session) : Prop where
  once : (places session).Perm (List.range session.stored.length)
  idle : session.loaded = none → session.taking = none
  returnedChar : ∀ c n, (c, some n) ∈ session.returned →
    session.stored[n]? = some c
  takingChar : ∀ n, session.taking = some n →
    ∃ c, session.loaded = some c ∧ session.stored[n]? = some c
  unreadChar : ∀ n, session.unread = some n →
    session.stored[n]? = some session.keyboard.lastInterruptChar

theorem getElem?_append_of_some {chars : List UInt8} {n : Nat} {c : UInt8}
    (found : chars[n]? = some c) (more : List UInt8) :
    (chars ++ more)[n]? = some c := by
  rw [List.getElem?_append_left (List.getElem?_eq_some_iff.mp found).1, found]

theorem accounted_handlerStep (session : Session) (scancode : UInt8)
    (accounted : Accounted session) :
    Accounted (handlerStep session scancode) := by
  have slot := keyboardHandler_slot session.keyboard scancode
  unfold handlerStep
  cases stores : storedChar session.keyboard scancode with
  | none =>
      rw [stores, Option.getD_none] at slot
      refine ⟨accounted.once, accounted.idle, accounted.returnedChar,
        accounted.takingChar, ?_⟩
      intro n pending
      simpa [slot] using accounted.unreadChar n pending
  | some c =>
      rw [stores, Option.getD_some] at slot
      refine ⟨?_, accounted.idle, ?_, ?_, ?_⟩
      · have grown := accounted.once.append_right [session.stored.length]
        rw [← List.range_succ] at grown
        simpa [places, Function.comp_def] using grown
      · intro d n member
        exact getElem?_append_of_some (accounted.returnedChar d n member) [c]
      · intro n held
        obtain ⟨d, inCall, char⟩ := accounted.takingChar n held
        exact ⟨d, inCall, getElem?_append_of_some char [c]⟩
      · intro n pending
        obtain rfl : session.stored.length = n := Option.some.inj pending
        simp [slot]

theorem accounted_main (session : Session) (accounted : Accounted session) :
    Accounted (step session .main) := by
  cases inCall : session.loaded with
  | none =>
      simp only [step, inCall, loadStep]
      have free := accounted.idle inCall
      refine ⟨?_, ?_, accounted.returnedChar, ?_, ?_⟩
      · have once := accounted.once
        simp only [places, free, Option.toList_none, List.append_nil] at once ⊢
        rw [List.append_assoc]
        exact (List.Perm.append_left _ List.perm_append_comm).trans
          (by rwa [← List.append_assoc])
      · intro impossible
        cases impossible
      · intro n held
        exact ⟨_, rfl, accounted.unreadChar n held⟩
      · intro n impossible
        cases impossible
  | some c =>
      simp only [step, inCall, clearStep]
      refine ⟨?_, fun _ => rfl, ?_, ?_, ?_⟩
      · have once := accounted.once
        cases held : session.taking <;>
          simpa [places, held, Function.comp_def] using once
      · intro d n member
        rcases List.mem_append.mp member with earlier | last
        · exact accounted.returnedChar d n earlier
        · rw [List.mem_singleton, Prod.mk.injEq] at last
          obtain ⟨rfl, held⟩ := last
          obtain ⟨e, loaded, char⟩ := accounted.takingChar n held.symm
          rw [inCall] at loaded
          rw [char, loaded]
      · intro n impossible
        cases impossible
      · intro n impossible
        cases impossible

theorem accounted_run (layout : Layout) (steps : List Step) :
    Accounted (run step (start layout) steps) := by
  have initially : Accounted (start layout) := by
    refine ⟨?_, ?_, ?_, ?_, ?_⟩ <;> simp [start, places]
  refine run_invariant ?_ initially steps
  intro session action accounted
  cases action with
  | interrupt scancode => exact accounted_handlerStep session scancode accounted
  | main => exact accounted_main session accounted

/-- Exactly one call returns the character, or the call in progress has it, or
it is still in the slot. -/
def Delivered (session : Session) (n : Nat) (c : UInt8) : Prop :=
  ((c, some n) ∈ session.returned ∧
      (session.returned.filterMap Prod.snd).count n = 1) ∨
    (session.taking = some n ∧ session.loaded = some c) ∨
    (session.unread = some n ∧ session.keyboard.lastInterruptChar = c)

instance (session : Session) (n : Nat) (c : UInt8) :
    Decidable (Delivered session n c) :=
  inferInstanceAs (Decidable (_ ∨ _))

/-- The steps that take an unread character out of the slot without loading
it: a store of the handler, and the clear of a call that has loaded before. -/
def Displaces (session : Session) : Step → Prop
  | .interrupt scancode => (storedChar session.keyboard scancode).isSome
  | .main => session.loaded.isSome

theorem lost_step (session : Session) (action : Step) (n : Nat) (loss : Loss)
    (gone : (n, loss) ∈ (step session action).lost) :
    (n, loss) ∈ session.lost ∨
      (session.unread = some n ∧ Displaces session action) := by
  cases action with
  | interrupt scancode =>
      simp only [step, handlerStep] at gone
      cases stores : storedChar session.keyboard scancode with
      | none =>
          rw [stores] at gone
          exact Or.inl gone
      | some c =>
          simp only [stores, List.mem_append, List.mem_map,
            Option.mem_toList, Prod.mk.injEq] at gone
          rcases gone with before | ⟨m, pending, rfl, -⟩
          · exact Or.inl before
          · exact Or.inr ⟨pending, by simp [Displaces, stores]⟩
  | main =>
      cases inCall : session.loaded with
      | none =>
          simp only [step, inCall, loadStep] at gone
          exact Or.inl gone
      | some c =>
          simp only [step, inCall, clearStep, List.mem_append, List.mem_map,
            Option.mem_toList, Prod.mk.injEq] at gone
          rcases gone with before | ⟨m, pending, rfl, -⟩
          · exact Or.inl before
          · exact Or.inr ⟨pending, by simp [Displaces, inCall]⟩

theorem lost_run (layout : Layout) (steps : List Step) (n : Nat) (loss : Loss)
    (gone : (n, loss) ∈ (run step (start layout) steps).lost) :
    ∃ done action rest, steps = done ++ action :: rest ∧
      (run step (start layout) done).unread = some n ∧
      Displaces (run step (start layout) done) action := by
  induction steps using List.reverseRecOn with
  | nil => simp [start] at gone
  | append_singleton front last ih =>
      rw [run_append] at gone
      rcases lost_step _ last n loss gone with before | ⟨pending, displaces⟩
      · obtain ⟨done, action, rest, split, here⟩ := ih before
        exact ⟨done, action, rest ++ [last], by simp [split], here⟩
      · exact ⟨front, last, [], rfl, pending, displaces⟩

/-- In every run a stored character is delivered, unless some step displaces
it while it stands in the slot and no call has loaded it. -/
theorem delivered_or_displaced (layout : Layout) (steps : List Step)
    (n : Nat) (c : UInt8)
    (char : (run step (start layout) steps).stored[n]? = some c) :
    Delivered (run step (start layout) steps) n c ∨
      ∃ done action rest, steps = done ++ action :: rest ∧
        (run step (start layout) done).unread = some n ∧
        Displaces (run step (start layout) done) action := by
  have accounted := accounted_run layout steps
  have below := (List.getElem?_eq_some_iff.mp char).1
  have placed := accounted.once.mem_iff.mpr (List.mem_range.mpr below)
  have once := accounted.once.nodup_iff.mpr List.nodup_range
  simp only [places, List.mem_append, Option.mem_toList, List.mem_map] at placed
  rcases placed with ((returned | held) | ⟨⟨m, loss⟩, gone, rfl⟩) | pending
  · obtain ⟨⟨d, number⟩, member, rfl⟩ := List.mem_filterMap.mp returned
    have same := accounted.returnedChar d n member
    rw [char] at same
    obtain rfl : c = d := Option.some.inj same
    have distinct : (List.filterMap Prod.snd
        (run step (start layout) steps).returned).Nodup := by
      simp only [places, List.append_assoc] at once
      exact once.of_append_left
    exact Or.inl (Or.inl ⟨member, List.count_eq_one_of_mem distinct returned⟩)
  · obtain ⟨d, loaded, same⟩ := accounted.takingChar n held
    rw [char] at same
    obtain rfl : c = d := Option.some.inj same
    exact Or.inl (Or.inr (Or.inl ⟨held, loaded⟩))
  · exact Or.inr (lost_run layout steps m loss gone)
  · have same := accounted.unreadChar n pending
    rw [char] at same
    exact Or.inl (Or.inr (Or.inr ⟨pending, (Option.some.inj same).symm⟩))

theorem delivered_polled :
    Delivered (run step (start .enUs)
      [.interrupt 0x1E, .main, .main, .interrupt 0x1F, .main, .main]) 1 0x73 := by
  have outcome := delivered_or_displaced .enUs
    [.interrupt 0x1E, .main, .main, .interrupt 0x1F, .main, .main] 1 0x73
    (by decide)
  rcases outcome with delivered | -
  · exact delivered
  · decide

def NoneLost (session : Session) : Prop :=
  ∀ n c, session.stored[n]? = some c → c ≠ 0 → Delivered session n c

/-- Two keys between polls, a key without a character behind a pending one,
and a key between the load and the clear each lose a character. -/
theorem keystroke_lost :
    ¬ NoneLost (run step (start .enUs)
        [.interrupt 0x1E, .interrupt 0x1F, .main, .main]) ∧
      ¬ NoneLost (run step (start .enUs)
        [.interrupt 0x1E, .interrupt 0x1D, .main, .main]) ∧
      ¬ NoneLost (run step (start .enUs)
        [.main, .interrupt 0x1E, .main]) := by
  refine ⟨?_, ?_, ?_⟩
  · intro noneLost
    exact absurd (noneLost 0 0x61 (by decide) (by decide)) (by decide)
  · intro noneLost
    exact absurd (noneLost 0 0x61 (by decide) (by decide)) (by decide)
  · intro noneLost
    exact absurd (noneLost 0 0x61 (by decide) (by decide)) (by decide)

end Lumie.KeyboardSlot
