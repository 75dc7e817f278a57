import Lumie.Drivers.KeyboardSlot
import Lumie.Lib.Input

/-!
# Modifier keys

A stream of scancodes each of which is handled and then polled before the next
one arrives.  Of the keys Ctrl, Alt and Caps Lock the handler knows nothing: a
break code is not below 0x80, and a make code stores its entry of the layout
table, which is silent when that entry is zero.
-/

set_option autoImplicit false

namespace Lumie.KeyboardModifiers

open MachineInt FoldRun
open Lumie.Keyboard Lumie.KeyboardSlot Lumie.Screen Lumie.Input

/-- `keyboard_get_char()`, the character returned and the state after it. -/
def keyboardGetChar (keyboard : KeyboardState) : UInt8 × KeyboardState :=
  (keyboard.lastInterruptChar, { keyboard with lastInterruptChar := 0 })

def polls : Nat → KeyboardState → List UInt8 × KeyboardState
  | 0, keyboard => ([], keyboard)
  | count + 1, keyboard =>
      let call := keyboardGetChar keyboard
      let later := polls count call.2
      (call.1 :: later.1, later.2)

/-- A scancode, and how many polls beyond the first come before the next. -/
abbrev Stream := List (UInt8 × Nat)

def delivered : KeyboardState → Stream → List UInt8
  | _, [] => []
  | keyboard, (scancode, more) :: rest =>
      let call := polls (more + 1) (keyboardHandler keyboard scancode)
      call.1 ++ delivered call.2 rest

/-- The make and break codes of Ctrl, Alt and Caps Lock. -/
def modifierCodes : List UInt8 := [0x1D, 0x9D, 0x38, 0xB8, 0x3A, 0xBA]

def withoutModifiers (stream : Stream) : Stream :=
  stream.filter fun event => decide (event.1 ∉ modifierCodes)

theorem polls_empty (keyboard : KeyboardState) (count : Nat)
    (empty : keyboard.lastInterruptChar = 0) :
    polls count keyboard = (List.replicate count 0, keyboard) := by
  induction count with
  | zero => rfl
  | succ count ih =>
      have cleared : (keyboardGetChar keyboard).2 = keyboard := by
        rw [keyboardGetChar, ← empty]
      rw [polls, cleared, ih, keyboardGetChar, empty]
      rfl

def polled (keyboard : KeyboardState) (scancode : UInt8) : KeyboardState :=
  (keyboardGetChar (keyboardHandler keyboard scancode)).2

theorem nonzero_zero : nonzero [0] = [] := by decide

theorem nonzero_singleton {c : UInt8} (typed : c ≠ 0) : nonzero [c] = [c] := by
  simp [nonzero, typed]

theorem nonzero_delivered_cons (keyboard : KeyboardState) (scancode : UInt8)
    (more : Nat) (rest : Stream) :
    nonzero (delivered keyboard ((scancode, more) :: rest)) =
      nonzero [(keyboardHandler keyboard scancode).lastInterruptChar] ++
        nonzero (delivered (polled keyboard scancode) rest) := by
  have zeros : nonzero (List.replicate more 0) = [] := by simp [nonzero]
  rw [delivered, polls, polls_empty _ _ rfl, nonzero_append,
    ← List.singleton_append, nonzero_append, zeros, List.append_nil]
  rfl

def polledSteps (event : UInt8 × Nat) : List Step :=
  .interrupt event.1 :: (List.replicate (event.2 + 1) [.main, .main]).flatten

theorem polls_steps (session : Session) (count : Nat)
    (idle : session.loaded = none) :
    (run step session
        (List.replicate count [Step.main, Step.main]).flatten).returned.map
          Prod.fst =
      session.returned.map Prod.fst ++ (polls count session.keyboard).1 ∧
    (run step session
        (List.replicate count [Step.main, Step.main]).flatten).keyboard =
      (polls count session.keyboard).2 ∧
    (run step session
        (List.replicate count [Step.main, Step.main]).flatten).loaded = none := by
  induction count generalizing session with
  | zero => exact ⟨(List.append_nil _).symm, rfl, idle⟩
  | succ count ih =>
      have call : run step session [.main, .main] =
          clearStep (loadStep session) session.keyboard.lastInterruptChar := by
        simp [run, step, idle, loadStep]
      rw [List.replicate_succ, List.flatten_cons, run_append, call]
      obtain ⟨returned, keyboard, loaded⟩ :=
        ih (clearStep (loadStep session) session.keyboard.lastInterruptChar) rfl
      refine ⟨?_, keyboard, loaded⟩
      rw [returned, polls]
      simp [clearStep, loadStep, keyboardGetChar]

/-- The stream is a run of the session in which every call is complete before
the next interrupt. -/
theorem delivered_eq_returned (session : Session) (stream : Stream)
    (idle : session.loaded = none) :
    (run step session (stream.flatMap polledSteps)).returned.map Prod.fst =
      session.returned.map Prod.fst ++ delivered session.keyboard stream := by
  induction stream generalizing session with
  | nil => exact (List.append_nil _).symm
  | cons event rest ih =>
      have handled : (handlerStep session event.1).keyboard =
          keyboardHandler session.keyboard event.1 ∧
        (handlerStep session event.1).loaded = none ∧
        (handlerStep session event.1).returned = session.returned := by
        unfold handlerStep
        split <;> exact ⟨rfl, idle, rfl⟩
      obtain ⟨keyboard, free, before⟩ := handled
      obtain ⟨returned, after, loaded⟩ :=
        polls_steps (handlerStep session event.1) (event.2 + 1) free
      rw [List.flatMap_cons, run_append, polledSteps, run_cons, step,
        ih _ loaded, returned, after, before, keyboard, List.append_assoc]
      rfl

/-! ## The modifier codes -/

theorem applyShift_zero (layout : Layout) : applyShift layout 0 = 0 := by
  cases layout <;> decide

theorem applyLayout_zero {keyboard : KeyboardState} {scancode : UInt8}
    (entry : keyboard.currentLayout.table.getD scancode.toNat 0 = 0) :
    applyLayout keyboard scancode = 0 := by
  simp only [applyLayout, entry, applyShift_zero, ite_self]

/-- In the English table the entry of Alt is the digit zero. -/
theorem applyLayout_alt {keyboard : KeyboardState} :
    applyLayout keyboard 0x38 = 0 ↔ keyboard.currentLayout = .frCa := by
  obtain ⟨layout, shift, slot⟩ := keyboard
  cases layout with
  | frCa =>
      have entry : applyLayout ⟨.frCa, shift, slot⟩ 0x38 = 0 :=
        applyLayout_zero rfl
      simp [entry]
  | enUs =>
      have plain : Layout.enUs.table.getD (0x38 : UInt8).toNat 0 = 0x30 := rfl
      have shifted : applyShift .enUs 0x30 = 0x29 := by decide
      have digit : applyLayout ⟨.enUs, shift, slot⟩ 0x38 =
          if shift then 0x29 else 0x30 := by
        simp only [applyLayout, plain, shifted]
      rw [digit]
      cases shift <;> simp

theorem keyboardHandler_make (keyboard : KeyboardState) {scancode : UInt8}
    (make : scancode < 0x80) (notLeft : scancode ≠ 0x2A)
    (notRight : scancode ≠ 0x36) :
    keyboardHandler keyboard scancode =
      { keyboard with lastInterruptChar := applyLayout keyboard scancode } := by
  have notBreak : ¬ (scancode = 0xAA ∨ scancode = 0xB6) := by
    rintro (rfl | rfl)
    · exact absurd make (by decide)
    · exact absurd make (by decide)
  rw [keyboardHandler, if_neg (by tauto), if_neg notBreak, if_pos make]

theorem keyboardHandler_break (keyboard : KeyboardState) {scancode : UInt8}
    (notMake : ¬ scancode < 0x80) (notLeft : scancode ≠ 0xAA)
    (notRight : scancode ≠ 0xB6) :
    keyboardHandler keyboard scancode = keyboard := by
  have notShift : ¬ (scancode = 0x2A ∨ scancode = 0x36) := by
    rintro (rfl | rfl)
    · exact notMake (by decide)
    · exact notMake (by decide)
  rw [keyboardHandler, if_neg notShift, if_neg (by tauto), if_neg notMake]

theorem cleared_of_empty {keyboard : KeyboardState}
    (empty : keyboard.lastInterruptChar = 0) :
    { keyboard with lastInterruptChar := 0 } = keyboard := by
  rw [← empty]

/-- The make codes whose entry is zero in both tables do nothing to an empty
slot. -/
theorem keyboardHandler_silent {keyboard : KeyboardState} {scancode : UInt8}
    (empty : keyboard.lastInterruptChar = 0)
    (silent : scancode = 0x1D ∨ scancode = 0x3A) :
    keyboardHandler keyboard scancode = keyboard := by
  have entry : ∀ layout : Layout, layout.table.getD scancode.toNat 0 = 0 := by
    intro layout
    rcases silent with rfl | rfl
    · cases layout <;> rfl
    · cases layout <;> rfl
  have make : scancode < 0x80 ∧ scancode ≠ 0x2A ∧ scancode ≠ 0x36 := by
    rcases silent with rfl | rfl
    · decide
    · decide
  rw [keyboardHandler_make keyboard make.1 make.2.1 make.2.2,
    applyLayout_zero (entry _), cleared_of_empty empty]

/-- A modifier code leaves all but the slot alone, and the slot empty unless it
is the make code of Alt on the English layout. -/
theorem keyboardHandler_modifier {keyboard : KeyboardState} {scancode : UInt8}
    (empty : keyboard.lastInterruptChar = 0)
    (modifier : scancode ∈ modifierCodes) :
    polled keyboard scancode = keyboard ∧
      ((keyboardHandler keyboard scancode).lastInterruptChar = 0 ↔
        keyboard.currentLayout = .frCa ∨ scancode ≠ 0x38) := by
  by_cases alt : scancode = 0x38
  · subst alt
    rw [polled, keyboardHandler_make keyboard (by decide) (by decide)
      (by decide)]
    exact ⟨cleared_of_empty empty, by simp [applyLayout_alt]⟩
  · have kept : keyboardHandler keyboard scancode = keyboard := by
      simp only [modifierCodes, List.mem_cons, List.not_mem_nil, or_false]
        at modifier
      rcases modifier with rfl | rfl | same | rfl | rfl | rfl
      · exact keyboardHandler_silent empty (Or.inl rfl)
      · exact keyboardHandler_break keyboard (by decide) (by decide) (by decide)
      · exact absurd same alt
      · exact keyboardHandler_break keyboard (by decide) (by decide) (by decide)
      · exact keyboardHandler_silent empty (Or.inr rfl)
      · exact keyboardHandler_break keyboard (by decide) (by decide) (by decide)
    rw [polled, kept]
    exact ⟨cleared_of_empty empty, by simp [empty, alt]⟩

/-! ## Streams without modifiers -/

theorem currentLayout_polled (keyboard : KeyboardState) (scancode : UInt8) :
    (polled keyboard scancode).currentLayout = keyboard.currentLayout := by
  unfold polled keyboardHandler
  split
  · rfl
  · split
    · rfl
    · split <;> rfl

theorem delivered_withoutModifiers (keyboard : KeyboardState) (stream : Stream)
    (empty : keyboard.lastInterruptChar = 0) :
    (nonzero (delivered keyboard (withoutModifiers stream))).Sublist
        (nonzero (delivered keyboard stream)) ∧
      (nonzero (delivered keyboard stream)).length =
        (nonzero (delivered keyboard (withoutModifiers stream))).length +
          if keyboard.currentLayout = .frCa then 0
          else (stream.map Prod.fst).count 0x38 := by
  induction stream generalizing keyboard with
  | nil => simp [withoutModifiers, delivered]
  | cons event rest ih =>
      obtain ⟨scancode, more⟩ := event
      rw [List.map_cons, List.count_cons, nonzero_delivered_cons]
      by_cases modifier : scancode ∈ modifierCodes
      · have gone : withoutModifiers ((scancode, more) :: rest) =
            withoutModifiers rest := by
          simp [withoutModifiers, modifier]
        obtain ⟨kept, char⟩ := keyboardHandler_modifier empty modifier
        obtain ⟨sublist, length⟩ := ih keyboard empty
        rw [gone, kept]
        refine ⟨sublist.trans (List.sublist_append_right _ _), ?_⟩
        rw [List.length_append, length]
        by_cases silent : keyboard.currentLayout = .frCa ∨ scancode ≠ 0x38
        · rw [char.mpr silent, nonzero_zero]
          rcases silent with layout | other
          · simp [layout]
          · simp [other]
        · rw [nonzero_singleton (mt char.mp silent)]
          rw [not_or, not_not] at silent
          simp only [if_neg silent.1, silent.2, List.length_singleton,
            beq_self_eq_true, if_true]
          omega
      · have stays : withoutModifiers ((scancode, more) :: rest) =
            (scancode, more) :: withoutModifiers rest := by
          simp [withoutModifiers, modifier]
        have other : scancode ≠ 0x38 := by
          rintro rfl
          exact modifier (by decide)
        obtain ⟨sublist, length⟩ := ih (polled keyboard scancode) rfl
        rw [currentLayout_polled] at length
        rw [stays, nonzero_delivered_cons]
        refine ⟨sublist.append_left _, ?_⟩
        rw [List.length_append, List.length_append, length]
        simp [other, Nat.add_assoc]

theorem readlineFrom_nonzero (fb : Framebuffer) (font : Font) (maxLen : Nat)
    (line : Line) (input : List UInt8) :
    readlineFrom fb font maxLen line (nonzero input) =
      readlineFrom fb font maxLen line input := by
  induction input generalizing line with
  | nil => rfl
  | cons c rest ih =>
      by_cases zero : c = 0
      · have skipped : nonzero (c :: rest) = nonzero rest := by
          simp [nonzero, zero]
        rw [skipped, ih, readlineFrom, if_pos (charVal_eq_zero.mpr zero)]
      · have kept : nonzero (c :: rest) = c :: nonzero rest := by
          simp [nonzero, zero]
        rw [kept, readlineFrom, readlineFrom]
        simp only [ih]

/-- Deleting the modifier codes changes neither the nonzero characters of the
polls nor what `readline` makes of them. -/
def ModifiersSilent (keyboard : KeyboardState) (stream : Stream) : Prop :=
  nonzero (delivered keyboard (withoutModifiers stream)) =
      nonzero (delivered keyboard stream) ∧
    ∀ fb font con buffer maxLen,
      readline fb font con buffer maxLen
          (delivered keyboard (withoutModifiers stream)) =
        readline fb font con buffer maxLen (delivered keyboard stream)

/-- The modifier keys are silent unless Alt is pressed on the English layout. -/
theorem modifiersSilent_iff (layout : Layout) (shift : Bool) (stream : Stream) :
    ModifiersSilent ⟨layout, shift, 0⟩ stream ↔
      layout = .frCa ∨ 0x38 ∉ stream.map Prod.fst := by
  obtain ⟨sublist, length⟩ :=
    delivered_withoutModifiers ⟨layout, shift, 0⟩ stream rfl
  constructor
  · rintro ⟨same, -⟩
    by_contra typed
    rw [not_or, not_not, ← List.count_pos_iff] at typed
    rw [same, if_neg typed.1] at length
    omega
  · intro silent
    have none : (if layout = .frCa then 0
        else (stream.map Prod.fst).count 0x38) = 0 := by
      rcases silent with french | absent
      · exact if_pos french
      · simp [List.count_eq_zero.mpr absent]
    rw [none, Nat.add_zero] at length
    have same := sublist.eq_of_length length.symm
    refine ⟨same, ?_⟩
    intro fb font con buffer maxLen
    rw [readline, ← readlineFrom_nonzero, same, readlineFrom_nonzero, readline]

theorem alt_types_zero :
    ¬ ∀ layout shift stream, ModifiersSilent ⟨layout, shift, 0⟩ stream := by
  intro all
  have same := (all .enUs false [(0x38, 0)]).1
  exact absurd same (by decide)

end Lumie.KeyboardModifiers
