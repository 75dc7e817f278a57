import Lumie.Drivers.KeyboardSlot
import Lumie.Lib.InputLine

/-!
# The line that is typed

From the scancodes of a run to the line that `readline` returns.  A run loses
nothing as long as no step displaces a pending character, and then the calls of
`keyboard_get_char` return what the scancodes type.
-/

set_option autoImplicit false

namespace Lumie.InputTyped

open FoldRun
open Lumie.Strings Lumie.Screen Lumie.Input Lumie.InputLine
open Lumie.Keyboard Lumie.KeyboardSlot

/-! ## What scancodes type -/

/-- The characters of a series of scancodes, with the shift keys as they were
before it. -/
def typed (layout : Layout) : Bool → List UInt8 → List UInt8
  | _, [] => []
  | shift, scancode :: rest =>
      if scancode = 0x2A ∨ scancode = 0x36 then typed layout true rest
      else if scancode = 0xAA ∨ scancode = 0xB6 then typed layout false rest
      else if scancode < 0x80 then
        applyLayout ⟨layout, shift, 0⟩ scancode :: typed layout shift rest
      else typed layout shift rest

def scancodes (steps : List Step) : List UInt8 :=
  steps.filterMap fun
    | .interrupt scancode => some scancode
    | .main => none

structure Mode (layout : Layout) (shift : Bool) (session : Session) : Prop where
  layout : session.keyboard.currentLayout = layout
  shift : session.keyboard.shiftActive = shift

section Steps

variable {session : Session}

theorem step_quiet {scancode : UInt8}
    (quiet : storedChar session.keyboard scancode = none) :
    step session (.interrupt scancode) =
      { session with keyboard := keyboardHandler session.keyboard scancode } := by
  simp only [step, handlerStep, quiet]

theorem step_store {scancode c : UInt8}
    (stores : storedChar session.keyboard scancode = some c) :
    step session (.interrupt scancode) =
      { session with
        keyboard := keyboardHandler session.keyboard scancode
        stored := session.stored ++ [c]
        unread := some session.stored.length
        lost := session.lost ++
          session.unread.toList.map (fun n => (n, Loss.overwritten)) } := by
  simp only [step, handlerStep, stores]

theorem step_load (idle : session.loaded = none) :
    step session .main = loadStep session := by
  simp only [step, idle]

theorem step_clear {c : UInt8} (inCall : session.loaded = some c) :
    step session .main = clearStep session c := by
  simp only [step, inCall]

end Steps

section Decoding

variable {layout : Layout} {shift : Bool} {session : Session}

theorem mode_main (mode : Mode layout shift session) :
    Mode layout shift (step session .main) ∧
      (step session .main).stored = session.stored := by
  cases inCall : session.loaded with
  | none =>
      rw [step_load inCall]
      exact ⟨⟨mode.layout, mode.shift⟩, rfl⟩
  | some c =>
      rw [step_clear inCall]
      exact ⟨⟨mode.layout, mode.shift⟩, rfl⟩

theorem step_keyboard (scancode : UInt8) :
    (step session (.interrupt scancode)).keyboard =
      keyboardHandler session.keyboard scancode := by
  cases stores : storedChar session.keyboard scancode with
  | none => rw [step_quiet stores]
  | some c => rw [step_store stores]

theorem step_stored (scancode : UInt8) :
    (step session (.interrupt scancode)).stored =
      session.stored ++ (storedChar session.keyboard scancode).toList := by
  cases stores : storedChar session.keyboard scancode with
  | none =>
      rw [step_quiet stores]
      exact (List.append_nil _).symm
  | some c =>
      rw [step_store stores]
      rfl

theorem applyLayout_mode (mode : Mode layout shift session) (scancode : UInt8) :
    applyLayout session.keyboard scancode =
      applyLayout ⟨layout, shift, 0⟩ scancode := by
  simp only [applyLayout, mode.layout, mode.shift]

theorem typed_interrupt (mode : Mode layout shift session) (scancode : UInt8) :
    ∃ after, Mode layout after (step session (.interrupt scancode)) ∧
      ∀ rest, typed layout shift (scancode :: rest) =
        (storedChar session.keyboard scancode).toList ++
          typed layout after rest := by
  have same := applyLayout_mode mode scancode
  by_cases press : scancode = 0x2A ∨ scancode = 0x36
  · have noChar : storedChar session.keyboard scancode = none := by
      rw [storedChar, if_pos (by tauto)]
    refine ⟨true, ⟨?_, ?_⟩, ?_⟩
    · rw [step_keyboard, keyboardHandler, if_pos press]
      exact mode.layout
    · rw [step_keyboard, keyboardHandler, if_pos press]
    · intro rest
      rw [typed, if_pos press, noChar]
      rfl
  · by_cases release : scancode = 0xAA ∨ scancode = 0xB6
    · have noChar : storedChar session.keyboard scancode = none := by
        rw [storedChar, if_pos (by tauto)]
      refine ⟨false, ⟨?_, ?_⟩, ?_⟩
      · rw [step_keyboard, keyboardHandler, if_neg press,
          if_pos release]
        exact mode.layout
      · rw [step_keyboard, keyboardHandler, if_neg press,
          if_pos release]
      · intro rest
        rw [typed, if_neg press, if_pos release, noChar]
        rfl
    · refine ⟨shift, ⟨?_, ?_⟩, ?_⟩
      · rw [step_keyboard, keyboardHandler, if_neg press,
          if_neg release]
        split <;> exact mode.layout
      · rw [step_keyboard, keyboardHandler, if_neg press,
          if_neg release]
        split <;> exact mode.shift
      · intro rest
        have character : ¬ (scancode = 0x2A ∨ scancode = 0x36 ∨
            scancode = 0xAA ∨ scancode = 0xB6) := by tauto
        rw [typed, if_neg press, if_neg release, storedChar, if_neg character,
          same]
        split <;> rfl

/-- What the handler stores in a run is what the scancodes type, whatever the
program does between them. -/
theorem stored_typed (mode : Mode layout shift session) (steps : List Step) :
    (run step session steps).stored =
      session.stored ++ typed layout shift (scancodes steps) := by
  induction steps generalizing shift session with
  | nil => exact (List.append_nil _).symm
  | cons action rest ih =>
      cases action with
      | main =>
          obtain ⟨after, same⟩ := mode_main mode
          rw [run_cons, ih after, same]
          rfl
      | interrupt scancode =>
          obtain ⟨next, after, types⟩ := typed_interrupt mode scancode
          have stores : (step session (.interrupt scancode)).stored =
              session.stored ++ (storedChar session.keyboard scancode).toList :=
            step_stored scancode
          rw [run_cons, ih after, stores, List.append_assoc, ← types]
          rfl

end Decoding

/-! ## Complete runs -/

def pending (session : Session) : List UInt8 :=
  if session.unread.isSome then [session.keyboard.lastInterruptChar] else []

/-- All characters that are returned, in a call or still to be loaded. -/
def content (session : Session) : List UInt8 :=
  nonzero (session.returned.map Prod.fst ++ session.loaded.toList ++
    pending session)

def Complete (session : Session) : Prop := content session = nonzero session.stored

def Loses (session : Session) (action : Step) : Prop :=
  Displaces session action ∧ nonzero (pending session) ≠ []

/-- Between calls a slot that has been read is zero. -/
def Cleared (session : Session) : Prop :=
  session.unread = none → session.loaded = none →
    session.keyboard.lastInterruptChar = 0

section Delivery

variable {session : Session}

theorem cleared_step (cleared : Cleared session) (action : Step) :
    Cleared (step session action) := by
  cases action with
  | interrupt scancode =>
      have slot := keyboardHandler_slot session.keyboard scancode
      cases stores : storedChar session.keyboard scancode with
      | none =>
          rw [stores, Option.getD_none] at slot
          rw [step_quiet stores]
          exact fun empty idle => slot.trans (cleared empty idle)
      | some c =>
          rw [step_store stores]
          exact fun empty => absurd empty (Option.some_ne_none _)
  | main =>
      cases inCall : session.loaded with
      | none =>
          rw [step_load inCall]
          exact fun _ idle => absurd idle (Option.some_ne_none _)
      | some c =>
          rw [step_clear inCall]
          exact fun _ _ => rfl

def taken (session : Session) : List UInt8 :=
  nonzero (session.returned.map Prod.fst ++ session.loaded.toList)

theorem content_eq :
    content session = taken session ++ nonzero (pending session) :=
  nonzero_append _ _

theorem content_store {scancode c : UInt8}
    (stores : storedChar session.keyboard scancode = some c) :
    content (step session (.interrupt scancode)) = taken session ++ nonzero [c] ∧
      nonzero (step session (.interrupt scancode)).stored =
        nonzero session.stored ++ nonzero [c] := by
  have slot := keyboardHandler_slot session.keyboard scancode
  rw [stores, Option.getD_some] at slot
  rw [content_eq, step_store stores]
  refine ⟨?_, nonzero_append _ _⟩
  rw [pending]
  simp only [Option.isSome_some, if_true, slot]
  rfl

theorem content_quiet {scancode : UInt8}
    (quiet : storedChar session.keyboard scancode = none) :
    content (step session (.interrupt scancode)) = content session ∧
      (step session (.interrupt scancode)).stored = session.stored := by
  have slot := keyboardHandler_slot session.keyboard scancode
  rw [quiet, Option.getD_none] at slot
  rw [step_quiet quiet]
  refine ⟨?_, rfl⟩
  unfold content pending
  simp only [slot]

theorem content_load (cleared : Cleared session)
    (idle : session.loaded = none) :
    content (step session .main) = content session ∧
      (step session .main).stored = session.stored := by
  rw [step_load idle]
  refine ⟨?_, rfl⟩
  unfold content pending loadStep
  simp only [idle, Option.isSome_none, Option.toList_none, Option.toList_some,
    List.append_nil]
  cases waiting : session.unread with
  | none =>
      have zero := cleared waiting idle
      simp [zero, nonzero]
  | some n => simp

theorem content_clear {c : UInt8} (inCall : session.loaded = some c) :
    content (step session .main) = taken session ∧
      (step session .main).stored = session.stored := by
  rw [step_clear inCall]
  refine ⟨?_, rfl⟩
  unfold content pending clearStep taken
  simp [inCall]

/-- The characters stay complete through a step exactly when it displaces
none. -/
theorem complete_step_iff (cleared : Cleared session)
    (complete : Complete session) (action : Step) :
    Complete (step session action) ↔ ¬ Loses session action := by
  have before : taken session ++ nonzero (pending session) =
      nonzero session.stored := content_eq.symm.trans complete
  unfold Complete Loses
  cases action with
  | interrupt scancode =>
      cases stores : storedChar session.keyboard scancode with
      | none =>
          obtain ⟨sameContent, sameStored⟩ := content_quiet stores
          rw [sameContent, sameStored]
          refine iff_of_true complete ?_
          simp [Displaces, stores]
      | some c =>
          obtain ⟨grown, stored⟩ := content_store stores
          rw [grown, stored, ← before]
          simp [Displaces, stores]
  | main =>
      cases inCall : session.loaded with
      | none =>
          obtain ⟨sameContent, sameStored⟩ := content_load cleared inCall
          rw [sameContent, sameStored]
          refine iff_of_true complete ?_
          simp [Displaces, inCall]
      | some c =>
          obtain ⟨cut, sameStored⟩ := content_clear inCall
          rw [cut, sameStored, ← before]
          simp [Displaces, inCall]

end Delivery

theorem cleared_start (layout : Layout) : Cleared (start layout) :=
  fun _ _ => rfl

/-- All along a run the characters that are there are those that the scancodes
typed, in order and once, exactly when no step displaces a pending one. -/
theorem content_typed_iff (layout : Layout) (steps : List Step) :
    (∀ done, done <+: steps →
      content (run step (start layout) done) =
        nonzero (typed layout false (scancodes done))) ↔
      Guarded step (fun session action => ¬ Loses session action)
        (start layout) steps := by
  have same : ∀ done, Complete (run step (start layout) done) ↔
      content (run step (start layout) done) =
        nonzero (typed layout false (scancodes done)) := by
    intro done
    have mode : Mode layout false (start layout) := ⟨rfl, rfl⟩
    rw [Complete, stored_typed mode]
    rfl
  have initially : Complete (start layout) := rfl
  have exactly := @always_iff_guarded _ _ step
    (fun session => Cleared session ∧ Complete session) Complete
    (fun session action => ¬ Loses session action) (start layout) steps
    (fun _ both => both.2)
    (fun _ action _ both kept => ⟨cleared_step both.1 action,
      (complete_step_iff both.1 both.2 action).mpr kept⟩)
    (fun _ action _ both later => (complete_step_iff both.1 both.2 action).mp later)
    ⟨cleared_start layout, initially⟩
  rw [← exactly, always_iff]
  exact forall₂_congr fun done _ => (same done).symm

/-! ## The line -/

theorem editedLine_nonzero (maxLen : Nat) (keys : List UInt8) :
    editedLine maxLen (nonzero keys) = editedLine maxLen keys := by
  apply CString.eq_of_bytes
  change run (editLine maxLen) [] ((nonzero keys).filter (· ≠ 0)) = _
  rw [nonzero, List.filter_filter]
  simp only [Bool.and_self]
  rfl

theorem takeWhile_line {text : List UInt8} (noNewline : 0x0A ∉ text)
    (rest : List UInt8) :
    (text ++ 0x0A :: rest).takeWhile (· ≠ 0x0A) = text := by
  have plain : ∀ c ∈ text, decide (c ≠ 0x0A) = true := by
    intro c member
    apply decide_eq_true
    rintro rfl
    exact noNewline member
  rw [List.takeWhile_append_of_pos plain, List.takeWhile_cons_of_neg (by simp),
    List.append_nil]

/-- When no step displaces a pending character, a call of `readline` that has
been given a newline returns the line that the scancodes typed, edited. -/
theorem readline_typed (layout : Layout) (steps : List Step)
    (keeps : Guarded step (fun session action => ¬ Loses session action)
      (start layout) steps)
    (entered : 0x0A ∈ (run step (start layout) steps).returned.map Prod.fst)
    (fb : Framebuffer) (font : Font) (con : Console) (buffer : Nat → UInt8)
    (maxLen : Nat) (positive : 1 ≤ maxLen) (fits : maxLen < 2 ^ 64) :
    ∃ line,
      readline fb font con buffer maxLen
          ((run step (start layout) steps).returned.map Prod.fst) = .done line ∧
      HoldsString line.buffer (editedLine maxLen
        ((nonzero (typed layout false (scancodes steps))).takeWhile
          (· ≠ 0x0A))) := by
  obtain ⟨behind, split, noNewline⟩ := keys_split entered
  have whole := (content_typed_iff layout steps).mpr keeps steps
    (List.prefix_refl steps)
  let before := ((run step (start layout) steps).returned.map
    Prod.fst).takeWhile (· ≠ 0x0A)
  have noneTyped : 0x0A ∉ nonzero before := fun member =>
    noNewline (List.mem_of_mem_filter member)
  have text : (nonzero (typed layout false (scancodes steps))).takeWhile
      (· ≠ 0x0A) = nonzero before := by
    have newline : ∀ rest : List UInt8, nonzero (0x0A :: rest) =
        0x0A :: nonzero rest := fun rest => by simp [nonzero]
    rw [← whole, content, split, List.append_assoc, List.append_assoc,
      nonzero_append, List.cons_append, newline]
    exact takeWhile_line noneTyped _
  obtain ⟨line, returns, held⟩ := readline_returns fb font con buffer positive
    fits noNewline behind
  rw [← split] at returns
  refine ⟨line, returns, ?_⟩
  rw [text, editedLine_nonzero]
  exact held

def shiftedSteps : List Step :=
  [.main, .main, .interrupt 0x2A, .interrupt 0x1E, .main, .interrupt 0x9E,
    .main, .interrupt 0xAA, .interrupt 0x1C, .main, .main]

instance (session : Session) (action : Step) :
    Decidable (Displaces session action) :=
  match action with
  | .interrupt scancode =>
      inferInstanceAs (Decidable
        ((storedChar session.keyboard scancode).isSome = true))
  | .main => inferInstanceAs (Decidable (session.loaded.isSome = true))

theorem readline_typed_shift :
    ∃ line,
      readline ⟨800, 600, 3200⟩ letterFont (startConsole fun _ => 0)
          (fun _ => 0x7A) 128
          ((run step (start .enUs) shiftedSteps).returned.map Prod.fst) =
        .done line ∧
      HoldsString line.buffer (editedLine 128
        ((nonzero (typed .enUs false (scancodes shiftedSteps))).takeWhile
          (· ≠ 0x0A))) := by
  have keeps : Guarded step (fun session action => ¬ Loses session action)
      (start .enUs) shiftedSteps := by
    unfold Loses
    decide
  exact readline_typed .enUs shiftedSteps keeps (by decide) _ _ _ _ 128
    (by decide) (by decide)

end Lumie.InputTyped
