import Lumie.Base.FoldRun
import Lumie.Drivers.Keyboard

/-!
# The shift state and the shift keys

A key event is a make or a break of one key; an extended key sends the byte
0xE0 in front of its code.  Next to the driver runs the physical state of the
two shift keys.  The driver keeps one flag and sees single bytes, and the
events at which the flag parts from the keys are listed exactly.
-/

set_option autoImplicit false

namespace Lumie.KeyboardShift

open FoldRun
open Lumie.Keyboard

structure KeyEvent where
  extended : Bool
  release : Bool
  code : Fin 128
  deriving DecidableEq, Repr

def KeyEvent.bytes (event : KeyEvent) : List UInt8 :=
  (if event.extended then [0xE0] else []) ++
    [UInt8.ofNat (event.code + if event.release then 0x80 else 0)]

def leftShift : Fin 128 := 0x2A

def rightShift : Fin 128 := 0x36

structure Held where
  left : Bool
  right : Bool
  deriving DecidableEq, Repr

def Held.any (held : Held) : Bool := held.left || held.right

def Held.after (held : Held) (event : KeyEvent) : Held :=
  if event.extended then held
  else if event.code = leftShift then { held with left := !event.release }
  else if event.code = rightShift then { held with right := !event.release }
  else held

abbrev Desk := KeyboardState × Held

def eventStep (desk : Desk) (event : KeyEvent) : Desk :=
  (event.bytes.foldl keyboardHandler desk.1, desk.2.after event)

def boot (layout : Layout) : Desk := (⟨layout, false, 0⟩, ⟨false, false⟩)

def Tracks (desk : Desk) : Prop := desk.1.shiftActive = desk.2.any

instance : DecidablePred Tracks := fun _ => inferInstanceAs (Decidable (_ = _))

/-- The events that the flag follows, by the keys held before them: any event
of another code, a press of a shift key, its release while the other one is
up, and an extended event of a shift code that agrees with the keys. -/
def Followed (desk : Desk) (event : KeyEvent) : Prop :=
  event.code = leftShift ∨ event.code = rightShift →
    if event.extended then desk.2.any = !event.release
    else event.release →
      if event.code = leftShift then desk.2.right = false
      else desk.2.left = false

theorem keyboardHandler_shift (keyboard : KeyboardState) (scancode : UInt8) :
    (keyboardHandler keyboard scancode).shiftActive =
      if scancode = 0x2A ∨ scancode = 0x36 then true
      else if scancode = 0xAA ∨ scancode = 0xB6 then false
      else keyboard.shiftActive := by
  unfold keyboardHandler
  split
  · rfl
  · split
    · rfl
    · split <;> rfl

theorem keyboardHandler_prefixByte (keyboard : KeyboardState) :
    keyboardHandler keyboard 0xE0 = keyboard := by
  rfl

theorem make_byte (code : Fin 128) :
    (UInt8.ofNat code = 0x2A ∨ UInt8.ofNat code = 0x36 ↔
        code = leftShift ∨ code = rightShift) ∧
      ¬ (UInt8.ofNat code = 0xAA ∨ UInt8.ofNat code = 0xB6) := by
  revert code
  decide +kernel

theorem break_byte (code : Fin 128) :
    (UInt8.ofNat (code + 0x80) = 0xAA ∨ UInt8.ofNat (code + 0x80) = 0xB6 ↔
        code = leftShift ∨ code = rightShift) ∧
      ¬ (UInt8.ofNat (code + 0x80) = 0x2A ∨
        UInt8.ofNat (code + 0x80) = 0x36) := by
  revert code
  decide +kernel

theorem eventStep_shift (desk : Desk) (event : KeyEvent) :
    (eventStep desk event).1.shiftActive =
      if event.code = leftShift ∨ event.code = rightShift then !event.release
      else desk.1.shiftActive := by
  have last : (eventStep desk event).1 = keyboardHandler desk.1
      (UInt8.ofNat (event.code + if event.release then 0x80 else 0)) := by
    unfold eventStep KeyEvent.bytes
    cases event.extended
    · rfl
    · simp [keyboardHandler_prefixByte]
  rw [last, keyboardHandler_shift]
  cases event.release with
  | false =>
      obtain ⟨press, noRelease⟩ := make_byte event.code
      simp only [Bool.false_eq_true, if_false, Nat.add_zero, press, noRelease,
        Bool.not_false]
  | true =>
      obtain ⟨release, noPress⟩ := break_byte event.code
      simp only [if_true, release, noPress, if_false, Bool.not_true]

theorem tracks_step_iff (desk : Desk) (event : KeyEvent)
    (tracks : Tracks desk) :
    Tracks (eventStep desk event) ↔ Followed desk event := by
  unfold Tracks at tracks ⊢
  rw [eventStep_shift]
  simp only [eventStep, Held.after, Followed, tracks]
  by_cases shift : event.code = leftShift ∨ event.code = rightShift
  · rw [if_pos shift]
    cases event.extended with
    | true =>
        simp only [shift, if_true, forall_const]
        exact eq_comm
    | false =>
        rcases shift with left | right
        · cases event.release <;> simp [left, Held.any]
        · have other : rightShift ≠ leftShift := by decide
          cases event.release <;> simp [right, other, Held.any]
  · rw [not_or] at shift
    simp [shift]

/-- After every event the flag says whether a shift key is down, exactly in
the sequences whose every event is one that the flag follows. -/
theorem shiftActive_tracks_iff (layout : Layout) (events : List KeyEvent) :
    (∀ done, done <+: events → Tracks (run eventStep (boot layout) done)) ↔
      Guarded eventStep Followed (boot layout) events := by
  have initially : Tracks (boot layout) := rfl
  rw [← always_iff]
  exact always_iff_guarded (fun _ tracks => tracks)
    (fun desk event _ tracks => (tracks_step_iff desk event tracks).mpr)
    (fun desk event _ tracks => (tracks_step_iff desk event tracks).mp)
    initially

def press (code : Fin 128) : KeyEvent := ⟨false, false, code⟩

def lift (code : Fin 128) : KeyEvent := ⟨false, true, code⟩

/-- With both shift keys down, lifting one clears the flag, and a prefixed
shift code sets it with no shift key down. -/
theorem shiftActive_parts :
    ¬ (∀ done, done <+: [press leftShift, press rightShift, lift leftShift] →
        Tracks (run eventStep (boot .enUs) done)) ∧
      ¬ (∀ done, done <+: [KeyEvent.mk true false leftShift] →
        Tracks (run eventStep (boot .enUs) done)) := by
  refine ⟨?_, ?_⟩
  · intro tracks
    exact absurd (tracks _ (List.prefix_refl _)) (by decide)
  · intro tracks
    exact absurd (tracks _ (List.prefix_refl _)) (by decide)

end Lumie.KeyboardShift
