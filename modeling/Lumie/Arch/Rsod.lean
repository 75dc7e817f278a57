import Lumie.Arch.Interrupts
import Lumie.Drivers.Power
import Lumie.Drivers.ScreenHex
import Lumie.Drivers.ScreenLayers
import Lumie.Drivers.Timer
import Lumie.Lib.UintToString

/-!
# The crash screen

`rsod` draws the screen, counts fifteen seconds down in it and resets the
machine.  The run records what the screen shows while each second is waited
for, together with the port accesses of that wait.
-/

set_option autoImplicit false

namespace Lumie.Rsod

open StoreTrace WhileLoop Layers
open Lumie.Strings Lumie.Screen Lumie.ScreenCells Lumie.ScreenAt
open Lumie.ScreenLayers Lumie.ScreenHex Lumie.UintToString
open Lumie.Interrupts Lumie.Timer Lumie.Power
open Lumie.AtaStatus (PortEvent)

def exceptionMessages : List CString :=
  [CString.ofString "Division By Zero", CString.ofString "Debug",
    CString.ofString "Non Maskable Interrupt", CString.ofString "Breakpoint",
    CString.ofString "Into Detected Overflow", CString.ofString "Out Of Bounds",
    CString.ofString "Invalid Opcode", CString.ofString "No coprecessor",
    CString.ofString "Double Fault",
    CString.ofString "Coprocessor Segment Overrun", CString.ofString "Bad TSS",
    CString.ofString "Segment Not Present", CString.ofString "Stack Fault",
    CString.ofString "General Protection Fault", CString.ofString "Page Fault",
    CString.ofString "Unknown Interrupt", CString.ofString "x87 FPU Error",
    CString.ofString "Alignment Check", CString.ofString "Machine Check",
    CString.ofString "SIMD Floating-Point", CString.ofString "Virtualization",
    CString.ofString "Control Protection", CString.ofString "Reserved",
    CString.ofString "Reserved", CString.ofString "Reserved",
    CString.ofString "Reserved", CString.ofString "Reserved",
    CString.ofString "Reserved", CString.ofString "Hypervisor Injection",
    CString.ofString "VMM Communication", CString.ofString "Security Exception",
    CString.ofString "Reserved    "]

structure Second where
  con : Console
  events : List PortEvent

structure Countdown where
  con : Console
  uintBuf : Nat → UInt8
  waitSecs : UInt64
  seconds : List Second

/-- The part of the screen that stays.  `buf` is the array for the hexadecimal
text, which is not initialised. -/
def crashScreen (fb : Framebuffer) (font : Font) (frame : InterruptFrame)
    (buf : Nat → UInt8) (con : Console) : Option Console := do
  let cleared := clear fb con 0xFF0000
  let boxed := ScreenRect.drawRect fb cleared 240 140 740 480 0x000000
  let titled := kprintAt fb font boxed (CString.ofString "Lumie has crashed!")
    0xFFFFFF 0x000000 32 10
  let named :=
    if frame.vector < 32 then
      kprintAt fb font titled (exceptionMessages.getD frame.vector.toNat
        CString.empty) 0xFFFFFF 0x000000 32 12
    else titled
  let hex ← stringFrom (applyStores buf (utoaHex frame.rip)) 20 0
  let labelled := kprintAt fb font named (CString.ofString "RIP: ")
    0xFFFFFF 0x000000 32 20
  return kprintAt fb font labelled hex 0xFFFFFF 0x000000 37 20

/-- The three calls at the head of the loop. -/
def showSeconds (fb : Framebuffer) (font : Font) (state : Countdown) :
    Option (Console × (Nat → UInt8)) := do
  let labelled := kprintAt fb font state.con (CString.ofString "Rebooting in ")
    0xFFFFFF 0x000000 32 16
  let call := uintToString state.waitSecs
  let uintBuf := applyStores state.uintBuf call.stores
  let number ← stringFrom uintBuf (32 - call.pointer) call.pointer
  let numbered := kprintAt fb font labelled number 0xFFFFFF 0x000000 45 16
  if state.waitSecs ≤ 9 then
    return (kprintAt fb font numbered (CString.ofString " ") 0x000000 0x000000
      46 16, uintBuf)
  else return (numbered, uintBuf)

/-- One turn, which ends in `reboot` or in the next one.  `timer w k` is the
status that read number `k` of port 0x40 returns while second `w` is waited
for. -/
def countdownBody (fb : Framebuffer) (font : Font)
    (timer : UInt64 → Nat → UInt8) (fuel : Nat) (state : Countdown) :
    Option (Countdown ⊕ List Second) := do
  let (con, uintBuf) ← showSeconds fb font state
  let events ← safeSleep (timer state.waitSecs) fuel 1000
  let seconds := state.seconds ++ [⟨con, events⟩]
  let waitSecs := state.waitSecs - 1
  if waitSecs ≤ 0 then return .inr seconds
  else return .inl ⟨con, uintBuf, waitSecs, seconds⟩

structure Crash where
  seconds : List Second
  reset : List PortEvent

/-- `rsod`, with `fuel` turns for each loop. -/
def rsod (fb : Framebuffer) (font : Font) (frame : InterruptFrame)
    (buf uintBuf : Nat → UInt8) (con : Console)
    (timer : UInt64 → Nat → UInt8) (status : Nat → UInt8) (fuel : Nat) :
    Option Crash := do
  let drawn ← crashScreen fb font frame buf con
  let seconds ← iterate (countdownBody fb font timer fuel) fuel
    ⟨drawn, uintBuf, 15, []⟩
  let reset ← reboot status fuel
  return ⟨seconds, reset⟩

/-! ## The picture -/

def white (text : List UInt8) : List (Option (UInt8 × UInt32)) :=
  inked text 0xFFFFFF

/-- `exception_message[frame->vector]` behind its guard. -/
def exceptionMessage (frame : InterruptFrame) : CString :=
  if frame.vector < 32 then
    exceptionMessages.getD frame.vector.toNat CString.empty
  else CString.empty

def secondsCells (w : Nat) : List (Option (UInt8 × UInt32)) :=
  white (decimal w) ++ if w ≤ 9 then [none] else []

def countdownLine (w : Nat) : List (Option (UInt8 × UInt32)) :=
  white (CString.ofString "Rebooting in ").bytes ++ secondsCells w

def crashLine (frame : InterruptFrame) (w row : Nat) :
    List (Option (UInt8 × UInt32)) :=
  if row = 10 then white (CString.ofString "Lumie has crashed!").bytes
  else if row = 12 then white (exceptionMessage frame).bytes
  else if row = 16 then countdownLine w
  else if row = 20 then
    white ((CString.ofString "RIP: ").bytes ++ (hexString frame.rip).bytes)
  else []

def backdrop (row col : Nat) : UInt32 :=
  if ScreenRect.InRect 240 140 740 480 row col then 0x000000 else 0xFF0000

def crashImage (fb : Framebuffer) (font : Font) (frame : InterruptFrame)
    (w : Nat) (pixel : Pixel fb) : UInt32 :=
  if InLine fb 32 (pixel.row / 16) pixel then
    match (crashLine frame w (pixel.row / 16))[pixel.col / 8 - 32]? with
    | some cell => cellPixel font cell (pixel.row % 16) (pixel.col % 8)
    | none => backdrop pixel.row pixel.col
  else backdrop pixel.row pixel.col

section Picture

variable {fb : Framebuffer} {font : Font}

theorem inked_append (front back : List UInt8) (color : UInt32) :
    inked (front ++ back) color = inked front color ++ inked back color :=
  List.map_append

theorem paint_otherRow (cells : List (Option (UInt8 × UInt32))) {x y : Nat}
    {pixel : Pixel fb} (other : pixel.row / 16 ≠ y)
    (before : Pixel fb → UInt32) :
    paint (lineLayer fb font cells x y) before pixel = before pixel := by
  have outside : ¬ InLine fb x y pixel := fun inLine => other inLine.1
  rw [paint, lineLayer, if_neg outside, Option.getD_none]

theorem paint_sameRow (cells : List (Option (UInt8 × UInt32))) {x y : Nat}
    {pixel : Pixel fb} (same : pixel.row / 16 = y)
    (before : Pixel fb → UInt32) :
    paint (lineLayer fb font cells x y) before pixel =
      if InLine fb x (pixel.row / 16) pixel then
        match cells[pixel.col / 8 - x]? with
        | some cell => cellPixel font cell (pixel.row % 16) (pixel.col % 8)
        | none => before pixel
      else before pixel := by
  rw [paint, lineLayer, same]
  split
  · cases cells[pixel.col / 8 - x]? <;> rfl
  · rfl

def crashGround (fb : Framebuffer) (font : Font) (frame : InterruptFrame)
    (before : Pixel fb → UInt32) : Pixel fb → UInt32 :=
  let backed := paint (rectLayer fb 240 140 740 480 0x000000)
    (paint (fillLayer fb 0xFF0000) before)
  let titled := paint (lineLayer fb font (crashLine frame 0 10) 32 10) backed
  let named := paint (lineLayer fb font (crashLine frame 0 12) 32 12) titled
  paint (lineLayer fb font (crashLine frame 0 20) 32 20) named

theorem backdrop_painted (before : Pixel fb → UInt32) (pixel : Pixel fb) :
    paint (rectLayer fb 240 140 740 480 0x000000)
      (paint (fillLayer fb 0xFF0000) before) pixel =
        backdrop pixel.row pixel.col := by
  rw [paint, rectLayer, backdrop]
  split <;> rfl

/-- The countdown on the ground is the crash screen, whatever was there
before. -/
theorem crashImage_eq (frame : InterruptFrame) (w : Nat)
    (before : Pixel fb → UInt32) :
    paint (lineLayer fb font (countdownLine w) 32 16)
        (crashGround fb font frame before) = crashImage fb font frame w := by
  funext pixel
  have backed := backdrop_painted before pixel
  unfold crashGround crashImage
  by_cases title : pixel.row / 16 = 10
  · rw [paint_otherRow _ (by omega), paint_otherRow _ (by omega),
      paint_otherRow _ (by omega), paint_sameRow _ title, backed, title]
    rfl
  · by_cases message : pixel.row / 16 = 12
    · rw [paint_otherRow _ (by omega), paint_otherRow _ (by omega),
        paint_sameRow _ message, paint_otherRow _ title, backed, message]
      rfl
    · by_cases countdown : pixel.row / 16 = 16
      · rw [paint_sameRow _ countdown, paint_otherRow _ (by omega),
          paint_otherRow _ message, paint_otherRow _ title, backed, countdown]
        rfl
      · by_cases address : pixel.row / 16 = 20
        · rw [paint_otherRow _ countdown, paint_sameRow _ address,
            paint_otherRow _ message, paint_otherRow _ title, backed, address]
          rfl
        · have noText : crashLine frame w (pixel.row / 16) = [] := by
            rw [crashLine, if_neg title, if_neg message, if_neg countdown,
              if_neg address]
          rw [paint_otherRow _ countdown, paint_otherRow _ address,
            paint_otherRow _ message, paint_otherRow _ title, backed, noText,
            List.getElem?_nil, ite_self]

end Picture

/-! ## Drawing it -/

section Drawing

variable {fb : Framebuffer} {font : Font}

theorem paint_blankLine (x y : Nat) (before : Pixel fb → UInt32) :
    paint (lineLayer fb font [] x y) before = before := by
  funext pixel
  rw [paint, lineLayer]
  split <;> rfl

theorem exceptionMessages_short :
    ∀ message ∈ exceptionMessages, message.bytes.length ≤ 32 := by
  decide

theorem exceptionMessage_length (frame : InterruptFrame) :
    (exceptionMessage frame).bytes.length ≤ 32 := by
  unfold exceptionMessage
  split
  · cases found : exceptionMessages[frame.vector.toNat]? with
    | none =>
        rw [List.getD_eq_getElem?_getD, found]
        exact Nat.zero_le _
    | some message =>
        rw [List.getD_eq_getElem?_getD, found]
        exact exceptionMessages_short message (List.mem_of_getElem? found)
  · exact Nat.zero_le _

theorem message_paints (dense : Dense fb font) (frame : InterruptFrame)
    (con : Console) :
    picture fb (if frame.vector < 32 then
        kprintAt fb font con (exceptionMessages.getD frame.vector.toNat
          CString.empty) 0xFFFFFF 0x000000 32 12
      else con) =
      paint (lineLayer fb font (crashLine frame 0 12) 32 12) (picture fb con) := by
  have line : crashLine frame 0 12 = white (exceptionMessage frame).bytes := rfl
  have short := exceptionMessage_length frame
  rw [line]
  unfold exceptionMessage at short ⊢
  split
  · rename_i isException
    rw [if_pos isException] at short
    exact kprintAt_paints dense con _ 32 12 (by omega) (by decide) 0xFFFFFF
  · exact (paint_blankLine 32 12 _).symm

theorem length_hexString (n : UInt64) : (hexString n).bytes.length = 18 := by
  change (hexText n).length + 1 + 1 = 18
  rw [length_hexText]

theorem hex_read (buf : Nat → UInt8) (n : UInt64) :
    stringFrom (applyStores buf (utoaHex n)) 20 0 = some (hexString n) := by
  have length := length_hexString n
  exact stringFrom_of_holds _ (utoaHex_holds n buf).tailAt (by omega)

theorem crashScreen_paints (dense : Dense fb font) (frame : InterruptFrame)
    (buf : Nat → UInt8) (con : Console) :
    ∃ drawn, crashScreen fb font frame buf con = some drawn ∧
      picture fb drawn = crashGround fb font frame (picture fb con) := by
  have hexLength := length_hexString frame.rip
  have hex := hex_read buf frame.rip
  let cleared := clear fb con 0xFF0000
  let boxed := ScreenRect.drawRect fb cleared 240 140 740 480 0x000000
  let titled := kprintAt fb font boxed (CString.ofString "Lumie has crashed!")
    0xFFFFFF 0x000000 32 10
  let named :=
    if frame.vector < 32 then
      kprintAt fb font titled (exceptionMessages.getD frame.vector.toNat
        CString.empty) 0xFFFFFF 0x000000 32 12
    else titled
  let labelled := kprintAt fb font named (CString.ofString "RIP: ")
    0xFFFFFF 0x000000 32 20
  have clears : picture fb cleared =
      paint (fillLayer fb 0xFF0000) (picture fb con) := clear_paints dense con _
  have boxes : picture fb boxed =
      paint (rectLayer fb 240 140 740 480 0x000000) (picture fb cleared) :=
    rectStores_paint dense cleared
      ⟨by decide, by decide, by decide, by decide⟩ _
  have titles : picture fb titled =
      paint (lineLayer fb font (crashLine frame 0 10) 32 10)
        (picture fb boxed) :=
    kprintAt_paints dense boxed _ 32 10 (by decide) (by decide) _
  have names : picture fb named =
      paint (lineLayer fb font (crashLine frame 0 12) 32 12)
        (picture fb titled) := message_paints dense frame titled
  have labels : picture fb labelled =
      paint (lineLayer fb font (white (CString.ofString "RIP: ").bytes) 32 20)
        (picture fb named) :=
    kprintAt_paints dense named _ 32 20 (by decide) (by decide) _
  have addresses : picture fb (kprintAt fb font labelled (hexString frame.rip)
      0xFFFFFF 0x000000 37 20) =
        paint (lineLayer fb font (white (hexString frame.rip).bytes) 37 20)
          (picture fb labelled) :=
    kprintAt_paints dense labelled _ 37 20 (by omega) (by decide) _
  have line : crashLine frame 0 20 =
      white (CString.ofString "RIP: ").bytes ++
        white (hexString frame.rip).bytes := inked_append _ _ _
  refine ⟨_, by rw [crashScreen, hex]; rfl, ?_⟩
  calc picture fb (kprintAt fb font labelled (hexString frame.rip)
          0xFFFFFF 0x000000 37 20)
      = paint (lineLayer fb font (crashLine frame 0 20) 32 20)
          (picture fb named) := by
        rw [addresses, labels, ← paint_stacked, line, ← lineLayer_append]
        rfl
    _ = crashGround fb font frame (picture fb con) := by
        rw [names, titles, boxes, clears]
        rfl

theorem length_decimal_digit {w : Nat} (digit : w ≤ 9) :
    (decimal w).length = 1 := by
  interval_cases w <;> decide

theorem blackCell (c : UInt8) (x y : Nat) :
    lineLayer fb font (inked [c] 0x000000) x y = lineLayer fb font [none] x y := by
  funext pixel
  have same : ∀ k : Nat, ((inked [c] 0x000000)[k]?).map (fun cell =>
      cellPixel font cell (pixel.row % 16) (pixel.col % 8)) =
        (([none] : List (Option (UInt8 × UInt32)))[k]?).map fun cell =>
          cellPixel font cell (pixel.row % 16) (pixel.col % 8) := by
    intro k
    cases k with
    | zero => exact congrArg some (ite_self _)
    | succ k => rfl
  rw [lineLayer, lineLayer, same]

theorem showSeconds_paints (state : Countdown) :
    ∃ con uintBuf, showSeconds fb font state = some (con, uintBuf) ∧
      (Dense fb font → picture fb con =
        paint (lineLayer fb font (countdownLine state.waitSecs.toNat) 32 16)
          (picture fb state.con)) := by
  obtain ⟨number, digits, short, reads⟩ :=
    numeral_read state.uintBuf state.waitSecs
  let labelled := kprintAt fb font state.con
    (CString.ofString "Rebooting in ") 0xFFFFFF 0x000000 32 16
  let numbered := kprintAt fb font labelled number 0xFFFFFF 0x000000 45 16
  have labels : Dense fb font → picture fb labelled = paint (lineLayer fb font
      (white (CString.ofString "Rebooting in ").bytes) 32 16)
        (picture fb state.con) := fun dense =>
    kprintAt_paints dense state.con _ 32 16 (by decide) (by decide) _
  have numbers : Dense fb font → picture fb numbered = paint (lineLayer fb font
      (white (CString.ofString "Rebooting in ").bytes ++
        white (decimal state.waitSecs.toNat)) 32 16)
        (picture fb state.con) := by
    intro dense
    have shown : picture fb numbered = paint (lineLayer fb font
        (white number.bytes) 45 16) (picture fb labelled) :=
      kprintAt_paints dense labelled number 45 16 (by omega) (by decide) _
    rw [shown, labels dense, ← paint_stacked, digits, ← lineLayer_append]
    rfl
  by_cases oneDigit : state.waitSecs ≤ 9
  · have few : state.waitSecs.toNat ≤ 9 := UInt64.le_iff_toNat_le.mp oneDigit
    refine ⟨kprintAt fb font numbered (CString.ofString " ") 0x000000 0x000000
      46 16, _, by simp only [showSeconds, reads, if_pos oneDigit]; rfl, ?_⟩
    intro dense
    have shown : picture fb (kprintAt fb font numbered (CString.ofString " ")
        0x000000 0x000000 46 16) =
          paint (lineLayer fb font (inked [0x20] 0x000000) 46 16)
            (picture fb numbered) :=
      kprintAt_paints dense numbered _ 46 16 (by decide) (by decide) _
    have column : 32 + (white (CString.ofString "Rebooting in ").bytes ++
        white (decimal state.waitSecs.toNat)).length = 46 := by
      rw [List.length_append, white, white, inked, inked, List.length_map,
        List.length_map, length_decimal_digit few]
      rfl
    have cells : countdownLine state.waitSecs.toNat =
        (white (CString.ofString "Rebooting in ").bytes ++
          white (decimal state.waitSecs.toNat)) ++ [none] := by
      rw [countdownLine, secondsCells, if_pos few, List.append_assoc]
    rw [shown, numbers dense, blackCell, ← paint_stacked, ← column,
      lineLayer_append, cells]
  · have many : ¬ state.waitSecs.toNat ≤ 9 := fun few =>
      oneDigit (UInt64.le_iff_toNat_le.mpr few)
    refine ⟨numbered, _, by simp only [showSeconds, reads, if_neg oneDigit]; rfl, ?_⟩
    intro dense
    rw [numbers dense, countdownLine, secondsCells, if_neg many, List.append_nil]

end Drawing

def downFrom : Nat → List Nat
  | 0 => []
  | n + 1 => (n + 1) :: downFrom n

section Countdown

variable {fb : Framebuffer} {font : Font} {timer : UInt64 → Nat → UInt8}

theorem waitSecs_next {waitSecs : UInt64} {n : Nat}
    (left : waitSecs.toNat = n + 1) : (waitSecs - 1).toNat = n := by
  have positive : (1 : UInt64) ≤ waitSecs := by
    rw [UInt64.le_iff_toNat_le, left]
    exact Nat.succ_le_succ (Nat.zero_le n)
  rw [UInt64.toNat_sub_of_le _ _ positive, left]
  rfl

theorem countdownBody_turn {fuel n : Nat} {state : Countdown}
    (left : state.waitSecs.toNat = n + 1) {con : Console}
    {uintBuf : Nat → UInt8} {events : List PortEvent}
    (shown : showSeconds fb font state = some (con, uintBuf))
    (slept : safeSleep (timer state.waitSecs) fuel 1000 = some events) :
    countdownBody fb font timer fuel state =
      if n = 0 then some (.inr (state.seconds ++ [⟨con, events⟩]))
      else some (.inl ⟨con, uintBuf, state.waitSecs - 1,
        state.seconds ++ [⟨con, events⟩]⟩) := by
  have ends : state.waitSecs - 1 ≤ 0 ↔ n = 0 := by
    rw [UInt64.le_iff_toNat_le, waitSecs_next left]
    exact Nat.le_zero
  simp only [countdownBody, shown, slept, ends, Option.bind_eq_bind,
    Option.bind_some]
  rfl

/-- What one turn makes of a second, and keeps of the console, holds of every
second of the countdown. -/
theorem countdown_seconds {inner : Nat} {invariant : Console → Prop}
    {property : Nat → Second → Prop}
    (turn : ∀ state con uintBuf events, invariant state.con →
      state.waitSecs.toNat ≤ 15 →
      showSeconds fb font state = some (con, uintBuf) →
      safeSleep (timer state.waitSecs) inner 1000 = some events →
      invariant con ∧ property state.waitSecs.toNat ⟨con, events⟩)
    {fuel n : Nat} {state : Countdown} {seconds : List Second}
    (start : invariant state.con) (left : state.waitSecs.toNat = n + 1)
    (few : n + 1 ≤ 15)
    (runs : iterate (countdownBody fb font timer inner) fuel state =
      some seconds) :
    ∃ later, seconds = state.seconds ++ later ∧
      List.Forall₂ property (downFrom (n + 1)) later := by
  induction fuel generalizing n state with
  | zero => cases runs
  | succ fuel ih =>
      obtain ⟨con, uintBuf, shown, -⟩ := @showSeconds_paints fb font state
      cases slept : safeSleep (timer state.waitSecs) inner 1000 with
      | none =>
          have stuck : countdownBody fb font timer inner state = none := by
            simp only [countdownBody, shown, slept, Option.bind_eq_bind,
              Option.bind_some, Option.bind_none]
          simp [iterate, stuck] at runs
      | some events =>
          have body := countdownBody_turn left shown slept
          obtain ⟨keeps, here⟩ :=
            turn state con uintBuf events start (by omega) shown slept
          rw [left] at here
          cases n with
          | zero =>
              rw [if_pos rfl] at body
              rw [iterate_stop fuel body] at runs
              cases runs
              exact ⟨_, rfl, .cons here .nil⟩
          | succ n =>
              rw [if_neg (Nat.succ_ne_zero n)] at body
              rw [iterate_next fuel body] at runs
              obtain ⟨later, rfl, others⟩ :=
                ih keeps (waitSecs_next left) (by omega) runs
              exact ⟨⟨con, events⟩ :: later, by
                rw [List.append_assoc, List.singleton_append],
                .cons here others⟩

theorem countdownBody_mono {fuel more : Nat} (enough : fuel ≤ more)
    (state : Countdown) (outcome : Countdown ⊕ List Second)
    (success : countdownBody fb font timer fuel state = some outcome) :
    countdownBody fb font timer more state = some outcome := by
  obtain ⟨shown, drawn, rest⟩ := Option.bind_eq_some_iff.mp success
  obtain ⟨events, slept, last⟩ := Option.bind_eq_some_iff.mp rest
  rw [countdownBody, drawn]
  simp only [Option.bind_eq_bind, Option.bind_some, safeSleep_mono enough slept]
  exact last

theorem countdown_returns
    (completes : ∀ waitSecs : UInt64, Completes (timer waitSecs)) (n : Nat)
    {state : Countdown} (left : state.waitSecs.toNat = n + 1) :
    ∃ fuel seconds, iterate (countdownBody fb font timer fuel) fuel state =
      some seconds := by
  induction n generalizing state with
  | zero =>
      obtain ⟨con, uintBuf, shown, -⟩ := @showSeconds_paints fb font state
      obtain ⟨fuel, events, slept⟩ :=
        @safeSleep_returns _ 1000 (completes state.waitSecs)
      have body := countdownBody_turn left shown
        (safeSleep_mono (Nat.le_succ fuel) slept)
      exact ⟨fuel + 1, _, iterate_stop fuel body⟩
  | succ n ih =>
      obtain ⟨con, uintBuf, shown, -⟩ := @showSeconds_paints fb font state
      obtain ⟨first, events, slept⟩ :=
        @safeSleep_returns _ 1000 (completes state.waitSecs)
      obtain ⟨fuel, seconds, runs⟩ := @ih ⟨con, uintBuf, state.waitSecs - 1,
        state.seconds ++ [⟨con, events⟩]⟩ (waitSecs_next left)
      have body := countdownBody_turn left shown
        (safeSleep_mono (show first ≤ max first fuel + 1 by omega) slept)
      rw [if_neg (Nat.succ_ne_zero n)] at body
      refine ⟨max first fuel + 1, seconds, ?_⟩
      rw [iterate_next _ body]
      exact iterate_mono (Nat.le_max_right first fuel)
        (iterate_body_mono (countdownBody_mono (by omega)) runs)

end Countdown

/-! ## Whole runs -/

section Runs

variable {fb : Framebuffer} {font : Font} {frame : InterruptFrame}
  {buf uintBuf : Nat → UInt8} {con : Console} {timer : UInt64 → Nat → UInt8}
  {status : Nat → UInt8}

theorem rsod_parts {fuel : Nat} {crash : Crash}
    (runs : rsod fb font frame buf uintBuf con timer status fuel = some crash) :
    ∃ drawn, crashScreen fb font frame buf con = some drawn ∧
      iterate (countdownBody fb font timer fuel) fuel
        ⟨drawn, uintBuf, 15, []⟩ = some crash.seconds ∧
      reboot status fuel = some crash.reset := by
  obtain ⟨drawn, shown, rest⟩ := Option.bind_eq_some_iff.mp runs
  obtain ⟨seconds, counted, last⟩ := Option.bind_eq_some_iff.mp rest
  obtain ⟨reset, resets, same⟩ := Option.bind_eq_some_iff.mp last
  cases same
  exact ⟨drawn, shown, counted, resets⟩

theorem crashScreen_draws (fb : Framebuffer) (font : Font)
    (frame : InterruptFrame) (buf : Nat → UInt8) (con : Console) :
    ∃ drawn, crashScreen fb font frame buf con = some drawn := by
  have hex := hex_read buf frame.rip
  exact ⟨_, by rw [crashScreen, hex]; rfl⟩

theorem reboot_mono {fuel more : Nat} (enough : fuel ≤ more)
    {events : List PortEvent} (runs : reboot status fuel = some events) :
    reboot status more = some events := by
  obtain ⟨reads, polled, last⟩ := Option.bind_eq_some_iff.mp runs
  rw [reboot, iterate_mono enough polled]
  exact last

theorem rsod_returns
    (completes : ∀ waitSecs : UInt64, Completes (timer waitSecs)) {k : Nat}
    (empties : inputFull (status k) = false) :
    ∃ fuel crash, rsod fb font frame buf uintBuf con timer status fuel =
      some crash := by
  obtain ⟨drawn, shown⟩ := crashScreen_draws fb font frame buf con
  obtain ⟨first, seconds, counted⟩ := @countdown_returns fb font timer completes
    14 ⟨drawn, uintBuf, 15, []⟩ rfl
  obtain ⟨second, reset, resets⟩ := reboot_returns empties
  refine ⟨max first second, ⟨seconds, reset⟩, ?_⟩
  have longer := iterate_mono (Nat.le_max_left first second)
    (iterate_body_mono (countdownBody_mono (Nat.le_max_left first second))
      counted)
  rw [rsod, shown]
  simp only [Option.bind_eq_bind, Option.bind_some, longer,
    reboot_mono (Nat.le_max_right first second) resets]
  rfl

theorem length_countdownLine {w : Nat} (few : w ≤ 15) :
    (countdownLine w).length = 15 := by
  interval_cases w <;> decide

/-- Painting the countdown of any second now gives its crash screen. -/
def Ready (fb : Framebuffer) (font : Font) (frame : InterruptFrame)
    (con : Console) : Prop :=
  ∀ w ≤ 15, paint (lineLayer fb font (countdownLine w) 32 16) (picture fb con) =
    crashImage fb font frame w

theorem Ready.turn (dense : Dense fb font) {state : Countdown}
    (ready : Ready fb font frame state.con)
    (few : state.waitSecs.toNat ≤ 15) {con : Console} {uintBuf : Nat → UInt8}
    (shown : showSeconds fb font state = some (con, uintBuf)) :
    Ready fb font frame con ∧
      picture fb con = crashImage fb font frame state.waitSecs.toNat := by
  obtain ⟨after, buffer, shows, paints⟩ := @showSeconds_paints fb font state
  rw [shown] at shows
  cases shows
  refine ⟨?_, (paints dense).trans (ready _ few)⟩
  intro w wFew
  have hides : Hides (lineLayer fb font (countdownLine w) 32 16)
      (lineLayer fb font (countdownLine state.waitSecs.toNat) 32 16) := by
    apply lineLayer_hides
    rw [length_countdownLine few, length_countdownLine wFew]
  rw [paints dense, paint_hidden hides]
  exact ready w wFew

/-- While each second is waited for, the screen is the crash screen with the
seconds that are left: nothing of what it showed before is seen, and no digit
of the numeral of another second. -/
theorem rsod_screen (dense : Dense fb font) (fuel : Nat) (crash : Crash)
    (runs : rsod fb font frame buf uintBuf con timer status fuel = some crash) :
    List.Forall₂ (fun w second =>
        picture fb second.con = crashImage fb font frame w)
      (downFrom 15) crash.seconds := by
  obtain ⟨drawn, shown, counted, -⟩ := rsod_parts runs
  obtain ⟨other, drawnShown, ground⟩ := crashScreen_paints dense frame buf con
  rw [shown] at drawnShown
  cases drawnShown
  have start : Ready fb font frame drawn := by
    intro w _
    rw [ground, crashImage_eq]
  obtain ⟨later, seconds, all⟩ := @countdown_seconds fb font timer fuel
    (Ready fb font frame)
    (fun w second => picture fb second.con = crashImage fb font frame w)
    (fun state con uintBuf events ready few shown _ =>
      ready.turn dense few shown) fuel 14 _ _ start rfl (Nat.le_refl 15) counted
  rw [seconds]
  exact all

/-- A page fault in the kernel. -/
def sampleFrame : InterruptFrame where
  r15 := 0
  r14 := 0
  r13 := 0
  r12 := 0
  r11 := 0
  r10 := 0
  r9 := 0
  r8 := 0
  rdi := 0
  rsi := 0
  rdx := 0
  rcx := 0
  rbx := 0
  rax := 0
  rbp := 0
  vector := 14
  errorCode := 0
  rip := 0xFFFFFFFF80001234
  cs := 8
  rflags := 0
  rsp := 0
  ss := 0x10

/-- The screen is too small for most of the text; every count completes at
once. -/
theorem rsod_screen_pageFault :
    ∃ fuel crash, rsod ⟨400, 300, 1600⟩ letterFont sampleFrame (fun _ => 0x7A)
        (fun _ => 0) (startConsole fun _ => 0x00FF00) (fun _ _ => 0x80)
        (fun _ => 0) fuel = some crash ∧
      List.Forall₂ (fun w second =>
          picture ⟨400, 300, 1600⟩ second.con =
            crashImage ⟨400, 300, 1600⟩ letterFont sampleFrame w)
        (downFrom 15) crash.seconds := by
  have dense : Dense ⟨400, 300, 1600⟩ letterFont :=
    ⟨by decide, by decide, by decide, by decide⟩
  have high : completed 0x80 = true := by decide
  obtain ⟨fuel, crash, runs⟩ := @rsod_returns ⟨400, 300, 1600⟩ letterFont
    sampleFrame (fun _ => 0x7A) (fun _ => 0) (startConsole fun _ => 0x00FF00)
    (fun _ _ => 0x80) (fun _ => 0) (fun _ k => ⟨k, Nat.le_refl k, high⟩) 0
    (by decide)
  exact ⟨fuel, crash, runs, rsod_screen dense fuel crash runs⟩

/-- The processor is reset after fifteen waits of 1193000 counts of the timer,
each of them polled for until it is completed, and not before the keyboard
controller takes the command; if the timer completes its counts and the
controller empties its buffer, it is reset. -/
theorem rsod_resets (fb : Framebuffer) (font : Font) (frame : InterruptFrame)
    (buf uintBuf : Nat → UInt8) (con : Console) (timer : UInt64 → Nat → UInt8)
    (status : Nat → UInt8) :
    ((∀ waitSecs, Completes (timer waitSecs)) →
      (∃ k, inputFull (status k) = false) →
      ∃ fuel crash, rsod fb font frame buf uintBuf con timer status fuel =
        some crash) ∧
    ∀ fuel crash, rsod fb font frame buf uintBuf con timer status fuel =
        some crash →
      crash.seconds.length = 15 ∧
      List.Forall₂ (fun w second =>
          WaitsInFull (timer (UInt64.ofNat w)) 1000 second.events)
        (downFrom 15) crash.seconds ∧
      (∀ second ∈ crash.seconds, (counts second.events).sum = 1193000) ∧
      Resets status crash.reset := by
  constructor
  · rintro completes ⟨k, empties⟩
    exact rsod_returns completes empties
  · intro fuel crash runs
    obtain ⟨drawn, -, counted, resets⟩ := rsod_parts runs
    obtain ⟨later, seconds, all⟩ := @countdown_seconds fb font timer fuel
      (fun _ => True)
      (fun w second => WaitsInFull (timer (UInt64.ofNat w)) 1000 second.events)
      (fun state con uintBuf events _ _ _ slept =>
        ⟨trivial, by
          rw [UInt64.ofNat_toNat]
          exact safeSleep_inFull (by decide) slept⟩)
      fuel 14 _ _ trivial rfl (Nat.le_refl 15) counted
    rw [List.nil_append] at seconds
    rw [seconds]
    refine ⟨all.length_eq.symm, all, ?_, reboot_resets resets⟩
    intro second member
    obtain ⟨i, bound, rfl⟩ := List.getElem_of_mem member
    exact ((List.forall₂_iff_get.mp all).2 i (by rwa [all.length_eq]) bound).total

end Runs

end Lumie.Rsod
