import Lumie.Drivers.ScreenCursor

/-!
# Which stores stay on the visible screen

`backspace` tests each pixel.  `put_char` tests nothing: its stores are on the
screen exactly when the lit pixels of the glyph are left of the right edge.
`clear` runs over `width * height` words whatever the pitch.  A run stays on
the screen exactly when each of its steps meets these conditions.
-/

set_option autoImplicit false

namespace Lumie.ScreenBounds

open MachineInt StoreTrace FoldRun
open Lumie.Strings Lumie.Screen Lumie.ScreenCursor

structure Shape (fb : Framebuffer) (font : Font) : Prop where
  widthLow : 8 ≤ fb.width
  widthHigh : fb.width < 2 ^ 28
  heightLow : 16 ≤ fb.height
  heightHigh : fb.height < 2 ^ 28
  pitchWords : 4 ∣ fb.pitch
  pitchLow : 4 * fb.width ≤ fb.pitch
  font : charsize font = 16

theorem Shape.dimensions {fb : Framebuffer} {font : Font}
    (shape : Shape fb font) : Dimensions fb :=
  ⟨by have := shape.widthLow; omega, shape.widthHigh, shape.heightHigh⟩

theorem Shape.width_le_stride {fb : Framebuffer} {font : Font}
    (shape : Shape fb font) : fb.width ≤ fb.stride := by
  have low := shape.pitchLow
  unfold Framebuffer.stride
  omega

def InScreen (fb : Framebuffer) (store : PixelStore) : Prop :=
  store.row < fb.height ∧ store.col < fb.width ∧
    store.index < fb.height * (fb.pitch / 4)

def AllInScreen (fb : Framebuffer) (con : Console) : Prop :=
  ∀ store ∈ con.stores, InScreen fb store

/-- A glyph drawn in a visible row, without a wrap before it, has its lit
pixels left of the right edge. -/
def GlyphFits (fb : Framebuffer) (font : Font) (con : Console)
    (c : UInt8) : Prop :=
  con.cursorY + 16 ≤ fb.height → 8 * con.cursorX < fb.width →
    ∀ y < 16, ∀ x < 8, Lit font c y x → 8 * con.cursorX + x < fb.width

/-- What a step needs of the state before it.  A clear needs rows without
padding, whatever the state. -/
def CharFits (fb : Framebuffer) (font : Font) (con : Console) :
    CharOp → Prop
  | .char c _ => c ≠ 0x08 → c ≠ 0x0A → GlyphFits fb font con c
  | .backspace => True
  | .clear _ => fb.pitch = 4 * fb.width

/-! ## The stores of each drawing function -/

theorem pixelStore_inScreen {fb : Framebuffer} {row col : Nat}
    {color : UInt32} (stride : fb.width ≤ fb.stride) (below : row < fb.height)
    (left : col < fb.width) : InScreen fb (pixelStore fb row col color) := by
  refine ⟨below, left, ?_⟩
  calc rowMajor fb.stride row col % 2 ^ 64 ≤ rowMajor fb.stride row col :=
        Nat.mod_le _ _
    _ < fb.height * fb.stride := rowMajor_lt below (by omega)

theorem backspaceStores_inScreen {fb : Framebuffer} {cursorX cursorY : Int}
    (stride : fb.width ≤ fb.stride) :
    ∀ store ∈ backspaceStores fb cursorX cursorY, InScreen fb store := by
  intro store member
  obtain ⟨y, -, x, -, row, col, rfl⟩ := mem_backspaceStores.mp member
  exact pixelStore_inScreen stride row col

theorem putCharStores_inScreen_iff {fb : Framebuffer} {font : Font}
    (shape : Shape fb font) {c : UInt8} {fg : UInt32} {cursorX cursorY : Int}
    (xLow : 0 ≤ cursorX) (xHigh : 8 * cursorX < fb.width)
    (yLow : 0 ≤ cursorY) (visible : cursorY + 16 ≤ fb.height) :
    (∀ store ∈ putCharStores fb font c (8 * cursorX) cursorY fg,
        InScreen fb store) ↔
      ∀ y < 16, ∀ x < 8, Lit font c y x → 8 * cursorX + x < fb.width := by
  have widthHigh := shape.widthHigh
  have heightHigh := shape.heightHigh
  have stride := shape.width_le_stride
  constructor
  · intro all y yBound x xBound lit
    have store := all _ (mem_putCharStores.mpr
      ⟨y, by rw [shape.font]; exact yBound, x, xBound, lit, rfl⟩)
    have col := store.2.1
    simp only [pixelStore] at col
    rw [u32_of_bounds (by omega) (by omega)] at col
    omega
  · intro fits store member
    obtain ⟨y, yBound, x, xBound, lit, rfl⟩ := mem_putCharStores.mp member
    rw [shape.font] at yBound
    have left := fits y yBound x xBound lit
    apply pixelStore_inScreen stride
    · rw [u32_of_bounds (by omega) (by omega)]
      omega
    · rw [u32_of_bounds (by omega) (by omega)]
      omega

theorem Shape.area {fb : Framebuffer} {font : Font} (shape : Shape fb font) :
    fb.width * fb.height < 2 ^ 64 := by
  have widthHigh := shape.widthHigh
  have heightHigh := shape.heightHigh
  calc fb.width * fb.height ≤ 2 ^ 28 * 2 ^ 28 :=
        Nat.mul_le_mul (by omega) (by omega)
    _ < 2 ^ 64 := by norm_num

/-- With padded rows the loop of `clear` reaches the word behind the first
row. -/
theorem pitch_of_clearStores_inScreen {fb : Framebuffer} {font : Font}
    (shape : Shape fb font) {color : UInt32}
    (inside : ∀ store ∈ clearStores fb color, InScreen fb store) :
    fb.pitch = 4 * fb.width := by
  have widthLow := shape.widthLow
  have heightLow := shape.heightLow
  by_contra padded
  have longer : fb.width < fb.stride := by
    obtain ⟨words, pitch⟩ := shape.pitchWords
    have low := shape.pitchLow
    unfold Framebuffer.stride
    omega
  have inLoop : fb.width < fb.width * fb.height := by nlinarith
  have store := inside _
    ((mem_clearStores shape.area).mpr ⟨fb.width, inLoop, rfl⟩)
  have col := store.2.1
  simp only [Nat.mod_eq_of_lt longer] at col
  omega

theorem clearStores_inScreen_iff {fb : Framebuffer} {font : Font}
    (shape : Shape fb font) (color : UInt32) :
    (∀ store ∈ clearStores fb color, InScreen fb store) ↔
      fb.pitch = 4 * fb.width := by
  refine ⟨pitch_of_clearStores_inScreen shape, ?_⟩
  intro pitch store member
  obtain ⟨i, bound, rfl⟩ := (mem_clearStores shape.area).mp member
  have widthLow := shape.widthLow
  have same : fb.stride = fb.width := by
    unfold Framebuffer.stride
    omega
  refine ⟨?_, ?_, ?_⟩
  · simp only [same]
    exact Nat.div_lt_of_lt_mul bound
  · simp only [same]
    exact Nat.mod_lt _ (by omega)
  · change i < fb.height * fb.stride
    rw [same, Nat.mul_comm]
    exact bound

theorem allInScreen_write {fb : Framebuffer} {con : Console}
    {stores : List PixelStore} :
    AllInScreen fb (con.write stores) ↔
      AllInScreen fb con ∧ ∀ store ∈ stores, InScreen fb store :=
  List.forall_mem_append

theorem wrapLine_stores (fb : Framebuffer) (con : Console) :
    (wrapLine fb con).stores = con.stores := by
  unfold wrapLine
  split <;> rfl

theorem backspace_inScreen_iff {fb : Framebuffer} {font : Font}
    (shape : Shape fb font) {con : Console} (range : InRange con) :
    AllInScreen fb (backspace fb con) ↔ AllInScreen fb con := by
  by_cases inside : 0 < con.cursorX
  · rw [backspace_inside range inside, eraseBefore, allInScreen_write]
    exact and_iff_left (backspaceStores_inScreen shape.width_le_stride)
  · have low := range.xLow
    rw [backspace_at_start (by omega)]

theorem drawNext_inScreen_iff {fb : Framebuffer} {font : Font}
    {con : Console} {c : UInt8} {color : UInt32} :
    AllInScreen fb (drawNext fb font con c color) ↔
      AllInScreen fb con ∧
        ∀ store ∈ putCharStores fb font c (8 * con.cursorX) con.cursorY color,
          InScreen fb store :=
  List.forall_mem_append

/-- Drawing in the column the wrap test leaves fits exactly when drawing at
the unwrapped cursor does, because one cell always fits in an empty row. -/
theorem glyphFits_iff_wrapped {fb : Framebuffer} {font : Font}
    (shape : Shape fb font) {con : Console} {c : UInt8}
    (range : InRange con)
    (visible : (wrapLine fb con).cursorY + 16 ≤ fb.height) :
    GlyphFits fb font con c ↔
      ∀ y < 16, ∀ x < 8, Lit font c y x →
        8 * (wrapLine fb con).cursorX + x < fb.width := by
  have widthLow := shape.widthLow
  by_cases full : (fb.width : Int) ≤ 8 * con.cursorX
  · rw [wrapLine_of_full range full]
    constructor
    · intro _ y _ x xBound _
      simp only
      omega
    · intro _ _ room
      omega
  · have room : 8 * con.cursorX < fb.width := by omega
    rw [wrapLine_of_room range room] at visible ⊢
    exact ⟨fun fits => fits visible room, fun fits _ _ => fits⟩

theorem kprintChar_inScreen_iff {fb : Framebuffer} {font : Font}
    (shape : Shape fb font) {con : Console} {c : UInt8} (color : UInt32)
    (range : InRange con) (noBackspace : c ≠ 0x08) (noNewline : c ≠ 0x0A) :
    AllInScreen fb (kprintChar fb font con c color) ↔
      AllInScreen fb con ∧ GlyphFits fb font con c := by
  have same : AllInScreen fb (wrapLine fb con) ↔ AllInScreen fb con := by
    unfold AllInScreen
    rw [wrapLine_stores]
  obtain ⟨xLow, -, yLow, -⟩ := wrapLine_bounds fb range
  by_cases visible : (wrapLine fb con).cursorY + 16 ≤ fb.height
  · have room := wrapLine_room shape.dimensions.positive range
    rw [kprintChar_visible color range noBackspace noNewline visible,
      drawNext_inScreen_iff, same,
      putCharStores_inScreen_iff shape xLow room yLow visible,
      glyphFits_iff_wrapped shape range visible]
  · rw [kprintChar_clipped color range noBackspace noNewline (by omega), same]
    have fits : GlyphFits fb font con c := by
      intro rowVisible room
      rw [wrapLine_of_room range room] at visible
      exact absurd rowVisible visible
    exact (and_iff_left fits).symm

theorem charStep_inScreen_iff {fb : Framebuffer} {font : Font}
    (shape : Shape fb font) {con : Console} (ok : CursorOk fb con)
    (few : FewAdvances con) (op : CharOp) :
    AllInScreen fb (charStep fb font con op) ↔
      AllInScreen fb con ∧ CharFits fb font con op := by
  have range := ok.inRange shape.dimensions few
  cases op with
  | char c color =>
      simp only [charStep, CharFits]
      by_cases isBackspace : c = 0x08
      · subst isBackspace
        rw [kprintChar_backspace, backspace_inScreen_iff shape range]
        exact (and_iff_left fun different => absurd rfl different).symm
      · by_cases isNewline : c = 0x0A
        · subst isNewline
          rw [kprintChar_newline]
          exact (and_iff_left fun _ different => absurd rfl different).symm
        · rw [kprintChar_inScreen_iff shape color range isBackspace isNewline]
          exact and_congr_right fun _ =>
            ⟨fun fits _ _ => fits, fun fits => fits isBackspace isNewline⟩
  | backspace =>
      rw [charStep, backspace_inScreen_iff shape range]
      exact (and_iff_left trivial).symm
  | clear color =>
      rw [CharFits, ← clearStores_inScreen_iff shape color]
      exact List.forall_mem_append

/-! ## Runs -/

theorem chars_inScreen_iff {fb : Framebuffer} {font : Font}
    (shape : Shape fb font) (pixels : Nat → UInt32) (ops : List CharOp)
    (few : Always (charStep fb font) FewAdvances (startConsole pixels) ops) :
    AllInScreen fb (run (charStep fb font) (startConsole pixels) ops) ↔
      Guarded (charStep fb font) (CharFits fb font) (startConsole pixels)
        ops := by
  have origin : CursorOk fb (startConsole pixels) :=
    cursorOk_origin shape.dimensions rfl rfl rfl
  have always := cursorOk_always shape.dimensions origin few
  rw [run_iff_guarded (fun con op holds =>
    charStep_inScreen_iff shape holds.1 holds.2 op) ops always]
  apply and_iff_right
  intro store member
  cases member

theorem ops_inScreen_iff {fb : Framebuffer} {font : Font}
    (shape : Shape fb font) (pixels : Nat → UInt32) (ops : List ConsoleOp)
    (few : Always (consoleStep fb font) FewAdvances (startConsole pixels) ops) :
    AllInScreen fb (run (consoleStep fb font) (startConsole pixels) ops) ↔
      Guarded (consoleStep fb font)
        (fun con op => Guarded (charStep fb font) (CharFits fb font) con
          op.chars) (startConsole pixels) ops := by
  rw [run_flatMap (consoleStep_eq_run fb font),
    chars_inScreen_iff shape pixels _ (fewAdvances_always_chars few)]
  exact guarded_flatMap (consoleStep_eq_run fb font) _ _

theorem run_prints {fb : Framebuffer} {font : Font} (shape : Shape fb font)
    {c : UInt8} (noBackspace : c ≠ 0x08) (noNewline : c ≠ 0x0A)
    (color : UInt32) (count : Nat) (con : Console) (start : 0 ≤ con.cursorX)
    (top : con.cursorY = 0) (few : con.advances = 0)
    (room : 8 * (con.cursorX + count) < fb.width + 8) :
    Always (consoleStep fb font)
        (fun con => con.cursorY = 0 ∧ con.advances = 0) con
        (List.replicate count (.kprintChar c color)) ∧
      (run (consoleStep fb font) con
        (List.replicate count (.kprintChar c color))).cursorX =
          con.cursorX + count := by
  induction count generalizing con with
  | zero => exact ⟨⟨top, few⟩, by simp⟩
  | succ count ih =>
      have widthHigh := shape.widthHigh
      have heightLow := shape.heightLow
      push_cast at room
      have range : InRange con := ⟨start, by omega, by omega, by omega⟩
      have unwrapped : wrapLine fb con = con :=
        wrapLine_of_room range (by omega)
      have printed : consoleStep fb font con (.kprintChar c color) =
          drawNext fb font con c color := by
        rw [consoleStep, kprintChar_visible color range noBackspace noNewline
          (by rw [unwrapped]; omega), unwrapped]
      have next := ih (drawNext fb font con c color)
        (by simp only [drawNext]; omega) top few
        (by simp only [drawNext]; omega)
      rw [List.replicate_succ, run_cons, printed, next.2]
      refine ⟨⟨⟨top, few⟩, by rw [printed]; exact next.1⟩, ?_⟩
      simp only [drawNext]
      push_cast
      ring

theorem prints_leave {fb : Framebuffer} {font : Font} (shape : Shape fb font)
    {c : UInt8} (noBackspace : c ≠ 0x08) (noNewline : c ≠ 0x0A)
    {y x : Nat} (yBound : y < 16) (xBound : x < 8) (lit : Lit font c y x)
    (margin : fb.width % 8 ≠ 0) (past : fb.width % 8 ≤ x)
    (pixels : Nat → UInt32) (color : UInt32) :
    Always (consoleStep fb font) FewAdvances (startConsole pixels)
        (List.replicate (fb.width / 8 + 1) (.kprintChar c color)) ∧
      ¬ AllInScreen fb (run (consoleStep fb font) (startConsole pixels)
        (List.replicate (fb.width / 8 + 1) (.kprintChar c color))) := by
  have heightLow := shape.heightLow
  obtain ⟨always, -⟩ := run_prints shape noBackspace noNewline color
    (fb.width / 8 + 1) (startConsole pixels) (le_refl 0) rfl rfl
    (by simp only [startConsole]; push_cast; omega)
  have few : Always (consoleStep fb font) FewAdvances (startConsole pixels)
      (List.replicate (fb.width / 8 + 1) (.kprintChar c color)) := by
    refine always_imp (fun con holds => ?_) always
    rw [FewAdvances, holds.2]
    norm_num
  refine ⟨few, fun inside => ?_⟩
  rw [ops_inScreen_iff shape pixels _ few, guarded_iff] at inside
  obtain ⟨fullRow, column⟩ := run_prints shape noBackspace noNewline color
    (fb.width / 8) (startConsole pixels) (le_refl 0) rfl rfl
    (by simp only [startConsole]; push_cast; omega)
  obtain ⟨row, -⟩ := always_end fullRow
  have last := inside (List.replicate (fb.width / 8) (.kprintChar c color))
    (.kprintChar c color) [] List.replicate_succ'
  have fits := last.1 noBackspace noNewline
  unfold GlyphFits at fits
  rw [row, column] at fits
  have left := fits (by omega)
    (by simp only [startConsole]; push_cast; omega) y yBound x xBound lit
  simp only [startConsole] at left
  push_cast at left
  omega

def laptop : Framebuffer := ⟨1366, 768, 5464⟩

theorem laptop_shape : Shape laptop letterFont :=
  ⟨by decide, by decide, by decide, by decide, by decide, by decide, by decide⟩

/-- All stores of a run are on the visible screen exactly when each character
and each clear fits at the state before it. -/
theorem console_inScreen_iff (fb : Framebuffer) (font : Font)
    (shape : Shape fb font) (pixels : Nat → UInt32) (ops : List ConsoleOp)
    (few : Always (consoleStep fb font) FewAdvances (startConsole pixels) ops) :
    (∀ store ∈ (run (consoleStep fb font) (startConsole pixels) ops).stores,
        store.row < fb.height ∧ store.col < fb.width ∧
          store.index < fb.height * (fb.pitch / 4)) ↔
      Guarded (charStep fb font) (CharFits fb font) (startConsole pixels)
        (ops.flatMap ConsoleOp.chars) := by
  rw [run_flatMap (consoleStep_eq_run fb font)]
  exact chars_inScreen_iff shape pixels _ (fewAdvances_always_chars few)

theorem clear_then_letter_inScreen :
    Guarded (charStep laptop letterFont) (CharFits laptop letterFont)
        (startConsole fun _ => 0) [.clear 0x000000, .char 0x41 0xFFFFFF] ∧
    ∀ store ∈ (run (consoleStep laptop letterFont) (startConsole fun _ => 0)
        [.clear 0x000000, .kprintChar 0x41 0xFFFFFF]).stores,
      store.row < 768 ∧ store.col < 1366 ∧ store.index < 768 * (5464 / 4) := by
  have few : Always (consoleStep laptop letterFont) FewAdvances
      (startConsole fun _ => 0)
      [.clear 0x000000, .kprintChar 0x41 0xFFFFFF] := by
    refine ⟨?_, ?_, ?_⟩ <;> exact (by decide : 0 < 2 ^ 26)
  have fits : Guarded (charStep laptop letterFont) (CharFits laptop letterFont)
      (startConsole fun _ => 0) [.clear 0x000000, .char 0x41 0xFFFFFF] := by
    refine ⟨rfl, ?_, trivial⟩
    intro _ _ _ _ y _ x inside _
    change (8 : Int) * 0 + x < 1366
    omega
  exact ⟨fits, (console_inScreen_iff laptop letterFont laptop_shape _ _ few).mpr
    fits⟩

theorem letters_leave_laptop :
    Shape laptop letterFont ∧
    Always (consoleStep laptop letterFont) FewAdvances (startConsole fun _ => 0)
      (List.replicate 171 (.kprintChar 0x41 0xFFFFFF)) ∧
    ¬ ∀ store ∈ (run (consoleStep laptop letterFont) (startConsole fun _ => 0)
        (List.replicate 171 (.kprintChar 0x41 0xFFFFFF))).stores,
        store.row < 768 ∧ store.col < 1366 ∧
          store.index < 768 * (5464 / 4) := by
  have lit : Lit letterFont 0x41 3 6 := by decide
  exact ⟨laptop_shape, prints_leave laptop_shape (by decide) (by decide)
    (by decide) (by decide) lit (by decide) (by decide) _ _⟩

/-! ## Geometries on which every run is safe -/

/-- The cells an incomplete last column leaves out hold no lit pixel. -/
def MarginUnlit (fb : Framebuffer) (font : Font) : Prop :=
  ∀ c : UInt8, c ≠ 0x08 → c ≠ 0x0A → ∀ y < 16, ∀ x < 8, Lit font c y x →
    fb.width % 8 = 0 ∨ x < fb.width % 8

/-- Every run stays on the screen exactly when the rows have no padding and
no glyph is lit beyond an incomplete last column. -/
theorem allRuns_inScreen_iff {fb : Framebuffer} {font : Font}
    (shape : Shape fb font) :
    (∀ pixels ops,
      Always (consoleStep fb font) FewAdvances (startConsole pixels) ops →
        AllInScreen fb (run (consoleStep fb font) (startConsole pixels) ops)) ↔
      fb.pitch = 4 * fb.width ∧ MarginUnlit fb font := by
  constructor
  · intro all
    constructor
    · have few : Always (consoleStep fb font) FewAdvances
          (startConsole fun _ => 0) [.clear 0] := by
        refine ⟨?_, ?_⟩ <;> exact (by decide : 0 < 2 ^ 26)
      have cleared := all _ _ few
      rw [ops_inScreen_iff shape _ _ few] at cleared
      exact cleared.1.1
    · intro c noBackspace noNewline y yBound x xBound lit
      by_contra! outside
      obtain ⟨few, leaves⟩ := prints_leave shape noBackspace noNewline yBound
        xBound lit outside.1 outside.2 (fun _ => 0) 0
      exact leaves (all _ _ few)
  · rintro ⟨pitch, unlit⟩ pixels ops few
    rw [run_flatMap (consoleStep_eq_run fb font),
      chars_inScreen_iff shape pixels _ (fewAdvances_always_chars few),
      guarded_iff]
    intro done op rest _
    cases op with
    | char c color =>
        intro noBackspace noNewline _ room y yBound x xBound lit
        rcases unlit c noBackspace noNewline y yBound x xBound lit with
          whole | left
        · omega
        · omega
    | backspace => trivial
    | clear color => exact pitch

end Lumie.ScreenBounds
