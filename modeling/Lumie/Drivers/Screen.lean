import Lumie.Base.FoldRun
import Lumie.Base.MachineInt
import Lumie.Base.StoreTrace
import Lumie.Lib.Strings

/-!
# The framebuffer console

`screen.c` over a framebuffer of 32-bit words.  The drawing functions are given
by the stores they perform, in the order of their loops; the console keeps the
words, the cursor, and a record of what was drawn, which no step reads.  The
cursor holds `int`s and every conversion of the source is explicit.
-/

set_option autoImplicit false

namespace Lumie.Screen

open MachineInt StoreTrace FoldRun
open Lumie.Strings

/-- The dimensions of `struct limine_framebuffer`; the pitch is in bytes. -/
structure Framebuffer where
  width : Nat
  height : Nat
  pitch : Nat

/-- `target_fb->pitch / 4`, the distance of two rows in words. -/
def Framebuffer.stride (fb : Framebuffer) : Nat := fb.pitch / 4

/-- The bytes from `_binary_font_psf_start` on: the four bytes of
`psf1_header_t`, then the glyphs. -/
abbrev Font := Nat → UInt8

def charsize (font : Font) : Nat := (font 3).toNat

def glyphByte (font : Font) (c : UInt8) (y : Nat) : UInt8 :=
  font (4 + c.toNat * charsize font + y)

/-- `(*glyph & (0x80 >> x)) > 0` -/
def Lit (font : Font) (c : UInt8) (y x : Nat) : Prop :=
  0 < (glyphByte font c y).toNat &&& (0x80 >>> x)

instance (font : Font) (c : UInt8) (y x : Nat) : Decidable (Lit font c y x) :=
  inferInstanceAs (Decidable (_ < _))

/-- The header of `font.psf` and its glyph of the letter A; the other glyphs
are blank. -/
def letterFont : Font := fun offset =>
  if offset < 4 then [0x36, 0x04, 0x03, 0x10].getD offset 0
  else if offset < 4 + 0x41 * 16 then 0
  else [0x00, 0x00, 0x7C, 0xC6, 0xC6, 0xC6, 0xFE, 0xC6, 0xC6, 0xC6, 0xC6,
    0xC6].getD (offset - (4 + 0x41 * 16)) 0

/-- One store to the framebuffer, with the row and column it is meant for. -/
structure PixelStore where
  row : Nat
  col : Nat
  index : Nat
  color : UInt32
  deriving DecidableEq, Repr

def PixelStore.word (store : PixelStore) : Nat × UInt32 :=
  (store.index, store.color)

/-- `fb_ptr[row * (target_fb->pitch / 4) + col] = color`; the subscript is a
64-bit number. -/
def pixelStore (fb : Framebuffer) (row col : Nat) (color : UInt32) :
    PixelStore :=
  ⟨row, col, rowMajor fb.stride row col % 2 ^ 64, color⟩

/-- The word a subscript addresses.  Words have four bytes, so the address
wraps around at `2 ^ 62` of them. -/
def PixelStore.addressed (store : PixelStore) : PixelStore :=
  { store with index := store.index % 2 ^ 62 }

theorem pixelStore_addressed (fb : Framebuffer) (row col : Nat)
    (color : UInt32) :
    (pixelStore fb row col color).addressed.index =
      rowMajor fb.stride row col % 2 ^ 62 :=
  Nat.mod_mod_of_dvd _ (by decide)

/-- A call of `put_char` and the words of the framebuffer at that moment. -/
structure GlyphDraw where
  before : Nat → UInt32
  c : UInt8
  cx : Int
  cy : Int

structure Console where
  pixels : Nat → UInt32
  cursorX : Int
  cursorY : Int
  stores : List PixelStore
  glyphs : List GlyphDraw
  /-- Line advances since the last `clear`. -/
  advances : Nat

def Console.write (con : Console) (stores : List PixelStore) : Console :=
  { con with
    pixels := applyStores con.pixels (stores.map PixelStore.word)
    stores := con.stores ++ stores }

/-! ## Drawing -/

/-- `cy + y` and `cx + x` add an `int` and a `uint32_t`. -/
def putCharStores (fb : Framebuffer) (font : Font) (c : UInt8) (cx cy : Int)
    (fg : UInt32) : List PixelStore :=
  (List.range (charsize font)).flatMap fun (y : Nat) =>
    ((List.range 8).filter fun x => decide (Lit font c y x)).map fun (x : Nat) =>
      pixelStore fb (u32 (cy + y)) (u32 (cx + x)) fg

def putChar (fb : Framebuffer) (font : Font) (con : Console) (c : UInt8)
    (cx cy : Int) (fg : UInt32) : Console :=
  { con.write (putCharStores fb font c cx cy fg) with
    glyphs := con.glyphs ++ [⟨con.pixels, c, cx, cy⟩] }

def backspaceStores (fb : Framebuffer) (cursorX cursorY : Int) :
    List PixelStore :=
  (List.range 16).flatMap fun (y : Nat) =>
    (List.range 8).filterMap fun (x : Nat) =>
      let row := i32 (cursorY + y)
      let col := i32 (i32 (cursorX * 8) + x)
      if u64 row < fb.height ∧ u64 col < fb.width then
        some (pixelStore fb (u64 row) (u64 col) 0x000000)
      else none

def backspace (fb : Framebuffer) (con : Console) : Console :=
  if con.cursorX = 0 ∧ con.cursorY = 0 then con
  else if 0 < con.cursorX then
    let moved := { con with cursorX := i32 (con.cursorX - 1) }
    moved.write (backspaceStores fb moved.cursorX moved.cursorY)
  else con

/-- The linear loop of `clear`; the row and column of a word are those of the
addressing that all other functions use. -/
def clearStores (fb : Framebuffer) (color : UInt32) : List PixelStore :=
  (List.range (u64 (fb.width * fb.height : Nat))).map fun i =>
    ⟨i / fb.stride, i % fb.stride, i, color⟩

def clear (fb : Framebuffer) (con : Console) (color : UInt32) : Console :=
  { con.write (clearStores fb color) with
    cursorX := 0
    cursorY := 0
    advances := 0 }

theorem mem_putCharStores {fb : Framebuffer} {font : Font} {c : UInt8}
    {cx cy : Int} {fg : UInt32} {store : PixelStore} :
    store ∈ putCharStores fb font c cx cy fg ↔
      ∃ y < charsize font, ∃ x < 8, Lit font c y x ∧
        store = pixelStore fb (u32 (cy + y)) (u32 (cx + x)) fg := by
  simp only [putCharStores, List.mem_flatMap, List.mem_map, List.mem_filter,
    List.mem_range, decide_eq_true_eq]
  constructor
  · rintro ⟨y, yBound, x, ⟨xBound, lit⟩, rfl⟩
    exact ⟨y, yBound, x, xBound, lit, rfl⟩
  · rintro ⟨y, yBound, x, xBound, lit, rfl⟩
    exact ⟨y, yBound, x, ⟨xBound, lit⟩, rfl⟩

theorem mem_backspaceStores {fb : Framebuffer} {cursorX cursorY : Int}
    {store : PixelStore} :
    store ∈ backspaceStores fb cursorX cursorY ↔
      ∃ y : Nat, y < 16 ∧ ∃ x : Nat, x < 8 ∧
        u64 (i32 (cursorY + y)) < fb.height ∧
        u64 (i32 (i32 (cursorX * 8) + x)) < fb.width ∧
        store = pixelStore fb (u64 (i32 (cursorY + y)))
          (u64 (i32 (i32 (cursorX * 8) + x))) 0x000000 := by
  simp only [backspaceStores, List.mem_flatMap, List.mem_filterMap,
    List.mem_range]
  constructor
  · rintro ⟨y, yBound, x, xBound, kept⟩
    split at kept
    · rename_i visible
      cases kept
      exact ⟨y, yBound, x, xBound, visible.1, visible.2, rfl⟩
    · cases kept
  · rintro ⟨y, yBound, x, xBound, row, col, rfl⟩
    exact ⟨y, yBound, x, xBound, by rw [if_pos ⟨row, col⟩]⟩

theorem mem_clearStores {fb : Framebuffer} {color : UInt32}
    {store : PixelStore} (area : fb.width * fb.height < 2 ^ 64) :
    store ∈ clearStores fb color ↔
      ∃ i < fb.width * fb.height,
        ⟨i / fb.stride, i % fb.stride, i, color⟩ = store := by
  simp only [clearStores, List.mem_map, List.mem_range, u64_natCast area]

def clearedWords (fb : Framebuffer) : Nat := u64 (fb.width * fb.height : Nat)

theorem clear_pixels (fb : Framebuffer) (con : Console) (color : UInt32)
    (index : Nat) :
    (clear fb con color).pixels index =
      if index < clearedWords fb then color
      else con.pixels index := by
  by_cases inLoop : index < clearedWords fb
  · rw [if_pos inLoop]
    apply applyStores_uniform
    · intro word member _
      obtain ⟨store, inStores, rfl⟩ := List.mem_map.mp member
      obtain ⟨i, -, rfl⟩ := List.mem_map.mp inStores
      rfl
    · refine ⟨(index, color), List.mem_map.mpr ⟨_, List.mem_map.mpr
        ⟨index, List.mem_range.mpr inLoop, rfl⟩, rfl⟩, rfl⟩
  · rw [if_neg inLoop]
    apply applyStores_untouched
    intro word member same
    obtain ⟨store, inStores, rfl⟩ := List.mem_map.mp member
    obtain ⟨i, below, rfl⟩ := List.mem_map.mp inStores
    rw [List.mem_range] at below
    exact inLoop (same ▸ below)

/-! ## Printing -/

/-- `cursor_x = 0; cursor_y += 16;` -/
def lineAdvance (con : Console) : Console :=
  { con with
    cursorX := 0
    cursorY := i32 (con.cursorY + 16)
    advances := con.advances + 1 }

/-- `if (cursor_x * 8 >= target_fb->width) { ... }` -/
def wrapLine (fb : Framebuffer) (con : Console) : Console :=
  if fb.width ≤ u64 (i32 (con.cursorX * 8)) then lineAdvance con else con

/-- `cursor_y + 16 <= target_fb->height` -/
def RowVisible (fb : Framebuffer) (con : Console) : Prop :=
  u64 (i32 (con.cursorY + 16)) ≤ fb.height

instance (fb : Framebuffer) (con : Console) : Decidable (RowVisible fb con) :=
  inferInstanceAs (Decidable (_ ≤ _))

def kprintFrom (fb : Framebuffer) (font : Font) (color : UInt32) :
    List UInt8 → Console → Console
  | [], con => con
  | c :: rest, con =>
      if charVal c = 0x08 then kprintFrom fb font color rest (backspace fb con)
      else if charVal c = 0x0A then
        kprintFrom fb font color rest (lineAdvance con)
      else
        let wrapped := wrapLine fb con
        if RowVisible fb wrapped then
          let drawn := putChar fb font wrapped (u8 (charVal c))
            (i32 (wrapped.cursorX * 8)) wrapped.cursorY color
          kprintFrom fb font color rest
            { drawn with cursorX := i32 (drawn.cursorX + 1) }
        else kprintFrom fb font color rest wrapped

def kprint (fb : Framebuffer) (font : Font) (con : Console) (str : CString)
    (color : UInt32) : Console :=
  kprintFrom fb font color str.bytes con

def kprintChar (fb : Framebuffer) (font : Font) (con : Console) (c : UInt8)
    (color : UInt32) : Console :=
  if charVal c = 0x08 then backspace fb con
  else if charVal c = 0x0A then lineAdvance con
  else
    let wrapped := wrapLine fb con
    if RowVisible fb wrapped then
      let drawn := putChar fb font wrapped (u8 (charVal c))
        (i32 (wrapped.cursorX * 8)) wrapped.cursorY color
      { drawn with cursorX := i32 (drawn.cursorX + 1) }
    else wrapped

inductive ConsoleOp where
  | kprint (str : CString) (color : UInt32)
  | kprintChar (c : UInt8) (color : UInt32)
  | backspace
  | clear (color : UInt32)

def consoleStep (fb : Framebuffer) (font : Font) (con : Console) :
    ConsoleOp → Console
  | .kprint str color => kprint fb font con str color
  | .kprintChar c color => kprintChar fb font con c color
  | .backspace => backspace fb con
  | .clear color => clear fb con color

def startConsole (pixels : Nat → UInt32) : Console :=
  ⟨pixels, 0, 0, [], [], 0⟩

/-- The single-character steps of which every operation consists. -/
inductive CharOp where
  | char (c : UInt8) (color : UInt32)
  | backspace
  | clear (color : UInt32)

def charStep (fb : Framebuffer) (font : Font) (con : Console) :
    CharOp → Console
  | .char c color => kprintChar fb font con c color
  | .backspace => backspace fb con
  | .clear color => clear fb con color

def ConsoleOp.chars : ConsoleOp → List CharOp
  | .kprint str color => str.bytes.map fun c => .char c color
  | .kprintChar c color => [.char c color]
  | .backspace => [.backspace]
  | .clear color => [.clear color]

theorem kprintFrom_eq_run (fb : Framebuffer) (font : Font) (color : UInt32)
    (bytes : List UInt8) (con : Console) :
    kprintFrom fb font color bytes con =
      run (charStep fb font) con (bytes.map fun c => .char c color) := by
  induction bytes generalizing con with
  | nil => rfl
  | cons c rest ih =>
      rw [List.map_cons, run_cons, ← ih, kprintFrom]
      simp only [charStep, kprintChar]
      split
      · rfl
      · split
        · rfl
        · split <;> rfl

theorem consoleStep_eq_run (fb : Framebuffer) (font : Font) (con : Console)
    (op : ConsoleOp) :
    consoleStep fb font con op = run (charStep fb font) con op.chars := by
  cases op with
  | kprint str color => exact kprintFrom_eq_run fb font color str.bytes con
  | kprintChar c color => rfl
  | backspace => rfl
  | clear color => rfl

/-- A string prints as its characters do one by one, so a string in two pieces
prints as the pieces one after the other. -/
theorem kprint_eq_kprintChar (fb : Framebuffer) (font : Font) (con : Console)
    (str : CString) (color : UInt32) :
    kprint fb font con str color =
        str.bytes.foldl (fun now c => kprintChar fb font now c color) con ∧
      ∀ rest : CString,
        kprint fb font con (str.append rest) color =
          kprint fb font (kprint fb font con str color) rest color := by
  have chars : ∀ (text : CString) (now : Console),
      kprint fb font now text color =
        text.bytes.foldl (fun now c => kprintChar fb font now c color) now := by
    intro text now
    rw [kprint, kprintFrom_eq_run, run, List.foldl_map]
    rfl
  refine ⟨chars str con, ?_⟩
  intro rest
  rw [chars, chars rest, chars str, CString.append, List.foldl_append]

end Lumie.Screen
