import Lumie.Drivers.Screen

/-!
# Text at a fixed position

`kprint_at` draws each character into the cell of its column and row.  Its
guard converts a negative sum to a large number, which clips every cell left of
or above the screen but the nearest: in column -1 and in row -1 the sum is
zero.  Such a character is stored to columns or rows near `2 ^ 32`, so far away
that the addresses of its words may wrap around.
-/

set_option autoImplicit false

namespace Lumie.ScreenAt

open MachineInt StoreTrace
open Lumie.Strings Lumie.Screen

/-- Both branches of the glyph test store: lit pixels in `fg`, the others in
`bg`. -/
def putCharBgStores (fb : Framebuffer) (font : Font) (c : UInt8) (cx cy : Int)
    (fg bg : UInt32) : List PixelStore :=
  (List.range (charsize font)).flatMap fun (y : Nat) =>
    (List.range 8).map fun (x : Nat) =>
      (pixelStore fb (u32 (cy + y)) (u32 (cx + x))
        (if Lit font c y x then fg else bg)).addressed

def putCharBg (fb : Framebuffer) (font : Font) (con : Console) (c : UInt8)
    (cx cy : Int) (fg bg : UInt32) : Console :=
  con.write (putCharBgStores fb font c cx cy fg bg)

def kprintAtFrom (fb : Framebuffer) (font : Font) (fg bg : UInt32)
    (x y : Int) : List UInt8 → Nat → Console → Console
  | [], _, con => con
  | c :: rest, i, con =>
      let screenX := i32 (i32 (x + i) * 8)
      let screenY := i32 (y * 16)
      if u64 (i32 (screenX + 8)) ≤ fb.width ∧
          u64 (i32 (screenY + 16)) ≤ fb.height then
        kprintAtFrom fb font fg bg x y rest (i + 1)
          (putCharBg fb font con (u8 (charVal c)) screenX screenY fg bg)
      else kprintAtFrom fb font fg bg x y rest (i + 1) con

def kprintAt (fb : Framebuffer) (font : Font) (con : Console) (str : CString)
    (fg bg : UInt32) (x y : Int) : Console :=
  kprintAtFrom fb font fg bg x y str.bytes 0 con

/-! ## Cells -/

def CellVisible (fb : Framebuffer) (col row : Int) : Prop :=
  0 ≤ 8 * col ∧ 8 * col + 8 ≤ fb.width ∧ 0 ≤ 16 * row ∧
    16 * row + 16 ≤ fb.height

def cellWord (fb : Framebuffer) (col row : Int) (dy dx : Nat) : Nat :=
  rowMajor fb.stride (16 * row + dy).toNat (8 * col + dx).toNat

def InCells (fb : Framebuffer) (str : CString) (x y : Int)
    (index : Nat) : Prop :=
  ∃ i < str.bytes.length, CellVisible fb (x + i) y ∧
    ∃ dy < 16, ∃ dx < 8, index = cellWord fb (x + i) y dy dx

/-- The visible cells of the text show its glyphs, and of the other words
those in `words` are unchanged. -/
def PaintsCells (fb : Framebuffer) (font : Font) (str : CString)
    (fg bg : UInt32) (x y : Int) (words : Nat → Prop) : Prop :=
  ∀ con, (∀ (i : Nat) c, str.bytes[i]? = some c →
      CellVisible fb (x + i) y → ∀ dy < 16, ∀ dx < 8,
        (kprintAt fb font con str fg bg x y).pixels
            (cellWord fb (x + i) y dy dx) =
          if Lit font c dy dx then fg else bg) ∧
    ∀ index, words index → ¬ InCells fb str x y index →
      (kprintAt fb font con str fg bg x y).pixels index = con.pixels index

/-- `screen_y + 16 <= target_fb->height` -/
def RowTest (fb : Framebuffer) (row : Int) : Prop :=
  u64 (16 * row + 16) ≤ fb.height

/-- The guard lets the cell through although it is not visible. -/
def Stray (fb : Framebuffer) (col row : Int) : Prop :=
  (col = -1 ∧ RowTest fb row) ∨
    (row = -1 ∧ 0 ≤ 8 * col ∧ 8 * col + 8 ≤ fb.width)

/-- Where `put_char_bg` stores a pixel of the cell. -/
def drawnWord (fb : Framebuffer) (col row : Int) (dy dx : Nat) : Nat :=
  rowMajor fb.stride (u32 (16 * row + dy)) (u32 (8 * col + dx)) % 2 ^ 62

theorem drawnWord_eq (fb : Framebuffer) (col row : Int) (dy dx : Nat)
    (color : UInt32) :
    (pixelStore fb (u32 (16 * row + dy)) (u32 (8 * col + dx))
      color).addressed.word = (drawnWord fb col row dy dx, color) :=
  Prod.ext (pixelStore_addressed fb _ _ color) rfl

/-- The framebuffer lies in the address space and the font has height 16. -/
structure Mapped (fb : Framebuffer) (font : Font) : Prop where
  pitchLow : 4 * fb.width ≤ fb.pitch
  pitchHigh : fb.pitch < 2 ^ 64
  bytes : fb.height * fb.pitch ≤ 2 ^ 64
  font : charsize font = 16

/-- No `int` of the loop overflows. -/
structure InRange (str : CString) (x y : Int) : Prop where
  columnLow : ∀ i < str.bytes.length, -2 ^ 31 ≤ (x + i) * 8
  columnHigh : ∀ i < str.bytes.length, (x + i) * 8 + 8 < 2 ^ 31
  rowLow : -2 ^ 31 ≤ y * 16
  rowHigh : y * 16 + 16 < 2 ^ 31

def Passes (fb : Framebuffer) (col row : Int) : Prop :=
  u64 (8 * col + 8) ≤ fb.width ∧ RowTest fb row

instance (fb : Framebuffer) (col row : Int) : Decidable (Passes fb col row) :=
  inferInstanceAs (Decidable (_ ≤ _ ∧ _ ≤ _))

def textStores (fb : Framebuffer) (font : Font) (fg bg : UInt32) (x y : Int) :
    List UInt8 → Nat → List PixelStore
  | [], _ => []
  | c :: rest, i =>
      (if Passes fb (x + i) y then
          putCharBgStores fb font c (8 * (x + i)) (16 * y) fg bg
        else []) ++
        textStores fb font fg bg x y rest (i + 1)

theorem mem_putCharBgStores {fb : Framebuffer} {font : Font} {c : UInt8}
    {cx cy : Int} {fg bg : UInt32} {store : PixelStore} :
    store ∈ putCharBgStores fb font c cx cy fg bg ↔
      ∃ dy : Nat, dy < charsize font ∧ ∃ dx : Nat, dx < 8 ∧
        store = (pixelStore fb (u32 (cy + dy)) (u32 (cx + dx))
          (if Lit font c dy dx then fg else bg)).addressed := by
  simp only [putCharBgStores, List.mem_flatMap, List.mem_map, List.mem_range]
  constructor
  · rintro ⟨dy, dyBound, dx, dxBound, rfl⟩
    exact ⟨dy, dyBound, dx, dxBound, rfl⟩
  · rintro ⟨dy, dyBound, dx, dxBound, rfl⟩
    exact ⟨dy, dyBound, dx, dxBound, rfl⟩

section Stores

variable {fb : Framebuffer} {font : Font} {fg bg : UInt32} {x y : Int}

theorem textStores_append (front back : List UInt8) (i : Nat) :
    textStores fb font fg bg x y (front ++ back) i =
      textStores fb font fg bg x y front i ++
        textStores fb font fg bg x y back (i + front.length) := by
  induction front generalizing i with
  | nil => rfl
  | cons c rest ih =>
      have behind : i + (c :: rest).length = i + 1 + rest.length := by
        rw [List.length_cons]
        omega
      rw [List.cons_append, textStores, textStores, ih, behind,
        List.append_assoc]

theorem mem_textStores {bytes : List UInt8} {i : Nat} {store : PixelStore} :
    store ∈ textStores fb font fg bg x y bytes i ↔
      ∃ (k : Nat) (c : UInt8), bytes[k]? = some c ∧
        Passes fb (x + (i + k : Nat)) y ∧
        store ∈ putCharBgStores fb font c (8 * (x + (i + k : Nat))) (16 * y)
          fg bg := by
  induction bytes generalizing i with
  | nil => simp [textStores]
  | cons first rest ih =>
      rw [textStores, List.mem_append, ih]
      constructor
      · rintro (here | ⟨k, c, found, passes, member⟩)
        · split at here
          · rename_i passes
            exact ⟨0, first, rfl, passes, here⟩
          · cases here
        · have next : i + (k + 1) = i + 1 + k := by omega
          exact ⟨k + 1, c, found, by rw [next]; exact passes,
            by rw [next]; exact member⟩
      · rintro ⟨k, c, found, passes, member⟩
        cases k with
        | zero =>
            obtain rfl : first = c := by simpa using found
            rw [Nat.add_zero] at passes member
            exact Or.inl (by rw [if_pos passes]; exact member)
        | succ k =>
            have next : i + (k + 1) = i + 1 + k := by omega
            rw [next] at passes member
            exact Or.inr ⟨k, c, by simpa using found, passes, member⟩

theorem kprintAtFrom_pixels {bytes : List UInt8} {i : Nat} (con : Console)
    (columnLow : ∀ k < bytes.length, -2 ^ 31 ≤ (x + (i + k : Nat)) * 8)
    (columnHigh : ∀ k < bytes.length, (x + (i + k : Nat)) * 8 + 8 < 2 ^ 31)
    (rowLow : -2 ^ 31 ≤ y * 16) (rowHigh : y * 16 + 16 < 2 ^ 31) :
    (kprintAtFrom fb font fg bg x y bytes i con).pixels =
      applyStores con.pixels
        ((textStores fb font fg bg x y bytes i).map PixelStore.word) := by
  induction bytes generalizing i con with
  | nil => rfl
  | cons c rest ih =>
      have low := columnLow 0 (by simp)
      have high := columnHigh 0 (by simp)
      rw [Nat.add_zero] at low high
      have next : ∀ k, i + 1 + k = i + (k + 1) := by omega
      have later : ∀ now : Console,
          (kprintAtFrom fb font fg bg x y rest (i + 1) now).pixels =
            applyStores now.pixels ((textStores fb font fg bg x y rest
              (i + 1)).map PixelStore.word) := by
        intro now
        apply ih now
        · intro k bound
          rw [next]
          exact columnLow (k + 1) (by simpa using bound)
        · intro k bound
          rw [next]
          exact columnHigh (k + 1) (by simpa using bound)
      have sum : i32 (x + i) = x + i :=
        i32_of_bounds (by omega) (by omega)
      have column : i32 (i32 (x + i) * 8) = 8 * (x + i) := by
        rw [sum, i32_of_bounds low (by omega), Int.mul_comm]
      have row : i32 (y * 16) = 16 * y := by
        rw [i32_of_bounds rowLow (by omega), Int.mul_comm]
      have right : i32 (8 * (x + i) + 8) = 8 * (x + i) + 8 :=
        i32_of_bounds (by omega) (by omega)
      have bottom : i32 (16 * y + 16) = 16 * y + 16 :=
        i32_of_bounds (by omega) (by omega)
      simp only [kprintAtFrom, column, row, right, bottom, u8_charVal]
      rw [textStores, List.map_append, applyStores_append]
      by_cases passes : Passes fb (x + i) y
      · rw [if_pos passes]
        exact (congrArg Console.pixels (if_pos passes)).trans (later _)
      · rw [if_neg passes]
        exact (congrArg Console.pixels (if_neg passes)).trans (later con)

theorem kprintAt_pixels {str : CString} (inRange : InRange str x y)
    (con : Console) :
    (kprintAt fb font con str fg bg x y).pixels =
      applyStores con.pixels
        ((textStores fb font fg bg x y str.bytes 0).map PixelStore.word) := by
  apply kprintAtFrom_pixels con _ _ inRange.rowLow inRange.rowHigh
  · intro k bound
    rw [Nat.zero_add]
    exact inRange.columnLow k bound
  · intro k bound
    rw [Nat.zero_add]
    exact inRange.columnHigh k bound

end Stores

/-! ## What passes the guard -/

section Cells

variable {fb : Framebuffer} {font : Font} {col row : Int}

theorem Mapped.stride (mapped : Mapped fb font) : fb.width ≤ fb.stride := by
  have low := mapped.pitchLow
  unfold Framebuffer.stride
  omega

theorem Mapped.words (mapped : Mapped fb font) :
    fb.height * fb.stride * 4 ≤ 2 ^ 64 := by
  have bytes := mapped.bytes
  have pitch : fb.stride * 4 ≤ fb.pitch := Nat.div_mul_le_self _ _
  calc fb.height * fb.stride * 4 = fb.height * (fb.stride * 4) := by ring
    _ ≤ fb.height * fb.pitch := Nat.mul_le_mul_left _ pitch
    _ ≤ 2 ^ 64 := bytes

theorem passes_iff (mapped : Mapped fb font) (columnLow : -2 ^ 31 ≤ 8 * col)
    (columnHigh : 8 * col + 8 < 2 ^ 31) (rowLow : -2 ^ 31 ≤ 16 * row)
    (rowHigh : 16 * row + 16 < 2 ^ 31) :
    Passes fb col row ↔ CellVisible fb col row ∨ Stray fb col row := by
  have widthLow := mapped.pitchLow
  have pitchHigh := mapped.pitchHigh
  have bytes := mapped.bytes
  unfold Passes CellVisible Stray RowTest
  constructor
  · rintro ⟨column, test⟩
    have right : -1 ≤ col := by
      by_contra left
      unfold u64 at column
      omega
    rcases Int.lt_or_eq_of_le right with inside | edge
    · -- a screen with a visible column is too wide to have many rows
      have wide : 32 ≤ fb.pitch := by
        unfold u64 at column
        omega
      have rows : fb.height * 32 ≤ 2 ^ 64 :=
        (Nat.mul_le_mul_left _ wide).trans bytes
      unfold u64 at column test
      omega
    · exact Or.inr (Or.inl ⟨edge.symm, test⟩)
  · rintro (visible | ⟨rfl, test⟩ | ⟨rfl, visible⟩)
    · unfold u64
      omega
    · exact ⟨Nat.zero_le _, test⟩
    · unfold u64
      omega

theorem drawnWord_visible (mapped : Mapped fb font)
    (visible : CellVisible fb col row) (columnHigh : 8 * col + 8 < 2 ^ 31)
    (rowHigh : 16 * row + 16 < 2 ^ 31) {dy dx : Nat} (below : dy < 16)
    (inside : dx < 8) :
    drawnWord fb col row dy dx = cellWord fb col row dy dx := by
  obtain ⟨left, right, top, bottom⟩ := visible
  have stride := mapped.stride
  have words := mapped.words
  have inRow : (8 * col + dx).toNat < fb.stride := by omega
  have inScreen : (16 * row + dy).toNat < fb.height := by omega
  have index := rowMajor_lt inScreen inRow
  rw [drawnWord, u32_of_bounds (by omega) (by omega),
    u32_of_bounds (by omega) (by omega), cellWord,
    Nat.mod_eq_of_lt (by omega)]

theorem cellWord_column (mapped : Mapped fb font) {other : Int}
    (visible : CellVisible fb col row) (otherVisible : CellVisible fb other row)
    {dy dx otherDy otherDx : Nat} (inside : dx < 8) (otherInside : otherDx < 8)
    (same : cellWord fb col row dy dx = cellWord fb other row otherDy otherDx) :
    col = other ∧ dy = otherDy ∧ dx = otherDx := by
  obtain ⟨left, right, top, bottom⟩ := visible
  obtain ⟨otherLeft, otherRight, -, -⟩ := otherVisible
  have stride := mapped.stride
  obtain ⟨rows, cols⟩ := (rowMajor_inj (by omega) (by omega)).mp same
  omega

end Cells

/-! ## The text on the screen -/

section Text

variable {fb : Framebuffer} {font : Font} {str : CString} {fg bg : UInt32}
  {x y : Int}

theorem word_of_textStores (mapped : Mapped fb font)
    {bytes : List UInt8} {i : Nat} {word : Nat × UInt32}
    (member : word ∈
      (textStores fb font fg bg x y bytes i).map PixelStore.word) :
    ∃ (k : Nat) (c : UInt8), bytes[k]? = some c ∧
      Passes fb (x + (i + k : Nat)) y ∧ ∃ dy < 16, ∃ dx < 8,
        word = (drawnWord fb (x + (i + k : Nat)) y dy dx,
          if Lit font c dy dx then fg else bg) := by
  obtain ⟨store, inStores, rfl⟩ := List.mem_map.mp member
  obtain ⟨k, c, found, passes, drawn⟩ := mem_textStores.mp inStores
  obtain ⟨dy, below, dx, inside, rfl⟩ := mem_putCharBgStores.mp drawn
  rw [mapped.font] at below
  exact ⟨k, c, found, passes, dy, below, dx, inside, drawnWord_eq ..⟩

theorem InRange.passes_iff (mapped : Mapped fb font)
    (inRange : InRange str x y) {i : Nat} (bound : i < str.bytes.length) :
    Passes fb (x + i) y ↔ CellVisible fb (x + i) y ∨ Stray fb (x + i) y := by
  have columnLow := inRange.columnLow i bound
  have columnHigh := inRange.columnHigh i bound
  have rowLow := inRange.rowLow
  have rowHigh := inRange.rowHigh
  exact ScreenAt.passes_iff mapped (by omega) (by omega) (by omega) (by omega)

theorem InRange.drawnWord (mapped : Mapped fb font) (inRange : InRange str x y)
    {i : Nat} (bound : i < str.bytes.length)
    (visible : CellVisible fb (x + i) y) {dy dx : Nat} (below : dy < 16)
    (inside : dx < 8) :
    drawnWord fb (x + i) y dy dx = cellWord fb (x + i) y dy dx := by
  have columnHigh := inRange.columnHigh i bound
  have rowHigh := inRange.rowHigh
  exact drawnWord_visible mapped visible (by omega) (by omega) below inside

theorem applyStores_visible (mapped : Mapped fb font) (inRange : InRange str x y)
    {i : Nat} (bound : i < str.bytes.length)
    (visible : CellVisible fb (x + i) y) (before : Nat → UInt32) (c : UInt8)
    {dy dx : Nat} (below : dy < 16) (inside : dx < 8) :
    applyStores before
        ((putCharBgStores fb font c (8 * (x + i)) (16 * y) fg bg).map
          PixelStore.word) (cellWord fb (x + i) y dy dx) =
      if Lit font c dy dx then fg else bg := by
  apply applyStores_uniform
  · intro word member same
    obtain ⟨store, inStores, rfl⟩ := List.mem_map.mp member
    obtain ⟨otherDy, otherBelow, otherDx, otherInside, rfl⟩ :=
      mem_putCharBgStores.mp inStores
    rw [mapped.font] at otherBelow
    rw [drawnWord_eq] at same ⊢
    have target := inRange.drawnWord mapped bound visible otherBelow otherInside
    obtain ⟨-, rfl, rfl⟩ := cellWord_column mapped visible visible
      otherInside inside (target.symm.trans same)
    rfl
  · have reached : (pixelStore fb (u32 (16 * y + dy)) (u32 (8 * (x + i) + dx))
        (if Lit font c dy dx then fg else bg)).addressed ∈
          putCharBgStores fb font c (8 * (x + i)) (16 * y) fg bg :=
      mem_putCharBgStores.mpr
        ⟨dy, by rw [mapped.font]; exact below, dx, inside, rfl⟩
    refine ⟨_, List.mem_map_of_mem reached, ?_⟩
    rw [drawnWord_eq]
    exact inRange.drawnWord mapped bound visible below inside

/-- The characters behind a visible cell are drawn into other visible cells. -/
theorem visible_untouched (mapped : Mapped fb font) (inRange : InRange str x y)
    {i : Nat} (visible : CellVisible fb (x + i) y) {dy dx : Nat}
    (inside : dx < 8) {word : Nat × UInt32}
    (member : word ∈ (textStores fb font fg bg x y (str.bytes.drop (i + 1))
      (i + 1)).map PixelStore.word) :
    word.1 ≠ cellWord fb (x + i) y dy dx := by
  intro same
  obtain ⟨k, c, found, passes, otherDy, otherBelow, otherDx, otherInside, rfl⟩ :=
    word_of_textStores mapped member
  have bound : i + 1 + k < str.bytes.length := by
    have behind := (List.getElem?_eq_some_iff.mp found).1
    rw [List.length_drop] at behind
    omega
  have otherVisible : CellVisible fb (x + (i + 1 + k : Nat)) y := by
    rcases (inRange.passes_iff mapped bound).mp passes with
      cell | ⟨edge, -⟩ | ⟨edge, -⟩
    · exact cell
    · obtain ⟨left, -⟩ := visible
      omega
    · obtain ⟨-, -, top, -⟩ := visible
      omega
  have target := inRange.drawnWord mapped bound otherVisible otherBelow
    otherInside
  have columns := (cellWord_column mapped otherVisible visible otherInside
    inside (target.symm.trans same)).1
  omega

theorem kprintAt_visible (mapped : Mapped fb font) (inRange : InRange str x y)
    (con : Console) {i : Nat} {c : UInt8} (found : str.bytes[i]? = some c)
    (visible : CellVisible fb (x + i) y) {dy dx : Nat} (below : dy < 16)
    (inside : dx < 8) :
    (kprintAt fb font con str fg bg x y).pixels
        (cellWord fb (x + i) y dy dx) =
      if Lit font c dy dx then fg else bg := by
  obtain ⟨bound, here⟩ := List.getElem?_eq_some_iff.mp found
  have passes := (inRange.passes_iff mapped bound).mpr (Or.inl visible)
  have split : str.bytes =
      str.bytes.take i ++ c :: str.bytes.drop (i + 1) := by
    rw [← here, ← List.drop_eq_getElem_cons bound, List.take_append_drop]
  have position : 0 + (str.bytes.take i).length = i := by
    rw [Nat.zero_add, List.length_take]
    omega
  rw [kprintAt_pixels inRange, split, textStores_append, position, textStores,
    if_pos passes, List.map_append, List.map_append, applyStores_append,
    applyStores_append, applyStores_untouched]
  · exact applyStores_visible mapped inRange bound visible _ c below inside
  · intro word member
    exact visible_untouched mapped inRange visible inside member

theorem exists_color_ne (fg bg : UInt32) :
    ∃ color : UInt32, color ≠ fg ∧ color ≠ bg := by
  by_contra all
  simp only [not_exists, not_and, ne_eq, not_not] at all
  have zero := all 0
  have one := all 1
  have two := all 2
  grind

theorem kprintAt_stray (mapped : Mapped fb font) (inRange : InRange str x y)
    (con : Console) {i : Nat} (bound : i < str.bytes.length)
    (stray : Stray fb (x + i) y) {dy dx : Nat} (below : dy < 16)
    (inside : dx < 8) :
    (kprintAt fb font con str fg bg x y).pixels
          (drawnWord fb (x + i) y dy dx) = fg ∨
      (kprintAt fb font con str fg bg x y).pixels
          (drawnWord fb (x + i) y dy dx) = bg := by
  have passes := (inRange.passes_iff mapped bound).mpr (Or.inr stray)
  have drawn : (pixelStore fb (u32 (16 * y + dy)) (u32 (8 * (x + i) + dx))
      (if Lit font str.bytes[i] dy dx then fg else bg)).addressed ∈
        textStores fb font fg bg x y str.bytes 0 := by
    refine mem_textStores.mpr ⟨i, str.bytes[i],
      List.getElem?_eq_getElem bound, ?_, ?_⟩
    · rw [Nat.zero_add]
      exact passes
    · rw [Nat.zero_add]
      exact mem_putCharBgStores.mpr
        ⟨dy, by rw [mapped.font]; exact below, dx, inside, rfl⟩
  have reached : ∃ word ∈ (textStores fb font fg bg x y str.bytes 0).map
      PixelStore.word, word.1 = drawnWord fb (x + i) y dy dx :=
    ⟨_, List.mem_map_of_mem drawn, by rw [drawnWord_eq]⟩
  obtain ⟨word, member, -, value⟩ :=
    applyStores_reached con.pixels _ _ reached
  obtain ⟨k, c, -, -, otherDy, -, otherDx, -, rfl⟩ :=
    word_of_textStores mapped member
  rw [kprintAt_pixels inRange, value]
  exact ite_eq_or_eq _ fg bg

/-- The text paints its visible cells and nothing else of some words exactly
when no stray character is stored to one of these words. -/
theorem paintsCells_iff (mapped : Mapped fb font) (inRange : InRange str x y)
    (words : Nat → Prop) :
    PaintsCells fb font str fg bg x y words ↔
      ∀ i < str.bytes.length, Stray fb (x + i) y → ∀ dy < 16, ∀ dx < 8,
        words (drawnWord fb (x + i) y dy dx) →
          InCells fb str x y (drawnWord fb (x + i) y dy dx) := by
  constructor
  · intro paints i bound stray dy below dx inside watched
    by_contra outside
    obtain ⟨color, notFg, notBg⟩ := exists_color_ne fg bg
    have kept := (paints (startConsole fun _ => color)).2 _ watched outside
    rcases kprintAt_stray mapped inRange (startConsole fun _ => color) bound
      stray below inside with isFg | isBg
    · exact notFg (kept.symm.trans isFg)
    · exact notBg (kept.symm.trans isBg)
  · intro strays con
    refine ⟨fun i c found visible dy below dx inside =>
      kprintAt_visible mapped inRange con found visible below inside, ?_⟩
    intro index watched outside
    rw [kprintAt_pixels inRange]
    apply applyStores_untouched
    intro word member same
    obtain ⟨k, c, found, passes, dy, below, dx, inside, rfl⟩ :=
      word_of_textStores mapped member
    rw [Nat.zero_add] at passes same
    have bound := (List.getElem?_eq_some_iff.mp found).1
    change drawnWord fb (x + k) y dy dx = index at same
    subst same
    rcases (inRange.passes_iff mapped bound).mp passes with visible | stray
    · exact outside ⟨k, bound, visible, dy, below, dx, inside,
        inRange.drawnWord mapped bound visible below inside⟩
    · exact outside (strays k bound stray dy below dx inside watched)

end Text

end Lumie.ScreenAt
