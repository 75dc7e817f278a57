import Lumie.Base.FoldRun
import Lumie.Base.StoreTrace

/-!
# A text grid with a cursor

A grid of cells that are blank or hold a glyph.  Putting a glyph wraps the
cursor when the row is full and is lost below the last row; erasing takes back
the cell before the cursor in the same row.  In reading order the cells from
the cursor on are blank in every reachable grid, and wrapping does not change
the place of the cursor.
-/

set_option autoImplicit false

namespace TextGrid

open FoldRun StoreTrace

structure Grid (Glyph : Type*) where
  cells : Nat → Nat → Option Glyph
  row : Nat
  col : Nat

inductive GridOp (Glyph : Type*) where
  | put (glyph : Glyph)
  | newline
  | erase
  | clear

section Operations

variable {Glyph : Type*}

def blankGrid : Grid Glyph := ⟨fun _ _ => none, 0, 0⟩

def setCell (cells : Nat → Nat → Option Glyph) (row col : Nat)
    (cell : Option Glyph) : Nat → Nat → Option Glyph :=
  fun r c => if r = row ∧ c = col then cell else cells r c

def Grid.newline (grid : Grid Glyph) : Grid Glyph :=
  { grid with row := grid.row + 1, col := 0 }

def Grid.wrap (cols : Nat) (grid : Grid Glyph) : Grid Glyph :=
  if cols ≤ grid.col then grid.newline else grid

def Grid.write (grid : Grid Glyph) (glyph : Glyph) : Grid Glyph :=
  { grid with
    cells := setCell grid.cells grid.row grid.col (some glyph)
    col := grid.col + 1 }

def Grid.put (rows cols : Nat) (grid : Grid Glyph) (glyph : Glyph) :
    Grid Glyph :=
  let wrapped := grid.wrap cols
  if wrapped.row < rows then wrapped.write glyph else wrapped

def Grid.erase (grid : Grid Glyph) : Grid Glyph :=
  if 0 < grid.col then
    { grid with
      cells := setCell grid.cells grid.row (grid.col - 1) none
      col := grid.col - 1 }
  else grid

def gridStep (rows cols : Nat) (grid : Grid Glyph) :
    GridOp Glyph → Grid Glyph
  | .put glyph => grid.put rows cols glyph
  | .newline => grid.newline
  | .erase => grid.erase
  | .clear => blankGrid

end Operations

section Invariant

variable {Glyph : Type*} {rows cols : Nat} {grid : Grid Glyph}

structure GridOk (rows cols : Nat) (grid : Grid Glyph) : Prop where
  col : grid.col ≤ cols
  clipped : rows ≤ grid.row → grid.col = 0
  ahead : ∀ row col, grid.row < row ∨ (row = grid.row ∧ grid.col ≤ col) →
    grid.cells row col = none

theorem setCell_self (cells : Nat → Nat → Option Glyph) (row col : Nat)
    (cell : Option Glyph) : setCell cells row col cell row col = cell := by
  simp [setCell]

theorem setCell_other (cells : Nat → Nat → Option Glyph) {row col r c : Nat}
    (cell : Option Glyph) (other : ¬ (r = row ∧ c = col)) :
    setCell cells row col cell r c = cells r c := by
  simp only [setCell, if_neg other]

theorem gridOk_blank : GridOk rows cols (blankGrid : Grid Glyph) :=
  ⟨Nat.zero_le _, fun _ => rfl, fun _ _ _ => rfl⟩

theorem GridOk.newline (ok : GridOk rows cols grid) :
    GridOk rows cols grid.newline := by
  refine ⟨Nat.zero_le _, fun _ => rfl, ?_⟩
  intro row col later
  refine ok.ahead row col (Or.inl ?_)
  simp only [Grid.newline] at later
  omega

theorem GridOk.wrap (ok : GridOk rows cols grid) :
    GridOk rows cols (grid.wrap cols) := by
  unfold Grid.wrap
  split
  · exact ok.newline
  · exact ok

theorem wrap_col_lt (positive : 0 < cols) : (grid.wrap cols).col < cols := by
  unfold Grid.wrap
  split
  · exact positive
  · omega

theorem GridOk.write (ok : GridOk rows cols grid) (glyph : Glyph)
    (room : grid.col < cols) (visible : grid.row < rows) :
    GridOk rows cols (grid.write glyph) := by
  refine ⟨room, ?_, ?_⟩
  · intro below
    simp only [Grid.write] at below
    omega
  · intro row col later
    simp only [Grid.write] at later ⊢
    rw [setCell_other _ _ (by omega)]
    exact ok.ahead row col (by omega)

theorem GridOk.put (ok : GridOk rows cols grid) (positive : 0 < cols)
    (glyph : Glyph) : GridOk rows cols (grid.put rows cols glyph) := by
  unfold Grid.put
  simp only
  split
  · rename_i visible
    exact ok.wrap.write glyph (wrap_col_lt positive) visible
  · exact ok.wrap

theorem GridOk.erase (ok : GridOk rows cols grid) :
    GridOk rows cols grid.erase := by
  unfold Grid.erase
  split
  · rename_i inside
    refine ⟨?_, ?_, ?_⟩
    · have bound := ok.col
      simp only
      omega
    · intro below
      have clipped := ok.clipped below
      omega
    · intro row col later
      simp only at later ⊢
      by_cases here : row = grid.row ∧ col = grid.col - 1
      · rw [here.1, here.2, setCell_self]
      · rw [setCell_other _ _ here]
        exact ok.ahead row col (by omega)
  · exact ok

end Invariant

/-! ## Reading order -/

section ReadingOrder

variable {Glyph : Type*} {rows cols : Nat} {grid : Grid Glyph}

def Grid.place (cols : Nat) (grid : Grid Glyph) : Nat :=
  rowMajor cols grid.row grid.col

/-- The cell at a place in reading order. -/
def Grid.cellAt (cols : Nat) (grid : Grid Glyph) (place : Nat) :
    Option Glyph :=
  grid.cells (place / cols) (place % cols)

theorem place_wrap (bound : grid.col ≤ cols) :
    (grid.wrap cols).place cols = grid.place cols := by
  unfold Grid.wrap
  split
  · have full : grid.col = cols := by omega
    simp only [Grid.place, Grid.newline, rowMajor, full]
    ring
  · rfl

theorem wrap_row_col (positive : 0 < cols) (bound : grid.col ≤ cols) :
    (grid.wrap cols).row = grid.place cols / cols ∧
      (grid.wrap cols).col = grid.place cols % cols := by
  have room : (grid.wrap cols).col < cols := wrap_col_lt positive
  rw [← place_wrap bound]
  exact ⟨(rowMajor_div room).symm, (rowMajor_mod room).symm⟩

theorem cellAt_setCell {row col place : Nat} (inRow : col < cols)
    (cell : Option Glyph) (cursorRow cursorCol : Nat) :
    Grid.cellAt cols
        ⟨setCell grid.cells row col cell, cursorRow, cursorCol⟩ place =
      if place = rowMajor cols row col then cell else grid.cellAt cols place := by
  simp only [Grid.cellAt, setCell]
  by_cases here : place = rowMajor cols row col
  · rw [if_pos here, here, rowMajor_div inRow, rowMajor_mod inRow,
      if_pos ⟨rfl, rfl⟩]
  · rw [if_neg here, if_neg]
    rintro ⟨sameRow, sameCol⟩
    apply here
    rw [rowMajor, ← sameRow, ← sameCol, Nat.mul_comm, Nat.div_add_mod]

theorem cellAt_wrap (place : Nat) :
    (grid.wrap cols).cellAt cols place = grid.cellAt cols place := by
  unfold Grid.wrap
  split <;> rfl

theorem GridOk.cellAt (ok : GridOk rows cols grid) (positive : 0 < cols)
    {place : Nat} (later : grid.place cols ≤ place) :
    grid.cellAt cols place = none := by
  apply ok.ahead
  have whole := Nat.div_add_mod place cols
  have rest := Nat.mod_lt place positive
  rw [Grid.place, rowMajor] at later
  by_cases sameRow : place / cols = grid.row
  · rw [sameRow, Nat.mul_comm] at whole
    exact Or.inr ⟨sameRow, by omega⟩
  · refine Or.inl (lt_of_le_of_ne ?_ (Ne.symm sameRow))
    by_contra above
    have before : (place / cols + 1) * cols ≤ grid.row * cols :=
      Nat.mul_le_mul_right _ (by omega)
    rw [Nat.add_mul, Nat.mul_comm] at before
    omega

theorem put_visible (positive : 0 < cols) (bound : grid.col ≤ cols)
    (visible : grid.place cols / cols < rows) (glyph : Glyph) :
    (grid.put rows cols glyph).place cols = grid.place cols + 1 ∧
      ∀ place, (grid.put rows cols glyph).cellAt cols place =
        if place = grid.place cols then some glyph
        else grid.cellAt cols place := by
  have room : (grid.wrap cols).col < cols := wrap_col_lt positive
  have shown : (grid.wrap cols).row < rows := by
    rwa [(wrap_row_col positive bound).1]
  have written : grid.put rows cols glyph = (grid.wrap cols).write glyph := by
    simp only [Grid.put, if_pos shown]
  rw [written, ← place_wrap bound]
  refine ⟨rfl, fun place => ?_⟩
  rw [Grid.write, cellAt_setCell room, cellAt_wrap]
  rfl

theorem erase_inside (bound : grid.col ≤ cols) (inside : 0 < grid.col) :
    grid.erase.place cols + 1 = grid.place cols ∧
      ∀ place, grid.erase.cellAt cols place =
        if place + 1 = grid.place cols then none
        else grid.cellAt cols place := by
  have erased : grid.erase =
      ⟨setCell grid.cells grid.row (grid.col - 1) none, grid.row,
        grid.col - 1⟩ := by
    rw [Grid.erase, if_pos inside]
  rw [erased]
  constructor
  · simp only [Grid.place, rowMajor]
    omega
  · intro place
    rw [cellAt_setCell (by omega)]
    congr 1
    simp only [Grid.place, rowMajor, eq_iff_iff]
    omega

theorem erase_at_margin (margin : grid.col = 0) : grid.erase = grid := by
  rw [Grid.erase, if_neg (by omega)]

end ReadingOrder

end TextGrid
