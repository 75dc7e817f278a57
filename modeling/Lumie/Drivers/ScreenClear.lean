import Lumie.Drivers.Screen

/-!
# What `clear` fills

`clear` counts through the framebuffer, every other function addresses it by
rows of `pitch / 4` words.  The words counted are the visible ones when no row
has padding behind it that the count runs into.
-/

set_option autoImplicit false

namespace Lumie.ScreenClear

open MachineInt StoreTrace
open Lumie.Screen

def VisibleWord (fb : Framebuffer) (index : Nat) : Prop :=
  ∃ row < fb.height, ∃ col < fb.width, index = rowMajor fb.stride row col

/-- Each visible word takes the colour, the other words keep what they held,
and the cursor is at the origin. -/
def FillsVisible (fb : Framebuffer) (con : Console) (color : UInt32) : Prop :=
  (∀ index, VisibleWord fb index → (clear fb con color).pixels index = color) ∧
    (∀ index, ¬ VisibleWord fb index →
      (clear fb con color).pixels index = con.pixels index) ∧
    (clear fb con color).cursorX = 0 ∧ (clear fb con color).cursorY = 0

theorem fillsVisible_iff_words (fb : Framebuffer) :
    (∀ con color, FillsVisible fb con color) ↔
      ∀ index, index < clearedWords fb ↔ VisibleWord fb index := by
  constructor
  · intro fills index
    obtain ⟨filled, kept, -, -⟩ := fills (startConsole fun _ => 0) 1
    constructor
    · intro inLoop
      by_contra hidden
      have same := kept index hidden
      rw [clear_pixels, if_pos inLoop] at same
      exact absurd same (show (1 : UInt32) ≠ 0 by decide)
    · intro visible
      by_contra outside
      have colored := filled index visible
      rw [clear_pixels, if_neg outside] at colored
      exact absurd colored (show (0 : UInt32) ≠ 1 by decide)
  · intro words con color
    refine ⟨?_, ?_, rfl, rfl⟩
    · intro index visible
      rw [clear_pixels]
      exact if_pos ((words index).mpr visible)
    · intro index hidden
      rw [clear_pixels]
      exact if_neg fun inLoop => hidden ((words index).mp inLoop)

section Words

variable {fb : Framebuffer}

/-- The word behind the first row is padding, the first word of the second row
is not. -/
theorem not_visibleWord_width (padded : fb.width < fb.stride) :
    ¬ VisibleWord fb fb.width := by
  rintro ⟨row, -, col, inRow, same⟩
  have second : rowMajor fb.stride row col % fb.stride = col :=
    rowMajor_mod (lt_trans inRow padded)
  rw [← same, Nat.mod_eq_of_lt padded] at second
  omega

theorem visibleWord_secondRow (tall : 2 ≤ fb.height) (wide : 0 < fb.width) :
    VisibleWord fb fb.stride :=
  ⟨1, tall, 0, wide, by simp [rowMajor]⟩

theorem visibleWord_iff (dense : fb.stride = fb.width ∨ fb.height ≤ 1)
    (index : Nat) :
    VisibleWord fb index ↔ index < fb.width * fb.height := by
  constructor
  · rintro ⟨row, below, col, inRow, rfl⟩
    rcases dense with same | single
    · rw [same, Nat.mul_comm]
      exact rowMajor_lt below inRow
    · obtain rfl : row = 0 := by omega
      have one : fb.height = 1 := by omega
      rw [one, Nat.mul_one, rowMajor]
      omega
  · intro inside
    rcases dense with same | single
    · have wide : 0 < fb.width := by
        by_contra none
        rw [Nat.eq_zero_of_not_pos none, Nat.zero_mul] at inside
        cases inside
      refine ⟨index / fb.width, Nat.div_lt_of_lt_mul inside,
        index % fb.width, Nat.mod_lt _ wide, ?_⟩
      rw [same, rowMajor, Nat.mul_comm, Nat.div_add_mod]
    · have one : fb.height = 1 := by
        rcases Nat.le_one_iff_eq_zero_or_eq_one.mp single with none | one
        · rw [none, Nat.mul_zero] at inside
          cases inside
        · exact one
      rw [one, Nat.mul_one] at inside
      exact ⟨0, by omega, index, inside, by simp [rowMajor]⟩

theorem clearedWords_iff (stride : fb.width ≤ fb.stride) :
    (∀ index, index < clearedWords fb ↔ VisibleWord fb index) ↔
      fb.width = 0 ∨ (fb.width * fb.height < 2 ^ 64 ∧
        (fb.stride = fb.width ∨ fb.height ≤ 1)) := by
  constructor
  · intro words
    refine or_iff_not_imp_left.mpr fun wide => ?_
    have dense : fb.stride = fb.width ∨ fb.height ≤ 1 := by
      by_contra loose
      rw [not_or, Nat.not_le] at loose
      have padding := mt (words fb.width).mp
        (not_visibleWord_width (lt_of_le_of_ne stride (Ne.symm loose.1)))
      have second := (words fb.stride).mpr
        (visibleWord_secondRow loose.2 (Nat.pos_of_ne_zero wide))
      omega
    refine ⟨?_, dense⟩
    by_contra long
    have last := (words (fb.width * fb.height - 1)).mpr
      ((visibleWord_iff dense _).mpr (by omega))
    rw [clearedWords, u64] at last
    omega
  · rintro (narrow | ⟨area, dense⟩) index
    · have none : clearedWords fb = 0 := by
        rw [clearedWords, narrow, Nat.zero_mul]
        rfl
      rw [none]
      constructor
      · intro impossible
        cases impossible
      · rintro ⟨_, -, col, inRow, -⟩
        omega
    · rw [visibleWord_iff dense, clearedWords, u64_natCast area]

end Words

/-- `clear` fills exactly the visible screen when the rows have no padding;
else only an empty screen or one of a single row. -/
theorem clear_fillsVisible_iff (fb : Framebuffer) (pitchWords : 4 ∣ fb.pitch)
    (pitchLow : 4 * fb.width ≤ fb.pitch) :
    (∀ con color, FillsVisible fb con color) ↔
      fb.width = 0 ∨ (fb.width * fb.height < 2 ^ 64 ∧
        (fb.pitch = 4 * fb.width ∨ fb.height ≤ 1)) := by
  have stride : fb.width ≤ fb.stride := by
    unfold Framebuffer.stride
    omega
  have unpadded : fb.stride = fb.width ↔ fb.pitch = 4 * fb.width := by
    unfold Framebuffer.stride
    omega
  rw [fillsVisible_iff_words, clearedWords_iff stride, unpadded]

theorem clear_paddedRows :
    ¬ ∀ fb : Framebuffer, 4 ∣ fb.pitch → 4 * fb.width ≤ fb.pitch →
      ∀ con color, FillsVisible fb con color := by
  intro all
  have words := (fillsVisible_iff_words ⟨1366, 768, 5504⟩).mp
    (all _ (by decide) (by decide))
  have padding : ¬ VisibleWord ⟨1366, 768, 5504⟩ 1366 :=
    not_visibleWord_width (by decide)
  exact padding ((words 1366).mp (by decide))

theorem clear_fillsVisible_unpadded :
    FillsVisible ⟨1024, 768, 4096⟩ (startConsole fun _ => 0) 0xFFFFFF :=
  (clear_fillsVisible_iff ⟨1024, 768, 4096⟩ (by decide) (by decide)).mpr
    (Or.inr ⟨by decide, Or.inl rfl⟩) (startConsole fun _ => 0) 0xFFFFFF

end Lumie.ScreenClear
