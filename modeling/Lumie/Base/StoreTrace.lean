import Mathlib.Data.List.GetD
import Mathlib.Tactic

/-!
# Words under a list of stores

A memory of words is a function of the index; `applyStores` performs stores in
order.  The rules give the word at an index from the stores that reach it.
Row-major indices are those of a grid whose rows are `stride` words apart.
-/

set_option autoImplicit false

namespace StoreTrace

variable {Value : Type*}

def applyStores (words : Nat → Value) (stores : List (Nat × Value)) :
    Nat → Value :=
  stores.foldl (fun current store => Function.update current store.1 store.2)
    words

theorem applyStores_cons (words : Nat → Value) (store : Nat × Value)
    (rest : List (Nat × Value)) :
    applyStores words (store :: rest) =
      applyStores (Function.update words store.1 store.2) rest := rfl

theorem applyStores_append (words : Nat → Value)
    (first second : List (Nat × Value)) :
    applyStores words (first ++ second) =
      applyStores (applyStores words first) second :=
  List.foldl_append

theorem applyStores_untouched (words : Nat → Value)
    (stores : List (Nat × Value)) (index : Nat)
    (missed : ∀ store ∈ stores, store.1 ≠ index) :
    applyStores words stores index = words index := by
  induction stores generalizing words with
  | nil => rfl
  | cons store rest ih =>
      obtain ⟨here, other⟩ := List.forall_mem_cons.mp missed
      rw [applyStores_cons, ih _ other, Function.update_of_ne here.symm]

theorem applyStores_reached (words : Nat → Value)
    (stores : List (Nat × Value)) (index : Nat)
    (reached : ∃ store ∈ stores, store.1 = index) :
    ∃ store ∈ stores, store.1 = index ∧
      applyStores words stores index = store.2 := by
  induction stores using List.reverseRecOn with
  | nil =>
      obtain ⟨store, member, -⟩ := reached
      cases member
  | append_singleton front last ih =>
      rw [applyStores_append]
      by_cases here : last.1 = index
      · refine ⟨last, by simp, here, ?_⟩
        simp [applyStores, ← here]
      · have final : applyStores (applyStores words front) [last] index =
            applyStores words front index :=
          applyStores_untouched _ _ _ (by simpa using here)
        have before : ∃ store ∈ front, store.1 = index := by
          obtain ⟨store, member, same⟩ := reached
          rcases List.mem_append.mp member with inside | isLast
          · exact ⟨store, inside, same⟩
          · rw [List.mem_singleton] at isLast
            exact absurd (isLast ▸ same) here
        obtain ⟨store, member, same, value⟩ := ih before
        exact ⟨store, by simp [member], same, final.trans value⟩

/-- When all stores to an index carry the same value, the word there is that
value or, if no store reaches it, the old one. -/
theorem applyStores_uniform (words : Nat → Value)
    (stores : List (Nat × Value)) (index : Nat) (value : Value)
    (uniform : ∀ store ∈ stores, store.1 = index → store.2 = value)
    (reached : ∃ store ∈ stores, store.1 = index) :
    applyStores words stores index = value := by
  obtain ⟨store, member, same, result⟩ :=
    applyStores_reached words stores index reached
  rw [result, uniform store member same]

def storesFrom : Nat → List Value → List (Nat × Value)
  | _, [] => []
  | start, value :: rest => (start, value) :: storesFrom (start + 1) rest

theorem mem_storesFrom {start : Nat} {values : List Value}
    {store : Nat × Value} (member : store ∈ storesFrom start values) :
    start ≤ store.1 ∧ store.1 < start + values.length := by
  induction values generalizing start with
  | nil => cases member
  | cons value rest ih =>
      rw [List.length_cons]
      rcases List.mem_cons.mp member with rfl | later
      · exact ⟨Nat.le_refl _, by simp⟩
      · have bounds := ih later
        omega

theorem mem_storesFrom_replicate {start count index : Nat} {value : Value} :
    (index, value) ∈ storesFrom start (List.replicate count value) ↔
      start ≤ index ∧ index < start + count := by
  induction count generalizing start with
  | zero => simp [storesFrom]
  | succ count ih =>
      rw [List.replicate_succ, storesFrom, List.mem_cons, ih, Prod.mk.injEq]
      simp only [and_true]
      omega

theorem applyStores_storesFrom (words : Nat → Value) (start : Nat)
    (values : List Value) (index : Nat) :
    applyStores words (storesFrom start values) index =
      if start ≤ index then values.getD (index - start) (words index)
      else words index := by
  induction values generalizing words start with
  | nil => simp [storesFrom, applyStores]
  | cons value rest ih =>
      rw [storesFrom, applyStores_cons, ih]
      rcases Nat.lt_trichotomy index start with before | rfl | behind
      · rw [if_neg (by omega), if_neg (by omega),
          Function.update_of_ne (by omega)]
      · rw [if_neg (by omega), if_pos (Nat.le_refl _), Nat.sub_self,
          List.getD_cons_zero, Function.update_self]
      · obtain ⟨offset, distance⟩ : ∃ n, index - start = n + 1 :=
          ⟨index - start - 1, by omega⟩
        have shorter : index - (start + 1) = offset := by omega
        rw [if_pos (by omega), if_pos (by omega), distance, shorter,
          List.getD_cons_succ, Function.update_of_ne (by omega)]

/-- The stores of some values at the words from `start` on, the last word
first: the first value ends up behind the others. -/
def storesDown (start : Nat) : List Value → List (Nat × Value)
  | [] => []
  | value :: rest => (start + rest.length, value) :: storesDown start rest

theorem applyStores_update (words : Nat → Value) (stores : List (Nat × Value))
    (index : Nat) (value : Value)
    (missed : ∀ store ∈ stores, store.1 ≠ index) :
    applyStores (Function.update words index value) stores =
      Function.update (applyStores words stores) index value := by
  induction stores generalizing words with
  | nil => rfl
  | cons store rest ih =>
      obtain ⟨here, other⟩ := List.forall_mem_cons.mp missed
      rw [applyStores_cons, applyStores_cons, Function.update_comm here.symm,
        ih _ other]

theorem storesFrom_append (start : Nat) (front back : List Value) :
    storesFrom start (front ++ back) =
      storesFrom start front ++ storesFrom (start + front.length) back := by
  induction front generalizing start with
  | nil => rfl
  | cons value rest ih =>
      rw [List.cons_append, storesFrom, storesFrom, ih, List.length_cons,
        Nat.add_right_comm, Nat.add_assoc, List.cons_append]

/-- Filling from the back leaves the same words as filling from the front. -/
theorem applyStores_storesDown (words : Nat → Value) (start : Nat)
    (values : List Value) :
    applyStores words (storesDown start values) =
      applyStores words (storesFrom start values.reverse) := by
  induction values generalizing words with
  | nil => rfl
  | cons value rest ih =>
      have missed : ∀ store ∈ storesFrom start rest.reverse,
          store.1 ≠ start + rest.length := by
        intro store member
        have bounds := mem_storesFrom member
        rw [List.length_reverse] at bounds
        omega
      rw [storesDown, applyStores_cons, ih, applyStores_update _ _ _ _ missed,
        List.reverse_cons, storesFrom_append, applyStores_append,
        List.length_reverse]
      rfl

theorem exists_mem_storesDown {start index : Nat} {values : List Value} :
    (∃ store ∈ storesDown start values, store.1 = index) ↔
      start ≤ index ∧ index < start + values.length := by
  induction values with
  | nil =>
      simp only [storesDown, List.not_mem_nil, false_and, exists_false,
        List.length_nil, false_iff]
      omega
  | cons value rest ih =>
      simp only [storesDown, List.exists_mem_cons_iff, ih, List.length_cons]
      omega

def rowMajor (stride row col : Nat) : Nat := row * stride + col

theorem rowMajor_div {stride row col : Nat} (inRow : col < stride) :
    rowMajor stride row col / stride = row := by
  unfold rowMajor
  rw [Nat.mul_comm, Nat.mul_add_div (by omega), Nat.div_eq_of_lt inRow,
    Nat.add_zero]

theorem rowMajor_mod {stride row col : Nat} (inRow : col < stride) :
    rowMajor stride row col % stride = col := by
  unfold rowMajor
  rw [Nat.mul_comm, Nat.mul_add_mod, Nat.mod_eq_of_lt inRow]

theorem rowMajor_inj {stride row col otherRow otherCol : Nat}
    (inRow : col < stride) (otherInRow : otherCol < stride) :
    rowMajor stride row col = rowMajor stride otherRow otherCol ↔
      row = otherRow ∧ col = otherCol := by
  constructor
  · intro same
    have rows := congrArg (· / stride) same
    have cols := congrArg (· % stride) same
    simp only [rowMajor_div inRow, rowMajor_div otherInRow] at rows
    simp only [rowMajor_mod inRow, rowMajor_mod otherInRow] at cols
    exact ⟨rows, cols⟩
  · rintro ⟨rfl, rfl⟩
    rfl

theorem rowMajor_lt {stride rows row col : Nat} (below : row < rows)
    (inRow : col < stride) : rowMajor stride row col < rows * stride := by
  unfold rowMajor
  calc row * stride + col < row * stride + stride := by omega
    _ = (row + 1) * stride := by ring
    _ ≤ rows * stride := Nat.mul_le_mul_right stride below

theorem rowMajor_carry (stride row rows col : Nat) :
    rowMajor stride row (rows * stride + col) =
      rowMajor stride (row + rows) col := by
  unfold rowMajor
  rw [Nat.add_mul, Nat.add_assoc]

/-- In a memory of `size` words that wraps around, a block of rows misses the
words below `count` exactly when it lies behind them and ends before the last
word does. -/
theorem block_misses_iff {size stride count rows cols first : Nat}
    (columns : 0 < cols) (positive : 0 < count) (row : stride ≤ count)
    (inside : count ≤ size) :
    (∀ dy ≤ rows, ∀ dx < cols, count ≤ (first + dy * stride + dx) % size) ↔
      count ≤ first % size ∧ first % size + rows * stride + cols ≤ size := by
  have below : first % size < size := Nat.mod_lt _ (by omega)
  have reduced : ∀ distance,
      (first + distance) % size = (first % size + distance) % size := by
    intro distance
    rw [Nat.mod_add_mod]
  constructor
  · intro missed
    have start : count ≤ first % size := by
      simpa using missed 0 (Nat.zero_le _) 0 columns
    refine ⟨start, ?_⟩
    by_contra beyond
    -- the first row that reaches the end of the memory
    have reaches : ∃ dy, size < first % size + dy * stride + cols :=
      ⟨rows, by omega⟩
    obtain ⟨dy, ends, earlier⟩ :
        ∃ dy, size < first % size + dy * stride + cols ∧
          ∀ k < dy, ¬ size < first % size + k * stride + cols :=
      ⟨Nat.find reaches, Nat.find_spec reaches, fun k => Nat.find_min reaches⟩
    have within : dy ≤ rows := by
      by_contra later
      exact earlier rows (by omega) (by omega)
    have hit : ∃ dx < cols,
        (first % size + (dy * stride + dx)) % size < count := by
      by_cases wrapped : size ≤ first % size + dy * stride
      · refine ⟨0, columns, ?_⟩
        obtain ⟨dy, rfl⟩ : ∃ k, dy = k + 1 := by
          cases dy with
          | zero => omega
          | succ k => exact ⟨k, rfl⟩
        have before := earlier dy (by omega)
        rw [Nat.add_mul, Nat.one_mul] at wrapped ⊢
        have value : first % size + (dy * stride + stride + 0) =
            size + (first % size + dy * stride + stride - size) := by omega
        rw [value, Nat.add_mod_left]
        exact lt_of_le_of_lt (Nat.mod_le _ _) (by omega)
      · refine ⟨size - (first % size + dy * stride), by omega, ?_⟩
        have value : first % size + (dy * stride +
            (size - (first % size + dy * stride))) = size := by omega
        rw [value, Nat.mod_self]
        exact positive
    obtain ⟨dx, inRow, low⟩ := hit
    have high := missed dy within dx inRow
    rw [Nat.add_assoc, reduced] at high
    omega
  · rintro ⟨start, ends⟩ dy within dx inRow
    have lower : dy * stride ≤ rows * stride := Nat.mul_le_mul_right _ within
    rw [Nat.add_assoc, reduced, Nat.mod_eq_of_lt (by omega)]
    omega

end StoreTrace
