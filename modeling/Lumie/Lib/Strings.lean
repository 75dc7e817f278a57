import Mathlib.Data.List.GetD
import Mathlib.Tactic

/-!
# C strings

`CString` is the contents of a NUL-terminated string: its bytes before the
terminator, none of them zero.  A `View` is what a `const char *` can read, the
byte at each distance from the pointer; nothing is assumed about where, or
whether, a terminator stands in it.
-/

set_option autoImplicit false

namespace Lumie.Strings

structure CString where
  bytes : List UInt8
  noNul : ∀ byte ∈ bytes, byte ≠ 0

abbrev View := Nat → UInt8

def CString.view (string : CString) : View := fun i => string.bytes.getD i 0

def CString.empty : CString := ⟨[], by simp⟩

def CString.cons (byte : UInt8) (nonzero : byte ≠ 0) (tail : CString) :
    CString where
  bytes := byte :: tail.bytes
  noNul := by
    intro other member
    rcases List.mem_cons.mp member with rfl | later
    · exact nonzero
    · exact tail.noNul other later

def CString.append (first second : CString) : CString where
  bytes := first.bytes ++ second.bytes
  noNul := by
    intro byte member
    rcases List.mem_append.mp member with left | right
    · exact first.noNul byte left
    · exact second.noNul byte right

def CString.ofString (text : String) : CString where
  bytes := (text.toList.map fun c => UInt8.ofNat c.toNat).filter (· ≠ 0)
  noNul := by simp

theorem CString.eq_of_bytes {left right : CString}
    (same : left.bytes = right.bytes) : left = right := by
  cases left
  cases right
  simpa using same

/-- The string from index `i` on, when its terminator is one of the next `left`
bytes. -/
def stringFrom (input : View) : Nat → Nat → Option CString
  | 0, _ => none
  | left + 1, i =>
      if zero : input i = 0 then some CString.empty
      else (stringFrom input left (i + 1)).map (CString.cons (input i) zero)

/-- The index at which the loop of `strcmp` leaves off.  The second string is
given by its bytes before the NUL, so the loop ends at its terminator at the
latest. -/
def strcmpStop (s1 : View) : List UInt8 → Nat → Nat
  | [], i => i
  | byte :: rest, i =>
      if s1 i ≠ 0 ∧ s1 i = byte then strcmpStop s1 rest (i + 1) else i

/-- The difference of the two bytes, read as `unsigned char`, at the index
where the loop stops. -/
def strcmp (s1 : View) (s2 : CString) : Int :=
  let i := strcmpStop s1 s2.bytes 0
  (s1 i).toNat - (s2.view i).toNat

def strlenFrom : List UInt8 → Nat → Nat
  | [], len => len
  | byte :: rest, len => if byte ≠ 0 then strlenFrom rest (len + 1) else len

def strlen (s : CString) : Nat := strlenFrom s.bytes 0

theorem strlenFrom_eq (bytes : List UInt8) (noNul : ∀ byte ∈ bytes, byte ≠ 0)
    (len : Nat) : strlenFrom bytes len = len + bytes.length := by
  induction bytes generalizing len with
  | nil => rfl
  | cons byte rest ih =>
      obtain ⟨head, tail⟩ := List.forall_mem_cons.mp noNul
      rw [strlenFrom, if_pos head, ih tail, List.length_cons]
      omega

@[simp] theorem strlen_eq_length (s : CString) : strlen s = s.bytes.length := by
  rw [strlen, strlenFrom_eq s.bytes s.noNul]
  omega

/-- The loop stops on equal bytes only after the whole string has matched,
terminator included. -/
theorem strcmpStop_spec (s1 : View) (bytes : List UInt8)
    (noNul : ∀ byte ∈ bytes, byte ≠ 0) (i : Nat) :
    i ≤ strcmpStop s1 bytes i ∧
      (s1 (strcmpStop s1 bytes i) = bytes.getD (strcmpStop s1 bytes i - i) 0 ↔
        ∀ k ≤ bytes.length, s1 (i + k) = bytes.getD k 0) := by
  induction bytes generalizing i with
  | nil => simp [strcmpStop]
  | cons byte rest ih =>
      obtain ⟨head, tail⟩ := List.forall_mem_cons.mp noNul
      rw [strcmpStop]
      by_cases equal : s1 i = byte
      · rw [if_pos ⟨by rw [equal]; exact head, equal⟩]
        obtain ⟨later, spec⟩ := ih tail (i + 1)
        refine ⟨by omega, ?_⟩
        have shift : strcmpStop s1 rest (i + 1) - i =
            (strcmpStop s1 rest (i + 1) - (i + 1)) + 1 := by omega
        rw [shift, List.getD_cons_succ, spec]
        constructor
        · intro all k bound
          cases k with
          | zero => simpa using equal
          | succ k =>
              have := all k (by simpa using bound)
              rw [List.getD_cons_succ, ← this]
              congr 1
              omega
        · intro all k bound
          have := all (k + 1) (by simpa using bound)
          rw [List.getD_cons_succ] at this
          rw [← this]
          congr 1
          omega
      · rw [if_neg (fun both => equal both.2)]
        refine ⟨Nat.le_refl i, ?_⟩
        constructor
        · intro same
          exact absurd (by simpa using same) equal
        · intro all
          exact absurd (by simpa using all 0 (by simp)) equal

theorem strcmp_eq_zero_iff (s1 : View) (s2 : CString) :
    strcmp s1 s2 = 0 ↔ ∀ k ≤ s2.bytes.length, s1 k = s2.view k := by
  have spec := (strcmpStop_spec s1 s2.bytes s2.noNul 0).2
  simp only [Nat.sub_zero, Nat.zero_add] at spec
  unfold CString.view
  rw [← spec]
  simp only [strcmp, CString.view]
  constructor
  · intro zero
    apply UInt8.toNat_inj.mp
    omega
  · intro same
    rw [same]
    omega

theorem strcmpStop_le {s1 : View} (bytes : List UInt8) {i n : Nat}
    (ends : s1 (i + n) = 0) : strcmpStop s1 bytes i ≤ i + n := by
  induction bytes generalizing i n with
  | nil => exact Nat.le_add_right i n
  | cons byte rest ih =>
      rw [strcmpStop]
      split
      · rename_i moves
        cases n with
        | zero => exact absurd ends moves.1
        | succ n =>
            rw [← Nat.add_assoc, Nat.add_right_comm] at ends
            have later := ih ends
            omega
      · exact Nat.le_add_right i n

theorem getD_ne_zero {bytes : List UInt8} (noNul : ∀ byte ∈ bytes, byte ≠ 0)
    {i : Nat} (bound : i < bytes.length) : bytes.getD i 0 ≠ 0 := by
  rw [List.getD_eq_getElem _ _ bound]
  exact noNul _ (List.getElem_mem bound)

theorem strcmp_terminated_iff {s1 : View} {name : List UInt8}
    (noNul : ∀ byte ∈ name, byte ≠ 0)
    (reads : ∀ i < name.length, s1 i = name.getD i 0)
    (ends : s1 name.length = 0) (s2 : CString) :
    strcmp s1 s2 = 0 ↔ name = s2.bytes := by
  have view : ∀ i ≤ name.length, s1 i = name.getD i 0 := by
    intro i bound
    rcases Nat.lt_or_eq_of_le bound with inner | rfl
    · exact reads i inner
    · rw [ends, List.getD_eq_default _ _ (Nat.le_refl _)]
  rw [strcmp_eq_zero_iff]
  unfold CString.view
  constructor
  · intro all
    have short : s2.bytes.length ≤ name.length := by
      by_contra longer
      have here := all name.length (by omega)
      rw [ends] at here
      exact getD_ne_zero s2.noNul (by omega) here.symm
    have long : name.length ≤ s2.bytes.length := by
      by_contra shorter
      have here := all s2.bytes.length (Nat.le_refl _)
      rw [view _ (by omega), List.getD_eq_default s2.bytes _ (Nat.le_refl _)]
        at here
      exact getD_ne_zero noNul (by omega) here
    apply List.ext_getElem (by omega)
    intro i left right
    have here := all i (by omega)
    rw [view i (by omega)] at here
    simpa [List.getD_eq_getElem, left, right] using here
  · rintro rfl k bound
    exact view k bound

def HoldsString (buffer : View) (string : CString) : Prop :=
  ∀ k ≤ string.bytes.length, buffer k = string.view k

theorem HoldsString.ends {buffer : View} {string : CString}
    (held : HoldsString buffer string) : buffer string.bytes.length = 0 := by
  rw [held _ (Nat.le_refl _), CString.view,
    List.getD_eq_default _ _ (Nat.le_refl _)]

theorem HoldsString.strcmp_iff {buffer : View} {string : CString}
    (held : HoldsString buffer string) (other : CString) :
    strcmp buffer other = 0 ↔ other.bytes = string.bytes := by
  have reads : ∀ i < string.bytes.length, buffer i = string.bytes.getD i 0 :=
    fun i bound => held i (by omega)
  rw [strcmp_terminated_iff string.noNul reads held.ends]
  exact eq_comm

theorem HoldsString.unique {buffer : View} {first second : CString}
    (left : HoldsString buffer first) (right : HoldsString buffer second) :
    first = second := by
  have equal : strcmp buffer second = 0 :=
    (strcmp_eq_zero_iff buffer second).mpr right
  exact (CString.eq_of_bytes ((left.strcmp_iff second).mp equal)).symm

def TailAt (input : View) (i : Nat) (rest : List UInt8) : Prop :=
  ∀ k ≤ rest.length, input (i + k) = rest.getD k 0

theorem TailAt.nil {input : View} {i : Nat} (tail : TailAt input i []) :
    input i = 0 := tail 0 (by simp)

theorem TailAt.head {input : View} {i : Nat} {c : UInt8} {rest : List UInt8}
    (tail : TailAt input i (c :: rest)) : input i = c := tail 0 (by simp)

theorem TailAt.tail {input : View} {i : Nat} {c : UInt8} {rest : List UInt8}
    (tail : TailAt input i (c :: rest)) : TailAt input (i + 1) rest := by
  intro k bound
  have next := tail (k + 1) (by simpa using bound)
  rw [← Nat.add_assoc, Nat.add_right_comm] at next
  exact next

theorem HoldsString.tailAt {buffer : View} {string : CString}
    (held : HoldsString buffer string) : TailAt buffer 0 string.bytes := by
  intro k bound
  rw [Nat.zero_add]
  exact held k bound

theorem stringFrom_of_holds {input : View} (string : CString) {left i : Nat}
    (holds : ∀ k ≤ string.bytes.length, input (i + k) = string.view k)
    (room : string.bytes.length < left) :
    stringFrom input left i = some string := by
  obtain ⟨bytes, noNul⟩ := string
  have tail : TailAt input i bytes := holds
  induction bytes generalizing left i with
  | nil =>
      obtain ⟨left, rfl⟩ : ∃ rest, left = rest + 1 := ⟨left - 1, by omega⟩
      rw [stringFrom, dif_pos tail.nil]
      rfl
  | cons byte rest ih =>
      obtain ⟨left, rfl⟩ : ∃ rest, left = rest + 1 := ⟨left - 1, by omega⟩
      obtain ⟨head, noNulRest⟩ := List.forall_mem_cons.mp noNul
      have here : input i = byte := tail.head
      have nonzero : ¬ input i = 0 := by
        rw [here]
        exact head
      have later : stringFrom input left (i + 1) = some ⟨rest, noNulRest⟩ :=
        ih noNulRest tail.tail (by simpa using room) tail.tail
      rw [stringFrom, dif_neg nonzero, later, Option.map_some, Option.some.injEq]
      apply CString.eq_of_bytes
      simp [CString.cons, here]

theorem stringFrom_holds {input : View} {string : CString} {left i : Nat}
    (reads : stringFrom input left i = some string) :
    HoldsString (fun k => input (i + k)) string := by
  induction left generalizing i string with
  | zero => cases reads
  | succ left ih =>
      rw [stringFrom] at reads
      split at reads
      · rename_i zero
        cases reads
        intro k bound
        obtain rfl : k = 0 := by simpa [CString.empty] using bound
        exact zero
      · obtain ⟨tail, later, rfl⟩ := Option.map_eq_some_iff.mp reads
        intro k bound
        cases k with
        | zero => rfl
        | succ k =>
            have next := ih later k (by simpa [CString.cons] using bound)
            simp only [CString.view, CString.cons, List.getD_cons_succ]
            rw [← Nat.add_assoc, Nat.add_right_comm]
            exact next

theorem stringFrom_length {input : View} {string : CString} {left i : Nat}
    (reads : stringFrom input left i = some string) :
    string.bytes.length < left := by
  induction left generalizing i string with
  | zero => cases reads
  | succ left ih =>
      rw [stringFrom] at reads
      split at reads
      · cases reads
        exact Nat.succ_pos left
      · obtain ⟨tail, later, rfl⟩ := Option.map_eq_some_iff.mp reads
        exact Nat.succ_lt_succ (ih later)

theorem exists_stringFrom {input : View} {left i n : Nat} (inside : n < left)
    (zero : input (i + n) = 0) :
    ∃ string, stringFrom input left i = some string := by
  induction left generalizing i n with
  | zero => cases inside
  | succ left ih =>
      rw [stringFrom]
      split
      · exact ⟨_, rfl⟩
      · rename_i nonzero
        cases n with
        | zero => exact absurd zero nonzero
        | succ n =>
            rw [← Nat.add_assoc, Nat.add_right_comm] at zero
            obtain ⟨tail, later⟩ := ih (by omega) zero
            exact ⟨_, by rw [later]; rfl⟩

end Lumie.Strings
