import Lumie.Base.ByteMemory
import Lumie.Base.WhileLoop
import Lumie.Lib.Strings

/-!
# Copying a string

`strcpy` on the memory that both of its pointers address.  The loop reads each
byte when it gets there, so a target behind the start of the source and not
behind its terminator has the terminator overwritten before it is read; the
bytes that are read from then on are copies of copies.
-/

set_option autoImplicit false

namespace Lumie.StringCopy

open WhileLoop WordStack ByteMemory
open Lumie.Strings

/-- One turn of the loop, or the store behind it. -/
def strcpyBody (dest src : UInt64) :
    UInt64 × Memory → Option ((UInt64 × Memory) ⊕ Memory)
  | (i, memory) =>
      if memory (src + i) ≠ 0 then
        some (.inl (i + 1,
          Function.update memory (dest + i) (memory (src + i))))
      else some (.inr (Function.update memory (dest + i) 0))

def strcpy (dest src : UInt64) (fuel : Nat) (memory : Memory) : Option Memory :=
  iterate (strcpyBody dest src) fuel (0, memory)

def StringAt (memory : Memory) (address : UInt64) (string : CString) : Prop :=
  HoldsBytes memory address (string.bytes ++ [0])

/-- The target begins inside the source, behind its first byte. -/
def Into (dest src : UInt64) (string : CString) : Prop :=
  0 < (dest - src).toNat ∧ (dest - src).toNat ≤ string.bytes.length

/-- Before the terminator no byte is zero, so the string does not go around the
address space. -/
theorem StringAt.length_lt {memory : Memory} {address : UInt64}
    {string : CString} (held : StringAt memory address string) :
    string.bytes.length < 2 ^ 64 := by
  by_contra long
  have ends := held string.bytes.length
    (by rw [List.length_append, List.length_singleton]; omega)
  rw [List.getElem_append_right (Nat.le_refl _)] at ends
  have early : string.bytes.length - 2 ^ 64 < string.bytes.length := by omega
  have again := held (string.bytes.length - 2 ^ 64)
    (by rw [List.length_append]; omega)
  have around : UInt64.ofNat (string.bytes.length - 2 ^ 64) =
      UInt64.ofNat string.bytes.length := by
    apply UInt64.toNat_inj.mp
    simp only [UInt64.toNat_ofNat']
    omega
  rw [around, ends, List.getElem_append_left early] at again
  have nonzero := string.noNul _ (List.getElem_mem early)
  simp only [Nat.sub_self, List.getElem_cons_zero] at again
  exact nonzero again.symm

section Copy

variable {dest src : UInt64}

theorem copy_rest {rest : List UInt8} (noNul : ∀ c ∈ rest, c ≠ 0)
    (fits : rest.length < 2 ^ 64)
    (clear : (dest - src).toNat = 0 ∨ rest.length < (dest - src).toNat)
    {i : UInt64} {memory : Memory}
    (held : HoldsBytes memory (src + i) (rest ++ [0])) :
    iterate (strcpyBody dest src) (rest.length + 1) (i, memory) =
      some (storeBytes memory (dest + i) (rest ++ [0])) := by
  induction rest generalizing i memory with
  | nil =>
      have here : memory (src + i) = 0 := by
        have first := held 0 (by simp)
        rwa [show UInt64.ofNat 0 = 0 from rfl, UInt64.add_zero] at first
      have stops : strcpyBody dest src (i, memory) =
          some (.inr (Function.update memory (dest + i) 0)) := by
        rw [strcpyBody, if_neg (not_not.mpr here)]
      rw [iterate_stop _ stops, List.nil_append, storeBytes_singleton]
  | cons c rest ih =>
      rw [List.length_cons] at fits clear
      obtain ⟨nonzero, later⟩ := List.forall_mem_cons.mp noNul
      have here : memory (src + i) = c := by
        have first := held 0 (by simp)
        rwa [show UInt64.ofNat 0 = 0 from rfl, UInt64.add_zero] at first
      have moves : strcpyBody dest src (i, memory) =
          some (.inl (i + 1, Function.update memory (dest + i) c)) := by
        rw [strcpyBody, here, if_pos nonzero]
      have unread : HoldsBytes (Function.update memory (dest + i) c)
          (src + (i + 1)) (rest ++ [0]) := by
        intro k inside
        rw [List.length_append, List.length_singleton] at inside
        have next := held (k + 1) (by simp; omega)
        have behind : src + (i + 1) + UInt64.ofNat k =
            src + i + UInt64.ofNat (k + 1) := by
          rw [UInt64.ofNat_add, UInt64.add_comm (UInt64.ofNat k), ← UInt64.add_assoc,
            ← UInt64.add_assoc]
          rfl
        have other : src + i + UInt64.ofNat (k + 1) ≠ dest + i := by
          intro same
          have values := congrArg UInt64.toNat same
          have srcLow := src.toNat_lt
          have destLow := dest.toNat_lt
          simp only [UInt64.toNat_sub, UInt64.toNat_add, UInt64.toNat_ofNat']
            at values clear
          omega
        rw [behind, Function.update_of_ne other, next]
        rfl
      have distance : (dest - src).toNat = 0 ∨ rest.length < (dest - src).toNat := by
        omega
      have joined := storeBytes_append memory (dest + i) [c] (rest ++ [0])
        (by simp; omega)
      have shift : dest + (i + 1) = dest + i + UInt64.ofNat [c].length :=
        (UInt64.add_assoc dest i 1).symm
      rw [List.length_cons, iterate_next _ moves,
        ih later (by omega) distance unread, shift, ← storeBytes_singleton, joined]
      rfl

end Copy

/-- The bytes from the one to be read up to the one to be written. -/
def WindowNonzero (dest src : UInt64) : UInt64 × Memory → Prop
  | (i, memory) =>
      ∀ k < (dest - src).toNat, memory (src + i + UInt64.ofNat k) ≠ 0

section Window

variable {dest src : UInt64}

theorem windowNonzero_step (behind : 0 < (dest - src).toNat)
    (state : UInt64 × Memory) (window : WindowNonzero dest src state) :
    ∃ after, strcpyBody dest src state = some (.inl after) ∧
      WindowNonzero dest src after := by
  obtain ⟨i, memory⟩ := state
  have first : memory (src + i) ≠ 0 := by
    have front := window 0 behind
    rwa [show UInt64.ofNat 0 = 0 from rfl, UInt64.add_zero] at front
  refine ⟨_, if_pos first, ?_⟩
  intro k inside
  have shift : src + (i + 1) + UInt64.ofNat k =
      src + i + UInt64.ofNat (k + 1) := by
    rw [UInt64.ofNat_add, UInt64.add_comm (UInt64.ofNat k), ← UInt64.add_assoc,
      ← UInt64.add_assoc]
    rfl
  rw [shift, Function.update_apply]
  split
  · exact first
  · rename_i notWritten
    have inWindow : k + 1 < (dest - src).toNat := by
      by_contra last
      apply notWritten
      apply UInt64.toNat_inj.mp
      have srcLow := src.toNat_lt
      have destLow := dest.toNat_lt
      simp only [UInt64.toNat_sub, UInt64.toNat_add, UInt64.toNat_ofNat']
        at inside last ⊢
      omega
    exact window (k + 1) inWindow

theorem windowNonzero_start {memory : Memory} {string : CString}
    (held : StringAt memory src string) (into : Into dest src string) :
    WindowNonzero dest src (0, memory) := by
  intro k inside
  have early : k < string.bytes.length := Nat.lt_of_lt_of_le inside into.2
  have byte := held k (by rw [List.length_append]; omega)
  rw [UInt64.add_zero, byte, List.getElem_append_left early]
  exact string.noNul _ (List.getElem_mem early)

end Window

/-- `strcpy` copies the string, terminator included, and changes nothing else,
exactly when the target does not begin inside the source; otherwise it does not
come back. -/
theorem strcpy_copies_iff (memory : Memory) (dest src : UInt64) (string : CString)
    (held : StringAt memory src string) :
    ((∃ fuel, strcpy dest src fuel memory =
        some (storeBytes memory dest (string.bytes ++ [0]))) ↔
      ¬ Into dest src string) ∧
    (Into dest src string → ∀ fuel, strcpy dest src fuel memory = none) := by
  have endless : Into dest src string →
      ∀ fuel, strcpy dest src fuel memory = none := by
    intro into fuel
    exact iterate_endless (windowNonzero_step into.1)
      (windowNonzero_start held into) fuel
  refine ⟨⟨?_, ?_⟩, endless⟩
  · rintro ⟨fuel, copies⟩ into
    rw [endless into fuel] at copies
    cases copies
  · intro outside
    have clear : (dest - src).toNat = 0 ∨
        string.bytes.length < (dest - src).toNat := by
      by_contra inside
      exact outside ⟨by omega, by omega⟩
    have whole : HoldsBytes memory (src + 0) (string.bytes ++ [0]) := by
      rw [UInt64.add_zero]
      exact held
    have copies := copy_rest string.noNul held.length_lt clear whole
    rw [UInt64.add_zero] at copies
    exact ⟨_, copies⟩

def hi : CString := ⟨[0x48, 0x69], by simp⟩

def hiMemory : Memory := storeBytes (fun _ => 0) 16 (hi.bytes ++ [0])

theorem strcpy_copies_hi :
    (∃ fuel, strcpy 32 16 fuel hiMemory =
        some (storeBytes hiMemory 32 (hi.bytes ++ [0]))) ∧
      ∀ fuel, strcpy 17 16 fuel hiMemory = none := by
  have held : StringAt hiMemory 16 hi := storeBytes_holds _ _ (by decide)
  have apart : ¬ Into 32 16 hi := fun into => absurd into.2 (by decide)
  have inside : Into 17 16 hi := ⟨by decide, by decide⟩
  exact ⟨(strcpy_copies_iff hiMemory 32 16 hi held).1.mpr apart,
    (strcpy_copies_iff hiMemory 17 16 hi held).2 inside⟩

end Lumie.StringCopy
