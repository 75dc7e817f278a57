import Lumie.Base.StoreTrace
import Lumie.Base.WhileLoop
import Lumie.Drivers.Fat
import Mathlib.Data.List.DropRight
import Mathlib.Data.List.TakeWhile

/-!
# Short names

`fat_format_name` cuts its argument into at most eight characters before the
first dot and at most three behind it.  `ShortName` is such a pair of parts and
`ShortName.encode` the eleven bytes it stands for.  The reads and stores of the
function are traced over a pointer about which only the argument is known.
-/

set_option autoImplicit false

namespace Lumie.FatName

open MachineInt StoreTrace WhileLoop
open Lumie.Strings Lumie.Fat

/-! ## The reads and stores of `fat_format_name` -/

/-- The indices of the input bytes read and the stores to `output`, each in
their order. -/
structure NameRun where
  reads : List Nat
  stores : List (Nat × UInt8)

def NameRun.read (run : NameRun) (index : Nat) : NameRun where
  reads := run.reads ++ [index]
  stores := run.stores

def NameRun.store (run : NameRun) (index : Nat) (byte : UInt8) : NameRun where
  reads := run.reads
  stores := run.stores ++ [(index, byte)]

/-- `while (input[i] != '.' && input[i] != '\0' && i < 8)` reads the byte
before it tests the width. -/
def baseBody (input : View) :
    Nat × NameRun → Option ((Nat × NameRun) ⊕ NameRun)
  | (i, run) =>
      if input i ≠ 0x2E ∧ input i ≠ 0 ∧ i < 8 then
        some (.inl (i + 1, (run.read i).store i (upperCase (input i))))
      else some (.inr (run.read i))

/-- `while (*dot != '.' && *dot != '\0') dot++;` -/
def dotBody (input : View) :
    Nat × NameRun → Option ((Nat × NameRun) ⊕ (Nat × NameRun))
  | (dot, run) =>
      if input dot ≠ 0x2E ∧ input dot ≠ 0 then
        some (.inl (dot + 1, run.read dot))
      else some (.inr (dot, run.read dot))

/-- `for (int j = 0; j < 3 && dot[j] != '\0'; j++)` tests the width first. -/
def extensionBody (input : View) (dot : Nat) :
    Nat × NameRun → Option ((Nat × NameRun) ⊕ NameRun)
  | (j, run) =>
      if j < 3 then
        if input (dot + j) ≠ 0 then
          some (.inl (j + 1,
            (run.read (dot + j)).store (8 + j) (upperCase (input (dot + j)))))
        else some (.inr (run.read (dot + j)))
      else some (.inr run)

def formatNameRun (input : View) (fuel : Nat) : Option NameRun := do
  let blank := (List.range 11).map fun i => (i, 0x20)
  let base ← iterate (baseBody input) fuel (0, ⟨[], blank⟩)
  let (dot, scanned) ← iterate (dotBody input) fuel (0, base)
  if input dot = 0x2E then
    iterate (extensionBody input (dot + 1)) fuel (0, scanned)
  else some scanned

/-! ## The parts of a name -/

def nameBase (name : List UInt8) : List UInt8 := name.takeWhile (· ≠ 0x2E)

def nameExtension (name : List UInt8) : List UInt8 :=
  (name.dropWhile (· ≠ 0x2E)).drop 1

structure ShortName where
  base : List UInt8
  extension : List UInt8
  baseFits : base.length ≤ 8
  extensionFits : extension.length ≤ 3

def ShortName.ofName (name : List UInt8) : ShortName where
  base := ((nameBase name).take 8).map upperCase
  extension := ((nameExtension name).take 3).map upperCase
  baseFits := by simp
  extensionFits := by simp

def ShortName.encode (name : ShortName) : FatName := fun k =>
  if k.val < 8 then name.base.getD k.val 0x20
  else name.extension.getD (k.val - 8) 0x20

theorem nameBase_cons_of_ne {c : UInt8} (other : c ≠ 0x2E)
    (rest : List UInt8) : nameBase (c :: rest) = c :: nameBase rest := by
  simp [nameBase, other]

theorem nameExtension_cons_of_ne {c : UInt8} (other : c ≠ 0x2E)
    (rest : List UInt8) : nameExtension (c :: rest) = nameExtension rest := by
  simp [nameExtension, other]

theorem nameBase_noDot {name : List UInt8} {c : UInt8}
    (member : c ∈ nameBase name) : c ≠ 0x2E := by
  simpa using List.mem_takeWhile_imp member

theorem nameBase_of_dot {base : List UInt8} (noDot : ∀ c ∈ base, c ≠ 0x2E)
    (rest : List UInt8) : nameBase (base ++ 0x2E :: rest) = base := by
  have before : ∀ c ∈ base, decide (c ≠ 0x2E) = true := by simpa using noDot
  rw [nameBase, List.takeWhile_append_of_pos before]
  simp

theorem nameExtension_of_dot {base : List UInt8} (noDot : ∀ c ∈ base, c ≠ 0x2E)
    (rest : List UInt8) : nameExtension (base ++ 0x2E :: rest) = rest := by
  have before : ∀ c ∈ base, decide (c ≠ 0x2E) = true := by simpa using noDot
  rw [nameExtension, List.dropWhile_append_of_pos before]
  simp

def NameRun.ReadsUpTo (limit : Nat) (run : NameRun) : Prop :=
  ∀ index ∈ run.reads, index ≤ limit

theorem NameRun.ReadsUpTo.read {limit index : Nat} {run : NameRun}
    (bounded : run.ReadsUpTo limit) (inside : index ≤ limit) :
    (run.read index).ReadsUpTo limit := by
  intro other member
  rcases List.mem_append.mp member with before | last
  · exact bounded other before
  · rw [List.mem_singleton.mp last]
    exact inside

theorem NameRun.ReadsUpTo.store {limit : Nat} {run : NameRun}
    (bounded : run.ReadsUpTo limit) (index : Nat) (byte : UInt8) :
    (run.store index byte).ReadsUpTo limit := bounded

/-- The first loop stores the characters before the dot up to the width.  It
looks at one byte more, the terminator at the latest. -/
theorem baseLoop {input : View} {rest : List UInt8}
    (noNul : ∀ c ∈ rest, c ≠ 0) {i limit fuel : Nat} {run : NameRun}
    (tail : TailAt input i rest) (inside : i + rest.length ≤ limit)
    (bounded : run.ReadsUpTo limit) (enough : rest.length < fuel) :
    ∃ after, iterate (baseBody input) fuel (i, run) = some after ∧
      after.ReadsUpTo limit ∧
      after.stores = run.stores ++
        storesFrom i (((nameBase rest).take (8 - i)).map upperCase) := by
  obtain ⟨fuel, rfl⟩ : ∃ turns, fuel = turns + 1 := ⟨fuel - 1, by omega⟩
  have readHere : (run.read i).ReadsUpTo limit := bounded.read (by omega)
  induction rest generalizing i fuel run with
  | nil =>
      have stops : baseBody input (i, run) = some (.inr (run.read i)) :=
        if_neg (fun going => going.2.1 tail.nil)
      exact ⟨_, iterate_stop fuel stops, readHere,
        by simp [NameRun.read, nameBase, storesFrom]⟩
  | cons c rest ih =>
      obtain ⟨nonzero, later⟩ := List.forall_mem_cons.mp noNul
      rw [List.length_cons] at inside enough
      obtain ⟨fuel, rfl⟩ : ∃ turns, fuel = turns + 1 := ⟨fuel - 1, by omega⟩
      by_cases going : c ≠ 0x2E ∧ i < 8
      · have moves : baseBody input (i, run) =
            some (.inl (i + 1, (run.read i).store i (upperCase c))) := by
          rw [baseBody, tail.head, if_pos ⟨going.1, nonzero, going.2⟩]
        have stored := readHere.store i (upperCase c)
        obtain ⟨after, ends, bound, stores⟩ :=
          ih later tail.tail (by omega) stored fuel (by omega)
            (stored.read (by omega))
        refine ⟨after, by rw [iterate_next _ moves, ends], bound, ?_⟩
        obtain ⟨width, room⟩ : ∃ n, 8 - i = n + 1 := ⟨7 - i, by omega⟩
        have narrower : 8 - (i + 1) = width := by omega
        rw [stores, narrower, room, nameBase_cons_of_ne going.1,
          List.take_succ_cons, List.map_cons, storesFrom]
        simp [NameRun.store, NameRun.read]
      · have stops : baseBody input (i, run) = some (.inr (run.read i)) :=
          if_neg (fun on => going ⟨tail.head ▸ on.1, on.2.2⟩)
        refine ⟨_, iterate_stop _ stops, readHere, ?_⟩
        rcases not_and_or.mp going with dot | wide
        · simp [NameRun.read, nameBase, not_not.mp dot, storesFrom]
        · have full : 8 - i = 0 := by omega
          simp [NameRun.read, full, storesFrom]

theorem dotLoop {input : View} {rest : List UInt8}
    (noNul : ∀ c ∈ rest, c ≠ 0) {i limit fuel : Nat} {run : NameRun}
    (tail : TailAt input i rest) (inside : i + rest.length ≤ limit)
    (bounded : run.ReadsUpTo limit) (enough : rest.length < fuel) :
    ∃ dot after, iterate (dotBody input) fuel (i, run) = some (dot, after) ∧
      after.ReadsUpTo limit ∧ after.stores = run.stores ∧
      if input dot = 0x2E then
        TailAt input (dot + 1) (nameExtension rest) ∧
          dot + 1 + (nameExtension rest).length ≤ limit
      else nameExtension rest = [] := by
  obtain ⟨fuel, rfl⟩ : ∃ turns, fuel = turns + 1 := ⟨fuel - 1, by omega⟩
  have readHere : (run.read i).ReadsUpTo limit := bounded.read (by omega)
  induction rest generalizing i fuel run with
  | nil =>
      have stops : dotBody input (i, run) = some (.inr (i, run.read i)) :=
        if_neg (fun going => going.2 tail.nil)
      have noDot : ¬ input i = 0x2E := by
        rw [tail.nil]
        decide
      refine ⟨i, _, iterate_stop fuel stops, readHere, rfl, ?_⟩
      rw [if_neg noDot]
      rfl
  | cons c rest ih =>
      obtain ⟨nonzero, later⟩ := List.forall_mem_cons.mp noNul
      rw [List.length_cons] at inside enough
      obtain ⟨fuel, rfl⟩ : ∃ turns, fuel = turns + 1 := ⟨fuel - 1, by omega⟩
      by_cases dot : c = 0x2E
      · have here : input i = 0x2E := tail.head.trans dot
        have stops : dotBody input (i, run) = some (.inr (i, run.read i)) :=
          if_neg (fun going => going.1 here)
        refine ⟨i, _, iterate_stop _ stops, readHere, rfl, ?_⟩
        have behind : nameExtension (c :: rest) = rest := by
          simp [nameExtension, dot]
        rw [if_pos here, behind]
        exact ⟨tail.tail, by omega⟩
      · have moves : dotBody input (i, run) =
            some (.inl (i + 1, run.read i)) := by
          rw [dotBody, tail.head, if_pos ⟨dot, nonzero⟩]
        rw [iterate_next _ moves, nameExtension_cons_of_ne dot]
        exact ih later tail.tail (by omega) readHere fuel (by omega)
          (readHere.read (by omega))

theorem extensionLoop {input : View} {rest : List UInt8}
    (noNul : ∀ c ∈ rest, c ≠ 0) {dot j limit fuel : Nat} {run : NameRun}
    (tail : TailAt input (dot + j) rest)
    (inside : dot + j + rest.length ≤ limit)
    (bounded : run.ReadsUpTo limit) (enough : rest.length < fuel) :
    ∃ after, iterate (extensionBody input dot) fuel (j, run) = some after ∧
      after.ReadsUpTo limit ∧
      after.stores = run.stores ++
        storesFrom (8 + j) ((rest.take (3 - j)).map upperCase) := by
  obtain ⟨fuel, rfl⟩ : ∃ turns, fuel = turns + 1 := ⟨fuel - 1, by omega⟩
  have readHere : (run.read (dot + j)).ReadsUpTo limit :=
    bounded.read (by omega)
  induction rest generalizing j fuel run with
  | nil =>
      by_cases width : j < 3
      · have stops : extensionBody input dot (j, run) =
            some (.inr (run.read (dot + j))) := by
          rw [extensionBody, if_pos width, if_neg (not_not.mpr tail.nil)]
        exact ⟨_, iterate_stop fuel stops, readHere,
          by simp [NameRun.read, storesFrom]⟩
      · have stops : extensionBody input dot (j, run) = some (.inr run) :=
          if_neg width
        exact ⟨_, iterate_stop fuel stops, bounded, by simp [storesFrom]⟩
  | cons c rest ih =>
      obtain ⟨nonzero, later⟩ := List.forall_mem_cons.mp noNul
      rw [List.length_cons] at inside enough
      obtain ⟨fuel, rfl⟩ : ∃ turns, fuel = turns + 1 := ⟨fuel - 1, by omega⟩
      by_cases width : j < 3
      · have moves : extensionBody input dot (j, run) =
            some (.inl (j + 1,
              (run.read (dot + j)).store (8 + j) (upperCase c))) := by
          rw [extensionBody, if_pos width, tail.head, if_pos nonzero]
        have stored := readHere.store (8 + j) (upperCase c)
        obtain ⟨after, ends, bound, stores⟩ :=
          ih (j := j + 1) later tail.tail (by omega) stored fuel (by omega)
            (stored.read (by omega))
        refine ⟨after, by rw [iterate_next _ moves, ends], bound, ?_⟩
        obtain ⟨left, room⟩ : ∃ n, 3 - j = n + 1 := ⟨2 - j, by omega⟩
        have narrower : 3 - (j + 1) = left := by omega
        rw [stores, narrower, room, List.take_succ_cons, List.map_cons,
          storesFrom]
        simp [NameRun.store, NameRun.read, Nat.add_assoc]
      · have stops : extensionBody input dot (j, run) = some (.inr run) :=
          if_neg width
        have full : 3 - j = 0 := by omega
        exact ⟨_, iterate_stop _ stops, bounded, by simp [full, storesFrom]⟩

theorem nameExtension_subset (name : List UInt8) : nameExtension name ⊆ name :=
  fun _ member => (List.dropWhile_suffix _).subset (List.mem_of_mem_drop member)

theorem nameExtension_length (name : List UInt8) :
    (nameExtension name).length ≤ name.length :=
  ((List.drop_suffix _ _).trans (List.dropWhile_suffix _)).length_le

theorem formatNameRun_eq {input : View} {name : CString}
    (held : HoldsString input name) {fuel : Nat}
    (enough : name.bytes.length < fuel) :
    ∃ run, formatNameRun input fuel = some run ∧
      run.ReadsUpTo name.bytes.length ∧
      run.stores = storesFrom 0 (List.replicate 11 0x20) ++
        storesFrom 0 (ShortName.ofName name.bytes).base ++
        storesFrom 8 (ShortName.ofName name.bytes).extension := by
  have tail : TailAt input 0 name.bytes := by
    intro k bound
    rw [Nat.zero_add]
    exact held k bound
  have fresh : NameRun.ReadsUpTo name.bytes.length
      ⟨[], (List.range 11).map fun i => (i, 0x20)⟩ := by
    intro index member
    cases member
  obtain ⟨base, baseEnds, baseReads, baseStores⟩ :=
    baseLoop name.noNul tail (by omega) fresh enough
  obtain ⟨dot, scanned, dotEnds, dotReads, dotStores, found⟩ :=
    dotLoop name.noNul tail (by omega) baseReads enough
  simp only [formatNameRun, baseEnds, dotEnds, Option.bind_eq_bind,
    Option.bind_some]
  by_cases here : input dot = 0x2E
  · rw [if_pos here] at found
    have noNul : ∀ c ∈ nameExtension name.bytes, c ≠ 0 := by
      intro c member
      exact name.noNul c (nameExtension_subset _ member)
    have shorter := nameExtension_length name.bytes
    obtain ⟨run, ends, reads, stores⟩ :=
      extensionLoop (j := 0) noNul found.1 found.2 dotReads
        (Nat.lt_of_le_of_lt shorter enough)
    refine ⟨run, by rw [if_pos here, ends], reads, ?_⟩
    rw [stores, dotStores, baseStores]
    rfl
  · rw [if_neg here] at found
    refine ⟨scanned, if_neg here, dotReads, ?_⟩
    have noExtension : (ShortName.ofName name.bytes).extension = [] := by
      simp [ShortName.ofName, found]
    rw [dotStores, baseStores, noExtension, storesFrom, List.append_nil]
    rfl

theorem applyStores_parts {output : Nat → UInt8} (name : ShortName)
    (k : Fin 11) (blank : output k.val = 0x20) :
    applyStores output
        (storesFrom 0 name.base ++ storesFrom 8 name.extension) k.val =
      name.encode k := by
  rw [applyStores_append, applyStores_storesFrom, applyStores_storesFrom,
    blank, if_pos (Nat.zero_le _), Nat.sub_zero, ShortName.encode]
  by_cases inBase : k.val < 8
  · rw [if_neg (by omega), if_pos inBase]
  · have baseEnds : name.base.length ≤ k.val := by
      have := name.baseFits
      omega
    rw [if_pos (by omega), if_neg inBase,
      List.getD_eq_default name.base _ baseEnds]

theorem applyStores_shortName (output : Nat → UInt8) (name : ShortName)
    (k : Fin 11) :
    applyStores output (storesFrom 0 (List.replicate 11 0x20) ++
        storesFrom 0 name.base ++ storesFrom 8 name.extension) k.val =
      name.encode k := by
  have inside : k.val < (List.replicate 11 (0x20 : UInt8)).length := by
    rw [List.length_replicate]
    exact k.isLt
  rw [List.append_assoc, applyStores_append]
  apply applyStores_parts
  rw [applyStores_storesFrom, if_pos (Nat.zero_le _), Nat.sub_zero,
    List.getD_eq_getElem _ _ inside, List.getElem_replicate]

theorem setByte_eq_update (output : Nat → UInt8) (index : Nat) (byte : UInt8) :
    setByte (fun k => output k.val) index byte =
      fun k => Function.update output index byte k.val := by
  funext k
  rw [setByte, Function.update_apply]

theorem formatBase_eq (name : List UInt8) (i : Nat) (output : Nat → UInt8) :
    formatBase name i (fun k => output k.val) = fun k =>
      applyStores output
        (storesFrom i (((nameBase name).take (8 - i)).map upperCase)) k.val := by
  induction name generalizing i output with
  | nil => simp [formatBase, nameBase, storesFrom, applyStores]
  | cons c rest ih =>
      rw [formatBase]
      by_cases going : c ≠ 0x2E ∧ i < 8
      · obtain ⟨width, room⟩ : ∃ n, 8 - i = n + 1 := ⟨7 - i, by omega⟩
        have narrower : 8 - (i + 1) = width := by omega
        rw [if_pos going, setByte_eq_update, ih, nameBase_cons_of_ne going.1,
          narrower, room, List.take_succ_cons, List.map_cons, storesFrom]
        rfl
      · rw [if_neg going]
        rcases not_and_or.mp going with dot | wide
        · simp [nameBase, not_not.mp dot, storesFrom, applyStores]
        · have full : 8 - i = 0 := by omega
          simp [full, storesFrom, applyStores]

theorem formatExtension_eq (dot : List UInt8) (j : Nat) (output : Nat → UInt8) :
    formatExtension dot j (fun k => output k.val) = fun k =>
      applyStores output
        (storesFrom (8 + j) ((dot.take (3 - j)).map upperCase)) k.val := by
  induction dot generalizing j output with
  | nil => simp [formatExtension, storesFrom, applyStores]
  | cons c rest ih =>
      rw [formatExtension]
      by_cases width : j < 3
      · obtain ⟨left, room⟩ : ∃ n, 3 - j = n + 1 := ⟨2 - j, by omega⟩
        have narrower : 3 - (j + 1) = left := by omega
        rw [if_pos width, setByte_eq_update, ih, narrower, room,
          List.take_succ_cons, List.map_cons, storesFrom]
        rfl
      · have full : 3 - j = 0 := by omega
        simp [if_neg width, full, storesFrom, applyStores]

theorem nameExtension_eq (name : List UInt8) :
    nameExtension name = (afterDot name).getD [] := by
  induction name with
  | nil => rfl
  | cons c rest ih =>
      rw [afterDot]
      by_cases dot : c = 0x2E
      · simp [nameExtension, dot]
      · rw [if_neg dot, nameExtension_cons_of_ne dot, ih]

theorem fatFormatName_eq (name : CString) :
    fatFormatName name = (ShortName.ofName name.bytes).encode := by
  funext k
  have parts :=
    @applyStores_parts (fun _ => 0x20) (ShortName.ofName name.bytes) k rfl
  rw [← parts, applyStores_append]
  have base := formatBase_eq name.bytes 0 fun _ => 0x20
  have behind := nameExtension_eq name.bytes
  simp only [fatFormatName, ShortName.ofName, base]
  cases found : afterDot name.bytes with
  | none =>
      rw [found, Option.getD_none] at behind
      rw [behind]
      rfl
  | some dot =>
      rw [found, Option.getD_some] at behind
      rw [behind]
      exact congrFun (formatExtension_eq dot 0 _) k

/-! ## The displayed name -/

/-- Eight bytes, a dot and three bytes.  A zero byte prints nothing. -/
def displayName (name : FatName) : CString where
  bytes := (((List.finRange 11).take 8).map name ++ [0x2E] ++
    ((List.finRange 11).drop 8).map name).filter (· ≠ 0)
  noNul := by
    intro byte member
    simpa using (List.mem_filter.mp member).2

theorem charString_bytes (c : UInt8) :
    (charString c).bytes = [c].filter (· ≠ 0) := by
  unfold charString
  split
  · rename_i zero
    simp [CString.empty, zero]
  · rename_i nonzero
    simp [nonzero]

theorem printEntry_bytes (entry : FatDirent) :
    (printEntry entry).flatMap (fun call => call.str.bytes) =
      (displayName entry.name).bytes ++ [0x0A] := by
  have pieces : ∀ indices : List (Fin 11),
      (indices.map fun j =>
          (⟨charString (entry.name j), 0x00FF00⟩ : PrintCall)).flatMap
        (fun call => call.str.bytes) =
      (indices.map entry.name).filter (· ≠ 0) := by
    intro indices
    induction indices with
    | nil => rfl
    | cons j rest ih =>
        rw [List.map_cons, List.flatMap_cons, ih, charString_bytes,
          List.map_cons, ← List.filter_append, List.singleton_append]
  simp only [printEntry, List.flatMap_append, pieces, displayName,
    List.filter_append]
  rfl

theorem upperCase_idem (c : UInt8) : upperCase (upperCase c) = upperCase c := by
  apply UInt8.toNat_inj.mp
  have once := upperCase_toNat c
  rw [upperCase_toNat (upperCase c)]
  apply if_neg
  split at once <;> omega

theorem upperCase_value :
    upperCase = fun c => if 0x61 ≤ c ∧ c ≤ 0x7A then c - 0x20 else c := by
  funext c
  have value := upperCase_toNat c
  have lower : (0x61 ≤ c ∧ c ≤ 0x7A) ↔ 97 ≤ c.toNat ∧ c.toNat ≤ 122 := by
    rw [UInt8.le_iff_toNat_le, UInt8.le_iff_toNat_le]
    rfl
  rw [← UInt8.toNat_inj, value]
  by_cases inside : 97 ≤ c.toNat ∧ c.toNat ≤ 122
  · have above : (0x20 : UInt8) ≤ c := by
      rw [UInt8.le_iff_toNat_le]
      exact Nat.le_trans (by decide) inside.1
    rw [if_pos inside, if_pos (lower.mpr inside),
      UInt8.toNat_sub_of_le c 0x20 above]
    rfl
  · rw [if_neg inside, if_neg (fun both => inside (lower.mp both))]

theorem upperCase_eq_dot {c : UInt8} : upperCase c = 0x2E ↔ c = 0x2E := by
  have dot : (0x2E : UInt8).toNat = 46 := rfl
  rw [← UInt8.toNat_inj, ← UInt8.toNat_inj, upperCase_toNat, dot]
  split <;> omega

theorem ofName_encode (name : List UInt8) (k : Fin 11) :
    (ShortName.ofName name).encode k =
      upperCase (if k.val < 8 then ((nameBase name).take 8).getD k.val 0x20
        else ((nameExtension name).take 3).getD (k.val - 8) 0x20) := by
  have space : upperCase 0x20 = 0x20 := rfl
  rw [ShortName.encode, ShortName.ofName, apply_ite upperCase]
  rw [← List.getD_map (f := upperCase), ← List.getD_map (f := upperCase), space]

theorem fatFormatName_displayName {name : FatName}
    (nonzero : ∀ k, name k ≠ 0) (noDot : ∀ k, k.val < 8 → name k ≠ 0x2E)
    (k : Fin 11) :
    fatFormatName (displayName name) k = upperCase (name k) := by
  have bytes : (displayName name).bytes =
      ((List.finRange 11).take 8).map name ++
        0x2E :: ((List.finRange 11).drop 8).map name := by
    have kept : ∀ indices : List (Fin 11),
        (indices.map name).filter (· ≠ 0) = indices.map name := by
      intro indices
      rw [List.filter_eq_self]
      simp [nonzero]
    rw [displayName]
    simp only [List.filter_append, kept]
    rfl
  have beforeDot : ∀ c ∈ ((List.finRange 11).take 8).map name, c ≠ 0x2E := by
    intro c member
    obtain ⟨j, low, rfl⟩ := List.mem_map.mp member
    obtain ⟨index, inside, rfl⟩ := List.mem_iff_getElem.mp low
    rw [List.length_take] at inside
    refine noDot _ ?_
    rw [List.getElem_take, List.getElem_finRange]
    exact (lt_min_iff.mp inside).1
  rw [fatFormatName_eq, ofName_encode, bytes, nameBase_of_dot beforeDot,
    nameExtension_of_dot beforeDot]
  congr 1
  by_cases low : k.val < 8
  · rw [if_pos low, List.getD_eq_getElem _ _ (by simpa using low)]
    simp
  · have inside : k.val - 8 < 3 := by omega
    rw [if_neg low, List.getD_eq_getElem _ _ (by simpa using inside)]
    simp [Nat.add_sub_cancel' (Nat.le_of_not_lt low)]

/-- A formatted name is its own format once it has been displayed: no byte of
the base is a dot and every byte is in upper case. -/
theorem fatFormatName_stable (name : CString) :
    fatFormatName (displayName (fatFormatName name)) = fatFormatName name := by
  have upper : ∀ k, upperCase (fatFormatName name k) = fatFormatName name k := by
    intro k
    rw [fatFormatName_eq, ofName_encode, upperCase_idem]
  have noDot : ∀ k : Fin 11, k.val < 8 → fatFormatName name k ≠ 0x2E := by
    intro k low
    rw [fatFormatName_eq, ofName_encode, if_pos low, ne_eq, upperCase_eq_dot]
    by_cases inside : k.val < ((nameBase name.bytes).take 8).length
    · rw [List.getD_eq_getElem _ _ inside]
      exact nameBase_noDot (List.mem_of_mem_take (List.getElem_mem inside))
    · rw [List.getD_eq_default _ _ (Nat.le_of_not_lt inside)]
      decide
  funext k
  rw [fatFormatName_displayName (fatFormatName_ne_zero name) noDot, upper]

/-- `fat_format_name` reads nothing behind the terminator, writes exactly the
eleven bytes of `output` and leaves the padded base and extension there, with
`a` to `z` in upper case. -/
theorem formatNameRun_encodes (input : View) (name : CString)
    (held : HoldsString input name) (fuel : Nat)
    (enough : name.bytes.length < fuel) :
    ∃ run, formatNameRun input fuel = some run ∧
      (∀ index ∈ run.reads, index ≤ name.bytes.length) ∧
      (∀ k, k < 11 ↔ ∃ byte, (k, byte) ∈ run.stores) ∧
      (∀ output, ∀ k < 8, applyStores output run.stores k =
        (((nameBase name.bytes).take 8).map fun c =>
          if 0x61 ≤ c ∧ c ≤ 0x7A then c - 0x20 else c).getD k 0x20) ∧
      (∀ output, ∀ k < 3, applyStores output run.stores (8 + k) =
        (((nameExtension name.bytes).take 3).map fun c =>
          if 0x61 ≤ c ∧ c ≤ 0x7A then c - 0x20 else c).getD k 0x20) ∧
      (∀ output (k : Fin 11),
        applyStores output run.stores k.val = fatFormatName name k) ∧
      fatFormatName (displayName (fatFormatName name)) = fatFormatName name := by
  obtain ⟨run, ends, reads, stores⟩ := formatNameRun_eq held enough
  have result : ∀ output (k : Fin 11), applyStores output run.stores k.val =
      (ShortName.ofName name.bytes).encode k := by
    intro output k
    rw [stores, applyStores_shortName]
  refine ⟨run, ends, reads, ?_, ?_, ?_, ?_, fatFormatName_stable name⟩
  · intro k
    constructor
    · intro inside
      refine ⟨0x20, ?_⟩
      rw [stores, List.append_assoc]
      apply List.mem_append_left
      rw [mem_storesFrom_replicate]
      omega
    · rintro ⟨byte, member⟩
      rw [stores, List.mem_append, List.mem_append] at member
      have baseFits := (ShortName.ofName name.bytes).baseFits
      have extensionFits := (ShortName.ofName name.bytes).extensionFits
      rcases member with (blank | base) | extension
      · have bounds := mem_storesFrom blank
        rw [List.length_replicate] at bounds
        omega
      · have bounds := mem_storesFrom base
        omega
      · have bounds := mem_storesFrom extension
        omega
  · intro output k inside
    rw [result output ⟨k, by omega⟩, ← upperCase_value]
    exact if_pos inside
  · intro output k inside
    rw [result output ⟨8 + k, by omega⟩, ShortName.encode,
      if_neg (by simp), Nat.add_sub_cancel_left, ← upperCase_value]
    rfl
  · intro output k
    rw [result, fatFormatName_eq]

theorem formatNameRun_encodes_readme :
    ∃ run, formatNameRun (CString.ofString "readme.txt").view 11 = some run ∧
      (∀ index ∈ run.reads, index ≤ 10) ∧
      ∀ output (k : Fin 11), applyStores output run.stores k.val =
        fatFormatName (CString.ofString "readme.txt") k := by
  obtain ⟨run, ends, reads, -, -, -, result, -⟩ :=
    formatNameRun_encodes (CString.ofString "readme.txt").view
      (CString.ofString "readme.txt") (fun _ _ => rfl) 11 (by decide)
  exact ⟨run, ends, reads, result⟩

/-! ## Typing a listed name back -/

/-- A displayed name formats to the name in the directory, which the comparison
accepts exactly when all of its bytes are ASCII: a byte of the upper half is
compared as an unsigned number with a negative one. -/
theorem fatNameMatch_displayName_iff (name : FatName)
    (nonzero : ∀ i, name i ≠ 0)
    (notLower : ∀ i, ¬ (0x61 ≤ name i ∧ name i ≤ 0x7A))
    (noDot : ∀ i, name i ≠ 0x2E) :
    fatNameMatch name (fatFormatName (displayName name)) = true ↔
      ∀ i, name i < 0x80 := by
  have upper : ∀ i, upperCase (name i) = name i := by
    intro i
    have other : ¬ (97 ≤ (name i).toNat ∧ (name i).toNat ≤ 122) := by
      simpa [UInt8.le_iff_toNat_le] using notLower i
    exact UInt8.toNat_inj.mp ((upperCase_toNat (name i)).trans (if_neg other))
  rw [fatNameMatch_iff]
  refine forall_congr' fun i => ?_
  rw [fatFormatName_displayName nonzero (fun k _ => noDot k), upper,
    toNat_eq_charVal_iff, UInt8.lt_iff_toNat_lt]
  exact and_iff_right rfl

/-- `RÉSUMÉ.TXT` in code page 850 is listed and cannot be opened. -/
theorem fatNameMatch_displayName_upperHalf :
    ¬ ∀ name : FatName, (∀ i, name i ≠ 0) →
      (∀ i, ¬ (0x61 ≤ name i ∧ name i ≤ 0x7A)) → (∀ i, name i ≠ 0x2E) →
      fatNameMatch name (fatFormatName (displayName name)) = true := by
  intro all
  let listed : FatName := fun i =>
    [0x52, 0x90, 0x53, 0x55, 0x4D, 0x90, 0x20, 0x20, 0x54, 0x58, 0x54].getD
      i.val 0x20
  have accepted := all listed (by decide) (by decide) (by decide)
  have rejected : fatNameMatch listed (fatFormatName (displayName listed)) =
      false := by decide
  rw [rejected] at accepted
  cases accepted

theorem fatNameMatch_displayName_iff_kernel :
    fatNameMatch (fun _ => 0x4B) (fatFormatName (displayName fun _ => 0x4B)) =
      true :=
  (fatNameMatch_displayName_iff (fun _ => 0x4B) (by decide) (by decide)
    (by decide)).mpr (by decide)

/-! ## Which entry an argument selects -/

def Fits (argument : List UInt8) : Prop :=
  argument.count 0x2E ≤ 1 ∧ (nameBase argument).length ≤ 8 ∧
    (nameExtension argument).length ≤ 3

def Denotes (argument : List UInt8) (entryName : FatName) : Prop :=
  Fits argument ∧ ∀ k : Fin 11, entryName k =
    if k.val < 8 then ((nameBase argument).map upperCase).getD k.val 0x20
    else ((nameExtension argument).map upperCase).getD (k.val - 8) 0x20

def unpadded (part : List UInt8) : List UInt8 := part.rdropWhile (· = 0x20)

theorem unpadded_append_spaces (part : List UInt8) (count : Nat) :
    unpadded (part ++ List.replicate count 0x20) = unpadded part := by
  induction count with
  | zero => simp
  | succ count ih =>
      rw [List.replicate_succ', ← List.append_assoc, unpadded,
        List.rdropWhile_concat_pos _ _ _ (by simp)]
      exact ih

theorem unpadded_eq_of_padded {left right : List UInt8} {width : Nat}
    (leftFits : left.length ≤ width) (rightFits : right.length ≤ width)
    (same : ∀ k < width, left.getD k 0x20 = right.getD k 0x20) :
    unpadded left = unpadded right := by
  have filled : left ++ List.replicate (width - left.length) 0x20 =
      right ++ List.replicate (width - right.length) 0x20 := by
    apply List.ext_getElem
    · simp only [List.length_append, List.length_replicate]
      omega
    · intro k leftBound rightBound
      have inside : k < width := by
        simp only [List.length_append, List.length_replicate] at leftBound
        omega
      have here := same k inside
      rw [List.getElem_append, List.getElem_append]
      simp only [List.getElem_replicate]
      rw [List.getD_eq_getElem?_getD, List.getD_eq_getElem?_getD] at here
      split <;> split <;> simp_all
  rw [← unpadded_append_spaces left, filled, unpadded_append_spaces]

theorem ShortName.unpadded_eq {left right : ShortName}
    (same : ∀ k, left.encode k = right.encode k) :
    unpadded left.base = unpadded right.base ∧
      unpadded left.extension = unpadded right.extension := by
  constructor
  · apply unpadded_eq_of_padded left.baseFits right.baseFits
    intro k inside
    have here := same ⟨k, by omega⟩
    simpa [ShortName.encode, inside] using here
  · apply unpadded_eq_of_padded left.extensionFits right.extensionFits
    intro k inside
    have here := same ⟨8 + k, by omega⟩
    simpa [ShortName.encode] using here

/-- An accepted entry has the argument's parts, each cut to its width; so an
argument that fits denotes it, and two arguments with one entry have the same
cut parts up to padding. -/
theorem fatNameMatch_selects (argument : CString) (entryName : FatName)
    (accepted : fatNameMatch entryName (fatFormatName argument) = true) :
    (∀ k : Fin 11, entryName k =
      if k.val < 8 then
        (((nameBase argument.bytes).take 8).map upperCase).getD k.val 0x20
      else (((nameExtension argument.bytes).take 3).map upperCase).getD
        (k.val - 8) 0x20) ∧
    (Fits argument.bytes → Denotes argument.bytes entryName) ∧
    ∀ other : CString,
      fatNameMatch entryName (fatFormatName other) = true →
      unpadded (((nameBase other.bytes).take 8).map upperCase) =
          unpadded (((nameBase argument.bytes).take 8).map upperCase) ∧
        unpadded (((nameExtension other.bytes).take 3).map upperCase) =
          unpadded (((nameExtension argument.bytes).take 3).map upperCase) := by
  have bytes : ∀ {name : CString},
      fatNameMatch entryName (fatFormatName name) = true →
      ∀ k, entryName k = (ShortName.ofName name.bytes).encode k := by
    intro name matching k
    have equal := (fatNameMatch_iff _ _).mp matching k
    rw [← fatFormatName_eq]
    exact (toNat_eq_charVal_iff.mp equal).1
  have cut := bytes accepted
  refine ⟨cut, ?_, ?_⟩
  · intro fits
    refine ⟨fits, ?_⟩
    obtain ⟨-, baseFits, extensionFits⟩ := fits
    intro k
    rw [cut k]
    simp only [ShortName.encode, ShortName.ofName,
      List.take_of_length_le baseFits, List.take_of_length_le extensionFits]
  · intro other matching
    have same : ∀ k, (ShortName.ofName other.bytes).encode k =
        (ShortName.ofName argument.bytes).encode k := by
      intro k
      rw [← bytes matching k, cut k]
    exact ShortName.unpadded_eq same

/-- `LONGFILENAME.TXT` is cut at eight characters and opens `LONGFILE.TXT`. -/
theorem fatNameMatch_cuts_argument :
    ¬ ∀ (argument : CString) (entryName : FatName),
      fatNameMatch entryName (fatFormatName argument) = true →
      Denotes argument.bytes entryName := by
  intro all
  let entryName : FatName := fatFormatName (CString.ofString "LONGFILE.TXT")
  have denotes := all (CString.ofString "LONGFILENAME.TXT") entryName (by decide)
  exact absurd denotes.1.2.1 (by decide)

theorem fatNameMatch_selects_readme :
    unpadded (((nameBase (CString.ofString "README ").bytes).take 8).map
        upperCase) =
      unpadded (((nameBase (CString.ofString "readme.").bytes).take 8).map
        upperCase) :=
  ((fatNameMatch_selects (CString.ofString "readme.")
    (fatFormatName (CString.ofString "README")) (by decide)).2.2
      (CString.ofString "README ") (by decide)).1

end Lumie.FatName
