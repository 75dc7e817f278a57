import Lumie.Base.Polling
import Lumie.Drivers.Ata

/-!
# Waiting for the drive

`ata_read_sector` against a drive that answers each read of its status register
as it likes: `status k` is the byte that read number `k` returns.  The first
loop waits for `BSY` to fall, the second for `DRQ`; neither looks at the other
loop's bit or at the error bits.
-/

set_option autoImplicit false

namespace Lumie.AtaStatus

open FirstIndex WhileLoop Polling
open Lumie.Ata

def busy (status : UInt8) : Bool := status &&& 0x80 != 0

def deviceFault (status : UInt8) : Bool := status &&& 0x20 != 0

def dataRequest (status : UInt8) : Bool := status &&& 0x08 != 0

def error (status : UInt8) : Bool := status &&& 0x01 != 0

/-! ## The driver -/

inductive PortEvent
  | outb (port : Nat) (value : UInt8)
  | inb (port : Nat) (value : UInt8)
  | insw (port count : Nat)

def ataPrimaryData : Nat := 0x1F0

/-- `while (again(inb(ATA_PRIMARY_COMM_STAT)));` on the number of status reads
so far and the port accesses so far. -/
def pollBody (status : Nat → UInt8) (again : UInt8 → Bool) :
    Nat × List PortEvent →
      Option ((Nat × List PortEvent) ⊕ (Nat × List PortEvent)) :=
  pollingBody (fun k => again (status k))
    fun k => [.inb ataPrimaryCommStat (status k)]

/-- The port accesses of `ata_read_sector`, with `fuel` turns for each loop. -/
def ataReadSectorRun (status : Nat → UInt8) (lba fuel : Nat) :
    Option (List PortEvent) := do
  let command := (ataRegisterWrites lba).map fun write => .outb write.1 write.2
  let (k, ready) ← iterate (pollBody status busy) fuel (0, command)
  let (_, offered) ←
    iterate (pollBody status fun byte => !dataRequest byte) fuel (k, ready)
  some (offered ++ [.insw ataPrimaryData 256])

def statusReads (status : Nat → UInt8) (k count : Nat) : List PortEvent :=
  (List.range' k count).map fun i => .inb ataPrimaryCommStat (status i)

theorem pollLoop_iff (status : Nat → UInt8) (again : UInt8 → Bool)
    (fuel k : Nat) (events : List PortEvent) (after : Nat × List PortEvent) :
    iterate (pollBody status again) fuel (k, events) = some after ↔
      ∃ i, FirstFrom (fun j => again (status j) = false) k i ∧ i < k + fuel ∧
        after = (i + 1, events ++ statusReads status k (i + 1 - k)) := by
  rw [pollBody, polling_iff]
  simp only [statusReads, List.map_eq_flatMap]

def BusyClear (status : Nat → UInt8) (k : Nat) : Prop :=
  busy (status k) = false

def DataOffered (status : Nat → UInt8) (k : Nat) : Prop :=
  dataRequest (status k) = true

theorem statusReads_append (status : Nat → UInt8) {i j : Nat} (before : i < j) :
    statusReads status 0 (i + 1) ++ statusReads status (i + 1) (j - i) =
      statusReads status 0 (j + 1) := by
  have count : j + 1 = i + 1 + (j - i) := by omega
  rw [count, statusReads, statusReads, statusReads, ← List.map_append]
  congr 1
  have joined := @List.range'_append_1 0 (i + 1) (j - i)
  rwa [Nat.zero_add] at joined

def sectorRead (status : Nat → UInt8) (lba count : Nat) : List PortEvent :=
  (ataRegisterWrites lba).map (fun write => .outb write.1 write.2) ++
    statusReads status 0 count ++ [.insw ataPrimaryData 256]

/-- A run reads the status up to the first byte with `DRQ` behind the first one
without `BSY`, and then the sector. -/
theorem ataReadSectorRun_iff (status : Nat → UInt8) (lba fuel : Nat)
    (events : List PortEvent) :
    ataReadSectorRun status lba fuel = some events ↔
      ∃ i j, FirstFrom (BusyClear status) 0 i ∧
        FirstFrom (DataOffered status) (i + 1) j ∧
        i < fuel ∧ j < i + 1 + fuel ∧
        events = sectorRead status lba (j + 1) := by
  have waits : (fun k => (!dataRequest (status k)) = false) =
      DataOffered status := by
    funext k
    simp [DataOffered]
  simp only [ataReadSectorRun, Option.bind_eq_bind, Option.bind_eq_some_iff,
    Option.some.injEq]
  constructor
  · rintro ⟨ready, clears, offered, offers, rfl⟩
    obtain ⟨i, first, enough, rfl⟩ := (pollLoop_iff _ _ _ _ _ _).mp clears
    obtain ⟨j, second, more, rfl⟩ := (pollLoop_iff _ _ _ _ _ _).mp offers
    rw [waits] at second
    have behind := second.reached
    refine ⟨i, j, first, second, by omega, more, ?_⟩
    rw [Nat.sub_zero, Nat.add_sub_add_right, List.append_assoc _ _
      (statusReads status (i + 1) (j - i)), statusReads_append status behind,
      sectorRead]
  · rintro ⟨i, j, first, second, enough, more, rfl⟩
    have behind := second.reached
    have clears := (pollLoop_iff status busy fuel 0
      ((ataRegisterWrites lba).map fun write => .outb write.1 write.2) _).mpr
      ⟨i, first, by omega, rfl⟩
    rw [← waits] at second
    refine ⟨_, clears, _, (pollLoop_iff _ _ _ _ _ _).mpr
      ⟨j, second, more, rfl⟩, ?_⟩
    rw [Nat.sub_zero, Nat.add_sub_add_right, List.append_assoc _ _
      (statusReads status (i + 1) (j - i)), statusReads_append status behind,
      sectorRead]

theorem ataReadSectorRun_isSome (status : Nat → UInt8) (lba other fuel : Nat) :
    (ataReadSectorRun status lba fuel).isSome =
      (ataReadSectorRun status other fuel).isSome := by
  rw [Bool.eq_iff_iff, Option.isSome_iff_exists, Option.isSome_iff_exists]
  simp only [ataReadSectorRun_iff]
  constructor <;> rintro ⟨-, i, j, first, second, enough, more, -⟩ <;>
    exact ⟨_, i, j, first, second, enough, more, rfl⟩

def statusBytes (events : List PortEvent) : List UInt8 :=
  events.filterMap fun
    | .inb _ value => some value
    | _ => none

theorem statusBytes_sectorRead (status : Nat → UInt8) (lba count : Nat) :
    statusBytes (sectorRead status lba count) =
      (List.range count).map status := by
  have writes : ∀ list : List (Nat × UInt8), statusBytes
      (list.map fun write => PortEvent.outb write.1 write.2) = [] := by
    intro list
    induction list with
    | nil => rfl
    | cons write rest ih => exact ih
  have reads : ∀ list : List Nat, statusBytes
      (list.map fun i => PortEvent.inb ataPrimaryCommStat (status i)) =
        list.map status := by
    intro list
    induction list with
    | nil => rfl
    | cons i rest ih => exact congrArg (status i :: ·) ih
  rw [statusBytes, sectorRead, List.filterMap_append, List.filterMap_append]
  change statusBytes _ ++ statusBytes _ ++ _ = _
  rw [writes, statusReads, reads, List.range_eq_range']
  exact List.append_nil _

theorem getLast?_statusBytes (status : Nat → UInt8) (lba j : Nat) :
    (statusBytes (sectorRead status lba (j + 1))).getLast? =
      some (status j) := by
  rw [statusBytes_sectorRead, List.range_succ, List.map_append,
    List.map_singleton, List.getLast?_concat]

def OffersData (byte : UInt8) : Prop :=
  busy byte = false ∧ dataRequest byte = true ∧ error byte = false ∧
    deviceFault byte = false

/-- Whenever the driver comes to `insw`, the last status byte it has read
offers the sector. -/
def TransfersOffered (status : Nat → UInt8) (lba : Nat) : Prop :=
  ∀ fuel events, ataReadSectorRun status lba fuel = some events →
    ∃ byte, (statusBytes events).getLast? = some byte ∧ OffersData byte

theorem TransfersOffered.last {status : Nat → UInt8} {lba i j : Nat}
    (offered : TransfersOffered status lba)
    (first : FirstFrom (BusyClear status) 0 i)
    (second : FirstFrom (DataOffered status) (i + 1) j) :
    OffersData (status j) := by
  have behind := second.reached
  have run := (ataReadSectorRun_iff status lba (j + 1) _).mpr
    ⟨i, j, first, second, by omega, by omega, rfl⟩
  obtain ⟨byte, isLast, offers⟩ := offered _ _ run
  rw [getLast?_statusBytes, Option.some.injEq] at isLast
  rw [isLast]
  exact offers

/-- The byte that ends the second loop is trusted for its `DRQ` bit alone: the
transfer is one of an offered sector exactly on the traces on which that byte
has no `BSY`, `ERR` or `DF`. -/
theorem transfersOffered_iff (status : Nat → UInt8) (lba : Nat) :
    TransfersOffered status lba ↔
      ∀ i j, FirstFrom (BusyClear status) 0 i →
        FirstFrom (DataOffered status) (i + 1) j →
        busy (status j) = false ∧ error (status j) = false ∧
          deviceFault (status j) = false := by
  constructor
  · intro offered i j first second
    obtain ⟨clear, -, good, sound⟩ := offered.last first second
    exact ⟨clear, good, sound⟩
  · intro clean fuel events run
    obtain ⟨i, j, first, second, -, -, rfl⟩ :=
      (ataReadSectorRun_iff status lba fuel events).mp run
    obtain ⟨clear, good, sound⟩ := clean i j first second
    exact ⟨status j, getLast?_statusBytes status lba j,
      clear, second.meets, good, sound⟩

/-- Ready at the first read, busy again with a stale `DRQ` at the second. -/
theorem transfersOffered_busyAgain :
    ¬ ∀ status lba, TransfersOffered status lba := by
  intro all
  let status : Nat → UInt8 := fun k => if k = 0 then 0x50 else 0xD8
  have ready : BusyClear status 0 := by
    change busy 0x50 = false
    decide
  have stale : DataOffered status 1 := by
    change dataRequest 0xD8 = true
    decide
  have offers : OffersData 0xD8 := (all status 0).last
    ((firstFrom_here ready).mpr rfl) ((firstFrom_here stale).mpr rfl)
  have raised : busy 0xD8 = true := by decide
  rw [OffersData, raised] at offers
  cases offers.1

/-! ## What the driver waits for -/

/-- From some read on the drive is not busy and has either data or an error
to report. -/
def Settles (status : Nat → UInt8) : Prop :=
  ∃ n, ∀ k ≥ n, busy (status k) = false ∧
    (dataRequest (status k) = true ∨ error (status k) = true ∨
      deviceFault (status k) = true)

def Returns (status : Nat → UInt8) (lba : Nat) : Prop :=
  ∃ fuel events, ataReadSectorRun status lba fuel = some events

theorem ataReadSectorRun_enough {status : Nat → UInt8} {lba : Nat}
    (returns : Returns status lba) :
    ∃ enough, ∀ fuel ≥ enough, (ataReadSectorRun status lba fuel).isSome := by
  obtain ⟨enough, events, run⟩ := returns
  obtain ⟨i, j, first, second, few, more, -⟩ :=
    (ataReadSectorRun_iff status lba enough events).mp run
  refine ⟨enough, fun fuel larger => Option.isSome_iff_exists.mpr ?_⟩
  exact ⟨_, (ataReadSectorRun_iff status lba fuel _).mpr
    ⟨i, j, first, second, by omega, by omega, rfl⟩⟩

/-- Of a drive that settles the driver comes back exactly when some byte behind
the first one without `BSY` has `DRQ`; an error ends no loop. -/
theorem returns_iff (status : Nat → UInt8) (lba : Nat)
    (settles : Settles status) :
    Returns status lba ↔
      ∀ i, FirstFrom (BusyClear status) 0 i → ∃ j > i, DataOffered status j := by
  constructor
  · rintro ⟨fuel, events, run⟩ i first
    obtain ⟨other, j, otherFirst, second, -⟩ :=
      (ataReadSectorRun_iff status lba fuel events).mp run
    obtain rfl := firstFrom_unique first otherFirst
    exact ⟨j, second.reached, second.meets⟩
  · intro offers
    obtain ⟨n, quiet⟩ := settles
    have clear : BusyClear status n := (quiet n (Nat.le_refl n)).1
    obtain ⟨i, -, first⟩ := exists_firstFrom (Nat.zero_le n) clear
    obtain ⟨later, behind, offered⟩ := offers i first
    obtain ⟨j, -, second⟩ := exists_firstFrom behind offered
    have reached := second.reached
    exact ⟨j + 1, _, (ataReadSectorRun_iff status lba (j + 1) _).mpr
      ⟨i, j, first, second, by omega, by omega, rfl⟩⟩

/-- The drive is busy for three reads, reports an error at the fourth and offers
data from the sixth on. -/
theorem returns_dataReady :
    Returns (fun k => if k < 3 then 0xD0 else if k < 5 then 0x51 else 0x58)
      0 := by
  have later : ∀ k ≥ 5, (if k < 3 then 0xD0 else if k < 5 then 0x51 else 0x58) =
      (0x58 : UInt8) := by
    intro k behind
    rw [if_neg (by omega), if_neg (by omega)]
  have clear : busy 0x58 = false := by decide
  have offered : dataRequest 0x58 = true := by decide
  refine (returns_iff _ 0 ⟨5, ?_⟩).mpr ?_
  · intro k behind
    rw [later k behind]
    exact ⟨clear, Or.inl offered⟩
  · intro i _
    refine ⟨i + 6, by omega, ?_⟩
    rw [DataOffered, later (i + 6) (by omega)]
    exact offered

/-- An unreadable sector is reported with `ERR` and without `DRQ`. -/
theorem returns_unreadable :
    ¬ ∀ status lba, Settles status → Returns status lba := by
  intro all
  have clear : busy 0x51 = false := by decide
  have failed : error 0x51 = true := by decide
  have silent : dataRequest 0x51 = false := by decide
  obtain ⟨fuel, events, run⟩ := all (fun _ => 0x51) 0
    ⟨0, fun _ _ => ⟨clear, Or.inr (Or.inl failed)⟩⟩
  obtain ⟨i, j, -, second, -⟩ := (ataReadSectorRun_iff _ 0 fuel events).mp run
  have offered : dataRequest 0x51 = true := second.meets
  rw [silent] at offered
  cases offered

end Lumie.AtaStatus
