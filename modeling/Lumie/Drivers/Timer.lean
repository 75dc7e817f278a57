import Lumie.Base.Polling
import Lumie.Drivers.AtaStatus

/-!
# Waiting without interrupts

`safe_sleep` programs channel 0 of the interval timer with one-shot counts and
polls its status: `status k` is the byte that read number `k` of port 0x40
returns.  A count has 16 bits, so a long wait is cut into pieces of at most 50
milliseconds, 1193 ticks each.
-/

set_option autoImplicit false

namespace Lumie.Timer

open FirstIndex WhileLoop Polling
open Lumie.AtaStatus (PortEvent)

def pitPrepareSleep (ms : UInt32) : List PortEvent :=
  let ticks := ms * 1193
  let ticks := if 0xFFFF < ticks then 0xFFFF else ticks
  [.outb 0x43 0x30,
    .outb 0x40 (ticks &&& 0xFF).toUInt8,
    .outb 0x40 ((ticks >>> 8) &&& 0xFF).toUInt8]

/-- `if (status & 0x80) break;` -/
def completed (status : UInt8) : Bool := status &&& 0x80 != 0

/-- The latch command and the read of the latched status. -/
def poll (status : UInt8) : List PortEvent :=
  [.outb 0x43 0xE2, .inb 0x40 status]

def performBody (status : Nat → UInt8) :
    Nat × List PortEvent →
      Option ((Nat × List PortEvent) ⊕ (Nat × List PortEvent)) :=
  pollingBody (fun k => !completed (status k)) fun k => poll (status k)

def pitPerformSleep (status : Nat → UInt8) (fuel : Nat)
    (state : Nat × List PortEvent) : Option (Nat × List PortEvent) :=
  iterate (performBody status) fuel state

/-- `pit_prepare_sleep(ms); pit_perform_sleep();` -/
def sleepChunk (status : Nat → UInt8) (fuel : Nat) (ms : UInt32)
    (state : Nat × List PortEvent) : Option (Nat × List PortEvent) :=
  pitPerformSleep status fuel (state.1, state.2 ++ pitPrepareSleep ms)

/-- `while (ms > 50)` -/
def sleepBody (status : Nat → UInt8) (fuel : Nat) :
    UInt32 × Nat × List PortEvent →
      Option ((UInt32 × Nat × List PortEvent) ⊕ (UInt32 × Nat × List PortEvent))
  | (ms, state) =>
      if 50 < ms then
        (sleepChunk status fuel 50 state).map fun after => .inl (ms - 50, after)
      else some (.inr (ms, state))

def safeSleep (status : Nat → UInt8) (fuel : Nat) (ms : UInt32) :
    Option (List PortEvent) := do
  let (ms, state) ← iterate (sleepBody status fuel) fuel (ms, 0, [])
  let (_, events) ← sleepChunk status fuel ms state
  some events

/-! ## The counts -/

def channelBytes (events : List PortEvent) : List UInt8 :=
  events.filterMap fun
    | .outb port value => if port = 0x40 then some value else none
    | _ => none

/-- Counts are written low byte first. -/
def reassemble : List UInt8 → List Nat
  | low :: high :: rest => (low.toNat + 256 * high.toNat) :: reassemble rest
  | _ => []

def counts (events : List PortEvent) : List Nat :=
  reassemble (channelBytes events)

/-- The access does not poll. -/
def programs : PortEvent → Bool
  | .outb port value => !(port = 0x43 && value = 0xE2)
  | .inb _ _ => false
  | .insw _ _ => true

def Done (status : Nat → UInt8) (k : Nat) : Prop := completed (status k) = true

/-- Some later read finds the count completed, whenever it was started. -/
def Completes (status : Nat → UInt8) : Prop := ∀ k, ∃ j ≥ k, Done status j

def polls (status : Nat → UInt8) (k j : Nat) : List PortEvent :=
  (List.range' k (j + 1 - k)).flatMap fun i => poll (status i)

/-- The port accesses that wait for these pieces one after another: each piece
is programmed and polled for up to the first read that finds its count
completed.  The status reads are numbered from the first number to before the
last. -/
inductive Waits (status : Nat → UInt8) :
    Nat → List UInt32 → List PortEvent → Nat → Prop
  | done (k : Nat) : Waits status k [] [] k
  | piece {k j last : Nat} {chunk : UInt32} {chunks : List UInt32}
      {later : List PortEvent} (ends : FirstFrom (Done status) k j)
      (rest : Waits status (j + 1) chunks later last) :
      Waits status k (chunk :: chunks)
        (pitPrepareSleep chunk ++ polls status k j ++ later) last

theorem channelBytes_append (first second : List PortEvent) :
    channelBytes (first ++ second) = channelBytes first ++ channelBytes second :=
  List.filterMap_append

theorem channelBytes_programs (events : List PortEvent) :
    channelBytes (events.filter programs) = channelBytes events := by
  unfold channelBytes
  rw [List.filterMap_filter]
  apply List.filterMap_congr
  intro event _
  cases event with
  | outb port value =>
      by_cases data : port = 0x40
      · simp [programs, data]
      · simp [data]
  | inb port value => rfl
  | insw port count => rfl

theorem lowByte_toNat (ticks : UInt32) :
    (ticks &&& 0xFF).toUInt8.toNat = ticks.toNat % 256 := by
  rw [UInt32.toNat_toUInt8, UInt32.toNat_and]
  change (ticks.toNat &&& 2 ^ 8 - 1) % 2 ^ 8 = ticks.toNat % 2 ^ 8
  rw [Nat.and_two_pow_sub_one_eq_mod, Nat.mod_mod]

theorem highByte_toNat (ticks : UInt32) :
    ((ticks >>> 8) &&& 0xFF).toUInt8.toNat = ticks.toNat / 256 % 256 := by
  rw [lowByte_toNat, UInt32.toNat_shiftRight]
  change ticks.toNat >>> 8 % 256 = ticks.toNat / 2 ^ 8 % 256
  rw [Nat.shiftRight_eq_div_pow]

theorem channelBytes_prepare {ms : UInt32} (short : ms.toNat ≤ 50) :
    ∃ low high : UInt8, channelBytes (pitPrepareSleep ms) = [low, high] ∧
      low.toNat + 256 * high.toNat = 1193 * ms.toNat := by
  have ticks : (ms * 1193).toNat = 1193 * ms.toNat := by
    rw [UInt32.toNat_mul]
    change ms.toNat * 1193 % 2 ^ 32 = 1193 * ms.toNat
    omega
  have unclamped : ¬ 0xFFFF < ms * 1193 := by
    rw [UInt32.lt_iff_toNat_lt, ticks]
    change ¬ 65535 < 1193 * ms.toNat
    omega
  refine ⟨(ms * 1193 &&& 0xFF).toUInt8, ((ms * 1193) >>> 8 &&& 0xFF).toUInt8,
    ?_, ?_⟩
  · simp only [pitPrepareSleep, if_neg unclamped]
    rfl
  · rw [lowByte_toNat, highByte_toNat, ticks]
    omega

theorem counts_chunks {chunks : List UInt32}
    (short : ∀ chunk ∈ chunks, chunk.toNat ≤ 50) :
    (channelBytes (chunks.flatMap pitPrepareSleep)).length = 2 * chunks.length ∧
      counts (chunks.flatMap pitPrepareSleep) =
        chunks.map fun chunk => 1193 * chunk.toNat := by
  induction chunks with
  | nil => exact ⟨rfl, rfl⟩
  | cons chunk rest ih =>
      obtain ⟨head, tail⟩ := List.forall_mem_cons.mp short
      obtain ⟨low, high, bytes, count⟩ := channelBytes_prepare head
      obtain ⟨length, others⟩ := ih tail
      rw [counts] at others ⊢
      rw [List.flatMap_cons, channelBytes_append, bytes]
      refine ⟨?_, ?_⟩
      · simp only [List.length_append, List.length_cons, List.length_nil, length]
        omega
      · rw [List.cons_append, List.singleton_append, reassemble, others, count,
          List.map_cons]

/-! ## The loops -/

section Loops

variable {status : Nat → UInt8}

theorem programs_polls (k j : Nat) : (polls status k j).filter programs = [] := by
  unfold polls
  induction List.range' k (j + 1 - k) with
  | nil => rfl
  | cons i rest ih =>
      rw [List.flatMap_cons, List.filter_append, ih]
      rfl

theorem pitPerformSleep_iff {fuel k : Nat} {events : List PortEvent}
    {after : Nat × List PortEvent} :
    pitPerformSleep status fuel (k, events) = some after ↔
      ∃ j, FirstFrom (Done status) k j ∧ j < k + fuel ∧
        after = (j + 1, events ++ polls status k j) := by
  have test : (fun j => (!completed (status j)) = false) = Done status := by
    funext j
    simp [Done]
  rw [pitPerformSleep, performBody, polling_iff, test]
  rfl

theorem sleepChunk_waits {fuel k : Nat} {ms : UInt32}
    {events : List PortEvent} {after : Nat × List PortEvent}
    (waited : sleepChunk status fuel ms (k, events) = some after) :
    ∃ here, Waits status k [ms] here after.1 ∧ after.2 = events ++ here := by
  obtain ⟨j, ends, -, rfl⟩ := pitPerformSleep_iff.mp waited
  refine ⟨_, .piece ends (.done (j + 1)), ?_⟩
  simp

theorem Waits.append {k middle last : Nat} {front back : List UInt32}
    {first second : List PortEvent} (before : Waits status k front first middle)
    (after : Waits status middle back second last) :
    Waits status k (front ++ back) (first ++ second) last := by
  induction before with
  | done => exact after
  | piece ends _ ih =>
      rw [List.cons_append, List.append_assoc]
      exact .piece ends (ih after)

theorem Waits.programs {k last : Nat} {chunks : List UInt32}
    {events : List PortEvent} (waits : Waits status k chunks events last) :
    events.filter programs = chunks.flatMap pitPrepareSleep := by
  induction waits with
  | done => rfl
  | piece ends _ ih =>
      rw [List.filter_append, List.filter_append, programs_polls,
        List.append_nil, ih, List.flatMap_cons]
      rfl

/-- The loop waits for full pieces and leaves a last one that is not empty. -/
theorem sleepLoop_waits {inner fuel k : Nat} {ms left : UInt32}
    {events : List PortEvent} {after : Nat × List PortEvent}
    (positive : 0 < ms.toNat)
    (waited : iterate (sleepBody status inner) fuel (ms, k, events) =
      some (left, after)) :
    ∃ n here, ms.toNat = 50 * n + left.toNat ∧ 0 < left.toNat ∧
      left.toNat ≤ 50 ∧ Waits status k (List.replicate n 50) here after.1 ∧
      after.2 = events ++ here := by
  induction fuel generalizing ms k events with
  | zero => cases waited
  | succ fuel ih =>
      by_cases long : 50 < ms
      · have above : 50 < ms.toNat := UInt32.lt_iff_toNat_lt.mp long
        have rest : (ms - 50).toNat = ms.toNat - 50 :=
          UInt32.toNat_sub_of_le ms 50 (Nat.le_of_lt above)
        cases chunk : sleepChunk status inner 50 (k, events) with
        | none =>
            have stuck : sleepBody status inner (ms, k, events) = none := by
              simp [sleepBody, long, chunk]
            simp [iterate, stuck] at waited
        | some next =>
            have moves : sleepBody status inner (ms, k, events) =
                some (.inl (ms - 50, next)) := by
              simp [sleepBody, long, chunk]
            rw [iterate_next fuel moves] at waited
            obtain ⟨first, waitsFirst, seen⟩ := sleepChunk_waits chunk
            obtain ⟨n, later, sum, more, few, waitsLater, final⟩ :=
              ih (by rw [rest]; omega) waited
            refine ⟨n + 1, first ++ later, by omega, more, few,
              waitsFirst.append waitsLater, ?_⟩
            rw [final, seen, List.append_assoc]
      · have stops : sleepBody status inner (ms, k, events) =
            some (.inr (ms, k, events)) := if_neg long
        rw [iterate_stop fuel stops] at waited
        cases waited
        rw [UInt32.lt_iff_toNat_lt] at long
        exact ⟨0, [], by omega, positive, Nat.le_of_not_lt long, .done k,
          (List.append_nil _).symm⟩

theorem sleepChunk_mono {fuel more : Nat} (enough : fuel ≤ more) {ms : UInt32}
    {state after : Nat × List PortEvent}
    (waited : sleepChunk status fuel ms state = some after) :
    sleepChunk status more ms state = some after :=
  iterate_mono enough waited

theorem sleepChunk_returns (completes : Completes status) (ms : UInt32)
    (state : Nat × List PortEvent) :
    ∃ fuel after, sleepChunk status fuel ms state = some after := by
  obtain ⟨j, later, done⟩ := completes state.1
  exact polling_ends later (by simpa [Done] using done) _

theorem sleepBody_mono {fuel more : Nat} (enough : fuel ≤ more)
    (state : UInt32 × Nat × List PortEvent)
    (outcome : (UInt32 × Nat × List PortEvent) ⊕ (UInt32 × Nat × List PortEvent))
    (success : sleepBody status fuel state = some outcome) :
    sleepBody status more state = some outcome := by
  obtain ⟨ms, ports⟩ := state
  by_cases long : 50 < ms
  · rw [sleepBody, if_pos long] at success ⊢
    obtain ⟨after, waited, rfl⟩ := Option.map_eq_some_iff.mp success
    rw [sleepChunk_mono enough waited]
    rfl
  · rw [sleepBody, if_neg long] at success ⊢
    exact success

theorem sleepLoop_mono {fuel more : Nat} (enough : fuel ≤ more)
    {state left : UInt32 × Nat × List PortEvent}
    (waited : iterate (sleepBody status fuel) fuel state = some left) :
    iterate (sleepBody status more) more state = some left :=
  iterate_mono enough (iterate_body_mono (sleepBody_mono enough) waited)

theorem sleepLoop_returns (completes : Completes status) (n : Nat) {ms : UInt32}
    (state : Nat × List PortEvent) (few : ms.toNat ≤ 50 * n + 50) :
    ∃ fuel left, iterate (sleepBody status fuel) fuel (ms, state) = some left := by
  induction n generalizing ms state with
  | zero =>
      have short : ¬ 50 < ms := by
        rw [UInt32.lt_iff_toNat_lt]
        exact Nat.not_lt_of_le few
      exact ⟨1, _, iterate_stop 0 (if_neg short)⟩
  | succ n ih =>
      by_cases long : 50 < ms
      · have above : 50 < ms.toNat := UInt32.lt_iff_toNat_lt.mp long
        have rest : (ms - 50).toNat = ms.toNat - 50 :=
          UInt32.toNat_sub_of_le ms 50 (Nat.le_of_lt above)
        obtain ⟨first, next, chunk⟩ := sleepChunk_returns completes 50 state
        obtain ⟨fuel, left, waited⟩ := ih next (by rw [rest]; omega)
        have moves : sleepBody status (max first fuel + 1) (ms, state) =
            some (.inl (ms - 50, next)) := by
          apply sleepBody_mono (show first ≤ max first fuel + 1 by omega)
          simp [sleepBody, long, chunk]
        refine ⟨max first fuel + 1, left, ?_⟩
        rw [iterate_next _ moves]
        exact iterate_mono (Nat.le_max_right first fuel)
          (iterate_body_mono (sleepBody_mono (by omega)) waited)
      · exact ⟨1, _, iterate_stop 0 (if_neg long)⟩

end Loops

/-- The call waits for pieces that make up the whole time, one after another,
and programs each in full. -/
structure WaitsInFull (status : Nat → UInt8) (ms : UInt32)
    (events : List PortEvent) : Prop where
  /-- Each piece is polled for until its count is completed.  What the call
  writes, apart from polling, are the preparations of the pieces, and their
  counts are not clamped and not cut. -/
  pieces : ∃ chunks : List UInt32,
    (∃ reads, Waits status 0 chunks events reads) ∧
      events.filter programs = chunks.flatMap pitPrepareSleep ∧
      (chunks.map UInt32.toNat).sum = ms.toNat ∧
      counts events = chunks.map fun chunk => 1193 * chunk.toNat
  twoBytes : (channelBytes events).length = 2 * (counts events).length
  range : ∀ count ∈ counts events, 1 ≤ count ∧ count ≤ 65535
  total : (counts events).sum = 1193 * ms.toNat

theorem waitsInFull_of_chunks {status : Nat → UInt8} {ms : UInt32}
    {events : List PortEvent} {chunks : List UInt32} {reads : Nat}
    (waits : Waits status 0 chunks events reads)
    (short : ∀ chunk ∈ chunks, 0 < chunk.toNat ∧ chunk.toNat ≤ 50)
    (whole : (chunks.map UInt32.toNat).sum = ms.toNat) :
    WaitsInFull status ms events := by
  have writes := waits.programs
  have bytes : channelBytes events =
      channelBytes (chunks.flatMap pitPrepareSleep) := by
    rw [← writes, channelBytes_programs]
  obtain ⟨length, programmed⟩ :=
    counts_chunks fun chunk member => (short chunk member).2
  have exactCounts : counts events =
      chunks.map fun chunk => 1193 * chunk.toNat := by
    rw [← programmed, counts, counts, bytes]
  refine ⟨⟨chunks, ⟨reads, waits⟩, writes, whole, exactCounts⟩, ?_, ?_, ?_⟩
  · rw [bytes, length, exactCounts, List.length_map]
  · intro count member
    rw [exactCounts] at member
    obtain ⟨chunk, inChunks, rfl⟩ := List.mem_map.mp member
    have bounds := short chunk inChunks
    omega
  · rw [exactCounts, ← whole, ← List.sum_map_mul_left]

/-! ## Whole calls -/

section Calls

variable {status : Nat → UInt8} {ms : UInt32}

theorem safeSleep_mono {fuel more : Nat} (enough : fuel ≤ more)
    {events : List PortEvent} (slept : safeSleep status fuel ms = some events) :
    safeSleep status more ms = some events := by
  obtain ⟨⟨left, state⟩, loop, rest⟩ := Option.bind_eq_some_iff.mp slept
  obtain ⟨final, chunk, same⟩ := Option.bind_eq_some_iff.mp rest
  rw [safeSleep, sleepLoop_mono enough loop]
  simp only [Option.bind_eq_bind, Option.bind_some, sleepChunk_mono enough chunk]
  exact same

theorem safeSleep_returns (completes : Completes status) :
    ∃ fuel events, safeSleep status fuel ms = some events := by
  obtain ⟨first, ⟨left, state⟩, loop⟩ :=
    @sleepLoop_returns status completes ms.toNat ms (0, []) (by omega)
  obtain ⟨second, after, chunk⟩ := sleepChunk_returns completes left state
  refine ⟨max first second, after.2, ?_⟩
  rw [safeSleep, sleepLoop_mono (Nat.le_max_left first second) loop]
  simp [sleepChunk_mono (Nat.le_max_right first second) chunk]

theorem safeSleep_inFull (positive : 0 < ms.toNat) {fuel : Nat}
    {events : List PortEvent} (slept : safeSleep status fuel ms = some events) :
    WaitsInFull status ms events := by
  obtain ⟨⟨left, k, seen⟩, loop, rest⟩ := Option.bind_eq_some_iff.mp slept
  obtain ⟨⟨last, final⟩, chunk, same⟩ := Option.bind_eq_some_iff.mp rest
  cases same
  obtain ⟨n, full, sum, more, few, waitsFull, reached⟩ :=
    sleepLoop_waits positive loop
  obtain ⟨piece, waitsPiece, ends⟩ := sleepChunk_waits chunk
  have whole : events = full ++ piece := by
    have sameStart : seen = full := reached
    rw [← sameStart]
    exact ends
  have waits : Waits status 0 (List.replicate n (50 : UInt32) ++ [left]) events
      last := by
    rw [whole]
    exact waitsFull.append waitsPiece
  refine waitsInFull_of_chunks waits ?_ ?_
  · intro piece member
    rcases List.mem_append.mp member with inLoop | last
    · rw [List.eq_of_mem_replicate inLoop]
      decide
    · rw [List.mem_singleton.mp last]
      exact ⟨more, few⟩
  · simp only [List.map_append, List.map_replicate, List.sum_append,
      List.sum_replicate, List.map_singleton, List.sum_singleton, smul_eq_mul]
    change n * 50 + left.toNat = ms.toNat
    omega

end Calls

/-- `safe_sleep` waits for the whole time, and comes back when the timer
completes each count. -/
theorem safeSleep_waits (status : Nat → UInt8) (ms : UInt32)
    (positive : 1 ≤ ms) :
    (Completes status → ∃ fuel events, safeSleep status fuel ms = some events) ∧
      ∀ fuel events, safeSleep status fuel ms = some events →
        WaitsInFull status ms events := by
  have atLeastOne : 0 < ms.toNat := UInt32.le_iff_toNat_le.mp positive
  exact ⟨fun completes => safeSleep_returns completes,
    fun _ _ slept => safeSleep_inFull atLeastOne slept⟩

theorem safeSleep_waits_second :
    ∃ fuel events,
      safeSleep (fun k => if k % 10 = 9 then 0xB0 else 0x30) fuel 1000 =
        some events ∧ (counts events).sum = 1193000 := by
  have completes : Completes fun k => if k % 10 = 9 then 0xB0 else 0x30 := by
    intro k
    have high : (if (10 * k + 9) % 10 = 9 then 0xB0 else 0x30) = (0xB0 : UInt8) :=
      if_pos (by omega)
    refine ⟨10 * k + 9, by omega, ?_⟩
    exact (congrArg completed high).trans (by decide)
  obtain ⟨returns, waits⟩ := safeSleep_waits
    (fun k => if k % 10 = 9 then 0xB0 else 0x30) 1000 (by decide)
  obtain ⟨fuel, events, slept⟩ := returns completes
  exact ⟨fuel, events, slept, (waits fuel events slept).total⟩

end Lumie.Timer
