import Lumie.Arch.Interrupts
import Lumie.Drivers.Timer
import Lumie.Shell.Commands

/-!
# The clock

`timer_init` gives channel 0 of the interval timer a divisor of its input of
1193182 clocks in a second, `timer_handler` counts the requests of line 0 and
`uptime` takes a hundred of them for a second.
-/

set_option autoImplicit false

namespace Lumie.Uptime

open FoldRun
open Lumie.AtaStatus (PortEvent)
open Lumie.Strings Lumie.Screen Lumie.Keyboard Lumie.UintToString
open Lumie.Timer Lumie.Pic Lumie.Idt Lumie.Interrupts Lumie.Commands

/-! ## The rate -/

/-- `none` is the division by zero. -/
def timerInit (frequency : UInt32) : Option (List PortEvent) :=
  if frequency = 0 then none
  else
    let divisor := 1193182 / frequency
    let l := (divisor &&& 0xFF).toUInt8
    let h := ((divisor >>> 8) &&& 0xFF).toUInt8
    some [.outb 0x43 0x36, .outb 0x40 l, .outb 0x40 h]

def controlWord (events : List PortEvent) : Option UInt8 :=
  (events.filterMap fun
    | .outb port value => if port = 0x43 then some value else none
    | _ => none).getLast?

/-- The interval timer by its data sheet: with the control word 0x36, mode 3
with both bytes of a binary count, the counts from 2 on divide the clock by
themselves and 0 divides it by 65536.  Nothing is said of the count 1. -/
structure IntervalTimer where
  /-- The clocks from one request to the next. -/
  period : UInt8 → Nat → Option Nat
  squareWave : ∀ count, 2 ≤ count → count ≤ 65535 →
    period 0x36 count = some count
  zero : period 0x36 0 = some 65536

def IntervalTimer.channelPeriod (timer : IntervalTimer)
    (events : List PortEvent) : Option Nat := do
  let mode ← controlWord events
  let count ← (counts events).getLast?
  timer.period mode count

/-- A timer that gives no requests with the count 1, nor with another control
word. -/
def strictTimer : IntervalTimer where
  period mode count :=
    if mode = 0x36 then
      if count = 0 then some 65536
      else if count = 1 then none
      else some count
    else none
  squareWave := by
    intro count several _
    rw [if_pos rfl, if_neg (by omega), if_neg (by omega)]
  zero := rfl

section Rate

variable {frequency : UInt32}

/-- The divisor is cut to the 16 bits of a count. -/
theorem timerInit_channelPeriod (timer : IntervalTimer)
    (nonzero : frequency ≠ 0) :
    (timerInit frequency).bind timer.channelPeriod =
      timer.period 0x36 (1193182 / frequency.toNat % 65536) := by
  have divisor : (1193182 / frequency).toNat = 1193182 / frequency.toNat :=
    UInt32.toNat_div _ _
  have count : counts [.outb 0x43 0x36,
      .outb 0x40 ((1193182 / frequency) &&& 0xFF).toUInt8,
      .outb 0x40 (((1193182 / frequency) >>> 8) &&& 0xFF).toUInt8] =
        [1193182 / frequency.toNat % 65536] := by
    change [_ + 256 * _] = _
    rw [lowByte_toNat, highByte_toNat, divisor, List.cons.injEq]
    exact ⟨by omega, rfl⟩
  rw [timerInit, if_neg nonzero, Option.bind_some,
    IntervalTimer.channelPeriod, count]
  rfl

theorem divisor_fits_iff (positive : 0 < frequency.toNat) :
    2 ≤ 1193182 / frequency.toNat ∧ 1193182 / frequency.toNat ≤ 65535 ↔
      19 ≤ frequency.toNat ∧ frequency.toNat ≤ 596591 := by
  have fits : 1193182 / frequency.toNat < 65536 ↔
      1193182 < 65536 * frequency.toNat := Nat.div_lt_iff_lt_mul positive
  rw [Nat.le_div_iff_mul_le positive]
  omega

/-- No divisor is the one that the count 0 stands for. -/
theorem divisor_ne (positive : 0 < frequency.toNat) :
    1193182 / frequency.toNat ≠ 65536 := by
  intro same
  have whole := (Nat.div_eq_iff positive).mp same
  omega

end Rate

/-- Every such timer runs at the divisor that `timer_init` computes exactly for
the frequencies from 19 to 596591. -/
theorem timerInit_period_iff (frequency : UInt32) :
    (∀ timer : IntervalTimer, (timerInit frequency).bind timer.channelPeriod =
        some (1193182 / frequency.toNat)) ↔
      19 ≤ frequency.toNat ∧ frequency.toNat ≤ 596591 := by
  by_cases zero : frequency = 0
  · simp only [zero]
    constructor
    · intro runs
      cases runs strictTimer
    · rintro ⟨slowest, -⟩
      cases slowest
  · have positive : 0 < frequency.toNat := by
      have different : frequency.toNat ≠ 0 :=
        fun same => zero (UInt32.toNat_inj.mp same)
      omega
    have between := divisor_ne positive
    simp only [timerInit_channelPeriod _ zero, ← divisor_fits_iff positive]
    generalize 1193182 / frequency.toNat = divisor at between ⊢
    constructor
    · intro runs
      have strict : (if divisor % 65536 = 0 then some 65536
          else if divisor % 65536 = 1 then none
          else some (divisor % 65536)) = some divisor := runs strictTimer
      split at strict
      · cases strict
        exact absurd rfl between
      · split at strict
        · cases strict
        · have exact := Option.some.inj strict
          omega
    · rintro ⟨several, fits⟩ timer
      rw [Nat.mod_eq_of_lt (by omega)]
      exact timer.squareWave divisor several fits

section Ticks

variable {image : Image} {systemTicks : UInt64} {machine : Machine}

theorem deliver_delivered (steady : Steady image systemTicks machine) (irq : Irq)
    (gated : HasGate irq.line) :
    (deliver image machine irq).delivered = machine.delivered ++ [irq.line] := by
  obtain ⟨pics, isr, -, interrupt, delivers⟩ := deliver_gated steady irq gated
  have handled := interruptHandler_handled (requested machine irq pics) irq.data
    interrupt
  rw [delivers, handled.delivered, requested_delivered]

theorem run_systemTicks (irqs : List Irq) (gated : ∀ irq ∈ irqs, HasGate irq.line)
    (steady : Steady image systemTicks machine) :
    (run (deliver image) machine irqs).systemTicks = systemTicks +
      UInt64.ofNat
        ((machine.delivered ++ irqs.map Irq.line).countP fun line => line.val = 0) := by
  induction irqs generalizing machine with
  | nil => simpa using steady.served.ticks
  | cons irq rest ih =>
      obtain ⟨here, later⟩ := List.forall_mem_cons.mp gated
      rw [run_cons, ih later (steady_deliver steady irq here),
        deliver_delivered steady irq here, List.append_assoc, List.singleton_append,
        List.map_cons]

end Ticks

/-! ## What `uptime` shows -/

/-- After `timer_init(100)` the seconds that are shown are at least those that
have passed, and run ahead by one second in 14550 and the one that has begun. -/
theorem uptime_seconds (timer : IntervalTimer) (image : Image) (pics : Pics)
    (keyboard : KeyboardState) (board : Board) (kernel : Kernel) {period : Nat}
    (programmed : (timerInit 100).bind timer.channelPeriod = some period)
    (clocks : Nat) (fits : clocks / period < 2 ^ 64) (irqs : List Irq)
    (gated : ∀ irq ∈ irqs, HasGate irq.line)
    (raised : irqs.countP (fun irq => irq.line.val = 0) = clocks / period) :
    (∃ after,
      cmdUptime board kernel (run (deliver image) (booted image pics keyboard 0)
        irqs).systemTicks = some after ∧
      after.con = run (charStep board.fb board.font) kernel.con
        (say (CString.ofString "Uptime: ").bytes 0xFFFFFF ++
          say (decimal (clocks / period / 100)) 0x00FF00 ++
          say (CString.ofString " seconds (").bytes 0xFFFFFF ++
          say (decimal (clocks / period)) 0x00FFFF ++
          say (CString.ofString " ticks)\n").bytes 0xFFFFFF)) ∧
    clocks / 1193182 ≤ clocks / period / 100 ∧
    clocks / period / 100 ≤
      clocks / 1193182 + clocks / 1193182 / 14550 + 1 := by
  have rate : (timerInit 100).bind timer.channelPeriod = some 11931 := by
    rw [timerInit_channelPeriod timer (by decide)]
    exact timer.squareWave 11931 (by decide) (by decide)
  obtain rfl : period = 11931 := by
    rw [rate, Option.some.injEq] at programmed
    exact programmed.symm
  have ticks := run_systemTicks irqs gated (steady_booted image pics keyboard 0)
  have counted : (irqs.map Irq.line).countP (fun line => line.val = 0) =
      clocks / 11931 := by
    rw [List.countP_map]
    exact raised
  have value : (run (deliver image) (booted image pics keyboard 0)
      irqs).systemTicks.toNat = clocks / 11931 := by
    rw [ticks, UInt64.zero_add]
    change (UInt64.ofNat ((irqs.map Irq.line).countP _)).toNat = _
    rw [counted, UInt64.toNat_ofNat_of_lt' fits]
  obtain ⟨after, runs, shown⟩ := cmdUptime_does board kernel
    (run (deliver image) (booted image pics keyboard 0) irqs).systemTicks
  refine ⟨⟨after, runs, ?_⟩, by omega, by omega⟩
  have printed := shown.con
  rw [uptimeOps, value] at printed
  exact printed

def hundredTicks : List Irq :=
  List.replicate 60 (requestOn 0 0) ++ requestOn 1 0x1E ::
    List.replicate 40 (requestOn 0 0)

theorem uptime_seconds_hundredTicks :
    ∃ after,
      cmdUptime blankBoard ⟨startConsole fun _ => 0, .enUs, fun _ => 0⟩
        (run (deliver spacedImage)
          (booted spacedImage remapped ⟨.enUs, false, 0⟩ 0)
          hundredTicks).systemTicks = some after ∧
      after.con = run (charStep blankBoard.fb blankBoard.font)
        (startConsole fun _ => 0)
        (say (CString.ofString "Uptime: ").bytes 0xFFFFFF ++
          say (decimal 1) 0x00FF00 ++
          say (CString.ofString " seconds (").bytes 0xFFFFFF ++
          say (decimal 100) 0x00FFFF ++
          say (CString.ofString " ticks)\n").bytes 0xFFFFFF) := by
  have gated : ∀ irq ∈ hundredTicks, HasGate irq.line := by
    intro irq member
    simp only [hundredTicks, List.mem_append, List.mem_cons,
      List.mem_replicate] at member
    obtain ⟨-, rfl⟩ | rfl | ⟨-, rfl⟩ := member <;> decide
  have raised : hundredTicks.countP (fun irq => irq.line.val = 0) =
      1193182 / 11931 := by
    rw [hundredTicks, List.countP_append, List.countP_cons,
      List.countP_replicate, List.countP_replicate]
    rfl
  exact (uptime_seconds strictTimer spacedImage remapped ⟨.enUs, false, 0⟩
    blankBoard ⟨startConsole fun _ => 0, .enUs, fun _ => 0⟩ (by decide) 1193182
    (by decide) hundredTicks gated raised).1

end Lumie.Uptime
