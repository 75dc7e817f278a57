import Lumie.Base.Polling
import Lumie.Drivers.AtaStatus

/-!
# The reset

`reboot` waits until the keyboard controller takes a command and has it pulse
the reset line of the processor.  `status k` is the byte that read number `k` of
port 0x64 returns.
-/

set_option autoImplicit false

namespace Lumie.Power

open FirstIndex WhileLoop Polling
open Lumie.AtaStatus (PortEvent)

/-- `good & 0x02` -/
def inputFull (good : UInt8) : Bool := good &&& 0x02 != 0

def statusRead (status : Nat → UInt8) (k : Nat) : PortEvent :=
  .inb 0x64 (status k)

/-- The port accesses of `reboot` up to its last loop, which halts.  The first
test of `good` succeeds, so the loop reads before it tests. -/
def reboot (status : Nat → UInt8) (fuel : Nat) : Option (List PortEvent) := do
  let (_, reads) ← iterate
    (pollingBody (fun k => inputFull (status k)) fun k => [statusRead status k])
    fuel (0, [])
  some (reads ++ [.outb 0x64 0xFE])

/-- The reads that find the buffer full, the first one that does not, and the
reset behind it. -/
def Resets (status : Nat → UInt8) (events : List PortEvent) : Prop :=
  ∃ n, FirstFrom (fun k => inputFull (status k) = false) 0 n ∧
    events = (List.range (n + 1)).map (statusRead status) ++ [.outb 0x64 0xFE]

theorem reboot_resets {status : Nat → UInt8} {fuel : Nat}
    {events : List PortEvent} (runs : reboot status fuel = some events) :
    Resets status events := by
  obtain ⟨⟨k, reads⟩, polled, same⟩ := Option.bind_eq_some_iff.mp runs
  cases same
  obtain ⟨n, first, -, ends⟩ := polling_iff.mp polled
  cases ends
  refine ⟨n, first, ?_⟩
  rw [List.nil_append, Nat.sub_zero, ← List.range_eq_range',
    List.map_eq_flatMap]

theorem reboot_returns {status : Nat → UInt8} {k : Nat}
    (empty : inputFull (status k) = false) :
    ∃ fuel events, reboot status fuel = some events := by
  obtain ⟨fuel, after, polled⟩ := @polling_ends _
    (fun k => inputFull (status k)) (fun k => [statusRead status k]) 0 k
    (Nat.zero_le k) empty []
  exact ⟨fuel, _, by rw [reboot, polled]; rfl⟩

end Lumie.Power
