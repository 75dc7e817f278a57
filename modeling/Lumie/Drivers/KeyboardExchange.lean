import Lumie.Drivers.KeyboardInit
import Lumie.Drivers.Power

/-!
# The exchange of `keyboard_init`

`keyboard_init` polls the keyboard controller three times: until its output
buffer is empty, until the reply to command 0x20 stands there and until its
input buffer takes the new configuration.  `status k` is the byte that read
number `k` of port 0x64 returns, `data k` what port 0x60 holds at that read.
`exchanged_run` finds these bytes in every call on the controller of
`KeyboardInit`.
-/

set_option autoImplicit false

namespace Lumie.KeyboardExchange

open FirstIndex FoldRun WhileLoop Polling
open Lumie.AtaStatus (PortEvent)
open Lumie.KeyboardInit
open Lumie.Power (inputFull statusRead)

/-- `inb(0x64) & 1` -/
def outputFull (status : UInt8) : Bool := status &&& 1 != 0

/-- One turn of `while (inb(0x64) & 1) inb(0x60);` -/
def drainTurn (status data : Nat → UInt8) (k : Nat) : List PortEvent :=
  statusRead status k ::
    if outputFull (status k) then [.inb 0x60 (data k)] else []

/-- The port accesses of `keyboard_init`, with `fuel` turns for each loop.  The
configuration is read behind the last status read of the second loop. -/
def keyboardInitRun (status data : Nat → UInt8) (fuel : Nat) :
    Option (List PortEvent) := do
  let (k, drained) ← iterate
    (pollingBody (fun k => outputFull (status k)) (drainTurn status data))
    fuel (0, [])
  let requested := drained ++ [.outb 0x64 0xAE, .outb 0x64 0x20]
  let (k, replied) ← iterate
    (pollingBody (fun k => !outputFull (status k))
      fun k => [statusRead status k])
    fuel (k, requested)
  let cb := data (k - 1)
  let announced := replied ++ [.inb 0x60 cb, .outb 0x64 0x60]
  let (_, accepted) ← iterate
    (pollingBody (fun k => inputFull (status k)) fun k => [statusRead status k])
    fuel (k, announced)
  some (accepted ++ [.outb 0x60 (enabled cb)])

/-- The last status reads of the three loops. -/
structure Ends (status : Nat → UInt8) (drained replied accepted : Nat) :
    Prop where
  empty : FirstFrom (fun k => outputFull (status k) = false) 0 drained
  reply : FirstFrom (fun k => outputFull (status k) = true) (drained + 1)
    replied
  ready : FirstFrom (fun k => inputFull (status k) = false) (replied + 1)
    accepted

def exchange (status data : Nat → UInt8) (drained replied accepted : Nat) :
    List PortEvent :=
  (List.range (drained + 1)).flatMap (drainTurn status data) ++
    [.outb 0x64 0xAE, .outb 0x64 0x20] ++
    (List.range' (drained + 1) (replied - drained)).map (statusRead status) ++
    [.inb 0x60 (data replied), .outb 0x64 0x60] ++
    (List.range' (replied + 1) (accepted - replied)).map (statusRead status) ++
    [.outb 0x60 (enabled (data replied))]

section Runs

variable {status data : Nat → UInt8} {fuel : Nat}

theorem keyboardInitRun_iff {events : List PortEvent} :
    keyboardInitRun status data fuel = some events ↔
      ∃ i j l, Ends status i j l ∧ i < fuel ∧ j < i + 1 + fuel ∧
        l < j + 1 + fuel ∧ events = exchange status data i j l := by
  have filled : (fun k => (!outputFull (status k)) = false) =
      fun k => outputFull (status k) = true := by
    funext k
    simp
  simp only [keyboardInitRun, Option.bind_eq_bind, Option.bind_eq_some_iff,
    Option.some.injEq, Prod.exists, polling_iff, filled, Prod.mk.injEq]
  constructor
  · rintro ⟨_, _, ⟨i, first, few, rfl, rfl⟩, _, _, ⟨j, second, more, rfl, rfl⟩,
      _, _, ⟨l, third, most, rfl, rfl⟩, rfl⟩
    refine ⟨i, j, l, ⟨first, second, third⟩, by omega, more, most, ?_⟩
    simp only [exchange, List.nil_append, Nat.sub_zero, Nat.add_sub_add_right,
      Nat.add_sub_cancel, List.range_eq_range', List.map_eq_flatMap]
  · rintro ⟨i, j, l, ends, few, more, most, rfl⟩
    refine ⟨_, _, ⟨i, ends.empty, by omega, rfl, rfl⟩, _, _,
      ⟨j, ends.reply, more, rfl, rfl⟩, _, _,
      ⟨l, ends.ready, most, rfl, rfl⟩, ?_⟩
    simp only [exchange, List.nil_append, Nat.sub_zero, Nat.add_sub_add_right,
      Nat.add_sub_cancel, List.range_eq_range', List.map_eq_flatMap]

def Exchanges (status : Nat → UInt8) : Prop :=
  ∃ drained replied accepted, Ends status drained replied accepted

theorem keyboardInitRun_ends (data : Nat → UInt8)
    {drained replied accepted : Nat} (ends : Ends status drained replied accepted)
    (enough : accepted < fuel) :
    keyboardInitRun status data fuel =
      some (exchange status data drained replied accepted) := by
  have first := ends.reply.reached
  have second := ends.ready.reached
  exact keyboardInitRun_iff.mpr
    ⟨drained, replied, accepted, ends, by omega, by omega, by omega, rfl⟩

theorem keyboardInitRun_returns (data : Nat → UInt8)
    (exchanges : Exchanges status) :
    ∃ enough, ∀ fuel ≥ enough, ∃ events,
      keyboardInitRun status data fuel = some events := by
  obtain ⟨i, j, l, ends⟩ := exchanges
  exact ⟨l + 1, fun fuel enough => ⟨_, keyboardInitRun_ends data ends enough⟩⟩

/-- Where one of its loops has no end, no number of turns is enough. -/
theorem keyboardInitRun_stuck (data : Nat → UInt8)
    (endless : ¬ Exchanges status) (fuel : Nat) :
    keyboardInitRun status data fuel = none := by
  rw [Option.eq_none_iff_forall_not_mem]
  intro events run
  obtain ⟨i, j, l, ends, -⟩ := keyboardInitRun_iff.mp run
  exact endless ⟨i, j, l, ends⟩

end Runs

/-! ## Calls on the controller -/

/-- The port accesses of a step of `keyboard_init`. -/
def accesses (session : Session) : List PortEvent :=
  let controller := session.controller
  match session.pc with
  | .setLayout => []
  | .drainTest => [.inb 0x64 controller.status]
  | .drainTake => [.inb 0x60 controller.output]
  | .enable => [.outb 0x64 0xAE]
  | .request => [.outb 0x64 0x20]
  | .waitReply => [.inb 0x64 controller.status]
  | .takeReply => [.inb 0x60 controller.output]
  | .announce => [.outb 0x64 0x60]
  | .waitInput => [.inb 0x64 controller.status]
  | .store => [.outb 0x60 session.cb]
  | .done => []

def exchanged : Session → List Step → List PortEvent
  | _, [] => []
  | session, .main :: rest => accesses session ++ exchanged (step session .main) rest
  | session, action :: rest => exchanged (step session action) rest

/-- One more byte in front of those that are read. -/
def consRead (byte : UInt8) (bytes : Nat → UInt8) : Nat → UInt8
  | 0 => byte
  | k + 1 => bytes k

/-- What is left of a call in its last loop. -/
def Accepting (value : UInt8) (events : List PortEvent) : Prop :=
  ∃ status accepted,
    FirstFrom (fun k => inputFull (status k) = false) 0 accepted ∧
    events = (List.range' 0 (accepted + 1)).map (statusRead status) ++
      [.outb 0x60 value]

/-- What is left of a call in its second loop. -/
def Replying (events : List PortEvent) : Prop :=
  ∃ status cb replied accepted,
    FirstFrom (fun k => outputFull (status k) = true) 0 replied ∧
    FirstFrom (fun k => inputFull (status k) = false) (replied + 1) accepted ∧
    events = (List.range' 0 (replied + 1)).map (statusRead status) ++
      [.inb 0x60 cb, .outb 0x64 0x60] ++
      (List.range' (replied + 1) (accepted - replied)).map (statusRead status) ++
      [.outb 0x60 (enabled cb)]

def Draining (events : List PortEvent) : Prop :=
  ∃ status data drained replied accepted, Ends status drained replied accepted ∧
    events = exchange status data drained replied accepted

section Reads

variable {test : UInt8 → Prop} {byte : UInt8} {bytes : Nat → UInt8}

theorem consRead_first {start index : Nat} :
    FirstFrom (fun k => test (consRead byte bytes k)) (start + 1) (index + 1) ↔
      FirstFrom (fun k => test (bytes k)) start index := by
  constructor
  · rintro ⟨reached, meets, least⟩
    exact ⟨by omega, meets, fun earlier reaches below =>
      least (earlier + 1) (by omega) (by omega)⟩
  · rintro ⟨reached, meets, least⟩
    refine ⟨by omega, meets, fun earlier reaches below => ?_⟩
    obtain ⟨before, rfl⟩ := Nat.exists_eq_add_of_le' (Nat.le_of_add_left_le reaches)
    exact least before (by omega) (by omega)

theorem consRead_here (here : test byte) :
    FirstFrom (fun k => test (consRead byte bytes k)) 0 0 :=
  (firstFrom_here here).mpr rfl

theorem consRead_skip (notHere : ¬ test byte) {index : Nat}
    (first : FirstFrom (fun k => test (bytes k)) 0 index) :
    FirstFrom (fun k => test (consRead byte bytes k)) 0 (index + 1) :=
  (firstFrom_next notHere).mpr (consRead_first.mpr first)

theorem statusReads_succ (start count : Nat) :
    (List.range' (start + 1) count).map (statusRead (consRead byte bytes)) =
      (List.range' start count).map (statusRead bytes) := by
  rw [List.range'_succ_left, List.map_map]
  rfl

theorem statusReads_zero (count : Nat) :
    (List.range' 0 (count + 1)).map (statusRead (consRead byte bytes)) =
      .inb 0x64 byte :: (List.range' 0 count).map (statusRead bytes) := by
  rw [List.range'_succ, List.map_cons, statusReads_succ]
  rfl

end Reads

section Loops

variable {byte value : UInt8} {events : List PortEvent}

theorem Accepting.last (free : inputFull byte = false) :
    Accepting value [.inb 0x64 byte, .outb 0x60 value] :=
  ⟨fun _ => byte, 0, (firstFrom_here free).mpr rfl, rfl⟩

theorem Accepting.again (full : inputFull byte = true)
    (later : Accepting value events) :
    Accepting value (.inb 0x64 byte :: events) := by
  obtain ⟨status, accepted, ready, rfl⟩ := later
  have notFree : ¬ inputFull byte = false := by simp [full]
  refine ⟨consRead byte status, accepted + 1,
    @consRead_skip (fun byte => inputFull byte = false) _ _ notFree _ ready, ?_⟩
  rw [statusReads_zero]
  rfl

theorem Replying.last (full : outputFull byte = true) {cb : UInt8}
    (later : Accepting (enabled cb) events) :
    Replying (.inb 0x64 byte :: .inb 0x60 cb :: .outb 0x64 0x60 :: events) := by
  obtain ⟨status, accepted, ready, rfl⟩ := later
  refine ⟨consRead byte status, cb, 0, accepted + 1,
    @consRead_here (fun byte => outputFull byte = true) _ _ full,
    (@consRead_first (fun byte => inputFull byte = false) _ _ _ _).mpr ready, ?_⟩
  rw [statusReads_zero, statusReads_succ]
  rfl

theorem Replying.again (empty : outputFull byte = false)
    (later : Replying events) : Replying (.inb 0x64 byte :: events) := by
  obtain ⟨status, cb, replied, accepted, reply, ready, rfl⟩ := later
  have notFull : ¬ outputFull byte = true := by simp [empty]
  refine ⟨consRead byte status, cb, replied + 1, accepted + 1,
    @consRead_skip (fun byte => outputFull byte = true) _ _ notFull _ reply,
    (@consRead_first (fun byte => inputFull byte = false) _ _ _ _).mpr ready, ?_⟩
  rw [statusReads_zero, statusReads_succ, Nat.add_sub_add_right]
  rfl

theorem Draining.last (empty : outputFull byte = false)
    (later : Replying events) :
    Draining (.inb 0x64 byte :: .outb 0x64 0xAE :: .outb 0x64 0x20 :: events) := by
  obtain ⟨status, cb, replied, accepted, reply, ready, rfl⟩ := later
  refine ⟨consRead byte status, fun _ => cb, 0, replied + 1, accepted + 1,
    ⟨@consRead_here (fun byte => outputFull byte = false) _ _ empty,
      (@consRead_first (fun byte => outputFull byte = true) _ _ _ _).mpr reply,
      (@consRead_first (fun byte => inputFull byte = false) _ _ _ _).mpr ready⟩,
    ?_⟩
  have first : drainTurn (consRead byte status) (fun _ => cb) 0 =
      [.inb 0x64 byte] := by
    simp [drainTurn, consRead, statusRead, empty]
  have turns : (List.range (0 + 1)).flatMap
      (drainTurn (consRead byte status) fun _ => cb) = [.inb 0x64 byte] := by
    rw [Nat.zero_add, List.range_one, List.flatMap_cons, first]
    rfl
  rw [exchange, turns, statusReads_succ, statusReads_succ,
    Nat.add_sub_add_right, Nat.sub_zero]
  rfl

theorem Draining.again (full : outputFull byte = true) (scancode : UInt8)
    (later : Draining events) :
    Draining (.inb 0x64 byte :: .inb 0x60 scancode :: events) := by
  obtain ⟨status, data, drained, replied, accepted, ends, rfl⟩ := later
  have notEmpty : ¬ outputFull byte = false := by simp [full]
  refine ⟨consRead byte status, consRead scancode data, drained + 1, replied + 1,
    accepted + 1,
    ⟨@consRead_skip (fun byte => outputFull byte = false) _ _ notEmpty _ ends.empty,
      (@consRead_first (fun byte => outputFull byte = true) _ _ _ _).mpr ends.reply,
      (@consRead_first (fun byte => inputFull byte = false) _ _ _ _).mpr
        ends.ready⟩, ?_⟩
  have first : drainTurn (consRead byte status) (consRead scancode data) 0 =
      [.inb 0x64 byte, .inb 0x60 scancode] := by
    simp [drainTurn, consRead, statusRead, full]
  have turns : (List.range (drained + 1 + 1)).flatMap
      (drainTurn (consRead byte status) (consRead scancode data)) =
      .inb 0x64 byte :: .inb 0x60 scancode ::
        (List.range (drained + 1)).flatMap (drainTurn status data) := by
    rw [List.range_succ_eq_map, List.flatMap_cons, first, List.flatMap_map]
    rfl
  rw [exchange, exchange, turns, statusReads_succ, statusReads_succ,
    Nat.add_sub_add_right, Nat.add_sub_add_right]
  rfl

end Loops

/-- The port accesses that a call still makes from here on. -/
def Remaining (value : UInt8) (events : List PortEvent) : Pc → Prop
  | .setLayout => Draining events
  | .drainTest => Draining events
  | .drainTake => ∃ scancode rest,
      events = .inb 0x60 scancode :: rest ∧ Draining rest
  | .enable => ∃ rest,
      events = .outb 0x64 0xAE :: .outb 0x64 0x20 :: rest ∧ Replying rest
  | .request => ∃ rest, events = .outb 0x64 0x20 :: rest ∧ Replying rest
  | .waitReply => Replying events
  | .takeReply => ∃ cb rest,
      events = .inb 0x60 cb :: .outb 0x64 0x60 :: rest ∧
        Accepting (enabled cb) rest
  | .announce => ∃ rest,
      events = .outb 0x64 0x60 :: rest ∧ Accepting value rest
  | .waitInput => Accepting value events
  | .store => events = [.outb 0x60 value]
  | .done => events = []

theorem status_outputFull (byte : UInt8) :
    outputFull byte = false ↔ byte &&& 1 = 0 := by
  simp [outputFull]

theorem status_inputFull (byte : UInt8) :
    inputFull byte = false ↔ byte &&& 2 = 0 := by
  simp [inputFull]

theorem remaining_main {session : Session} {events : List PortEvent}
    (later : Remaining (mainStep session).cb events (mainStep session).pc) :
    Remaining session.cb (accesses session ++ events) session.pc := by
  cases at_ : session.pc with
  | setLayout =>
      simp only [mainStep, accesses, at_] at later ⊢
      exact later
  | drainTest =>
      simp only [mainStep, accesses, at_] at later ⊢
      by_cases empty : session.controller.status &&& 1 = 0
      · rw [if_pos empty] at later
        obtain ⟨rest, rfl, replying⟩ := later
        exact Draining.last ((status_outputFull _).mpr empty) replying
      · rw [if_neg empty] at later
        obtain ⟨scancode, rest, rfl, draining⟩ := later
        rw [← status_outputFull, Bool.not_eq_false] at empty
        exact Draining.again empty scancode draining
  | drainTake =>
      simp only [mainStep, accesses, at_] at later ⊢
      exact ⟨_, events, rfl, later⟩
  | enable =>
      simp only [mainStep, accesses, at_] at later ⊢
      obtain ⟨rest, rfl, replying⟩ := later
      exact ⟨rest, rfl, replying⟩
  | request =>
      simp only [mainStep, accesses, at_] at later ⊢
      exact ⟨events, rfl, later⟩
  | waitReply =>
      simp only [mainStep, accesses, at_] at later ⊢
      by_cases empty : session.controller.status &&& 1 = 0
      · rw [if_pos empty, at_] at later
        exact Replying.again ((status_outputFull _).mpr empty) later
      · rw [if_neg empty] at later
        obtain ⟨cb, rest, rfl, accepting⟩ := later
        rw [← status_outputFull, Bool.not_eq_false] at empty
        exact Replying.last empty accepting
  | takeReply =>
      simp only [mainStep, accesses, at_] at later ⊢
      obtain ⟨rest, rfl, accepting⟩ := later
      exact ⟨_, rest, rfl, accepting⟩
  | announce =>
      simp only [mainStep, accesses, at_] at later ⊢
      exact ⟨events, rfl, later⟩
  | waitInput =>
      simp only [mainStep, accesses, at_] at later ⊢
      by_cases free : session.controller.status &&& 2 = 0
      · rw [if_pos free] at later
        rw [show events = [.outb 0x60 session.cb] from later]
        exact Accepting.last ((status_inputFull _).mpr free)
      · rw [if_neg free, at_] at later
        rw [← status_inputFull, Bool.not_eq_false] at free
        exact Accepting.again free later
  | store =>
      simp only [mainStep, accesses, at_] at later ⊢
      rw [show events = [] from later]
      rfl
  | done =>
      simp only [mainStep, accesses, at_] at later ⊢
      exact later

theorem remaining_run {session : Session} {steps : List Step}
    (noCall : ∀ args, .call args ∉ steps)
    (returned : (run step session steps).pc = .done) :
    Remaining session.cb (exchanged session steps) session.pc := by
  induction steps generalizing session with
  | nil =>
      rw [run_nil] at returned
      rw [returned]
      rfl
  | cons action rest ih =>
      have others : ∀ args, .call args ∉ rest :=
        fun args member => noCall args (List.mem_cons_of_mem _ member)
      have later := ih others returned
      cases action with
      | call args => exact absurd List.mem_cons_self (noCall args)
      | key scancode => exact later
      | answer => exact later
      | accept => exact later
      | interrupt =>
          have place : (step session .interrupt).pc = session.pc ∧
              (step session .interrupt).cb = session.cb := by
            simp only [step, interruptStep]
            split <;> exact ⟨rfl, rfl⟩
          rw [place.1, place.2] at later
          exact later
      | main => exact remaining_main later

/-- Whatever comes between the steps of a call that returns, its port accesses
are those of `keyboardInitRun` on the bytes it has read. -/
theorem exchanged_run {session : Session} {steps : List Step}
    (called : session.pc = .setLayout) (noCall : ∀ args, .call args ∉ steps)
    (returned : (run step session steps).pc = .done) :
    ∃ status data enough, Exchanges status ∧ ∀ fuel ≥ enough,
      keyboardInitRun status data fuel = some (exchanged session steps) := by
  have remaining := remaining_run noCall returned
  rw [called] at remaining
  obtain ⟨status, data, i, j, l, ends, events⟩ := remaining
  rw [events]
  exact ⟨status, data, l + 1, ⟨i, j, l, ends⟩, fun fuel enough =>
    keyboardInitRun_ends data ends enough⟩

end Lumie.KeyboardExchange
