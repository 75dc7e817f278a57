import Lumie.Drivers.AtaStatus

/-!
# A sector from the drive

`ata_read_sector` with the drive at the other end of the ports.  The drive
latches the task file, answers status reads for as long as it works and then
hands out the words of the sector, each once.  A drive that is written to while
it works, or read from before it offers data, has no next state here, and
neither has one that is given a command other than the one of the driver.
-/

set_option autoImplicit false

namespace Lumie.AtaDrive

open MachineInt WhileLoop
open Lumie.Ata Lumie.AtaStatus

/-! ## The drive -/

/-- The answers to the status reads of one command: busy, then at rest without
data, and from then on with data. -/
structure Timing where
  working : List UInt8
  settling : List UInt8
  ready : UInt8
  works : ∀ status ∈ working, busy status = true
  settles : ∀ status ∈ settling,
    busy status = false ∧ dataRequest status = false
  offers : busy ready = false ∧ dataRequest ready = true

inductive Phase where
  | idle
  | answering (statuses : List UInt8) (ready : UInt8) (words : List UInt16)

structure Drive where
  /-- All writes to the registers so far. -/
  writes : List (Nat × UInt8)
  phase : Phase

def sectorWords (sector : Sector) : List UInt16 :=
  (List.range 256).map fun k => UInt16.ofNat (u16At sector (2 * k))

def IsRead (writes : List (Nat × UInt8)) (command : UInt8) : Prop :=
  command = 0x20 ∧ latched writes ataPrimarySeccount = 1 ∧
    latched writes ataPrimaryDriveSel &&& 0x50 = 0x40

instance (writes : List (Nat × UInt8)) (command : UInt8) :
    Decidable (IsRead writes command) :=
  inferInstanceAs (Decidable (_ ∧ _))

namespace Drive

def write (disk : Disk) (timing : Timing) (drive : Drive)
    (access : Nat × UInt8) : Option Drive :=
  let writes := drive.writes ++ [access]
  match drive.phase with
  | .answering _ _ _ => none
  | .idle =>
      if access.1 ≠ ataPrimaryCommStat then some ⟨writes, .idle⟩
      else if IsRead writes access.2 then
        some ⟨writes, .answering (timing.working ++ timing.settling) timing.ready
          (sectorWords (disk (taskFileLba writes)))⟩
      else none

def readStatus (drive : Drive) : UInt8 × Drive :=
  match drive.phase with
  | .idle => (0x50, drive)
  | .answering [] ready _ => (ready, drive)
  | .answering (status :: rest) ready words =>
      (status, { drive with phase := .answering rest ready words })

def readWord (drive : Drive) : Option (UInt16 × Drive) :=
  match drive.phase with
  | .answering [] _ [word] => some (word, { drive with phase := .idle })
  | .answering [] ready (word :: rest) =>
      some (word, { drive with phase := .answering [] ready rest })
  | _ => none

end Drive

/-! ## The driver -/

/-- `while (again(inb(ATA_PRIMARY_COMM_STAT)));` -/
def pollBody (again : UInt8 → Bool) (drive : Drive) : Option (Drive ⊕ Drive) :=
  let (status, after) := drive.readStatus
  if again status then some (.inl after) else some (.inr after)

/-- `buffer[k] = word` of a `uint16_t*`. -/
def storeWord (buffer : Sector) (k : Nat) (word : UInt16) : Sector := fun i =>
  if i.val = 2 * k then word.toUInt8
  else if i.val = 2 * k + 1 then (word >>> 8).toUInt8
  else buffer i

/-- `rep insw` with `left` words to go, the next one for `buffer[k]`. -/
def insw : Nat → Nat → Sector → Drive → Option (Sector × Drive)
  | 0, _, buffer, drive => some (buffer, drive)
  | left + 1, k, buffer, drive => do
      let (word, after) ← drive.readWord
      insw left (k + 1) (storeWord buffer k word) after

def ataReadSectorOn (disk : Disk) (timing : Timing) (lba fuel : Nat)
    (buffer : Sector) (drive : Drive) : Option (Sector × Drive) := do
  let commanded ← (ataRegisterWrites lba).foldlM (Drive.write disk timing) drive
  let cleared ← iterate (pollBody busy) fuel commanded
  let offered ← iterate (pollBody fun status => !dataRequest status) fuel cleared
  insw 256 0 buffer offered

theorem latched_append {first second : List (Nat × UInt8)} {port : Nat}
    (again : port ∈ second.map Prod.fst) :
    latched (first ++ second) port = latched second port := by
  have forgets : ∀ (writes : List (Nat × UInt8)) (left right : Nat),
      port ∈ writes.map Prod.fst →
      writes.foldl (fun value write =>
          if write.1 = port then write.2.toNat else value) left =
        writes.foldl (fun value write =>
          if write.1 = port then write.2.toNat else value) right := by
    intro writes
    induction writes with
    | nil =>
        intro _ _ member
        cases member
    | cons write rest ih =>
        intro left right member
        rw [List.foldl_cons, List.foldl_cons]
        by_cases here : write.1 = port
        · rw [if_pos here, if_pos here]
        · have later : port ∈ rest.map Prod.fst :=
            (List.mem_cons.mp member).resolve_left fun same => here same.symm
          exact ih _ _ later
  rw [latched, List.foldl_append]
  exact forgets second _ 0 again

theorem taskFileLba_append (first : List (Nat × UInt8)) (lba : Nat) :
    taskFileLba (first ++ ataRegisterWrites lba) =
      taskFileLba (ataRegisterWrites lba) := by
  have low := @latched_append first (ataRegisterWrites lba) ataPrimaryLbaLo
    (by simp [ataRegisterWrites])
  have mid := @latched_append first (ataRegisterWrites lba) ataPrimaryLbaMid
    (by simp [ataRegisterWrites])
  have high := @latched_append first (ataRegisterWrites lba) ataPrimaryLbaHi
    (by simp [ataRegisterWrites])
  have drive := @latched_append first (ataRegisterWrites lba) ataPrimaryDriveSel
    (by simp [ataRegisterWrites])
  rw [taskFileLba, low, mid, high, drive]
  rfl

theorem driveSelect_mode : ∀ nibble < 16,
    (u8 ((0xE0 ||| nibble : Nat) : Int)).toNat &&& 0x50 = 0x40 := by decide

theorem ataRegisterWrites_isRead (first : List (Nat × UInt8)) (lba : Nat) :
    IsRead (first ++ ataRegisterWrites lba) 0x20 := by
  have count := @latched_append first (ataRegisterWrites lba) ataPrimarySeccount
    (by simp [ataRegisterWrites])
  have select := @latched_append first (ataRegisterWrites lba) ataPrimaryDriveSel
    (by simp [ataRegisterWrites])
  have nibble : (lba >>> 24) &&& 0x0F < 16 := Nat.lt_succ_of_le Nat.and_le_right
  refine ⟨rfl, ?_, ?_⟩
  · rw [count]
    rfl
  · rw [select]
    exact driveSelect_mode _ nibble

def addressWrites (lba : Nat) : List (Nat × UInt8) := (ataRegisterWrites lba).take 5

theorem addressWrites_append (lba : Nat) :
    addressWrites lba ++ [(ataPrimaryCommStat, 0x20)] = ataRegisterWrites lba := rfl

section Command

variable (disk : Disk) (timing : Timing)

theorem write_registers {accesses : List (Nat × UInt8)}
    (registers : ∀ access ∈ accesses, access.1 ≠ ataPrimaryCommStat)
    (writes : List (Nat × UInt8)) :
    accesses.foldlM (Drive.write disk timing) ⟨writes, .idle⟩ =
      some ⟨writes ++ accesses, .idle⟩ := by
  induction accesses generalizing writes with
  | nil => rw [List.append_nil]; rfl
  | cons access rest ih =>
      obtain ⟨here, later⟩ := List.forall_mem_cons.mp registers
      have written : Drive.write disk timing ⟨writes, .idle⟩ access =
          some ⟨writes ++ [access], .idle⟩ := by
        simp only [Drive.write, if_pos here]
      rw [List.foldlM_cons, written]
      change rest.foldlM _ _ = _
      rw [ih later, List.append_assoc, List.singleton_append]

theorem write_command (lba : Nat) (writes : List (Nat × UInt8)) :
    (ataRegisterWrites lba).foldlM (Drive.write disk timing) ⟨writes, .idle⟩ =
      some ⟨writes ++ ataRegisterWrites lba,
        .answering (timing.working ++ timing.settling) timing.ready
          (sectorWords (ataReadSector disk lba))⟩ := by
  have registers : ∀ access ∈ addressWrites lba,
      access.1 ≠ ataPrimaryCommStat := by
    simp [addressWrites, ataRegisterWrites, ataPrimaryCommStat,
      ataPrimaryDriveSel, ataPrimarySeccount, ataPrimaryLbaLo, ataPrimaryLbaMid,
      ataPrimaryLbaHi]
  have joined : writes ++ addressWrites lba ++ [(ataPrimaryCommStat, 0x20)] =
      writes ++ ataRegisterWrites lba := by
    rw [List.append_assoc, addressWrites_append]
  have command : Drive.write disk timing ⟨writes ++ addressWrites lba, .idle⟩
      (ataPrimaryCommStat, 0x20) =
        some ⟨writes ++ ataRegisterWrites lba,
          .answering (timing.working ++ timing.settling) timing.ready
            (sectorWords (ataReadSector disk lba))⟩ := by
    simp only [Drive.write, joined, ne_eq, not_true_eq_false, if_false,
      if_pos (ataRegisterWrites_isRead writes lba), taskFileLba_append]
    rfl
  have split := addressWrites_append lba
  rw [← split, List.foldlM_append, write_registers disk timing registers]
  change ([(ataPrimaryCommStat, (0x20 : UInt8))].foldlM _ _ : Option Drive) = _
  rw [List.foldlM_cons, command, ← split]
  rfl

end Command

section Poll

variable {again : UInt8 → Bool} {ready : UInt8} {words : List UInt16}
  {writes : List (Nat × UInt8)}

theorem poll_skip {skipped : List UInt8}
    (holds : ∀ status ∈ skipped, again status = true) (rest : List UInt8)
    (fuel : Nat) :
    iterate (pollBody again) (skipped.length + fuel)
        ⟨writes, .answering (skipped ++ rest) ready words⟩ =
      iterate (pollBody again) fuel ⟨writes, .answering rest ready words⟩ := by
  induction skipped with
  | nil => rw [List.length_nil, Nat.zero_add, List.nil_append]
  | cons status others ih =>
      obtain ⟨here, later⟩ := List.forall_mem_cons.mp holds
      have moves : pollBody again
          ⟨writes, .answering (status :: (others ++ rest)) ready words⟩ =
            some (.inl ⟨writes, .answering (others ++ rest) ready words⟩) :=
        if_pos here
      rw [List.length_cons, Nat.add_right_comm, List.cons_append,
        iterate_next _ moves, ih later]

theorem poll_status {status : UInt8} (stops : again status = false)
    (rest : List UInt8) (fuel : Nat) :
    iterate (pollBody again) (fuel + 1)
        ⟨writes, .answering (status :: rest) ready words⟩ =
      some ⟨writes, .answering rest ready words⟩ := by
  apply iterate_stop
  exact if_neg (by rw [stops]; exact Bool.false_ne_true)

theorem poll_ready (stops : again ready = false) (fuel : Nat) :
    iterate (pollBody again) (fuel + 1) ⟨writes, .answering [] ready words⟩ =
      some ⟨writes, .answering [] ready words⟩ := by
  apply iterate_stop
  exact if_neg (by rw [stops]; exact Bool.false_ne_true)

end Poll

section Loops

variable (timing : Timing) (writes : List (Nat × UInt8)) (words : List UInt16)

/-- The first loop takes one answer behind the busy ones. -/
theorem busyLoop {fuel : Nat} (enough : timing.working.length < fuel) :
    iterate (pollBody busy) fuel
        ⟨writes, .answering (timing.working ++ timing.settling) timing.ready words⟩ =
      some ⟨writes, .answering timing.settling.tail timing.ready words⟩ := by
  obtain ⟨more, rfl⟩ : ∃ more, fuel = timing.working.length + (more + 1) :=
    ⟨fuel - timing.working.length - 1, by omega⟩
  rw [poll_skip timing.works]
  cases settling : timing.settling with
  | nil => exact poll_ready timing.offers.1 more
  | cons status rest =>
      have atRest := (timing.settles status (by simp [settling])).1
      exact poll_status atRest rest more

/-- The second loop goes up to the answer that offers data. -/
theorem requestLoop {fuel : Nat} (enough : timing.settling.length < fuel) :
    iterate (pollBody fun status => !dataRequest status) fuel
        ⟨writes, .answering timing.settling.tail timing.ready words⟩ =
      some ⟨writes, .answering [] timing.ready words⟩ := by
  have shorter : timing.settling.tail.length ≤ timing.settling.length := by
    rw [List.length_tail]
    omega
  obtain ⟨more, rfl⟩ : ∃ more, fuel = timing.settling.tail.length + (more + 1) :=
    ⟨fuel - timing.settling.tail.length - 1, by omega⟩
  have holds : ∀ status ∈ timing.settling.tail, (!dataRequest status) = true := by
    intro status member
    rw [(timing.settles status (List.mem_of_mem_tail member)).2]
    rfl
  have skips := @poll_skip _ timing.ready words writes _ holds [] (more + 1)
  rw [List.append_nil] at skips
  rw [skips]
  exact poll_ready (by rw [timing.offers.2]; rfl) more

end Loops

def stored (buffer : Sector) (k : Nat) (words : List UInt16) : Sector :=
  words.zipIdx k |>.foldl (fun filled entry => storeWord filled entry.2 entry.1)
    buffer

theorem insw_words {words : List UInt16} (nonempty : words ≠ [])
    (writes : List (Nat × UInt8)) (ready : UInt8) (k : Nat) (buffer : Sector) :
    insw words.length k buffer ⟨writes, .answering [] ready words⟩ =
      some (stored buffer k words, ⟨writes, .idle⟩) := by
  induction words generalizing k buffer with
  | nil => exact absurd rfl nonempty
  | cons word rest ih =>
      cases rest with
      | nil => rfl
      | cons next more =>
          have later := ih (List.cons_ne_nil next more) (k + 1)
            (storeWord buffer k word)
          exact later

def wordByte (word : UInt16) (parity : Nat) : UInt8 :=
  if parity = 0 then word.toUInt8 else (word >>> 8).toUInt8

theorem storeWord_apply (buffer : Sector) (k : Nat) (word : UInt16)
    (i : Fin 512) :
    storeWord buffer k word i =
      if i.val / 2 = k then wordByte word (i.val % 2) else buffer i := by
  unfold storeWord wordByte
  by_cases even : i.val = 2 * k
  · have half : i.val / 2 = k := by omega
    have parity : i.val % 2 = 0 := by omega
    rw [if_pos even, if_pos half, if_pos parity]
  · by_cases odd : i.val = 2 * k + 1
    · have half : i.val / 2 = k := by omega
      have parity : ¬ i.val % 2 = 0 := by omega
      rw [if_neg even, if_pos odd, if_pos half, if_neg parity]
    · have other : ¬ i.val / 2 = k := by omega
      rw [if_neg even, if_neg odd, if_neg other]

theorem stored_apply (buffer : Sector) (words : List UInt16) (k : Nat)
    (i : Fin 512) :
    stored buffer k words i =
      if k ≤ i.val / 2 ∧ i.val / 2 < k + words.length then
        wordByte (words.getD (i.val / 2 - k) 0) (i.val % 2)
      else buffer i := by
  induction words generalizing k buffer with
  | nil =>
      have outside : ¬ (k ≤ i.val / 2 ∧ i.val / 2 < k + 0) := by omega
      exact (if_neg outside).symm
  | cons word rest ih =>
      have later := ih (storeWord buffer k word) (k + 1)
      have unfolds : stored buffer k (word :: rest) =
          stored (storeWord buffer k word) (k + 1) rest := rfl
      rw [unfolds, later, storeWord_apply, List.length_cons]
      by_cases here : i.val / 2 = k
      · have notLater : ¬ (k + 1 ≤ i.val / 2 ∧
            i.val / 2 < k + 1 + rest.length) := by omega
        have inside : k ≤ i.val / 2 ∧ i.val / 2 < k + (rest.length + 1) := by omega
        rw [if_neg notLater, if_pos here, if_pos inside, here, Nat.sub_self,
          List.getD_cons_zero]
      · by_cases inRest : k + 1 ≤ i.val / 2 ∧ i.val / 2 < k + 1 + rest.length
        · have inside : k ≤ i.val / 2 ∧ i.val / 2 < k + (rest.length + 1) := by
            omega
          have shift : i.val / 2 - k = i.val / 2 - (k + 1) + 1 := by omega
          rw [if_pos inRest, if_pos inside, shift, List.getD_cons_succ]
        · have outside : ¬ (k ≤ i.val / 2 ∧
              i.val / 2 < k + (rest.length + 1)) := by omega
          rw [if_neg inRest, if_neg here, if_neg outside]

theorem wordByte_u16At (sector : Sector) (i : Fin 512) :
    wordByte (UInt16.ofNat (u16At sector (2 * (i.val / 2)))) (i.val % 2) =
      sector i := by
  have inside := i.isLt
  have low := (byteAt sector (2 * (i.val / 2))).toNat_lt
  have high := (byteAt sector (2 * (i.val / 2) + 1)).toNat_lt
  have here : byteAt sector i.val = sector i := dif_pos inside
  apply UInt8.toNat_inj.mp
  unfold wordByte u16At
  by_cases even : i.val % 2 = 0
  · have place : 2 * (i.val / 2) = i.val := by omega
    rw [if_pos even, UInt16.toNat_toUInt8, UInt16.toNat_ofNat']
    rw [place, here] at low ⊢
    omega
  · have place : 2 * (i.val / 2) + 1 = i.val := by omega
    rw [if_neg even, UInt16.toNat_toUInt8, UInt16.toNat_shiftRight,
      UInt16.toNat_ofNat']
    rw [place, here] at high ⊢
    change (_ % 2 ^ 16) >>> 8 % 2 ^ 8 = _
    rw [Nat.shiftRight_eq_div_pow]
    omega

theorem sectorWords_length (sector : Sector) : (sectorWords sector).length = 256 := by
  rw [sectorWords, List.length_map, List.length_range]

/-- The words of a sector put together again are the sector, whatever was in
the buffer. -/
theorem stored_sectorWords (buffer sector : Sector) :
    stored buffer 0 (sectorWords sector) = sector := by
  funext i
  have length := sectorWords_length sector
  have inside : i.val / 2 < 256 := by omega
  have word : (sectorWords sector).getD (i.val / 2) 0 =
      UInt16.ofNat (u16At sector (2 * (i.val / 2))) := by
    rw [List.getD_eq_getElem _ _ (by omega)]
    simp [sectorWords]
  rw [stored_apply, length, if_pos ⟨Nat.zero_le _, by omega⟩, Nat.sub_zero, word,
    wordByte_u16At]

/-! ## Reading -/

/-- A call on a drive at rest comes back with the sector, and leaves the drive
at rest. -/
theorem ataReadSectorOn_returns (disk : Disk) (timing : Timing) (lba : Nat)
    {fuel : Nat} (enough : timing.working.length < fuel ∧
      timing.settling.length < fuel) (buffer : Sector)
    (writes : List (Nat × UInt8)) :
    ataReadSectorOn disk timing lba fuel buffer ⟨writes, .idle⟩ =
      some (ataReadSector disk lba, ⟨writes ++ ataRegisterWrites lba, .idle⟩) := by
  have length := sectorWords_length (ataReadSector disk lba)
  have nonempty : sectorWords (ataReadSector disk lba) ≠ [] := by
    intro empty
    rw [empty] at length
    cases length
  have reads := insw_words nonempty (writes ++ ataRegisterWrites lba) timing.ready
    0 buffer
  rw [length, stored_sectorWords] at reads
  -- `simp` would count the words of `insw` down, so the steps are rewritten
  rw [ataReadSectorOn, write_command, Option.bind_eq_bind, Option.bind_some,
    busyLoop timing _ _ enough.1, Option.bind_some,
    requestLoop timing _ _ enough.2, Option.bind_some]
  exact reads

structure Call where
  lba : Nat
  timing : Timing
  /-- What is in the buffer before. -/
  buffer : Sector

def readSectors (disk : Disk) (fuel : Nat) :
    List Call → Drive → Option (List Sector × Drive)
  | [], drive => some ([], drive)
  | call :: rest, drive => do
      let (sector, after) ←
        ataReadSectorOn disk call.timing call.lba fuel call.buffer drive
      let (sectors, last) ← readSectors disk fuel rest after
      return (sector :: sectors, last)

/-- Whatever the drive takes for each command, all calls come back, each with
its own sector, and the drive is at rest behind them. -/
theorem readSectors_returns (disk : Disk) (calls : List Call)
    (writes : List (Nat × UInt8)) :
    ∃ enough, ∀ fuel ≥ enough,
      readSectors disk fuel calls ⟨writes, .idle⟩ =
        some (calls.map fun call => disk (call.lba % 2 ^ 28),
          ⟨writes ++ calls.flatMap fun call => ataRegisterWrites call.lba,
            .idle⟩) := by
  induction calls generalizing writes with
  | nil =>
      refine ⟨0, ?_⟩
      intro fuel _
      rw [List.flatMap_nil, List.append_nil]
      rfl
  | cons call rest ih =>
      obtain ⟨enough, later⟩ := ih (writes ++ ataRegisterWrites call.lba)
      refine ⟨enough + call.timing.working.length + call.timing.settling.length + 1,
        ?_⟩
      intro fuel bound
      have returns := @ataReadSectorOn_returns disk call.timing call.lba fuel
        ⟨by omega, by omega⟩ call.buffer writes
      have sector : ataReadSector disk call.lba = disk (call.lba % 2 ^ 28) := by
        rw [ataReadSector, taskFileLba_eq]
      simp only [readSectors, returns, later fuel (by omega), sector,
        Option.bind_eq_bind, Option.bind_some, List.map_cons, List.flatMap_cons,
        List.append_assoc]
      rfl

end Lumie.AtaDrive
