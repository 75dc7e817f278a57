import Lumie.Drivers.FatLookup
import Lumie.Drivers.FatName
import Lumie.Drivers.KeyboardExchange
import Lumie.Lib.UintToString
import Lumie.Shell.CatDisk
import Lumie.Shell.Dispatch

/-!
# The commands of the shell

The handlers of `shell.c` on the state that the kernel keeps between them: the
console, the keyboard layout and the buffer of `uint_to_string`.  `ls` and `cat`
poll the drive for each sector and `layout` the keyboard controller; the handler
is followed for a number of turns of each loop.  A `Reply` says what a handler
does without that state: the characters it prints, the layout it leaves in force
and whether it comes back.
-/

set_option autoImplicit false

namespace Lumie.Commands

open FirstIndex FoldRun StoreTrace
open Lumie.Strings Lumie.Screen Lumie.Ata Lumie.Fat Lumie.FatLookup Lumie.FatName
open Lumie.AtaStatus Lumie.Keyboard Lumie.KeyboardExchange Lumie.UintToString
open Lumie.Cat Lumie.CatDisk Lumie.Dispatch

structure Board where
  fb : Framebuffer
  font : Font
  disk : Disk
  bootSector : Sector

def blankBoard : Board :=
  ⟨⟨800, 600, 3200⟩, letterFont, fun _ _ => 0, fun _ => 0⟩

structure Kernel where
  con : Console
  currentLayout : Layout
  uintBuf : Nat → UInt8

/-- The bytes that the keyboard controller returns to `keyboard_init`, and the
drive's status bytes while it is asked for the root directory and for a file.
Each polling loop is followed for `fuel` turns. -/
structure Devices where
  controllerStatus : Nat → UInt8
  controllerData : Nat → UInt8
  rootStatus : Nat → UInt8
  fileStatus : Nat → UInt8
  fuel : Nat

structure Moment where
  systemTicks : UInt64
  stackBehind : Nat → UInt8
  devices : Devices

/-- Where a handler stops: in the loop at the end of `reboot`, at the exception
of a division by zero or in a polling loop that has not ended. -/
inductive Halt where
  | reboot
  | divideError
  | polling
  deriving DecidableEq, Repr

namespace Kernel

def kprint (board : Board) (kernel : Kernel) (call : PrintCall) : Kernel :=
  { kernel with
    con := Screen.kprint board.fb board.font kernel.con call.str
      (UInt32.ofNat call.color) }

def kprints (board : Board) (kernel : Kernel) (calls : List PrintCall) :
    Kernel :=
  calls.foldl (Kernel.kprint board) kernel

/-- `kprint(uint_to_string(n), color)`.  The string is read from the static
buffer, which ends behind its 32 bytes. -/
def kprintUint (board : Board) (kernel : Kernel) (n : UInt64) (color : Nat) :
    Option Kernel := do
  let call := uintToString n
  let uintBuf := applyStores kernel.uintBuf call.stores
  let str ← stringFrom uintBuf (32 - call.pointer) call.pointer
  return Kernel.kprint board { kernel with uintBuf := uintBuf } ⟨str, color⟩

/-- A handler that waits for these port accesses before it goes on to this. -/
def await (kernel : Kernel) (run : Option (List PortEvent))
    (done : Kernel × Option Halt) : Kernel × Option Halt :=
  match run with
  | none => (kernel, some .polling)
  | some _ => done

end Kernel

def Devices.rootRead (devices : Devices) (bootSector : Sector) :
    Option (List PortEvent) :=
  ataReadSectorRun devices.rootStatus (rootLba (fatBpb bootSector)) devices.fuel

def Devices.fileRead (devices : Devices) (lba : Nat) :
    Option (List PortEvent) :=
  ataReadSectorRun devices.fileStatus lba devices.fuel

def Devices.keyboardInit (devices : Devices) : Option (List PortEvent) :=
  keyboardInitRun devices.controllerStatus devices.controllerData devices.fuel

/-! ## The handlers -/

def cmdClear (board : Board) (kernel : Kernel) : Kernel :=
  { kernel with con := clear board.fb kernel.con 0x000000 }

def cmdHelp : List PrintCall :=
  [⟨CString.ofString "clear       Clear the screen.\n", 0xFFFFFF⟩,
    ⟨CString.ofString "ls          List files in ramdisk.\n", 0xFFFFFF⟩,
    ⟨CString.ofString "cat         Read a file.\n", 0xFFFFFF⟩,
    ⟨CString.ofString "cd          Change directory.\n", 0xFFFFFF⟩,
    ⟨CString.ofString "layout      List or change keyboard layout.\n", 0xFFFFFF⟩,
    ⟨CString.ofString "uptime      Get system uptime in seconds.\n", 0xFFFFFF⟩,
    ⟨CString.ofString "echo        Print arguments.\n", 0xFFFFFF⟩,
    ⟨CString.ofString "reboot      Reboot.\n", 0xFFFFFF⟩]

def cmdLs (board : Board) (devices : Devices) (kernel : Kernel) :
    Kernel × Option Halt :=
  let labelled := kernel.kprint board ⟨CString.ofString "A:\\\n", 0x00FFFF⟩
  labelled.await (devices.rootRead board.bootSector)
    (labelled.kprints board (fatListFiles board.disk board.bootSector), none)

/-- Nothing is printed before the last read, and the division comes between the
two. -/
def cmdCat (board : Board) (moment : Moment) (kernel : Kernel)
    (args : CString) : Kernel × Option Halt :=
  let found :=
    match Cat.cmdCat board.disk board.bootSector moment.stackBehind args with
    | none => (kernel, some .divideError)
    | some run =>
        let printed := (kernel.kprints board run.prints, none)
        match catSector board.disk board.bootSector args with
        | none => printed
        | some lba => kernel.await (moment.devices.fileRead lba) printed
  if strlen args = 0 then found
  else kernel.await (moment.devices.rootRead board.bootSector) found

def cmdCd (args : CString) : List PrintCall :=
  if strlen args = 0 then [⟨CString.ofString "A:\\\n", 0xFFFFFF⟩]
  else
    [⟨CString.ofString "Directory not found or subdirectories not supported yet.\n",
      0xFF0000⟩]

def layoutCalls : Option Layout → List PrintCall
  | some .frCa =>
      [⟨CString.ofString "Keyboard layout set to Canadian Multilingual Standard\n",
        0xFFFFFF⟩]
  | some .enUs => [⟨CString.ofString "Keyboard layout set to ANSI.\n", 0xFFFFFF⟩]
  | none =>
      [⟨CString.ofString "Supported Layouts\n", 0xFFFFFF⟩,
        ⟨CString.ofString "-------------------------------------\n", 0xFFFFFF⟩,
        ⟨CString.ofString "en_us   ANSI\n", 0xFFFFFF⟩,
        ⟨CString.ofString "fr_ca   Canadian Multilingual Standard\n", 0xFFFFFF⟩]

/-- `keyboard_init` sets the layout before it talks to the controller. -/
def cmdLayout (board : Board) (devices : Devices) (kernel : Kernel)
    (args : CString) : Kernel × Option Halt :=
  match KeyboardInit.cmdLayout args with
  | none => (kernel.kprints board (layoutCalls none), none)
  | some layout =>
      let set := { kernel with currentLayout := layout }
      set.await devices.keyboardInit
        (set.kprints board (layoutCalls (some layout)), none)

def cmdUptime (board : Board) (kernel : Kernel) (systemTicks : UInt64) :
    Option Kernel := do
  let seconds := systemTicks / 100
  let labelled := kernel.kprint board ⟨CString.ofString "Uptime: ", 0xFFFFFF⟩
  let shown ← labelled.kprintUint board seconds 0x00FF00
  let opened := shown.kprint board ⟨CString.ofString " seconds (", 0xFFFFFF⟩
  let counted ← opened.kprintUint board systemTicks 0x00FFFF
  return counted.kprint board ⟨CString.ofString " ticks)\n", 0xFFFFFF⟩

def cmdEcho (args : CString) : List PrintCall :=
  [⟨args, 0xFFFFFF⟩, ⟨CString.ofString "\n", 0xFFFFFF⟩]

def cmdReboot : List PrintCall := [⟨CString.ofString "Rebooting...\n", 0xFFFFFF⟩]

/-- `commands[i].func(args)` -/
def callHandler (board : Board) (moment : Moment) (kernel : Kernel)
    (args : CString) : Command → Option (Kernel × Option Halt)
  | .clear => some (cmdClear board kernel, none)
  | .help => some (kernel.kprints board cmdHelp, none)
  | .ls => some (cmdLs board moment.devices kernel)
  | .cat => some (cmdCat board moment kernel args)
  | .cd => some (kernel.kprints board (cmdCd args), none)
  | .layout => some (cmdLayout board moment.devices kernel args)
  | .uptime =>
      (cmdUptime board kernel moment.systemTicks).map fun after => (after, none)
  | .echo => some (kernel.kprints board (cmdEcho args), none)
  | .reboot => some (kernel.kprints board cmdReboot, some .reboot)

/-! ## Replies -/

structure Reply where
  ops : List CharOp
  layout : Layout
  halt : Option Halt

def say (text : List UInt8) (color : UInt32) : List CharOp :=
  text.map fun c => .char c color

/-- One reply after another; the second takes the layout that the first leaves,
and is not given when the first halts. -/
def Reply.andThen (first : Reply) (second : Layout → Reply) : Reply :=
  if first.halt.isSome then first
  else
    let later := second first.layout
    ⟨first.ops ++ later.ops, later.layout, later.halt⟩

def entryOps (entry : FatDirent) : List CharOp :=
  say (displayName entry.name).bytes 0x00FF00 ++ say [0x0A] 0xFFFFFF

def driveOps : List CharOp :=
  say (CString.ofString "A:\\\n").bytes 0x00FFFF

def lsOps (board : Board) : List CharOp :=
  driveOps ++
    ((List.range 16).filter fun i =>
      decide (Visible (rootSector board.disk board.bootSector) i)).flatMap
        fun i => entryOps (fatDirent (rootSector board.disk board.bootSector) i)

/-- The contents of a file of this size whose first sector is `buf`.  A zero
byte prints nothing. -/
def contentsOps (buf : Sector) (stackBehind : Nat → UInt8) (size : Nat) :
    List CharOp :=
  say (((List.range size).map (bufByte buf stackBehind)).filter (· ≠ 0))
      0x00FF00 ++
    say [0x0A] 0xFFFFFF

/-- The sectors that `cat` reads: the root directory and the file. -/
def catReads (board : Board) (args : CString) : Nat :=
  if args.bytes = [] then 0
  else if (fatFindFile board.disk board.bootSector
      (fatFormatName args)).cluster = 0 ∨
    (fatBpb board.bootSector).bytesPerSector = 0 then 1
  else 2

/-- The first sectors that a command reads have been offered. -/
def Devices.answered (devices : Devices) : Nat → Bool
  | 0 => true
  | 1 => (ataReadSectorRun devices.rootStatus 0 devices.fuel).isSome
  | _ => (ataReadSectorRun devices.rootStatus 0 devices.fuel).isSome &&
      (ataReadSectorRun devices.fileStatus 0 devices.fuel).isSome

/-- A reply behind a wait: what comes before is all there is when the wait has
not ended. -/
def Reply.behind (ended : Bool) (before : List CharOp) (reply : Reply) :
    Reply :=
  if ended then reply else ⟨before, reply.layout, some .polling⟩

def catReply (board : Board) (moment : Moment) (args : CString)
    (layout : Layout) : Reply :=
  let found := fatFindFile board.disk board.bootSector (fatFormatName args)
  if args.bytes = [] then ⟨say usage.str.bytes 0xFFFFFF, layout, none⟩
  else if found.cluster = 0 then ⟨say notFound.str.bytes 0xFF0000, layout, none⟩
  else if (fatBpb board.bootSector).bytesPerSector = 0 then
    ⟨[], layout, some .divideError⟩
  else
    ⟨contentsOps (ataReadSector board.disk
        (clusterLba (fatBpb board.bootSector) found.cluster)) moment.stackBehind
        (found.sizeOut.getD 0), layout, none⟩

def uptimeOps (systemTicks : UInt64) : List CharOp :=
  say (CString.ofString "Uptime: ").bytes 0xFFFFFF ++
    say (decimal (systemTicks.toNat / 100)) 0x00FF00 ++
    say (CString.ofString " seconds (").bytes 0xFFFFFF ++
    say (decimal systemTicks.toNat) 0x00FFFF ++
    say (CString.ofString " ticks)\n").bytes 0xFFFFFF

def callsOps (calls : List PrintCall) : List CharOp :=
  calls.flatMap fun call => say call.str.bytes (UInt32.ofNat call.color)

def layoutReply (devices : Devices) (args : CString) (layout : Layout) : Reply :=
  match KeyboardInit.cmdLayout args with
  | none => ⟨callsOps (layoutCalls none), layout, none⟩
  | some chosen =>
      Reply.behind devices.keyboardInit.isSome []
        ⟨callsOps (layoutCalls (some chosen)), chosen, none⟩

/-- The reply to a command, where `ls` shows this and `cat` reads so many
sectors and shows that. -/
def answer (listing : List CharOp) (reads : CString → Nat)
    (cat : CString → Layout → Reply) (moment : Moment) (args : CString)
    (layout : Layout) : Command → Reply
  | .clear => ⟨[.clear 0x000000], layout, none⟩
  | .help => ⟨callsOps cmdHelp, layout, none⟩
  | .ls => Reply.behind (moment.devices.answered 1) driveOps
      ⟨listing, layout, none⟩
  | .cat => Reply.behind (moment.devices.answered (reads args)) []
      (cat args layout)
  | .cd => ⟨callsOps (cmdCd args), layout, none⟩
  | .layout => layoutReply moment.devices args layout
  | .uptime => ⟨uptimeOps moment.systemTicks, layout, none⟩
  | .echo => ⟨say (args.bytes ++ [0x0A]) 0xFFFFFF, layout, none⟩
  | .reboot => ⟨callsOps cmdReboot, layout, some .reboot⟩

def reply (board : Board) (moment : Moment) : CString → Layout → Command → Reply :=
  answer (lsOps board) (catReads board) (catReply board moment) moment

/-- The kernel has done what the reply says and nothing else.  The buffer of
`uint_to_string` keeps no promise. -/
structure Does (board : Board) (reply : Reply) (kernel after : Kernel) :
    Prop where
  con : after.con = run (charStep board.fb board.font) kernel.con reply.ops
  layout : after.currentLayout = reply.layout

section AndThen

variable {board : Board} {first : Reply} {second : Layout → Reply}

theorem andThen_halted {halt : Halt} (halted : first.halt = some halt) :
    first.andThen second = first := by
  rw [Reply.andThen, halted]
  rfl

theorem andThen_running (running : first.halt = none) :
    first.andThen second =
      ⟨first.ops ++ (second first.layout).ops, (second first.layout).layout,
        (second first.layout).halt⟩ := by
  rw [Reply.andThen, running]
  rfl

theorem Does.andThen {kernel middle after : Kernel}
    (running : first.halt = none) (now : Does board first kernel middle)
    (later : Does board (second middle.currentLayout) middle after) :
    Does board (first.andThen second) kernel after := by
  rw [andThen_running running, ← now.layout]
  refine ⟨?_, later.layout⟩
  rw [run_append, ← now.con]
  exact later.con

end AndThen

/-! ## Printing -/

theorem say_append (first second : List UInt8) (color : UInt32) :
    say (first ++ second) color = say first color ++ say second color :=
  List.map_append

theorem callsOps_append (first second : List PrintCall) :
    callsOps (first ++ second) = callsOps first ++ callsOps second :=
  List.flatMap_append

section Printing

variable {board : Board} {kernel : Kernel}

theorem kprint_con (call : PrintCall) :
    (kernel.kprint board call).con = run (charStep board.fb board.font) kernel.con
      (say call.str.bytes (UInt32.ofNat call.color)) :=
  kprintFrom_eq_run board.fb board.font _ call.str.bytes kernel.con

theorem kprints_con (calls : List PrintCall) :
    (kernel.kprints board calls).con =
      run (charStep board.fb board.font) kernel.con (callsOps calls) := by
  induction calls generalizing kernel with
  | nil => rfl
  | cons call rest ih =>
      have split : callsOps (call :: rest) =
          say call.str.bytes (UInt32.ofNat call.color) ++ callsOps rest :=
        List.flatMap_cons
      rw [split, run_append, ← kprint_con, ← ih]
      rfl

theorem kprints_layout (calls : List PrintCall) :
    (kernel.kprints board calls).currentLayout = kernel.currentLayout := by
  induction calls generalizing kernel with
  | nil => rfl
  | cons call rest ih => exact (@ih (kernel.kprint board call)).trans rfl

theorem does_kprints (calls : List PrintCall) (halt : Option Halt) :
    Does board ⟨callsOps calls, kernel.currentLayout, halt⟩ kernel
      (kernel.kprints board calls) :=
  ⟨kprints_con calls, kprints_layout calls⟩

theorem kprintUint_decimal (n : UInt64) (color : Nat) :
    ∃ after, kernel.kprintUint board n color = some after ∧
      after.con = run (charStep board.fb board.font) kernel.con
        (say (decimal n.toNat) (UInt32.ofNat color)) ∧
      after.currentLayout = kernel.currentLayout := by
  obtain ⟨number, numeral, -, reads⟩ := numeral_read kernel.uintBuf n
  rw [← numeral]
  refine ⟨Kernel.kprint board { kernel with
    uintBuf := applyStores kernel.uintBuf (uintToString n).stores }
      ⟨number, color⟩, ?_, kprint_con _, rfl⟩
  simp only [Kernel.kprintUint, reads]
  rfl

end Printing

/-- A string for each byte prints the bytes that are not zero. -/
theorem callsOps_charString (bytes : List UInt8) (color : Nat) :
    callsOps (bytes.map fun c => ⟨charString c, color⟩) =
      say (bytes.filter (· ≠ 0)) (UInt32.ofNat color) := by
  induction bytes with
  | nil => rfl
  | cons c rest ih =>
      have first : callsOps [⟨charString c, color⟩] =
          say ([c].filter (· ≠ 0)) (UInt32.ofNat color) := by
        simp only [callsOps, List.flatMap_singleton, charString_bytes]
      have split : (c :: rest).filter (· ≠ 0) =
          [c].filter (· ≠ 0) ++ rest.filter (· ≠ 0) := by
        rw [← List.filter_append, List.singleton_append]
      rw [List.map_cons, ← List.singleton_append, callsOps_append, first, ih,
        split, say_append]

theorem callsOps_printEntry (entry : FatDirent) :
    callsOps (printEntry entry) = entryOps entry := by
  have piece : ∀ indices : List (Fin 11),
      callsOps (indices.map fun j => ⟨charString (entry.name j), 0x00FF00⟩) =
        say ((indices.map entry.name).filter (· ≠ 0)) 0x00FF00 := by
    intro indices
    have bytes := callsOps_charString (indices.map entry.name) 0x00FF00
    rw [List.map_map] at bytes
    exact bytes
  have dot : callsOps [⟨charString 0x2E, 0x00FF00⟩] =
      say ([0x2E].filter (· ≠ 0)) 0x00FF00 := callsOps_charString [0x2E] _
  have newline : callsOps [⟨charString 0x0A, 0xFFFFFF⟩] = say [0x0A] 0xFFFFFF :=
    callsOps_charString [0x0A] _
  have name : (displayName entry.name).bytes =
      (((List.finRange 11).take 8).map entry.name).filter (· ≠ 0) ++
        [0x2E].filter (· ≠ 0) ++
        (((List.finRange 11).drop 8).map entry.name).filter (· ≠ 0) := by
    simp only [displayName, List.filter_append]
  rw [printEntry, callsOps_append, callsOps_append, callsOps_append, piece, piece,
    dot, newline, entryOps, name, say_append, say_append]

theorem callsOps_ls (board : Board) :
    driveOps ++ callsOps (fatListFiles board.disk board.bootSector) =
      lsOps board := by
  have entries : ∀ indices : List Nat,
      callsOps (indices.flatMap fun i =>
        printEntry (fatDirent (rootSector board.disk board.bootSector) i)) =
      indices.flatMap fun i =>
        entryOps (fatDirent (rootSector board.disk board.bootSector) i) := by
    intro indices
    induction indices with
    | nil => rfl
    | cons i rest ih =>
        rw [List.flatMap_cons, callsOps_append, callsOps_printEntry, ih,
          List.flatMap_cons]
  rw [fatListFiles_eq_visible, entries, lsOps]

theorem callsOps_contents (buf : Sector) (stackBehind : Nat → UInt8)
    (size : Nat) :
    callsOps ((List.range size).map (fun i =>
        ⟨charString (bufByte buf stackBehind i), 0x00FF00⟩) ++
      [⟨CString.ofString "\n", 0xFFFFFF⟩]) = contentsOps buf stackBehind size := by
  have bytes := callsOps_charString
    ((List.range size).map (bufByte buf stackBehind)) 0x00FF00
  rw [List.map_map] at bytes
  rw [callsOps_append]
  exact congrArg₂ (· ++ ·) bytes rfl

def Gives (board : Board) (reply : Reply) (kernel : Kernel)
    (outcome : Kernel × Option Halt) : Prop :=
  Does board reply kernel outcome.1 ∧ outcome.2 = reply.halt

section Handlers

variable {board : Board} {kernel : Kernel} {devices : Devices}

theorem gives_kprints (calls : List PrintCall) (halt : Option Halt) :
    Gives board ⟨callsOps calls, kernel.currentLayout, halt⟩ kernel
      (kernel.kprints board calls, halt) :=
  ⟨does_kprints calls halt, rfl⟩

theorem Gives.behind {run : Option (List PortEvent)} {ended : Bool}
    (same : run.isSome = ended) {before : List CharOp} {middle : Kernel}
    {reply : Reply} {done : Kernel × Option Halt}
    (now : Does board ⟨before, reply.layout, none⟩ kernel middle)
    (later : Gives board reply kernel done) :
    Gives board (Reply.behind ended before reply) kernel
      (middle.await run done) := by
  subst same
  cases run with
  | none => exact ⟨⟨now.con, now.layout⟩, rfl⟩
  | some events => exact later

theorem does_nothing (reply : Reply)
    (layout : reply.layout = kernel.currentLayout) :
    Does board ⟨[], reply.layout, none⟩ kernel kernel :=
  ⟨rfl, layout.symm⟩

theorem rootRead_isSome (devices : Devices) (bootSector : Sector) :
    (devices.rootRead bootSector).isSome = devices.answered 1 :=
  ataReadSectorRun_isSome _ _ 0 _

/-- With the root directory read, the answer is that of the file. -/
theorem fileRead_isSome (devices : Devices) (lba : Nat) :
    (devices.answered 1 && (devices.fileRead lba).isSome) =
      devices.answered 2 := by
  rw [Devices.fileRead, ataReadSectorRun_isSome _ lba 0]
  rfl

@[simp] theorem Reply.behind_layout (ended : Bool) (before : List CharOp)
    (reply : Reply) : (reply.behind ended before).layout = reply.layout := by
  cases ended <;> rfl

theorem Reply.behind_and (first second : Bool) (before : List CharOp)
    (reply : Reply) :
    reply.behind (first && second) before =
      (reply.behind second before).behind first before := by
  cases first <;> cases second <;> rfl

theorem cmdLs_gives :
    Gives board (Reply.behind (devices.answered 1) driveOps
      ⟨lsOps board, kernel.currentLayout, none⟩) kernel
      (cmdLs board devices kernel) := by
  have labelled : Does board ⟨driveOps, kernel.currentLayout, none⟩ kernel
      (kernel.kprint board ⟨CString.ofString "A:\\\n", 0x00FFFF⟩) :=
    @does_kprints board kernel [⟨CString.ofString "A:\\\n", 0x00FFFF⟩] none
  have listed := @does_kprints board
    (kernel.kprint board ⟨CString.ofString "A:\\\n", 0x00FFFF⟩)
    (fatListFiles board.disk board.bootSector) none
  refine Gives.behind (rootRead_isSome devices board.bootSector) labelled
    ⟨⟨?_, listed.layout⟩, rfl⟩
  rw [← callsOps_ls, run_append, ← labelled.con]
  exact listed.con

theorem cmdLayout_gives (args : CString) :
    Gives board (layoutReply devices args kernel.currentLayout) kernel
      (cmdLayout board devices kernel args) := by
  unfold layoutReply cmdLayout
  cases KeyboardInit.cmdLayout args with
  | none => exact gives_kprints (layoutCalls none) none
  | some layout =>
      have printed := @does_kprints board
        { kernel with currentLayout := layout } (layoutCalls (some layout)) none
      exact Gives.behind rfl ⟨rfl, rfl⟩ ⟨⟨printed.con, printed.layout⟩, rfl⟩

theorem cmdUptime_does (board : Board) (kernel : Kernel)
    (systemTicks : UInt64) :
    ∃ after, cmdUptime board kernel systemTicks = some after ∧
      Does board ⟨uptimeOps systemTicks, kernel.currentLayout, none⟩
        kernel after := by
  have hundred : (systemTicks / 100).toNat = systemTicks.toNat / 100 :=
    UInt64.toNat_div systemTicks 100
  obtain ⟨shown, first, shownCon, shownLayout⟩ := @kprintUint_decimal board
    (kernel.kprint board ⟨CString.ofString "Uptime: ", 0xFFFFFF⟩)
    (systemTicks / 100) 0x00FF00
  obtain ⟨counted, second, countedCon, countedLayout⟩ := @kprintUint_decimal board
    (shown.kprint board ⟨CString.ofString " seconds (", 0xFFFFFF⟩)
    systemTicks 0x00FFFF
  refine ⟨counted.kprint board ⟨CString.ofString " ticks)\n", 0xFFFFFF⟩, ?_, ?_, ?_⟩
  · simp only [cmdUptime, first, second, Option.bind_eq_bind, Option.bind_some]
    rfl
  · rw [kprint_con, countedCon, kprint_con, shownCon, kprint_con, hundred]
    simp only [uptimeOps, run_append]
    rfl
  · exact countedLayout.trans shownLayout

theorem cmdCat_gives (moment : Moment) (args : CString) :
    Gives board
      (Reply.behind (moment.devices.answered (catReads board args)) []
        (catReply board moment args kernel.currentLayout)) kernel
      (cmdCat board moment kernel args) := by
  have root := rootRead_isSome moment.devices board.bootSector
  have noText : strlen args = 0 ↔ args.bytes = [] := by simp
  have sector := @catSector_eq_some_iff board.disk board.bootSector args
  unfold cmdCat catReads
  simp only [noText]
  by_cases empty : args.bytes = []
  · have asks : catSector board.disk board.bootSector args = none := by
      rw [Option.eq_none_iff_forall_ne_some]
      exact fun lba same => (sector.mp same).1 empty
    simp only [catReply, if_pos empty, cmdCat_usage empty, asks]
    exact gives_kprints [usage] none
  · by_cases missing : (fatFindFile board.disk board.bootSector
        (fatFormatName args)).cluster = 0
    · have asks : catSector board.disk board.bootSector args = none := by
        rw [Option.eq_none_iff_forall_ne_some]
        exact fun lba same => (sector.mp same).2.1 missing
      simp only [catReply, if_neg empty, if_pos missing,
        if_pos (Or.inl missing), cmdCat_notFound empty missing, asks]
      exact Gives.behind root (does_nothing _ rfl)
        (gives_kprints [notFound] none)
    · by_cases zero : (fatBpb board.bootSector).bytesPerSector = 0
      · simp only [catReply, if_neg empty, if_neg missing, if_pos zero,
          if_pos (Or.inr zero), cmdCat_divides empty missing zero]
        exact Gives.behind root (does_nothing _ rfl) ⟨⟨rfl, rfl⟩, rfl⟩
      · obtain ⟨size, lookup⟩ := fatFindFile_stored missing
        have asks := sector.mpr ⟨empty, missing, zero, rfl⟩
        have stored := congrArg FindReturn.sizeOut lookup
        have both : ¬ ((fatFindFile board.disk board.bootSector
            (fatFormatName args)).cluster = 0 ∨
            (fatBpb board.bootSector).bytesPerSector = 0) := by simp [missing, zero]
        simp only [catReply, if_neg empty, if_neg missing, if_neg zero,
          if_neg both, cmdCat_prints empty lookup missing zero, asks,
          ← fileRead_isSome moment.devices (clusterLba (fatBpb board.bootSector)
            (fatFindFile board.disk board.bootSector
              (fatFormatName args)).cluster), Reply.behind_and]
        refine Gives.behind root (does_nothing _ (Reply.behind_layout _ _ _))
          (Gives.behind rfl (does_nothing _ rfl) ?_)
        rw [stored, Option.getD_some, ← callsOps_contents]
        exact gives_kprints _ none

/-- Every handler does what its reply says, on every state. -/
theorem callHandler_does (board : Board) (moment : Moment) (kernel : Kernel)
    (args : CString) (command : Command) :
    ∃ after, callHandler board moment kernel args command = some (after,
        (reply board moment args kernel.currentLayout command).halt) ∧
      Does board
        (reply board moment args kernel.currentLayout command)
        kernel after := by
  have ends : ∀ {said : Reply} {outcome : Kernel × Option Halt},
      Gives board said kernel outcome →
        ∃ after, some outcome = some (after, said.halt) ∧
          Does board said kernel after := by
    intro said outcome gives
    exact ⟨outcome.1, congrArg some (Prod.ext rfl gives.2), gives.1⟩
  cases command with
  | clear => exact ⟨_, rfl, rfl, rfl⟩
  | help => exact ends (gives_kprints cmdHelp none)
  | ls => exact ends cmdLs_gives
  | cat => exact ends (cmdCat_gives moment args)
  | cd => exact ends (gives_kprints (cmdCd args) none)
  | layout => exact ends (cmdLayout_gives args)
  | uptime =>
      obtain ⟨after, runs, does⟩ := cmdUptime_does board kernel moment.systemTicks
      exact ⟨after, by rw [callHandler, runs]; rfl, does⟩
  | echo =>
      have printed := @gives_kprints board kernel (cmdEcho args) none
      have same : callsOps (cmdEcho args) = say (args.bytes ++ [0x0A]) 0xFFFFFF :=
        (say_append args.bytes [0x0A] 0xFFFFFF).symm
      rw [same] at printed
      exact ends printed
  | reboot => exact ends (gives_kprints cmdReboot (some .reboot))

end Handlers

/-! ## Where a command stops -/

structure Devices.Answer (devices : Devices) : Prop where
  root : Returns devices.rootStatus 0
  file : Returns devices.fileStatus 0
  exchange : Exchanges devices.controllerStatus

structure Devices.Ready (devices : Devices) : Prop where
  sectors : devices.answered 2 = true
  exchange : devices.keyboardInit.isSome = true

def Devices.followed (devices : Devices) (fuel : Nat) : Devices :=
  { devices with fuel := fuel }

theorem Devices.Answer.ready {devices : Devices} (answer : devices.Answer) :
    ∃ enough, ∀ fuel ≥ enough, (devices.followed fuel).Ready := by
  obtain ⟨first, root⟩ := ataReadSectorRun_enough answer.root
  obtain ⟨second, file⟩ := ataReadSectorRun_enough answer.file
  obtain ⟨third, exchange⟩ := keyboardInitRun_returns devices.controllerData
    answer.exchange
  refine ⟨max first (max second third), fun fuel enough => ⟨?_, ?_⟩⟩
  · exact Bool.and_eq_true_iff.mpr
      ⟨root fuel (by omega), file fuel (by omega)⟩
  · exact Option.isSome_iff_exists.mpr (exchange fuel (by omega))

/-- A drive that offers every sector at its first status and a controller that
answers at once. -/
def readyDevices : Devices where
  controllerStatus k := if k = 1 then 0x01 else 0x00
  controllerData _ := 0x65
  rootStatus _ := 0x58
  fileStatus _ := 0x58
  fuel := 1

theorem readyDevices_answer : readyDevices.Answer := by
  have offered : Returns (fun _ => 0x58) 0 :=
    ⟨1, _, (ataReadSectorRun_iff _ 0 1 _).mpr
      ⟨0, 1, (firstFrom_here (by unfold BusyClear; decide)).mpr rfl,
        (firstFrom_here (by unfold DataOffered; decide)).mpr rfl,
        by decide, by decide, rfl⟩⟩
  exact ⟨offered, offered, 0, 1, 2, (firstFrom_here (by decide)).mpr rfl,
    (firstFrom_here (by decide)).mpr rfl, (firstFrom_here (by decide)).mpr rfl⟩

theorem Devices.Ready.answered {devices : Devices} (ready : devices.Ready)
    (count : Nat) : devices.answered count = true := by
  have both := ready.sectors
  match count with
  | 0 => rfl
  | 1 => exact (Bool.and_eq_true_iff.mp both).1
  | _ + 2 => exact both

/-- Where a handler may stop when this is what keeps it waiting. -/
def StopsFor (board : Board) (waiting : Prop) : Option Halt → Prop
  | none => True
  | some .reboot => True
  | some .divideError => (fatBpb board.bootSector).bytesPerSector = 0
  | some .polling => waiting

theorem StopsFor.mono {board : Board} {waiting other : Prop}
    (implies : waiting → other) {halt : Option Halt}
    (stops : StopsFor board waiting halt) : StopsFor board other halt := by
  match halt with
  | none => trivial
  | some .reboot => trivial
  | some .divideError => exact stops
  | some .polling => exact implies stops

section Stops

variable {board : Board} {moment : Moment}

theorem catReply_stops (args : CString) (layout : Layout) :
    StopsFor board False (catReply board moment args layout).halt := by
  by_cases empty : args.bytes = []
  · simp only [catReply, if_pos empty, StopsFor]
  · by_cases missing : (fatFindFile board.disk board.bootSector
        (fatFormatName args)).cluster = 0
    · simp only [catReply, if_neg empty, if_pos missing, StopsFor]
    · by_cases zero : (fatBpb board.bootSector).bytesPerSector = 0
      · simp only [catReply, if_neg empty, if_neg missing, if_pos zero]
        exact zero
      · simp only [catReply, if_neg empty, if_neg missing, if_neg zero,
          StopsFor]

theorem StopsFor.behind {ended : Bool} {before : List CharOp} {reply : Reply}
    {waiting : Prop} (waits : ended = false → waiting)
    (stops : StopsFor board waiting reply.halt) :
    StopsFor board waiting (reply.behind ended before).halt := by
  cases ended with
  | false => exact waits rfl
  | true => exact stops

/-- A command that is kept waiting is so by its devices. -/
theorem reply_stops (args : CString) (layout : Layout) (command : Command) :
    StopsFor board (¬ moment.devices.Ready)
      (reply board moment args layout command).halt := by
  have sectors : ∀ {count : Nat}, moment.devices.answered count = false →
      ¬ moment.devices.Ready := by
    intro count waits ready
    rw [ready.answered] at waits
    cases waits
  cases command with
  | ls => exact StopsFor.behind sectors trivial
  | cat =>
      exact StopsFor.behind sectors
        ((catReply_stops args layout).mono False.elim)
  | layout =>
      change StopsFor board _ (layoutReply moment.devices args layout).halt
      unfold layoutReply
      split
      · trivial
      · refine StopsFor.behind (fun waits ready => ?_) trivial
        rw [ready.exchange] at waits
        cases waits
  | clear => trivial
  | help => trivial
  | cd => trivial
  | uptime => trivial
  | echo => trivial
  | reboot => trivial

end Stops

end Lumie.Commands
