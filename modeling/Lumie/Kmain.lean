import Lumie.Boot
import Lumie.Drivers.ScreenBounds
import Lumie.Drivers.ScreenGrid
import Lumie.Shell.Session

/-!
# From the boot loader to the prompt

`kmain` on what the boot loader leaves: the responses to its requests, the
memory of the modules, the font, the disk, the status bytes of the devices and
the words of the framebuffer.  The setup of the hardware that draws nothing is
in the modules of its drivers; what it waits for is here.
-/

set_option autoImplicit false

namespace Lumie.Kmain

open MachineInt FoldRun WhileLoop TextGrid
open Lumie.Strings Lumie.Screen Lumie.ScreenCursor Lumie.ScreenCells
open Lumie.ScreenGrid Lumie.ScreenBounds Lumie.Ata Lumie.Fat
open Lumie.AtaStatus Lumie.Tar Lumie.TarArchive Lumie.Boot
open Lumie.Keyboard Lumie.KeyboardExchange Lumie.Cat Lumie.Dispatch
open Lumie.Commands Lumie.Session

structure Loaded where
  framebuffers : Option (List Framebuffer)
  modules : Option (List LimineFile)
  mem : Mem
  font : Font
  disk : Disk
  /-- The status bytes of the drive in the two reads of `fat_init`. -/
  bootStatus : Nat → UInt8
  rootStatus : Nat → UInt8
  /-- What the keyboard controller returns to `keyboard_init`. -/
  controllerStatus : Nat → UInt8
  controllerData : Nat → UInt8
  pixels : Nat → UInt32

/-- `framebuffers[0]`, when there is a response with at least one. -/
def bootFramebuffer : Option (List Framebuffer) → Option Framebuffer
  | some (fb :: _) => some fb
  | _ => none

def Loaded.board (loaded : Loaded) (fb : Framebuffer) : Board :=
  ⟨fb, loaded.font, loaded.disk, fatInit loaded.disk⟩

/-- The static variables before `kmain`.  The layout is a null pointer there,
which nothing reads before `keyboard_init`. -/
def Loaded.start (loaded : Loaded) : Kernel :=
  ⟨startConsole loaded.pixels, .enUs, fun _ => 0⟩

def gdtLoaded : PrintCall := ⟨CString.ofString "GDT Loaded.\n", 0x00FF00⟩

def idtLoaded : PrintCall := ⟨CString.ofString "IDT Loaded.\n", 0x00FF00⟩

def interruptsEnabled : PrintCall :=
  ⟨CString.ofString "Interrupts enabled.\n", 0x00FF00⟩

/-- The loop that prints the message of the day, and the newline behind it. -/
def motdCalls (mem : Mem) (found : TarReturn) : List PrintCall :=
  if found.ptr = 0 then []
  else
    (List.range (found.outSize.getD 0)).map (fun i =>
        ⟨charString (load mem (found.ptr + i)), 0xFF00FF⟩) ++
      [⟨CString.ofString "\n", 0xFFFFFF⟩]

/-- `kmain` up to the lookup in the ramdisk. -/
def setUp (board : Board) (start : Kernel) : Kernel :=
  let cleared := cmdClear board start
  let loaded := cleared.kprints board [gdtLoaded, idtLoaded]
  { loaded with currentLayout := .enUs }.kprint board interruptsEnabled

/-- `kmain` up to `kernel_shell`, where the lookup has found this. -/
def greet (loaded : Loaded) (fb : Framebuffer) (found : TarReturn) : Kernel :=
  (setUp (loaded.board fb) loaded.start).kprints (loaded.board fb)
    (motdCalls loaded.mem found)

inductive Outcome where
  /-- The loop around `hlt`. -/
  | noFramebuffer
  | shell (kernel : Kernel) (halt : Option Halt)

/-- `fat_init`, `keyboard_init` and the lookup take `fuel` turns for each loop.
The array of `kernel_shell` is not initialised. -/
def kmain (fuel : Nat) (loaded : Loaded) (turns : List Turn) (input : View) :
    Option Outcome :=
  match bootFramebuffer loaded.framebuffers with
  | none => some .noFramebuffer
  | some fb => do
      let _ ← ataReadSectorRun loaded.bootStatus 0 fuel
      let _ ← ataReadSectorRun loaded.rootStatus
        (rootLba (fatBpb (fatInit loaded.disk))) fuel
      let _ ← keyboardInitRun loaded.controllerStatus loaded.controllerData fuel
      let found ← tarGetFile fuel loaded.mem (kmainTarStart loaded.modules)
        motdName
      let (after, halt) ← kernelShell (loaded.board fb) turns
        (greet loaded fb found) input
      return .shell after halt

/-! ## What it shows -/

def motdOps (entries : List TarEntry) : List CharOp :=
  match entries.find? fun entry => entry.Named motdName with
  | some entry =>
      say (entry.contents.filter (· ≠ 0)) 0xFF00FF ++ say [0x0A] 0xFFFFFF
  | none => []

def setUpOps : List CharOp :=
  .clear 0x000000 :: callsOps [gdtLoaded, idtLoaded, interruptsEnabled]

def kmainReply (board : Board) (entries : List TarEntry) (turns : List Turn) :
    Reply :=
  Reply.andThen ⟨setUpOps ++ motdOps entries, .enUs, none⟩
    (sessionReply (reply board) turns)

theorem setUp_does (board : Board) (start : Kernel) :
    Does board ⟨setUpOps, .enUs, none⟩ start (setUp board start) := by
  have cleared : Does board ⟨[.clear 0x000000], start.currentLayout, none⟩ start
      (cmdClear board start) := ⟨rfl, rfl⟩
  have loaded := @does_kprints board (cmdClear board start)
    [gdtLoaded, idtLoaded] none
  have enabled := @does_kprints board
    { (cmdClear board start).kprints board [gdtLoaded, idtLoaded] with
      currentLayout := .enUs } [interruptsEnabled] none
  refine ⟨?_, rfl⟩
  rw [setUpOps, run_cons]
  calc (setUp board start).con
      = run (charStep board.fb board.font)
          ((cmdClear board start).kprints board [gdtLoaded, idtLoaded]).con
          (callsOps [interruptsEnabled]) := enabled.con
    _ = run (charStep board.fb board.font) (cmdClear board start).con
          (callsOps [gdtLoaded, idtLoaded] ++ callsOps [interruptsEnabled]) := by
        rw [loaded.con, run_append]

theorem contents_read {mem : Mem} {address : Nat} {contents : List UInt8}
    (stored : ContentsAt mem address contents) :
    (List.range contents.length).map (fun i => load mem (address + i)) =
      contents := by
  apply List.ext_getElem
  · simp
  · intro i _ bound
    have byte := stored i bound
    rw [List.getD_eq_getElem _ _ bound] at byte
    simpa using byte

theorem motdCalls_laidOut {mem : Mem} {entries : List TarEntry} {address : Nat}
    (laid : LaidOut mem address entries) :
    callsOps (motdCalls mem (archiveLookup motdName address entries)) =
      motdOps entries := by
  induction entries generalizing address with
  | nil => rfl
  | cons entry rest ih =>
      obtain ⟨-, stored, later⟩ := laid
      by_cases named : entry.Named motdName
      · have reads := contents_read stored
        have nonnull : ¬ address + 512 = 0 := by omega
        have bytes := callsOps_charString ((List.range entry.contents.length).map
          fun i => load mem (address + 512 + i)) 0xFF00FF
        rw [List.map_map, reads] at bytes
        rw [archiveLookup, if_pos named, motdCalls, motdOps,
          List.find?_cons_of_pos (by simpa using named)]
        simp only [if_neg nonnull, Option.getD_some]
        rw [callsOps_append]
        exact congrArg₂ (· ++ ·) bytes rfl
      · rw [archiveLookup, if_neg named, ih later, motdOps, motdOps,
          List.find?_cons_of_neg (by simpa using named)]

section Boot

variable {loaded : Loaded} {fb : Framebuffer} {file : LimineFile}
  {entries : List TarEntry}

/-- The state of the machine that `kmain` is written for: a framebuffer, a
ramdisk that the module holds with its closing block, a drive that offers the
two sectors and a controller that completes the exchange. -/
structure Booted (loaded : Loaded) (fb : Framebuffer)
    (entries : List TarEntry) : Prop where
  framebuffer : bootFramebuffer loaded.framebuffers = some fb
  ramdisk : ∃ file, bootModule loaded.modules = some file ∧
    LaidOut loaded.mem file.address entries ∧
    archiveLength entries + 512 ≤ file.size
  within : HeadersWithin entries
  bootRead : Returns loaded.bootStatus 0
  rootRead : Returns loaded.rootStatus 0
  exchange : Exchanges loaded.controllerStatus

theorem motd_found (booted : Booted loaded fb entries) :
    ∃ fuel found,
      tarGetFile fuel loaded.mem (kmainTarStart loaded.modules) motdName =
        some found ∧
      callsOps (motdCalls loaded.mem found) = motdOps entries := by
  obtain ⟨file, module, laid, whole⟩ := booted.ramdisk
  have fits := file.fits
  have within : ∀ k < entries.length, file.address - file.address +
      archiveLength (entries.take k) ≤ 1024 * 1024 * 10 := by
    intro k bound
    simpa using booted.within k bound
  obtain ⟨fuel, finds⟩ := walk_from loaded.mem file.address motdName entries
    file.address (Nat.le_refl _) laid within (by omega)
  refine ⟨fuel, _, ?_, motdCalls_laidOut laid⟩
  rw [kmainTarStart_of_module module]
  exact finds

theorem boot_ready (booted : Booted loaded fb entries) :
    ∃ enough, ∀ fuel ≥ enough,
      (∃ events, ataReadSectorRun loaded.bootStatus 0 fuel = some events) ∧
      (∀ lba, ∃ events,
        ataReadSectorRun loaded.rootStatus lba fuel = some events) ∧
      ∃ events, keyboardInitRun loaded.controllerStatus loaded.controllerData
        fuel = some events := by
  obtain ⟨first, boot⟩ := ataReadSectorRun_enough booted.bootRead
  obtain ⟨second, root⟩ := ataReadSectorRun_enough booted.rootRead
  obtain ⟨third, exchange⟩ := keyboardInitRun_returns loaded.controllerData
    booted.exchange
  refine ⟨max first (max second third), fun fuel enough => ⟨?_, ?_, ?_⟩⟩
  · exact Option.isSome_iff_exists.mp (boot fuel (by omega))
  · intro lba
    rw [← Option.isSome_iff_exists, ataReadSectorRun_isSome _ lba 0]
    exact root fuel (by omega)
  · exact exchange fuel (by omega)

theorem greet_does {found : TarReturn}
    (shown : callsOps (motdCalls loaded.mem found) = motdOps entries) :
    Does (loaded.board fb) ⟨setUpOps ++ motdOps entries, .enUs, none⟩ loaded.start
      (greet loaded fb found) := by
  have ready := setUp_does (loaded.board fb) loaded.start
  have greeted := @does_kprints (loaded.board fb)
    (setUp (loaded.board fb) loaded.start) (motdCalls loaded.mem found) none
  rw [shown] at greeted
  refine ⟨?_, greeted.layout.trans ready.layout⟩
  rw [run_append, ← ready.con]
  exact greeted.con

theorem kmain_greets (booted : Booted loaded fb entries) :
    ∃ fuel found,
      tarGetFile fuel loaded.mem (kmainTarStart loaded.modules) motdName =
        some found ∧
      callsOps (motdCalls loaded.mem found) = motdOps entries ∧
      ∀ turns input, kmain fuel loaded turns input =
        (kernelShell (loaded.board fb) turns (greet loaded fb found) input).map
          fun ended => .shell ended.1 ended.2 := by
  obtain ⟨enough, found, finds, shown⟩ := motd_found booted
  obtain ⟨more, ready⟩ := boot_ready booted
  obtain ⟨⟨_, boot⟩, root, ⟨_, exchange⟩⟩ :=
    ready (max enough more) (Nat.le_max_right enough more)
  obtain ⟨_, directory⟩ := root (rootLba (fatBpb (fatInit loaded.disk)))
  have lookup : tarGetFile (max enough more) loaded.mem
      (kmainTarStart loaded.modules) motdName = some found :=
    iterate_mono (Nat.le_max_left enough more) finds
  refine ⟨max enough more, found, lookup, shown, fun turns input => ?_⟩
  simp only [kmain, booted.framebuffer, boot, directory, exchange, lookup,
    Option.bind_eq_bind, Option.bind_some]
  cases kernelShell (loaded.board fb) turns (greet loaded fb found) input <;> rfl

theorem kmain_does (booted : Booted loaded fb entries) (turns : List Turn)
    (input : View) :
    ∃ fuel after,
      kmain fuel loaded turns input = some (.shell after
        (kmainReply (loaded.board fb) entries turns).halt) ∧
      Does (loaded.board fb) (kmainReply (loaded.board fb) entries turns)
        loaded.start after := by
  obtain ⟨fuel, found, -, shown, greets⟩ := kmain_greets booted
  have opened := @greet_does loaded fb entries found shown
  obtain ⟨after, runs, session⟩ := kernelShell_does (loaded.board fb) turns
    (greet loaded fb found) input
  refine ⟨fuel, after, ?_, Does.andThen rfl opened session⟩
  rw [opened.layout] at runs
  rw [greets, runs, kmainReply, andThen_running rfl]
  rfl

end Boot

def BlackClears (ops : List CharOp) : Prop :=
  ∀ color, .clear color ∈ ops → color = 0x000000

theorem BlackClears.append {first second : List CharOp}
    (before : BlackClears first) (after : BlackClears second) :
    BlackClears (first ++ second) := by
  intro color member
  rcases List.mem_append.mp member with inFirst | inSecond
  · exact before color inFirst
  · exact after color inSecond

theorem blackClears_flatMap {Item : Type*} {items : List Item}
    {ops : Item → List CharOp} (each : ∀ item ∈ items, BlackClears (ops item)) :
    BlackClears (items.flatMap ops) := by
  intro color member
  obtain ⟨item, inItems, inOps⟩ := List.mem_flatMap.mp member
  exact each item inItems color inOps

theorem blackClears_say (text : List UInt8) (color : UInt32) :
    BlackClears (say text color) := by
  intro ink member
  obtain ⟨c, -, same⟩ := List.mem_map.mp member
  cases same

theorem blackClears_calls (calls : List PrintCall) :
    BlackClears (callsOps calls) :=
  blackClears_flatMap fun _ _ => blackClears_say _ _

theorem BlackClears.andThen {first : Reply} {second : Layout → Reply}
    (before : BlackClears first.ops)
    (after : ∀ layout, BlackClears (second layout).ops) :
    BlackClears (first.andThen second).ops := by
  unfold Reply.andThen
  split
  · exact before
  · exact before.append (after _)

theorem BlackClears.behind {ended : Bool} {before : List CharOp} {reply : Reply}
    (shown : BlackClears before) (after : BlackClears reply.ops) :
    BlackClears (reply.behind ended before).ops := by
  cases ended with
  | false => exact shown
  | true => exact after

theorem blackClears_nil : BlackClears [] := by
  intro color member
  cases member

theorem blackClears_cat (board : Board) (moment : Moment) (args : CString)
    (layout : Layout) : BlackClears (catReply board moment args layout).ops := by
  simp only [catReply]
  split
  · exact blackClears_say _ _
  · split
    · exact blackClears_say _ _
    · split
      · exact blackClears_nil
      · exact (blackClears_say _ _).append (blackClears_say _ _)

theorem blackClears_reply (board : Board) (moment : Moment) (args : CString)
    (layout : Layout) (command : Command) :
    BlackClears (reply board moment args layout command).ops := by
  cases command with
  | clear =>
      intro color member
      simpa [reply, answer] using member
  | ls =>
      refine BlackClears.behind (blackClears_say _ _) ?_
      refine (blackClears_say _ _).append ?_
      exact blackClears_flatMap fun _ _ =>
        (blackClears_say _ _).append (blackClears_say _ _)
  | cat =>
      exact BlackClears.behind blackClears_nil
        (blackClears_cat board moment args layout)
  | uptime =>
      exact ((((blackClears_say _ _).append (blackClears_say _ _)).append
        (blackClears_say _ _)).append (blackClears_say _ _)).append
          (blackClears_say _ _)
  | echo => exact blackClears_say _ _
  | help => exact blackClears_calls _
  | cd => exact blackClears_calls _
  | layout =>
      change BlackClears (layoutReply moment.devices args layout).ops
      unfold layoutReply
      split
      · exact blackClears_calls _
      · exact BlackClears.behind blackClears_nil (blackClears_calls _)
  | reboot => exact blackClears_calls _

theorem blackClears_echo (text keys : List UInt8) :
    BlackClears (echo text keys) := by
  induction keys generalizing text with
  | nil =>
      intro color member
      cases member
  | cons c rest ih =>
      have shown : BlackClears (echoChar text c) := by
        intro color member
        unfold echoChar at member
        split at member
        · split at member <;> simp at member
        · split at member
          · exact blackClears_say _ _ color member
          · cases member
      rw [echo]
      split
      · exact ih text
      · split
        · exact blackClears_say _ _
        · exact shown.append (ih _)

theorem blackClears_session (board : Board) (turns : List Turn)
    (layout : Layout) :
    BlackClears (sessionReply (reply board) turns layout).ops := by
  apply @session_satisfies (reply board) fun said => BlackClears said.ops
  · intro first second before after
    exact before.andThen after
  · intro calls _
    exact blackClears_calls calls
  · intro keys _
    exact (blackClears_calls [prompt]).append (blackClears_echo [] keys)
  · intro turn _
    exact blackClears_reply board turn.moment

section Advances

variable {fb : Framebuffer} {font : Font}

theorem advances_wrapLine_le (con : Console) :
    (wrapLine fb con).advances ≤ con.advances + 1 := by
  unfold wrapLine
  split
  · exact Nat.le_refl _
  · exact Nat.le_succ _

theorem advances_backspace_eq (con : Console) :
    (backspace fb con).advances = con.advances := by
  unfold backspace
  split
  · rfl
  · split <;> rfl

theorem advances_charStep_le (con : Console) (op : CharOp) :
    (charStep fb font con op).advances ≤ con.advances + 1 := by
  have wrapped := @advances_wrapLine_le fb con
  cases op with
  | char c color =>
      simp only [charStep]
      unfold kprintChar
      split
      · rw [advances_backspace_eq]
        exact Nat.le_succ _
      · split
        · exact Nat.le_refl _
        · simp only
          split
          · exact wrapped
          · exact wrapped
  | backspace =>
      rw [charStep, advances_backspace_eq]
      exact Nat.le_succ _
  | clear color => exact Nat.zero_le _

theorem fewAdvances_of_length (ops : List CharOp) (con : Console)
    (few : con.advances + ops.length < 2 ^ 26) :
    Always (charStep fb font) FewAdvances con ops := by
  induction ops generalizing con with
  | nil => exact few
  | cons op rest ih =>
      rw [List.length_cons] at few
      have step := @advances_charStep_le fb font con op
      exact ⟨by unfold FewAdvances; omega, ih _ (by omega)⟩

end Advances

/-! ## The screen -/

def bootText (board : Board) (entries : List TarEntry) (turns : List Turn) :
    List CharOp :=
  callsOps [gdtLoaded, idtLoaded, interruptsEnabled] ++ motdOps entries ++
    (sessionReply (reply board) turns .enUs).ops

theorem kmainReply_ops (board : Board) (entries : List TarEntry)
    (turns : List Turn) :
    (kmainReply board entries turns).ops =
      .clear 0x000000 :: bootText board entries turns := by
  rw [kmainReply, andThen_running rfl]
  rfl

theorem blackClears_bootText (board : Board) (entries : List TarEntry)
    (turns : List Turn) : BlackClears (bootText board entries turns) := by
  refine ((blackClears_calls _).append ?_).append
    (blackClears_session board turns .enUs)
  unfold motdOps
  split
  · exact (blackClears_say _ _).append (blackClears_say _ _)
  · exact blackClears_nil

section Screen

variable {loaded : Loaded} {fb : Framebuffer} {entries : List TarEntry}
  {turns : List Turn}

theorem text_tracks {font : Font} (shape : TextShape fb font)
    (pixels : Nat → UInt32) {text : List CharOp} (black : BlackClears text)
    (few : text.length < 2 ^ 26) :
    Tracks fb font
      (run (charStep fb font) (startConsole pixels) (.clear 0x000000 :: text))
      (run (gridStep (fb.height / 16) (fb.width / 8)) blankGrid
        (text.map gridOp)) := by
  have cleared : Tracks fb font (clear fb (startConsole pixels) 0x000000)
      blankGrid := by
    refine ⟨refines_clear shape _, ?_⟩
    intro draw member
    cases member
  apply tracks_chars shape (cursorOk_origin shape.dimensions rfl rfl rfl)
    (fewAdvances_of_length _ _ ?_) cleared black
  calc _ = text.length := Nat.zero_add _
    _ < 2 ^ 26 := few

theorem tracks_shown {font : Font} {con : Console} {grid : Grid (UInt8 × UInt32)}
    (shape : TextShape fb font) (tracks : Tracks fb font con grid) :
    (∀ row < fb.height, ∀ col < fb.width,
        pixelAt fb con.pixels row col =
          render font (fb.height / 16) grid row col) ∧
      con.cursorX = grid.col ∧ con.cursorY = 16 * grid.row := by
  have cursorY : con.cursorY = 16 * grid.row := by
    have placed := tracks.refines.cursorY
    rw [placed, Nat.zero_add, Nat.cast_mul]
    rfl
  refine ⟨?_, tracks.refines.cursorX, cursorY⟩
  intro row below col left
  exact pixelAt_eq_render shape.layout tracks.refines below left

theorem bootText_tracks (shape : TextShape fb loaded.font)
    (few : (bootText (loaded.board fb) entries turns).length < 2 ^ 26)
    {after : Kernel}
    (does : Does (loaded.board fb) (kmainReply (loaded.board fb) entries turns)
      loaded.start after) :
    Tracks fb loaded.font after.con
      (run (gridStep (fb.height / 16) (fb.width / 8)) blankGrid
        ((bootText (loaded.board fb) entries turns).map gridOp)) := by
  have shown := does.con
  rw [kmainReply_ops] at shown
  rw [shown]
  exact text_tracks shape loaded.pixels (blackClears_bootText _ _ _) few

/-- From the bytes of the ramdisk and the disk and from the typed keys to the
pixels: whenever the kernel is at its prompt, or at the instruction where its
shell stops, the screen is the picture of the boot messages, the message of the
day and the session. -/
theorem kmain_screen (booted : Booted loaded fb entries)
    (shape : TextShape fb loaded.font) (input : View)
    (few : (bootText (loaded.board fb) entries turns).length < 2 ^ 26) :
    let reply := kmainReply (loaded.board fb) entries turns
    let grid := run (gridStep (fb.height / 16) (fb.width / 8)) blankGrid
      ((bootText (loaded.board fb) entries turns).map gridOp)
    ∃ fuel after,
      kmain fuel loaded turns input = some (.shell after reply.halt) ∧
      after.currentLayout = reply.layout ∧
      (∀ row < fb.height, ∀ col < fb.width,
        pixelAt fb after.con.pixels row col =
          render loaded.font (fb.height / 16) grid row col) ∧
      after.con.cursorX = grid.col ∧ after.con.cursorY = 16 * grid.row := by
  intro reply grid
  obtain ⟨fuel, after, runs, does⟩ := kmain_does booted turns input
  have tracks := bootText_tracks shape few does
  exact ⟨fuel, after, runs, does.layout, tracks_shown shape tracks⟩

def sampleLoaded : Loaded where
  framebuffers := some [smallScreen]
  modules := some [⟨4096, 1536, by decide⟩]
  mem := sampleMem
  font := letterFont
  disk := fun _ _ => 0
  bootStatus := readyDevices.rootStatus
  rootStatus := readyDevices.rootStatus
  controllerStatus := readyDevices.controllerStatus
  controllerData := readyDevices.controllerData
  pixels := fun _ => 0x00FF00

def sampleTurns : List Turn :=
  [⟨[0x63, 0x64, 0x0A], ⟨0, fun _ => 0, readyDevices⟩⟩]

theorem sampleLoaded_booted : Booted sampleLoaded smallScreen [sampleEntry] := by
  refine ⟨rfl, ⟨_, rfl, sample_laidOut, by decide⟩, ?_, readyDevices_answer.root,
    readyDevices_answer.root, readyDevices_answer.exchange⟩
  unfold HeadersWithin
  decide

theorem smallScreen_shape : TextShape smallScreen letterFont :=
  ⟨by decide, by decide, by decide, by decide, by decide, by decide⟩

theorem sample_few : (bootText (sampleLoaded.board smallScreen) [sampleEntry]
    sampleTurns).length < 2 ^ 26 := by
  decide

theorem kmain_screen_sample :
    let reply := kmainReply (sampleLoaded.board smallScreen) [sampleEntry]
      sampleTurns
    let grid := run (gridStep 2 3) blankGrid
      ((bootText (sampleLoaded.board smallScreen) [sampleEntry]
        sampleTurns).map gridOp)
    ∃ fuel after,
      kmain fuel sampleLoaded sampleTurns (fun _ => 0) =
        some (.shell after reply.halt) ∧
      after.currentLayout = reply.layout ∧
      (∀ row < 40, ∀ col < 24, pixelAt smallScreen after.con.pixels row col =
        render letterFont 2 grid row col) ∧
      after.con.cursorX = grid.col ∧ after.con.cursorY = 16 * grid.row :=
  kmain_screen sampleLoaded_booted smallScreen_shape _ sample_few

theorem TextShape.glyphFits {font : Font} (shape : TextShape fb font)
    (con : Console) (op : CharOp) : CharFits fb font con op := by
  have cells := shape.cells
  cases op with
  | char c color =>
      intro _ _ _ room y _ x _ _
      omega
  | backspace => trivial
  | clear color => exact shape.pitch

/-- Nothing that the kernel draws from boot on lies outside the screen. -/
theorem kmain_inScreen (booted : Booted loaded fb entries)
    (shape : TextShape fb loaded.font) (tall : 16 ≤ fb.height) (input : View)
    (few : (bootText (loaded.board fb) entries turns).length < 2 ^ 26) :
    ∃ fuel after,
      kmain fuel loaded turns input = some (.shell after
        (kmainReply (loaded.board fb) entries turns).halt) ∧
      AllInScreen fb after.con := by
  obtain ⟨fuel, after, runs, does⟩ := kmain_does booted turns input
  refine ⟨fuel, after, runs, ?_⟩
  have positive := shape.positive
  have cells := shape.cells
  have pitch := shape.pitch
  have whole : Shape fb loaded.font :=
    ⟨by omega, shape.width, tall, shape.height, by omega, by omega, shape.font⟩
  have always : Always (charStep fb loaded.font) FewAdvances
      (startConsole loaded.pixels)
      (kmainReply (loaded.board fb) entries turns).ops := by
    rw [kmainReply_ops]
    refine ⟨(by decide : 0 < 2 ^ 26), fewAdvances_of_length _ _ ?_⟩
    calc _ = (bootText (loaded.board fb) entries turns).length := Nat.zero_add _
      _ < 2 ^ 26 := few
  have shown : after.con = run (charStep fb loaded.font)
      (startConsole loaded.pixels)
      (kmainReply (loaded.board fb) entries turns).ops := does.con
  rw [shown, chars_inScreen_iff whole loaded.pixels _ always, guarded_iff]
  intro done op rest split
  exact TextShape.glyphFits shape _ op

theorem kmain_inScreen_sample :
    ∃ fuel after,
      kmain fuel sampleLoaded sampleTurns (fun _ => 0) = some (.shell after
        (kmainReply (sampleLoaded.board smallScreen) [sampleEntry]
          sampleTurns).halt) ∧
      AllInScreen smallScreen after.con :=
  kmain_inScreen sampleLoaded_booted smallScreen_shape (by decide) _ sample_few

end Screen

end Lumie.Kmain
