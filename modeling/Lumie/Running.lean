import Lumie.Kmain
import Lumie.Shell.Interleaving

/-!
# The running kernel

`kmain` up to `kernel_shell`, and from there on the steps of the shell between
the requests of the hardware.  Requests that come before the first prompt have
left their traces in the clock, the slot and the shift key.
-/

set_option autoImplicit false

namespace Lumie.Running

open FoldRun TextGrid
open Lumie.Strings Lumie.Fat Lumie.Screen Lumie.ScreenCursor Lumie.ScreenCells
open Lumie.ScreenGrid Lumie.Tar Lumie.TarArchive Lumie.Boot
open Lumie.Keyboard Lumie.Dispatch Lumie.Commands Lumie.Session Lumie.Kmain
open Lumie.Pic Lumie.Idt Lumie.Interrupts Lumie.Interleaving

def prompted (loaded : Loaded) (fb : Framebuffer) (found : TarReturn)
    (machine : Machine) (input : View) : System :=
  let kernel := greet loaded fb found
  startSystem (loaded.board fb) machine kernel.con kernel.uintBuf input

/-- What stands on the screen while these lines have been answered and these
keys have been returned since. -/
def shownText (board : Board) (entries : List TarEntry) (turns : List Turn)
    (keys : List UInt8) : List CharOp :=
  bootText board entries turns ++ echo [] keys

section Screen

variable {loaded : Loaded} {fb : Framebuffer} {entries : List TarEntry}

theorem blackClears_shownText (board : Board) (entries : List TarEntry)
    (turns : List Turn) (keys : List UInt8) :
    BlackClears (shownText board entries turns keys) :=
  (blackClears_bootText board entries turns).append (blackClears_echo [] keys)

theorem shows_text {found : TarReturn} {system : System} {uintBuf : Nat → UInt8}
    (shown : callsOps (motdCalls loaded.mem found) = motdOps entries)
    (shows : Shows (loaded.board fb)
      ⟨(greet loaded fb found).con, .enUs, uintBuf⟩ system) :
    system.con = run (charStep fb loaded.font) (startConsole loaded.pixels)
      (.clear 0x000000 ::
        shownText (loaded.board fb) entries system.turns system.keys) := by
  have opened := (@greet_does loaded fb entries found shown).con
  rw [shows.con, opened, ← run_append]
  congr 1
  simp only [setUpOps, shownText, bootText, List.cons_append, List.append_assoc]

/-- From the bytes of the ramdisk and the disk and from the requests of the
hardware to the pixels: the boot comes to the prompt, and whatever order the
requests and the steps of the shell come in, the machine serves them all, no line
is read outside its buffer, and the screen is the picture of the boot messages,
the message of the day, the lines that have been answered and the echo of the
keys since.  The exception is a division by zero, behind which the machine is in
`rsod`. -/
theorem running_screen (loader : Booted loaded fb entries)
    (shape : TextShape fb loaded.font) (image : Image) (pics : Pics)
    (keyboard : KeyboardState) (layout : keyboard.currentLayout = .enUs)
    (systemTicks : UInt64) (input : View) (events : List Event)
    (gated : ∀ irq, .irq irq ∈ events → HasGate irq.line) :
    ∃ fuel found,
      kmain fuel loaded [] input = some (.shell
        ((greet loaded fb found).kprint (loaded.board fb) prompt) none) ∧
      let system := run (systemStep (loaded.board fb) image)
        (prompted loaded fb found (booted image pics keyboard systemTicks) input)
        events
      let text := shownText (loaded.board fb) entries system.turns system.keys
      let grid := run (gridStep (fb.height / 16) (fb.width / 8)) blankGrid
        (text.map gridOp)
      system.phase ≠ .fault ∧
        (system.phase = .halted .divideError → Crashed system.machine ∧
          (fatBpb (fatInit loaded.disk)).bytesPerSector = 0) ∧
        (system.phase ≠ .halted .divideError →
          Served systemTicks system.machine ∧
          (text.length < 2 ^ 26 →
            (∀ row < fb.height, ∀ col < fb.width,
              pixelAt fb system.con.pixels row col =
                render loaded.font (fb.height / 16) grid row col) ∧
            system.con.cursorX = grid.col ∧
            system.con.cursorY = 16 * grid.row)) := by
  obtain ⟨fuel, found, -, shown, greets⟩ := kmain_greets loader
  refine ⟨fuel, found, greets [] input, ?_⟩
  intro system text grid
  have refines : Refines (loaded.board fb) image systemTicks
      ⟨(greet loaded fb found).con, keyboard.currentLayout,
        (greet loaded fb found).uintBuf⟩ input system :=
    (refines_start (loaded.board fb) image pics keyboard systemTicks _ _ input).run
      (loaded.board fb) image gated
  have shows := refines.shows
  rw [layout] at shows
  refine ⟨shows.noFault, refines.divides, fun running => ?_⟩
  refine ⟨(refines.steady running).served, ?_⟩
  intro few
  have tracks := text_tracks shape loaded.pixels
    (blackClears_shownText (loaded.board fb) entries system.turns system.keys) few
  rw [← shows_text shown shows] at tracks
  exact tracks_shown shape tracks

theorem running_screen_enter :
    ∃ fuel found,
      kmain fuel sampleLoaded [] (fun _ => 0) = some (.shell
        ((greet sampleLoaded smallScreen found).kprint
          (sampleLoaded.board smallScreen) prompt) none) ∧
      let system := run (systemStep (sampleLoaded.board smallScreen) spacedImage)
        (prompted sampleLoaded smallScreen found
          (booted spacedImage remapped ⟨.enUs, false, 0⟩ 0) fun _ => 0) enterEvents
      let text := shownText (sampleLoaded.board smallScreen) [sampleEntry]
        system.turns system.keys
      let grid := run (gridStep 2 3) blankGrid (text.map gridOp)
      system.phase ≠ .fault ∧
        (system.phase = .halted .divideError → Crashed system.machine ∧
          (fatBpb (fatInit sampleLoaded.disk)).bytesPerSector = 0) ∧
        (system.phase ≠ .halted .divideError →
          Served 0 system.machine ∧
          (text.length < 2 ^ 26 →
            (∀ row < 40, ∀ col < 24,
              pixelAt smallScreen system.con.pixels row col =
                render letterFont 2 grid row col) ∧
            system.con.cursorX = grid.col ∧
            system.con.cursorY = 16 * grid.row)) :=
  running_screen sampleLoaded_booted smallScreen_shape spacedImage remapped
    ⟨.enUs, false, 0⟩ rfl 0 _ enterEvents enterEvents_gated

end Screen

end Lumie.Running
