import Lumie.Drivers.Fat
import Lumie.Lib.InputLine
import Mathlib.Data.List.TakeWhile

/-!
# Command dispatch of the shell

One turn of `kernel_shell` after `readline`: the line in `input` is split in
place at its first space and its first word looked up in `commands`.  Every
read of `input` is checked against the 128 bytes of the array, so a turn that
would read behind it has no result.  The handlers are recorded by their calls.
-/

set_option autoImplicit false

namespace Lumie.Dispatch

open Lumie.Screen Lumie.Strings Lumie.Fat Lumie.Input Lumie.InputLine

inductive Command where
  | clear
  | help
  | ls
  | cat
  | cd
  | layout
  | uptime
  | echo
  | reboot
  deriving DecidableEq, Repr

def commands : List (CString × Command) :=
  [(CString.ofString "clear", .clear), (CString.ofString "help", .help),
    (CString.ofString "ls", .ls), (CString.ofString "cat", .cat),
    (CString.ofString "cd", .cd), (CString.ofString "layout", .layout),
    (CString.ofString "uptime", .uptime), (CString.ofString "echo", .echo),
    (CString.ofString "reboot", .reboot)]

/-- A call of `kprint` by the shell itself, or the call of a handler with the
string its argument points to. -/
inductive ShellEvent where
  | print (call : PrintCall)
  | run (command : Command) (args : CString)

def ShellEvent.reboots : ShellEvent → Bool
  | .run .reboot _ => true
  | _ => false

/-- The string that `&input[i]` points to in `char input[128]`. -/
def stringAt (input : View) (i : Nat) : Option CString :=
  stringFrom input (128 - i) i

/-- The loop that ends the first word: the array afterwards and the offset of
`args`, unless that is still the empty literal. -/
def splitLoop (input : View) : Nat → Nat → Option (View × Option Nat)
  | 0, _ => none
  | left + 1, i =>
      if input i = 0 then some (input, none)
      else if input i = 0x20 then
        some (Function.update input i 0, some (i + 1))
      else splitLoop input left (i + 1)

/-- The loop over `commands`: the first entry whose name `strcmp` finds equal
to `input`. -/
def findCommand (input : View) :
    List (CString × Command) → Option (Option Command)
  | [] => some none
  | (name, command) :: rest =>
      if strcmpStop input name.bytes 0 < 128 then
        if strcmp input name = 0 then some (some command)
        else findCommand input rest
      else none

def argsString (input : View) : Option Nat → Option CString
  | none => some CString.empty
  | some offset => stringAt input offset

def unknownCommand (name : CString) : List ShellEvent :=
  [.print ⟨CString.ofString "Kernel command \"", 0xFF0000⟩,
    .print ⟨name, 0xFF0000⟩,
    .print ⟨CString.ofString "\" does not exist.\n", 0xFF0000⟩]

/-- The body of the shell loop behind `readline`: what it does and the array
it leaves. -/
def shellTurn (input : View) : Option (List ShellEvent × View) := do
  let line ← stringAt input 0
  if strlen line = 0 then
    return ([], input)
  let (split, args) ← splitLoop input 128 0
  match ← findCommand split commands with
  | some command =>
      let string ← argsString split args
      return ([.run command string], split)
  | none =>
      let name ← stringAt split 0
      return (unknownCommand name, split)

def prompt : PrintCall := ⟨CString.ofString "> ", 0xFFFFFF⟩

/-- The shell over the keys of several lines.  What the handlers draw is left
open, so each `readline` echoes on a console of its own; `reboot` does not come
back. -/
def kernelShell (fb : Framebuffer) (font : Font) :
    View → List (Console × List UInt8) → Option (List ShellEvent)
  | _, [] => some [.print prompt]
  | input, (con, keys) :: rest =>
      match readline fb font con input 128 keys with
      | .waiting _ => some [.print prompt]
      | .done line => do
          let (events, after) ← shellTurn line.buffer
          if events.any ShellEvent.reboots then
            return .print prompt :: events
          let later ← kernelShell fb font after rest
          return .print prompt :: (events ++ later)

/-! ## Words -/

def firstWord (line : CString) : CString where
  bytes := line.bytes.takeWhile (· ≠ 0x20)
  noNul := by
    intro byte member
    exact line.noNul byte ((List.takeWhile_prefix _).subset member)

def argument (line : CString) : CString where
  bytes := (line.bytes.dropWhile (· ≠ 0x20)).tail
  noNul := by
    intro byte member
    exact line.noNul byte
      ((List.dropWhile_suffix _).subset (List.mem_of_mem_tail member))

theorem word_plain (line : CString) :
    ∀ byte ∈ (firstWord line).bytes, byte ≠ 0 ∧ byte ≠ 0x20 := by
  intro byte member
  refine ⟨(firstWord line).noNul byte member, ?_⟩
  simpa using List.mem_takeWhile_imp member

theorem line_cases (line : CString) :
    (line.bytes = (firstWord line).bytes ∧ (argument line).bytes = []) ∨
      line.bytes = (firstWord line).bytes ++ 0x20 :: (argument line).bytes := by
  have rest : (argument line).bytes = (line.bytes.dropWhile (· ≠ 0x20)).tail :=
    rfl
  have parts : (firstWord line).bytes ++ line.bytes.dropWhile (· ≠ 0x20) =
      line.bytes := List.takeWhile_append_dropWhile
  have stops := List.head?_dropWhile_not (· ≠ 0x20) line.bytes
  cases behind : line.bytes.dropWhile (· ≠ 0x20) with
  | nil =>
      left
      rw [behind, List.append_nil] at parts
      rw [rest, behind]
      exact ⟨parts.symm, rfl⟩
  | cons byte tail =>
      right
      rw [behind] at stops
      have space : byte = 0x20 := by simpa using stops
      rw [behind, space] at parts
      rw [rest, behind]
      exact parts.symm

theorem stringAt_of_holds {input : View} {string : CString}
    (held : HoldsString input string) (short : string.bytes.length < 128) :
    stringAt input 0 = some string :=
  stringFrom_of_holds string held.tailAt short

theorem splitLoop_skip {input : View} {word : List UInt8} {left i : Nat}
    (reads : ∀ k < word.length, input (i + k) = word.getD k 0)
    (plain : ∀ byte ∈ word, byte ≠ 0 ∧ byte ≠ 0x20)
    (room : word.length ≤ left) :
    splitLoop input left i =
      splitLoop input (left - word.length) (i + word.length) := by
  induction word generalizing left i with
  | nil => rfl
  | cons byte rest ih =>
      rw [List.length_cons] at room
      obtain ⟨left, rfl⟩ : ∃ rest, left = rest + 1 := ⟨left - 1, by omega⟩
      have here : input i = byte := reads 0 (by simp)
      obtain ⟨nonzero, noSpace⟩ := plain byte (by simp)
      have later : ∀ k < rest.length, input (i + 1 + k) = rest.getD k 0 := by
        intro k bound
        have next := reads (k + 1) (by simpa using bound)
        rw [← Nat.add_assoc, Nat.add_right_comm] at next
        exact next
      rw [splitLoop, here, if_neg nonzero, if_neg noSpace,
        ih later (fun other member => plain other (by simp [member])) (by omega),
        List.length_cons, Nat.add_sub_add_right, Nat.add_assoc, Nat.add_comm 1]

theorem findCommand_of_holds {input : View} {word : CString}
    (held : HoldsString input word) (short : word.bytes.length < 128)
    (table : List (CString × Command)) :
    findCommand input table =
      some ((table.find? fun entry => entry.1.bytes = word.bytes).map
        Prod.snd) := by
  have ends : input (0 + word.bytes.length) = 0 := by
    rw [Nat.zero_add, held.ends]
  induction table with
  | nil => rfl
  | cons entry rest ih =>
      obtain ⟨name, command⟩ := entry
      have inside := strcmpStop_le name.bytes ends
      have decides := held.strcmp_iff name
      rw [Dispatch.findCommand, if_pos (by omega)]
      by_cases same : name.bytes = word.bytes
      · rw [if_pos (decides.mpr same), List.find?_cons_of_pos (by simpa using same)]
        rfl
      · rw [if_neg (fun zero => same (decides.mp zero)), List.find?_cons_of_neg (by simpa using same), ih]

theorem splitLoop_word {input : View} {word : CString}
    (plain : ∀ byte ∈ word.bytes, byte ≠ 0 ∧ byte ≠ 0x20)
    (held : HoldsString input word) (short : word.bytes.length < 128) :
    splitLoop input 128 0 = some (input, none) := by
  have reads : ∀ k < word.bytes.length,
      input (0 + k) = word.bytes.getD k 0 :=
    fun k bound => held.tailAt k (Nat.le_of_lt bound)
  have left : 128 - word.bytes.length = 127 - word.bytes.length + 1 := by omega
  rw [splitLoop_skip reads plain (by omega), left, splitLoop, Nat.zero_add,
    if_pos held.ends]

/-- With a space behind the first word the loop ends the word there. -/
theorem splitLoop_space {input : View} {line word rest : CString}
    (plain : ∀ byte ∈ word.bytes, byte ≠ 0 ∧ byte ≠ 0x20)
    (spaced : line.bytes = word.bytes ++ 0x20 :: rest.bytes)
    (held : HoldsString input line) (short : line.bytes.length < 128) :
    splitLoop input 128 0 =
        some (Function.update input word.bytes.length 0,
          some (word.bytes.length + 1)) ∧
      HoldsString (Function.update input word.bytes.length 0) word ∧
      argsString (Function.update input word.bytes.length 0)
        (some (word.bytes.length + 1)) = some rest := by
  have length : line.bytes.length =
      word.bytes.length + (rest.bytes.length + 1) := by
    rw [spaced, List.length_append, List.length_cons]
  have reads : ∀ k < word.bytes.length, input k = word.bytes.getD k 0 := by
    intro k bound
    rw [held k (by omega), CString.view, spaced,
      List.getD_append _ _ _ _ bound]
  have space : input word.bytes.length = 0x20 := by
    rw [held _ (by omega), CString.view, spaced,
      List.getD_append_right _ _ _ _ (Nat.le_refl _), Nat.sub_self]
    rfl
  have later : ∀ k ≤ rest.bytes.length,
      input (word.bytes.length + 1 + k) = rest.view k := by
    intro k bound
    rw [held _ (by omega), CString.view, spaced,
      List.getD_append_right _ _ _ _ (by omega)]
    have shift : word.bytes.length + 1 + k - word.bytes.length = k + 1 := by
      omega
    rw [shift, List.getD_cons_succ]
    rfl
  have left : 128 - word.bytes.length = 127 - word.bytes.length + 1 := by omega
  refine ⟨?_, ?_, ?_⟩
  · rw [splitLoop_skip (by simpa using reads) plain (by omega), left,
      splitLoop, Nat.zero_add, space, if_neg (by decide), if_pos rfl]
  · intro k bound
    rcases Nat.lt_or_eq_of_le bound with inside | rfl
    · rw [Function.update_of_ne (by omega)]
      exact reads k inside
    · rw [Function.update_self, CString.view,
        List.getD_eq_default _ _ (Nat.le_refl _)]
  · apply stringFrom_of_holds rest _ (by omega)
    intro k bound
    rw [Function.update_of_ne (by omega)]
    exact later k bound

theorem splitLoop_line {input : View} {line : CString}
    (held : HoldsString input line) (short : line.bytes.length < 128) :
    ∃ split args, splitLoop input 128 0 = some (split, args) ∧
      HoldsString split (firstWord line) ∧
      argsString split args = some (argument line) := by
  have plain := word_plain line
  rcases line_cases line with ⟨whole, noArgument⟩ | spaced
  · rw [CString.eq_of_bytes whole] at held short
    refine ⟨input, none, splitLoop_word plain held short, held, ?_⟩
    rw [argsString, Option.some.injEq]
    exact CString.eq_of_bytes noArgument.symm
  · exact ⟨_, _, splitLoop_space plain spaced held short⟩

def turnEvents (line : CString) : List ShellEvent :=
  if line.bytes = [] then []
  else
    match commands.find? fun entry =>
        entry.1.bytes = (firstWord line).bytes with
    | some entry => [.run entry.2 (argument line)]
    | none => unknownCommand (firstWord line)

theorem shellTurn_line {input : View} {line : CString}
    (held : HoldsString input line) (short : line.bytes.length < 128) :
    ∃ after, shellTurn input = some (turnEvents line, after) := by
  have stored := stringAt_of_holds held short
  have sameLength : strlen line = 0 ↔ line.bytes = [] := by simp
  by_cases empty : line.bytes = []
  · refine ⟨input, ?_⟩
    simp [shellTurn, stored, turnEvents, empty]
  · obtain ⟨split, args, splits, word, behind⟩ := splitLoop_line held short
    have wordShort : (firstWord line).bytes.length < 128 := by
      have inside : (firstWord line).bytes.length ≤ line.bytes.length :=
        (List.takeWhile_prefix _).length_le
      exact lt_of_le_of_lt inside short
    refine ⟨split, ?_⟩
    have found := findCommand_of_holds word wordShort commands
    have name := stringAt_of_holds word wordShort
    simp only [shellTurn, stored, turnEvents, Option.bind_eq_bind,
      Option.bind_some, if_neg empty, sameLength, splits, found]
    cases commands.find? fun entry =>
        entry.1.bytes = (firstWord line).bytes with
    | none => simp [name]
    | some entry => simp [behind]

/-! ## The table of commands -/

theorem commands_distinct : (commands.map fun entry => entry.1.bytes).Nodup := by
  decide

theorem find?_named {table : List (CString × Command)}
    (distinct : (table.map fun entry => entry.1.bytes).Nodup)
    {entry : CString × Command} (member : entry ∈ table) :
    table.find? (fun other => other.1.bytes = entry.1.bytes) = some entry := by
  induction table with
  | nil => cases member
  | cons head rest ih =>
      obtain ⟨fresh, later⟩ := List.nodup_cons.mp distinct
      rcases List.mem_cons.mp member with rfl | inRest
      · exact List.find?_cons_of_pos (by simp)
      · have other : head.1.bytes ≠ entry.1.bytes := by
          intro same
          exact fresh (List.mem_map.mpr ⟨entry, inRest, same.symm⟩)
        rw [List.find?_cons_of_neg (by simpa using other)]
        exact ih later inRest

/-- A line calls the handler registered under its first word, with the rest of
the line, or prints in red that there is no such command; an empty line does
nothing. -/
theorem shellTurn_dispatch (input : View) (line : CString)
    (short : line.bytes.length ≤ 127) (held : HoldsString input line) :
    ∃ events after, shellTurn input = some (events, after) ∧
      (line.bytes = [] → events = []) ∧
      (line.bytes ≠ [] →
        (∀ entry ∈ commands, entry.1.bytes = (firstWord line).bytes →
          events = [.run entry.2 (argument line)]) ∧
        ((∀ entry ∈ commands, entry.1.bytes ≠ (firstWord line).bytes) →
          events =
            [.print ⟨CString.ofString "Kernel command \"", 0xFF0000⟩,
              .print ⟨firstWord line, 0xFF0000⟩,
              .print ⟨CString.ofString "\" does not exist.\n", 0xFF0000⟩])) := by
  obtain ⟨after, turn⟩ := shellTurn_line held (by omega)
  refine ⟨turnEvents line, after, turn, ?_, ?_⟩
  · intro empty
    rw [turnEvents, if_pos empty]
  · intro nonempty
    rw [turnEvents, if_neg nonempty]
    refine ⟨?_, ?_⟩
    · intro entry member named
      rw [← named, find?_named commands_distinct member]
    · intro unnamed
      have missing : commands.find? (fun entry =>
          entry.1.bytes = (firstWord line).bytes) = none := by
        rw [List.find?_eq_none]
        intro entry member
        simpa using unnamed entry member
      rw [missing]
      rfl

def catLine : CString := CString.ofString "cat a b"

def catInput : View := fun i =>
  (catLine.bytes ++ [0] ++ (CString.ofString "cho stale").bytes).getD i 0

theorem shellTurn_catLine :
    (catLine.bytes.length ≤ 127 ∧ HoldsString catInput catLine) ∧
    ∃ events after, shellTurn catInput = some (events, after) ∧
      (catLine.bytes = [] → events = []) ∧
      (catLine.bytes ≠ [] →
        (∀ entry ∈ commands, entry.1.bytes = (firstWord catLine).bytes →
          events = [.run entry.2 (argument catLine)]) ∧
        ((∀ entry ∈ commands, entry.1.bytes ≠ (firstWord catLine).bytes) →
          events =
            [.print ⟨CString.ofString "Kernel command \"", 0xFF0000⟩,
              .print ⟨firstWord catLine, 0xFF0000⟩,
              .print ⟨CString.ofString "\" does not exist.\n",
                0xFF0000⟩])) := by
  have short : catLine.bytes.length ≤ 127 := by decide
  have held : HoldsString catInput catLine := by
    unfold HoldsString
    decide
  exact ⟨⟨short, held⟩, shellTurn_dispatch catInput catLine short held⟩

/-! ## Sessions -/

def sessionEvents : List CString → List ShellEvent
  | [] => [.print prompt]
  | line :: rest =>
      if (turnEvents line).any ShellEvent.reboots then
        .print prompt :: turnEvents line
      else .print prompt :: (turnEvents line ++ sessionEvents rest)

/-- A session does with the typed keys what the edited lines say, whatever one
line leaves in the buffer of the next. -/
theorem kernelShell_session (fb : Framebuffer) (font : Font) (input : View)
    (lines : List (Console × List UInt8))
    (noNewline : ∀ line ∈ lines, 0x0A ∉ line.2) :
    kernelShell fb font input
        (lines.map fun line => (line.1, line.2 ++ [0x0A])) =
      some (sessionEvents (lines.map fun line => editedLine 128 line.2)) := by
  induction lines generalizing input with
  | nil => rfl
  | cons first rest ih =>
      obtain ⟨con, typed⟩ := first
      have here : 0x0A ∉ typed := noNewline (con, typed) (by simp)
      have later : ∀ line ∈ rest, 0x0A ∉ line.2 := by
        intro line member
        exact noNewline line (by simp [member])
      obtain ⟨line, done, held⟩ := readline_returns fb font con input
        (by decide : 1 ≤ 128) (by decide) here []
      have short : (editedLine 128 typed).bytes.length ≤ 127 :=
        editedText_length 128 typed
      obtain ⟨after, turn⟩ := shellTurn_line held (by omega)
      rw [List.map_cons, List.map_cons, kernelShell, done, sessionEvents]
      simp only [turn, ih after later, Option.bind_eq_bind, Option.bind_some]
      split <;> rfl

end Lumie.Dispatch
