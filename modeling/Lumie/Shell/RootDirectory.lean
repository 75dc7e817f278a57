import Lumie.Base.SlotTable
import Lumie.Shell.CatDisk
import Lumie.Shell.CatFile
import Lumie.Shell.Session

/-!
# The shell on a directory of files

A `Directory` is what a volume is for: names, each with the contents of a file
or with a subdirectory.  A disk represents it in its boot sector, in the first
sector of its root directory, between deleted entries, labels and unused ones,
and in the clusters of the files.  On such a disk the shell is the shell on the
directory, in which no sector is left.
-/

set_option autoImplicit false

namespace Lumie.RootDirectory

open SlotTable FoldRun
open Lumie.Strings Lumie.Screen Lumie.Ata Lumie.Fat Lumie.FatLookup Lumie.FatName
open Lumie.Keyboard Lumie.Input Lumie.InputLine
open Lumie.Cat Lumie.CatFile Lumie.Dispatch Lumie.Commands Lumie.Session

/-- `cat` reads one sector of a file. -/
inductive Node where
  | file (contents : List UInt8) (short : contents.length ≤ 512)
  | directory

/-- Other names cannot be asked for. -/
structure Entry where
  name : FatName
  node : Node
  ascii : ∀ k, (name k).toNat < 128

abbrev Directory := List Entry

def Directory.lookup (directory : Directory) (name : FatName) : Option Node :=
  (directory.find? fun entry => entry.name = name).map Entry.node

def newline : List CharOp := say [0x0A] 0xFFFFFF

def missingOps : List CharOp := say notFound.str.bytes 0xFF0000

/-- An empty file has no cluster, which is the answer of the lookup for no
file. -/
def Node.shown : Node → List CharOp
  | .file contents _ =>
      if contents = [] then missingOps
      else say (contents.filter (· ≠ 0)) 0x00FF00 ++ newline
  | .directory => newline

def Directory.listing (directory : Directory) : List CharOp :=
  driveOps ++
    directory.flatMap fun entry =>
      say (displayName entry.name).bytes 0x00FF00 ++ newline

def Directory.catOps (directory : Directory) (args : CString) : List CharOp :=
  if args.bytes = [] then say usage.str.bytes 0xFFFFFF
  else (directory.lookup (fatFormatName args)).elim missingOps Node.shown

def Node.reads : Node → Nat
  | .file contents _ => if contents = [] then 1 else 2
  | .directory => 2

def Directory.reads (directory : Directory) (args : CString) : Nat :=
  if args.bytes = [] then 0
  else (directory.lookup (fatFormatName args)).elim 1 Node.reads

def Directory.answers (directory : Directory) : Answers :=
  answer directory.listing directory.reads fun args layout =>
    ⟨directory.catOps args, layout, none⟩

/-! ## Disks -/

def Stores (disk : Disk) (bpb : FatBpb) (dirent : FatDirent) : Node → Prop
  | .file contents _ =>
      dirent.fileSize = contents.length ∧
        if contents = [] then dirent.firstClusterLo = 0
        else
          2 ≤ dirent.firstClusterLo ∧
            (List.range contents.length).map
              (byteAt (fileSector disk bpb dirent.firstClusterLo)) = contents
  | .directory => dirent.fileSize = 0 ∧ 2 ≤ dirent.firstClusterLo

structure HoldsEntry (disk : Disk) (bpb : FatBpb) (dirent : FatDirent)
    (entry : Entry) : Prop where
  name : dirent.name = entry.name
  node : Stores disk bpb dirent entry.node

/-- The disk shows the directory in order, and what it hides is unused,
deleted, or has no cluster and the name of no entry, as a label. -/
structure Represents (disk : Disk) (bootSector : Sector)
    (directory : Directory) : Prop where
  sectorSize : (fatBpb bootSector).bytesPerSector ≠ 0
  entries : Keeps (fun i => decide (Visible (rootSector disk bootSector) i))
    (fun i entry => HoldsEntry disk (fatBpb bootSector)
      (fatDirent (rootSector disk bootSector) i) entry)
    (List.range 16) directory
  hidden : ∀ i < 16, ¬ Visible (rootSector disk bootSector) i →
    (fatDirent (rootSector disk bootSector) i).firstByte = 0x00 ∨
    (fatDirent (rootSector disk bootSector) i).firstByte = 0xE5 ∨
    ((fatDirent (rootSector disk bootSector) i).firstClusterLo = 0 ∧
      ∀ entry ∈ directory,
        entry.name ≠ (fatDirent (rootSector disk bootSector) i).name)

theorem matchesAt_iff {buf : Sector} {name : FatName} {i : Nat} :
    MatchesAt buf name i ↔
      (fatDirent buf i).name = name ∧ ∀ k, (name k).toNat < 128 := by
  rw [MatchesAt, fatNameMatch_iff, funext_iff, ← forall_and]
  exact forall_congr' fun k => MachineInt.toNat_eq_charVal_iff

theorem HoldsEntry.matchesAt_iff {disk : Disk} {bpb : FatBpb} {buf : Sector}
    {name : FatName} (i : Nat) (entry : Entry)
    (holds : HoldsEntry disk bpb (fatDirent buf i) entry) :
    decide (MatchesAt buf name i) = decide (entry.name = name) := by
  rw [decide_eq_decide, RootDirectory.matchesAt_iff, holds.name]
  refine and_iff_left_of_imp ?_
  rintro rfl
  exact entry.ascii

section Lookup

variable {disk : Disk} {bootSector : Sector} {directory : Directory}
  {name : FatName}

/-- A hidden entry that the comparison accepts is a label of another name. -/
theorem Represents.hidden_match (represents : Represents disk bootSector directory)
    (nonzero : ∀ k, name k ≠ 0) {i : Nat} (below : i < 16)
    (matched : MatchesAt (rootSector disk bootSector) name i)
    (hidden : ¬ Visible (rootSector disk bootSector) i) :
    (fatDirent (rootSector disk bootSector) i).firstClusterLo = 0 ∧
      ∀ entry ∈ directory, entry.name ≠ name := by
  obtain ⟨same, ascii⟩ := matchesAt_iff.mp matched
  rcases represents.hidden i below hidden with unused | deleted | label
  · have first := nonzero 0
    rw [← same] at first
    exact absurd unused first
  · have first := ascii 0
    rw [← same] at first
    rw [FatDirent.firstByte] at deleted
    rw [deleted] at first
    exact absurd first (by decide)
  · rw [← same]
    exact label

theorem Represents.find_some (represents : Represents disk bootSector directory)
    (nonzero : ∀ k, name k ≠ 0) {node : Node}
    (found : directory.lookup name = some node) :
    ∃ dirent, Stores disk (fatBpb bootSector) dirent node ∧
      dirent.firstClusterLo < 2 ^ 16 ∧
      fatFindFile disk bootSector name =
        ⟨dirent.firstClusterLo, some dirent.fileSize⟩ := by
  obtain ⟨entry, first, rfl⟩ := Option.map_eq_some_iff.mp found
  have member := List.mem_of_find?_eq_some first
  have named : entry.name = name := by simpa using List.find?_some first
  have unhidden : ∀ i ∈ List.range 16,
      decide (MatchesAt (rootSector disk bootSector) name i) = true →
        decide (Visible (rootSector disk bootSector) i) = true := by
    intro i inside matched
    rw [decide_eq_true_eq] at matched ⊢
    by_contra hidden
    have label := represents.hidden_match nonzero (List.mem_range.mp inside)
      matched hidden
    exact label.2 entry member named
  have search := represents.entries.find_live HoldsEntry.matchesAt_iff unhidden
  rw [first] at search
  generalize scan : (List.range 16).find? (fun i =>
    decide (MatchesAt (rootSector disk bootSector) name i)) = result at search
  cases search with
  | @some i _ holds =>
      refine ⟨fatDirent (rootSector disk bootSector) i, holds.node,
        u16At_lt _ _, ?_⟩
      simp only [fatFindFile, scan]

theorem Represents.find_none (represents : Represents disk bootSector directory)
    (nonzero : ∀ k, name k ≠ 0) (missing : directory.lookup name = none) :
    (fatFindFile disk bootSector name).cluster = 0 := by
  have absent := Option.map_eq_none_iff.mp missing
  cases scan : (List.range 16).find? (fun i =>
      decide (MatchesAt (rootSector disk bootSector) name i)) with
  | none => simp only [fatFindFile, scan]
  | some i =>
      have below := List.mem_range.mp (List.mem_of_find?_eq_some scan)
      have matched : MatchesAt (rootSector disk bootSector) name i := by
        simpa using List.find?_some scan
      have hidden :=
        represents.entries.find_absent HoldsEntry.matchesAt_iff absent scan
      rw [decide_eq_false_iff_not] at hidden
      simp only [fatFindFile, scan]
      exact (represents.hidden_match nonzero below matched hidden).1

end Lookup

/-! ## The answers -/

theorem contentsOps_stored {sector : Sector} (stackBehind : Nat → UInt8)
    {contents : List UInt8} (short : contents.length ≤ 512)
    (stored : (List.range contents.length).map (byteAt sector) = contents) :
    contentsOps sector stackBehind contents.length =
      say (contents.filter (· ≠ 0)) 0x00FF00 ++ newline := by
  have read : (List.range contents.length).map (bufByte sector stackBehind) =
      (List.range contents.length).map (byteAt sector) := by
    apply List.map_congr_left
    intro i member
    have inside : i < 512 := by
      have below := List.mem_range.mp member
      omega
    rw [bufByte, dif_pos inside, byteAt, dif_pos inside]
  rw [contentsOps, read, stored]
  rfl

section Answers

variable {board : Board} {directory : Directory}

theorem Represents.listing_eq
    (represents : Represents board.disk board.bootSector directory) :
    lsOps board = directory.listing := by
  have same : ∀ (i : Nat) (entry : Entry),
      HoldsEntry board.disk (fatBpb board.bootSector)
        (fatDirent (rootSector board.disk board.bootSector) i) entry →
      entryOps (fatDirent (rootSector board.disk board.bootSector) i) =
        say (displayName entry.name).bytes 0x00FF00 ++ newline := by
    intro i entry holds
    rw [entryOps, holds.name]
    rfl
  rw [lsOps, Directory.listing, represents.entries.flatMap_eq same]

theorem Represents.cat_cluster
    (represents : Represents board.disk board.bootSector directory)
    (moment : Moment) (layout : Layout) {args : CString} (nonempty : args.bytes ≠ [])
    {dirent : FatDirent} (narrow : dirent.firstClusterLo < 2 ^ 16)
    (data : 2 ≤ dirent.firstClusterLo)
    (lookup : fatFindFile board.disk board.bootSector (fatFormatName args) =
      ⟨dirent.firstClusterLo, some dirent.fileSize⟩) :
    catReply board moment args layout =
      ⟨contentsOps
        (fileSector board.disk (fatBpb board.bootSector) dirent.firstClusterLo)
        moment.stackBehind dirent.fileSize, layout, none⟩ := by
  have bounds := fatBpb_bounds board.bootSector
  have sectorSize := represents.sectorSize
  have cluster : ¬ dirent.firstClusterLo = 0 := by omega
  simp only [catReply, lookup, if_neg nonempty, if_neg cluster,
    if_neg sectorSize, Option.getD_some]
  rw [ataReadSector_of_lt board.disk (clusterLba_lt bounds sectorSize narrow data),
    clusterLba_eq bounds sectorSize narrow (Or.inl data)]
  rfl

theorem Represents.cat_eq
    (represents : Represents board.disk board.bootSector directory)
    (moment : Moment) (args : CString) (layout : Layout) :
    catReply board moment args layout = ⟨directory.catOps args, layout, none⟩ := by
  have nonzero := fatFormatName_ne_zero args
  unfold Directory.catOps
  by_cases empty : args.bytes = []
  · rw [catReply, if_pos empty, if_pos empty]
  · rw [if_neg empty]
    cases found : directory.lookup (fatFormatName args) with
    | none =>
        have cluster := represents.find_none nonzero found
        rw [catReply, if_neg empty, if_pos cluster]
        rfl
    | some node =>
        obtain ⟨dirent, stores, narrow, lookup⟩ :=
          represents.find_some nonzero found
        cases node with
        | directory =>
            obtain ⟨noSize, data⟩ := stores
            rw [represents.cat_cluster moment layout empty narrow data lookup,
              noSize]
            rfl
        | file contents short =>
            obtain ⟨size, clusters⟩ := stores
            by_cases nothing : contents = []
            · rw [if_pos nothing] at clusters
              rw [catReply, if_neg empty, lookup, if_pos clusters,
                Option.elim_some, Node.shown, if_pos nothing]
              rfl
            · rw [if_neg nothing] at clusters
              obtain ⟨data, stored⟩ := clusters
              rw [represents.cat_cluster moment layout empty narrow data lookup,
                size, contentsOps_stored _ short stored, Option.elim_some,
                Node.shown, if_neg nothing]

theorem Represents.reads_eq
    (represents : Represents board.disk board.bootSector directory)
    (args : CString) : catReads board args = directory.reads args := by
  have nonzero := fatFormatName_ne_zero args
  have sectorSize := represents.sectorSize
  unfold Directory.reads catReads
  by_cases empty : args.bytes = []
  · rw [if_pos empty, if_pos empty]
  · rw [if_neg empty, if_neg empty]
    cases found : directory.lookup (fatFormatName args) with
    | none =>
        have cluster := represents.find_none nonzero found
        rw [if_pos (Or.inl cluster), Option.elim_none]
    | some node =>
        obtain ⟨dirent, stores, -, lookup⟩ := represents.find_some nonzero found
        simp only [lookup, sectorSize, or_false, Option.elim_some]
        cases node with
        | directory =>
            have data : ¬ dirent.firstClusterLo = 0 := by
              have := stores.2
              omega
            rw [if_neg data, Node.reads]
        | file contents short =>
            obtain ⟨-, clusters⟩ := stores
            by_cases nothing : contents = []
            · rw [if_pos nothing] at clusters
              rw [if_pos clusters, Node.reads, if_pos nothing]
            · rw [if_neg nothing] at clusters
              have data : ¬ dirent.firstClusterLo = 0 := by
                have := clusters.1
                omega
              rw [if_neg data, Node.reads, if_neg nothing]

theorem Represents.reply_eq
    (represents : Represents board.disk board.bootSector directory) :
    reply board = directory.answers := by
  funext moment
  have cat : catReply board moment =
      fun args layout => ⟨directory.catOps args, layout, none⟩ := by
    funext args layout
    exact represents.cat_eq moment args layout
  have reads : catReads board = directory.reads :=
    funext represents.reads_eq
  rw [reply, Directory.answers, represents.listing_eq, reads, cat]

end Answers

theorem answers_noDivide (directory : Directory) (turns : List Turn)
    (layout : Layout) :
    (sessionReply directory.answers turns layout).halt ≠ some .divideError := by
  have behind : ∀ (ended : Bool) (before : List CharOp) {said : Reply},
      said.halt = none → (said.behind ended before).halt ≠ some .divideError := by
    intro ended before said comesBack
    cases ended with
    | false => exact fun halted => by cases halted
    | true =>
        rw [Reply.behind, if_pos rfl, comesBack]
        exact fun halted => by cases halted
  refine @session_satisfies directory.answers
    (fun said => said.halt ≠ some .divideError) ?_ ?_ ?_ turns ?_ layout
  · intro first second before after
    unfold Reply.andThen
    split
    · exact before
    · exact after _
  · intro _ _ halted
    cases halted
  · intro _ _ halted
    cases halted
  · intro turn _ args layout command
    cases command with
    | ls => exact behind _ _ rfl
    | cat => exact behind _ _ rfl
    | layout =>
        change (layoutReply turn.moment.devices args layout).halt ≠ _
        unfold layoutReply
        split
        · exact fun halted => by cases halted
        · exact behind _ _ rfl
    | _ => exact fun halted => by cases halted

/-! ## The shell -/

/-- On a disk that represents a directory the shell is the shell on that
directory, and no line makes it divide by zero. -/
theorem kernelShell_directory (board : Board) (directory : Directory)
    (represents : Represents board.disk board.bootSector directory)
    (turns : List Turn) (kernel : Kernel) (input : View) :
    (∃ after, kernelShell board turns kernel input = some (after,
        (sessionReply directory.answers turns kernel.currentLayout).halt) ∧
      Does board (sessionReply directory.answers turns kernel.currentLayout)
        kernel after) ∧
    (sessionReply directory.answers turns kernel.currentLayout).halt ≠
      some .divideError := by
  have runs := kernelShell_does board turns kernel input
  rw [represents.reply_eq] at runs
  exact ⟨runs, answers_noDivide directory turns kernel.currentLayout⟩

def labelName : List UInt8 :=
  [0x4C, 0x55, 0x4D, 0x49, 0x45, 0x20, 0x20, 0x20, 0x20, 0x20, 0x20]

def homeName : List UInt8 :=
  [0x48, 0x4F, 0x4D, 0x45, 0x20, 0x20, 0x20, 0x20, 0x20, 0x20, 0x20]

def sampleRoot : Sector := fun i =>
  (direntBytes labelName 0x08 0 0 ++ direntBytes (0xE5 :: homeName.drop 1) 0x20 4 9 ++
    direntBytes readmeName 0x20 2 2 ++ direntBytes homeName 0x10 3 0).getD i 0

def sampleDisk : Disk := fun lba =>
  if lba = 0 then formattedBoot
  else if lba = 1 then sampleRoot
  else fun i => [0x48, 0x69].getD i 0

def readme : Entry where
  name := fun k => readmeName.getD k 0
  node := .file [0x48, 0x69] (by decide)
  ascii := by decide

def sampleDirectory : Directory :=
  [readme, ⟨fun k => homeName.getD k 0, .directory, by decide⟩]

def sampleBoard : Board :=
  ⟨⟨800, 600, 3200⟩, letterFont, sampleDisk, fatInit sampleDisk⟩

theorem sampleDisk_represents :
    Represents sampleBoard.disk sampleBoard.bootSector sampleDirectory := by
  have lba : rootLba (fatBpb sampleBoard.bootSector) = 1 := by decide
  have root : rootSector sampleBoard.disk sampleBoard.bootSector = sampleRoot := by
    rw [rootSector, lba, ataReadSector_of_lt _ (by decide)]
    rfl
  have visible : (List.range 16).filter (fun i =>
      decide (Visible sampleRoot i)) = [2, 3] := by decide
  refine ⟨by decide, ?_, ?_⟩
  · rw [Keeps, root, visible]
    refine .cons ⟨by decide, ?_⟩ (.cons ⟨by decide, by decide, by decide⟩ .nil)
    exact ⟨by decide, by decide, by decide⟩
  · rw [root]
    decide

def lsTurns : List Turn := [⟨[0x6C, 0x73, 0x0A], ⟨0, fun _ => 0, readyDevices⟩⟩]

theorem kernelShell_directory_sample :
    (∃ after, kernelShell sampleBoard lsTurns
        ⟨startConsole fun _ => 0, .enUs, fun _ => 0⟩ (fun _ => 0) = some (after,
          (sessionReply sampleDirectory.answers lsTurns .enUs).halt) ∧
      Does sampleBoard (sessionReply sampleDirectory.answers lsTurns .enUs)
        ⟨startConsole fun _ => 0, .enUs, fun _ => 0⟩ after) ∧
    (sessionReply sampleDirectory.answers lsTurns .enUs).halt ≠ some .divideError :=
  kernelShell_directory sampleBoard sampleDirectory sampleDisk_represents lsTurns
    ⟨startConsole fun _ => 0, .enUs, fun _ => 0⟩ fun _ => 0

/-! ## Asking for what is listed -/

/-- A name in upper case that can be typed as it is displayed. -/
structure Askable (name : FatName) : Prop where
  upper : ∀ k, upperCase (name k) = name k
  noDot : ∀ k, k.val < 8 → name k ≠ 0x2E
  typable : ∀ k, Typable (name k)

theorem Askable.fatFormatName_eq {name : FatName} (askable : Askable name) :
    fatFormatName (displayName name) = name := by
  funext k
  have nonzero : ∀ k, name k ≠ 0 := fun k => (askable.typable k).1
  rw [fatFormatName_displayName nonzero askable.noDot, askable.upper]

theorem displayName_typable {name : FatName} (typable : ∀ k, Typable (name k)) :
    ∀ c ∈ (displayName name).bytes, Typable c := by
  intro c member
  have shown := (List.mem_filter.mp member).1
  simp only [List.mem_append, List.mem_map, List.mem_singleton] at shown
  rcases shown with (⟨k, -, rfl⟩ | rfl) | ⟨k, -, rfl⟩
  · exact typable k
  · decide
  · exact typable k

theorem displayName_length (name : FatName) :
    (displayName name).bytes.length ≤ 12 :=
  List.length_filter_le _ _

theorem displayName_nonempty (name : FatName) :
    ¬ (displayName name).bytes = [] := by
  have dot : (0x2E : UInt8) ∈ (displayName name).bytes := by simp [displayName]
  exact List.ne_nil_of_mem dot

theorem lookup_member {directory : Directory}
    (distinct : (directory.map Entry.name).Nodup) {entry : Entry}
    (member : entry ∈ directory) :
    directory.lookup entry.name = some entry.node := by
  induction directory with
  | nil => cases member
  | cons head rest ih =>
      obtain ⟨fresh, later⟩ := List.nodup_cons.mp distinct
      rcases List.mem_cons.mp member with rfl | inRest
      · rw [Directory.lookup, List.find?_cons_of_pos (by simp)]
        rfl
      · have other : head.name ≠ entry.name := by
          intro same
          exact fresh (List.mem_map.mpr ⟨entry, inRest, same.symm⟩)
        rw [Directory.lookup, List.find?_cons_of_neg (by simpa using other)]
        exact ih later inRest

def catName : CString := CString.ofString "cat"

theorem catOps_listed {directory : Directory}
    (distinct : (directory.map Entry.name).Nodup) {entry : Entry}
    (member : entry ∈ directory) (askable : Askable entry.name) :
    directory.catOps (displayName entry.name) = entry.node.shown := by
  rw [Directory.catOps, if_neg (displayName_nonempty entry.name),
    askable.fatFormatName_eq, lookup_member distinct member]
  rfl

theorem reads_listed {directory : Directory}
    (distinct : (directory.map Entry.name).Nodup) {entry : Entry}
    (member : entry ∈ directory) (askable : Askable entry.name) :
    directory.reads (displayName entry.name) = entry.node.reads := by
  rw [Directory.reads, if_neg (displayName_nonempty entry.name),
    askable.fatFormatName_eq, lookup_member distinct member]
  rfl

def askOps (name : FatName) : List CharOp :=
  callsOps [prompt] ++ say (commandKeys catName (displayName name)) 0xFFFFFF

theorem turnReply_listed {directory : Directory}
    (distinct : (directory.map Entry.name).Nodup) {entry : Entry}
    (member : entry ∈ directory) (askable : Askable entry.name)
    (moment : Moment) (layout : Layout) :
    turnReply directory.answers
        ⟨commandKeys catName (displayName entry.name), moment⟩ layout =
      Reply.behind (moment.devices.answered entry.node.reads)
        (askOps entry.name)
        ⟨askOps entry.name ++ entry.node.shown, layout, none⟩ := by
  have cat : (catName, Command.cat) ∈ commands := by simp [commands, catName]
  have typable := displayName_typable askable.typable
  have short := displayName_length entry.name
  have shown := catOps_listed distinct member askable
  have reads := reads_listed distinct member askable
  have said := turnReply_command directory.answers cat typable (by omega) moment
    layout
  have answered : directory.answers moment (displayName entry.name) layout .cat =
      Reply.behind (moment.devices.answered entry.node.reads) []
        ⟨entry.node.shown, layout, none⟩ := by
    rw [← shown, ← reads]
    rfl
  rw [said, andThen_running rfl, answered]
  cases moment.devices.answered entry.node.reads with
  | false =>
      rw [Reply.behind, Reply.behind, if_neg (by simp), if_neg (by simp),
        List.append_nil]
      rfl
  | true => rfl

/-- A name that `ls` lists, typed behind `cat` as it is shown, shows what is
stored under it, at every prompt.  While the drive has not offered the sectors,
it shows nothing. -/
theorem kernelShell_listed (board : Board) (directory : Directory)
    (represents : Represents board.disk board.bootSector directory)
    (distinct : (directory.map Entry.name).Nodup) (entry : Entry)
    (member : entry ∈ directory) (askable : Askable entry.name)
    (moment : Moment) (rest : List Turn) (kernel : Kernel) (input : View) :
    ∃ after halt,
      kernelShell board
          (⟨commandKeys catName (displayName entry.name), moment⟩ :: rest)
          kernel input = some (after, halt) ∧
      (moment.devices.answered entry.node.reads = true →
        halt = (sessionReply directory.answers rest kernel.currentLayout).halt ∧
        after.con = run (charStep board.fb board.font) kernel.con
          (callsOps [prompt] ++
            say (commandKeys catName (displayName entry.name)) 0xFFFFFF ++
            entry.node.shown ++
            (sessionReply directory.answers rest kernel.currentLayout).ops)) ∧
      (moment.devices.answered entry.node.reads = false →
        halt = some .polling ∧
        after.con = run (charStep board.fb board.font) kernel.con
          (callsOps [prompt] ++
            say (commandKeys catName (displayName entry.name)) 0xFFFFFF)) := by
  obtain ⟨after, runs, does⟩ := kernelShell_does board
    (⟨commandKeys catName (displayName entry.name), moment⟩ :: rest) kernel input
  have entered : 0x0A ∈ commandKeys catName (displayName entry.name) := by
    simp [commandKeys]
  have said : sessionReply (reply board)
      (⟨commandKeys catName (displayName entry.name), moment⟩ :: rest)
      kernel.currentLayout =
        (Reply.behind (moment.devices.answered entry.node.reads)
          (askOps entry.name)
          ⟨askOps entry.name ++ entry.node.shown, kernel.currentLayout, none⟩).andThen
          (sessionReply directory.answers rest) := by
    rw [represents.reply_eq, sessionReply, if_pos entered,
      turnReply_listed distinct member askable]
  rw [said] at runs does
  refine ⟨after, _, runs, ?_, ?_⟩
  · intro offered
    have con := does.con
    rw [offered] at con ⊢
    exact ⟨rfl, con⟩
  · intro waits
    have con := does.con
    rw [waits] at con ⊢
    exact ⟨rfl, con⟩

theorem kernelShell_listed_readme :
    ∃ after, kernelShell sampleBoard
        [⟨commandKeys catName (displayName readme.name),
          ⟨0, fun _ => 0, readyDevices⟩⟩]
        ⟨startConsole fun _ => 0, .enUs, fun _ => 0⟩ (fun _ => 0) =
          some (after, (sessionReply sampleDirectory.answers [] .enUs).halt) ∧
      after.con = run (charStep sampleBoard.fb sampleBoard.font)
        (startConsole fun _ => 0)
        (callsOps [prompt] ++
          say (commandKeys catName (displayName readme.name)) 0xFFFFFF ++
          readme.node.shown ++
          (sessionReply sampleDirectory.answers [] .enUs).ops) := by
  obtain ⟨after, halt, runs, shown, -⟩ := kernelShell_listed sampleBoard
    sampleDirectory sampleDisk_represents (by decide) readme
    (by simp [sampleDirectory]) ⟨by decide, by decide, by decide⟩
    ⟨0, fun _ => 0, readyDevices⟩ [] ⟨startConsole fun _ => 0, .enUs, fun _ => 0⟩
    fun _ => 0
  obtain ⟨rfl, con⟩ := shown (by decide)
  exact ⟨after, runs, con⟩

end Lumie.RootDirectory
