import Mathlib.Logic.Basic
import PureContracts.Command.Basic
import PureContracts.Command.Workspace

/-!
# Where paths lead, and what writing leaves

What commands do to files is said by what can be found at locations before and after.  So the ways
in which a path is understood are described here once more, each by itself: when a path stands for
standard input, where it leads to, and when a file can be written there.

* `Path.IsDashed` — the paths that stand for standard input.
* `Command.ReadsFrom` — where a command reads from, by its operand.
* `Workspace.Walks`, `Workspace.Leads` — where segments and paths lead to.
* `Workspace.Accepts` — the paths at which a file can be written.
* `Workspace.Wrote` — one workspace is another with a file written at one location.

Principal results
* `Command.readsFrom_iff` — commands read from where their operand says;
* `Workspace.locate_eq_ok_iff`, `Workspace.target_eq_ok_iff` — paths are followed as described;
* `Workspace.write_eq_ok_iff` — what a write that succeeds leaves;
* `Workspace.read_of_write` — what was written at a path can be read there.
-/

namespace PureContracts

/-! ## Operands -/

/-- A path that stands for standard input: a dash, with nothing but slashes and dots behind it. -/
def Path.IsDashed (path : String) : Prop :=
  ∃ steps : List String, (∀ step ∈ steps, step = "" ∨ step = ".") ∧
    path.toList = List.intercalate ['/'] (['-'] :: steps.map String.toList)

theorem Path.isIdle_iff {segment : String} :
    isIdle segment = true ↔ segment = "" ∨ segment = "." := by
  simp [isIdle]

theorem Path.isDash_iff {path : String} : isDash path = true ↔ IsDashed path := by
  constructor
  · intro h
    have htext := Text.intercalate_pieces '/' path
    rw [isDash, segments] at h
    split at h
    · rename_i first rest hpieces
      rw [Bool.and_eq_true, beq_iff_eq, List.all_eq_true] at h
      refine ⟨rest, fun step hstep => isIdle_iff.mp (h.2 step hstep), ?_⟩
      rw [hpieces, h.1] at htext
      exact htext.symm
    · cases h
  · rintro ⟨steps, hidle, htext⟩
    have hplain : ∀ piece ∈ ['-'] :: steps.map String.toList, '/' ∉ piece := by
      rw [List.forall_mem_cons, List.forall_mem_map]
      refine ⟨by decide, fun step hstep => ?_⟩
      rcases hidle step hstep with rfl | rfl <;> decide
    have hsegments : segments path = "-" :: steps := by
      rw [segments, Text.pieces, htext, List.splitOn_intercalate _ hplain (List.cons_ne_nil _ _),
        List.map_cons, List.map_map]
      exact congrArg _ ((List.map_congr_left fun step _ => String.ofList_toList).trans
        (List.map_id _))
    rw [isDash, hsegments]
    simp only [beq_self_eq_true, Bool.true_and, List.all_eq_true]
    exact fun step hstep => isIdle_iff.mpr (hidle step hstep)

/-- The path that a command is given as its operand. -/
inductive Command.HasOperand (path : String) : Command → Prop where
  | compile {package : String} {destination : Destination} :
      HasOperand path (.compile (some path) package destination)
  | check {json : Bool} : HasOperand path (.check path json)
  | tokens : HasOperand path (.tokens path)
  | tree : HasOperand path (.tree path)
  | hash {package : String} : HasOperand path (.hash path package)

/-- Where a command reads from: standard input, when it has no operand or a dash, and else the file
that the operand leads to. -/
inductive Command.ReadsFrom : Command → Input → Prop where
  | omitted {package : String} {destination : Destination} :
      ReadsFrom (.compile none package destination) .standard
  | dashed {command : Command} {path : String} :
      command.HasOperand path → Path.IsDashed path → ReadsFrom command .standard
  | file {command : Command} {path : String} :
      command.HasOperand path → ¬ Path.IsDashed path → ReadsFrom command (.file path)

theorem Command.HasOperand.input?_eq {command : Command} {path : String}
    (h : command.HasOperand path) : command.input? = some (.ofPath path) := by
  cases h <;> rfl

theorem Command.readsFrom_ofPath {command : Command} {path : String}
    (h : command.HasOperand path) : command.ReadsFrom (.ofPath path) := by
  rw [Input.ofPath]
  split
  · rename_i hdash
    exact .dashed h (Path.isDash_iff.mp hdash)
  · rename_i hdash
    exact .file h (Path.isDash_iff.not.mp hdash)

/-- Every command but the one for the version reads from somewhere. -/
theorem Command.exists_readsFrom {command : Command} (h : command ≠ .version) :
    ∃ input, command.ReadsFrom input := by
  cases command with
  | compile path package destination =>
    cases path with
    | none => exact ⟨_, .omitted⟩
    | some path => exact ⟨_, readsFrom_ofPath .compile⟩
  | check path json => exact ⟨_, readsFrom_ofPath .check⟩
  | tokens path => exact ⟨_, readsFrom_ofPath .tokens⟩
  | tree path => exact ⟨_, readsFrom_ofPath .tree⟩
  | hash path package => exact ⟨_, readsFrom_ofPath .hash⟩
  | version => exact absurd rfl h

theorem Command.ReadsFrom.input?_eq {command : Command} {input : Input}
    (h : command.ReadsFrom input) : command.input? = some input := by
  cases h with
  | omitted => rfl
  | dashed hoperand hdashed =>
    rw [hoperand.input?_eq, Input.ofPath, if_pos (Path.isDash_iff.mpr hdashed)]
  | file hoperand hplain =>
    rw [hoperand.input?_eq, Input.ofPath, if_neg (Path.isDash_iff.not.mpr hplain)]

/-- **Commands read from where their operand says.** -/
theorem Command.readsFrom_iff {command : Command} {input : Input} :
    command.ReadsFrom input ↔ command.input? = some input := by
  refine ⟨ReadsFrom.input?_eq, fun hinput => ?_⟩
  have hreads : command ≠ .version := by
    rintro rfl
    cases hinput
  obtain ⟨other, hother⟩ := exists_readsFrom hreads
  rw [hother.input?_eq] at hinput
  cases hinput
  exact hother

/-! ## Where paths lead -/

namespace Workspace

variable {workspace : Workspace} {path : String} {location : Location}

/-- A folder: no file stands there, and the location is the current folder or leads to it, to a
folder that is listed or to a file. -/
def FolderAt (workspace : Workspace) (location : Location) : Prop :=
  workspace.files.get? location = none ∧
    (location <+: workspace.current ∨ (∃ folder ∈ workspace.folders, location <+: folder) ∨
      ∃ file, workspace.files.get? file ≠ none ∧ location <+: file)

theorem isFolder_iff (hfree : workspace.files.get? location = none) :
    workspace.isFolder location = true ↔
      location <+: workspace.current ∨ (∃ folder ∈ workspace.folders, location <+: folder) ∨
        ∃ file, workspace.files.get? file ≠ none ∧ location <+: file := by
  simp only [isFolder, Bool.or_eq_true, List.isPrefixOf_iff_prefix, List.any_eq_true,
    Bool.and_eq_true, bne_iff_ne, or_assoc]
  refine or_congr_right (or_congr_right ⟨?_, ?_⟩)
  · rintro ⟨⟨file, content⟩, hmem, hleads, -⟩
    exact ⟨file, by simp [Bindings.get?_of_mem hmem], hleads⟩
  · rintro ⟨file, hfile, hleads⟩
    obtain ⟨content, hcontent⟩ := Option.ne_none_iff_exists'.mp hfile
    refine ⟨(file, content), Bindings.mem_of_get? hcontent, hleads, ?_⟩
    rintro rfl
    exact hfile hfree

theorem entry?_eq_folder_iff :
    workspace.entry? location = some .folder ↔ workspace.FolderAt location := by
  rw [FolderAt, entry?]
  cases hfree : workspace.files.get? location with
  | some content => simp
  | none =>
    rw [← isFolder_iff hfree]
    simp

/-- Segments lead from one location to another.  Every step starts at a folder: an empty segment and
a dot stay there, two dots lead up, and any other segment, of at most 255 bytes, leads down. -/
inductive Walks (workspace : Workspace) : Location → List String → Location → Prop where
  | done {location : Location} : Walks workspace location [] location
  | stay {location goal : Location} {segment : String} {rest : List String} :
      workspace.FolderAt location → segment = "" ∨ segment = "." →
      Walks workspace location rest goal → Walks workspace location (segment :: rest) goal
  | up {location goal : Location} {rest : List String} :
      workspace.FolderAt location → Walks workspace location.dropLast rest goal →
      Walks workspace location (".." :: rest) goal
  | down {location goal : Location} {segment : String} {rest : List String} :
      workspace.FolderAt location → segment ∉ ["", ".", ".."] → segment.utf8ByteSize ≤ 255 →
      Walks workspace (location ++ [segment]) rest goal →
      Walks workspace location (segment :: rest) goal

/-- A path of fewer than 4096 bytes leads to a location: from the root when a slash stands in front,
and from the current folder otherwise. -/
def Leads (workspace : Workspace) (path : String) (location : Location) : Prop :=
  path.utf8ByteSize < 4096 ∧
    workspace.Walks (if path.toList.head? = some '/' then [] else workspace.current)
      ((path.toList.splitOn '/').map String.ofList) location

/-- A file can be written where a path leads: the path ends in a proper name, and no folder is in
its way. -/
def Accepts (workspace : Workspace) (path : String) (location : Location) : Prop :=
  workspace.Leads path location ∧
    (∃ name, ((path.toList.splitOn '/').map String.ofList).getLast? = some name ∧
      name ∉ ["", ".", ".."]) ∧
    ¬ workspace.FolderAt location

theorem follow_of_walks {segments : List String} {goal : Location}
    (h : workspace.Walks location segments goal) :
    workspace.follow location segments = .ok goal := by
  induction h with
  | done => rfl
  | stay hfolder hidle _ ih =>
    rw [follow, entry?_eq_folder_iff.mpr hfolder]
    simp only
    rw [if_pos (Path.isIdle_iff.mpr hidle), ih]
  | up hfolder _ ih =>
    rw [follow, entry?_eq_folder_iff.mpr hfolder]
    exact ih
  | @down location goal segment rest hfolder hname hshort _ ih =>
    simp only [List.mem_cons, List.not_mem_nil, or_false, not_or] at hname
    have hidle : ¬ Path.isIdle segment = true :=
      Path.isIdle_iff.not.mpr (not_or.mpr ⟨hname.1, hname.2.1⟩)
    have hlong : ¬ Path.isOverlongName segment = true := by
      simpa [Path.isOverlongName] using hshort
    rw [follow, entry?_eq_folder_iff.mpr hfolder]
    simp only
    rw [if_neg hidle, if_neg hname.2.2, if_neg hlong, ih]

theorem walks_of_follow {segments : List String} {goal : Location}
    (h : workspace.follow location segments = .ok goal) :
    workspace.Walks location segments goal := by
  induction segments generalizing location with
  | nil =>
    cases h
    exact .done
  | cons segment rest ih =>
    rw [follow] at h
    cases hentry : workspace.entry? location with
    | none => simp [hentry] at h
    | some entry =>
      cases entry with
      | file content => simp [hentry] at h
      | folder =>
        have hfolder := entry?_eq_folder_iff.mp hentry
        simp only [hentry] at h
        by_cases hidle : Path.isIdle segment = true
        · rw [if_pos hidle] at h
          exact .stay hfolder (Path.isIdle_iff.mp hidle) (ih h)
        rw [if_neg hidle] at h
        by_cases hup : segment = ".."
        · rw [if_pos hup] at h
          rw [hup]
          exact .up hfolder (ih h)
        rw [if_neg hup] at h
        by_cases hlong : Path.isOverlongName segment = true
        · rw [if_pos hlong] at h
          cases h
        rw [if_neg hlong] at h
        rw [Path.isIdle_iff, not_or] at hidle
        refine .down hfolder ?_ ?_ (ih h)
        · simp [hidle, hup]
        · simpa [Path.isOverlongName] using hlong

theorem follow_eq_ok_iff {segments : List String} {goal : Location} :
    workspace.follow location segments = .ok goal ↔ workspace.Walks location segments goal :=
  ⟨walks_of_follow, follow_of_walks⟩

/-- **Paths are followed as described.** -/
theorem locate_eq_ok_iff :
    workspace.locate path = .ok location ↔ workspace.Leads path location := by
  rw [locate, Leads, ← follow_eq_ok_iff, Path.isOverlong]
  by_cases hlong : 4096 ≤ path.utf8ByteSize
  · simp [hlong, Nat.not_lt_of_le hlong]
  · simp [hlong, origin, Path.isAbsolute, Path.segments, Text.pieces, Nat.lt_of_not_le hlong]

/-- A path leads to one location at most. -/
theorem Leads.unique {other : Location} (h : workspace.Leads path location)
    (hother : workspace.Leads path other) : location = other := by
  rw [← locate_eq_ok_iff] at h hother
  exact Except.ok.inj (h.symm.trans hother)

theorem walks_append {first second : List String} {goal : Location} :
    workspace.Walks location (first ++ second) goal ↔
      ∃ middle, workspace.Walks location first middle ∧ workspace.Walks middle second goal := by
  constructor
  · intro h
    induction first generalizing location with
    | nil => exact ⟨location, .done, h⟩
    | cons segment rest ih =>
      rw [List.cons_append] at h
      cases h with
      | stay hfolder hidle hrest =>
        obtain ⟨middle, hfirst, hsecond⟩ := ih hrest
        exact ⟨middle, .stay hfolder hidle hfirst, hsecond⟩
      | up hfolder hrest =>
        obtain ⟨middle, hfirst, hsecond⟩ := ih hrest
        exact ⟨middle, .up hfolder hfirst, hsecond⟩
      | down hfolder hname hshort hrest =>
        obtain ⟨middle, hfirst, hsecond⟩ := ih hrest
        exact ⟨middle, .down hfolder hname hshort hfirst, hsecond⟩
  · rintro ⟨middle, hfirst, hsecond⟩
    induction hfirst with
    | done => exact hsecond
    | stay hfolder hidle _ ih => exact .stay hfolder hidle (ih hsecond)
    | up hfolder _ ih => exact .up hfolder (ih hsecond)
    | down hfolder hname hshort _ ih => exact .down hfolder hname hshort (ih hsecond)

/-- The last segment of a walk, when it is a proper name. -/
theorem walks_name {name : String} {goal : Location} (hname : name ∉ ["", ".", ".."]) :
    workspace.Walks location [name] goal ↔
      workspace.FolderAt location ∧ name.utf8ByteSize ≤ 255 ∧ goal = location ++ [name] := by
  constructor
  · intro h
    cases h with
    | stay _ hidle _ => rcases hidle with rfl | rfl <;> exact absurd (by decide) hname
    | up _ _ => exact absurd (by decide) hname
    | down hfolder _ hshort hrest =>
      cases hrest
      exact ⟨hfolder, hshort, rfl⟩
  · rintro ⟨hfolder, hshort, rfl⟩
    exact .down hfolder hname hshort .done

/-- With a dot behind them, segments lead to folders only. -/
theorem follow_dot {segments : List String} {goal : Location} :
    workspace.follow location (segments ++ ["."]) = .ok goal ↔
      workspace.Walks location segments goal ∧ workspace.FolderAt goal := by
  rw [follow_eq_ok_iff, walks_append]
  constructor
  · rintro ⟨middle, hsegments, hdot⟩
    generalize hlast : "." = last at hdot
    cases hdot with
    | stay hfolder _ hrest =>
      cases hrest
      exact ⟨hsegments, hfolder⟩
    | up _ _ => exact absurd hlast (by decide)
    | down _ hname _ _ => exact absurd (hlast ▸ by decide) hname
  · rintro ⟨hsegments, hfolder⟩
    exact ⟨goal, hsegments, .stay hfolder (.inr rfl) .done⟩

/-- With a proper name behind them, segments lead to a place in a folder. -/
theorem walks_concat_name {segments : List String} {name : String} {goal : Location}
    (hname : name ∉ ["", ".", ".."]) :
    workspace.Walks location (segments ++ [name]) goal ↔
      ∃ folder, workspace.follow location (segments ++ ["."]) = .ok folder ∧
        name.utf8ByteSize ≤ 255 ∧ goal = folder ++ [name] := by
  simp only [walks_append, walks_name hname, follow_dot, and_assoc]

/-- **A write goes where the path leads, by a proper name at its end.** -/
theorem target_eq_ok_iff : workspace.target path = .ok location ↔
    workspace.Leads path location ∧
      ∃ name, ((path.toList.splitOn '/').map String.ofList).getLast? = some name ∧
        name ∉ ["", ".", ".."] := by
  have horigin : (if path.toList.head? = some '/' then [] else workspace.current) =
      workspace.origin path := by simp [origin, Path.isAbsolute]
  rw [target, Leads, horigin]
  change (let segments := Path.segments path; _) = _ ↔
    (_ ∧ workspace.Walks _ (Path.segments path) location) ∧
      ∃ name, (Path.segments path).getLast? = some name ∧ _
  generalize Path.segments path = segments, workspace.origin path = start
  by_cases hlong : 4096 ≤ path.utf8ByteSize
  · simp [Path.isOverlong, hlong, Nat.not_lt_of_le hlong]
  simp only [Path.isOverlong, hlong, decide_false, Bool.false_eq_true, if_false,
    Nat.lt_of_not_le hlong, true_and]
  rcases List.eq_nil_or_concat segments with rfl | ⟨parents, name, rfl⟩
  · simp
  rw [List.concat_eq_append, List.reverse_append, List.reverse_singleton, List.singleton_append,
    List.getLast?_concat]
  by_cases hempty : name = ""
  · -- With an empty segment at its end the path is one of a folder.
    subst hempty
    refine iff_of_false ?_ (by simp)
    split
    · simp
    · rename_i name above _
      cases workspace.follow start (above.reverse ++ ["."]) <;> simp [bind, Except.bind]
  rw [List.dropWhile_cons_of_neg (by simpa using hempty)]
  simp only [List.reverse_reverse, Option.some.injEq, hempty, or_false, exists_eq_left']
  by_cases hdots : name = "." ∨ name = ".."
  · have hname : ¬ name ∉ ["", ".", ".."] := by rcases hdots with rfl | rfl <;> decide
    refine iff_of_false ?_ fun h => hname h.2
    cases workspace.follow start (parents ++ ["."]) <;> simp [bind, Except.bind, hdots]
  · have hname : name ∉ ["", ".", ".."] := by simpa [hempty] using hdots
    rw [walks_concat_name hname]
    simp only [hname, not_false_eq_true, and_true]
    cases workspace.follow start (parents ++ ["."]) with
    | error fault => simp [bind, Except.bind]
    | ok folder =>
      by_cases hshort : name.utf8ByteSize ≤ 255
      · simp [bind, Except.bind, hdots, Path.isOverlongName, Nat.not_lt_of_le hshort, hshort,
          eq_comm (a := location)]
      · simp [bind, Except.bind, hdots, Path.isOverlongName, Nat.lt_of_not_le hshort, hshort]

/-- A file is created or replaced at one location, and nothing else changes. -/
structure Wrote (before after : Workspace) (location : Location) (content : List UInt8) : Prop where
  content : after.files.get? location = some content
  others : ∀ other, other ≠ location → after.files.get? other = before.files.get? other
  folders : after.folders = before.folders
  current : after.current = before.current

theorem wrote_put (workspace : Workspace) (location : Location) (content : List UInt8) :
    workspace.Wrote (workspace.put location content) location content where
  content := by rw [files_put, if_pos rfl]
  others other hne := by rw [files_put, if_neg hne]
  folders := rfl
  current := rfl

theorem accepts_iff : workspace.Accepts path location ↔
    workspace.target path = .ok location ∧ workspace.entry? location ≠ some .folder := by
  rw [Accepts, ← and_assoc, ← target_eq_ok_iff, ← entry?_eq_folder_iff]

/-- **What a write that succeeds leaves.** -/
theorem write_eq_ok_iff {content : List UInt8} {written : Workspace} :
    workspace.write path content = .ok written ↔
      ∃ location, workspace.Accepts path location ∧ workspace.put location content = written := by
  simp only [accepts_iff]
  cases htarget : workspace.target path with
  | error fault => simp [write, htarget, bind, Except.bind]
  | ok location =>
    simp only [write, htarget, bind, Except.bind, Except.ok.injEq, and_assoc, exists_eq_left']
    cases hentry : workspace.entry? location with
    | none => simp
    | some entry => cases entry <;> simp

theorem not_accepts_of_write_error {content : List UInt8} {fault : IoFault}
    (h : workspace.write path content = .error fault) (location : Location) :
    ¬ workspace.Accepts path location := by
  intro haccepts
  have hwritten : workspace.write path content = .ok (workspace.put location content) :=
    write_eq_ok_iff.mpr ⟨location, haccepts, rfl⟩
  rw [h] at hwritten
  cases hwritten

/-! ## Reading what was written -/

theorem readAt_eq_ok_iff {content : List UInt8} :
    workspace.readAt location = .ok content ↔ workspace.files.get? location = some content := by
  rw [readAt, entry?]
  cases workspace.files.get? location with
  | some found => simp
  | none => cases workspace.isFolder location <;> simp

theorem readAt_eq_error {fault : IoFault} (h : workspace.readAt location = .error fault) :
    (workspace.files.get? location = none ∧ ¬ workspace.FolderAt location ∧ fault = .notFound) ∨
      (workspace.FolderAt location ∧ fault = .isDirectory) := by
  rw [readAt] at h
  rw [← entry?_eq_folder_iff]
  cases hentry : workspace.entry? location with
  | none =>
    simp only [hentry, Except.error.injEq] at h
    refine .inl ⟨?_, by simp, h.symm⟩
    unfold entry? at hentry
    cases hfile : workspace.files.get? location with
    | none => rfl
    | some content => simp [hfile] at hentry
  | some entry =>
    cases entry with
    | file content => simp [hentry] at h
    | folder =>
      simp only [hentry, Except.error.injEq] at h
      exact .inr ⟨rfl, h.symm⟩

theorem read_eq_ok_iff {content : List UInt8} :
    workspace.read path = .ok content ↔
      ∃ location, workspace.Leads path location ∧ workspace.files.get? location = some content := by
  simp only [← locate_eq_ok_iff]
  cases hlocate : workspace.locate path with
  | error fault => simp [read, hlocate, bind, Except.bind]
  | ok location => simp [read_eq_of_locate hlocate, readAt_eq_ok_iff]

section

variable {written : Workspace} {content : List UInt8}

/-- A file in no folder's way leaves the folders where they are. -/
theorem Wrote.folderAt (h : workspace.Wrote written location content)
    (hfree : ¬ workspace.FolderAt location) {other : Location} (hother : workspace.FolderAt other) :
    written.FolderAt other := by
  have hne : other ≠ location := by
    rintro rfl
    exact hfree hother
  rw [FolderAt, h.others other hne, h.current, h.folders]
  refine ⟨hother.1, hother.2.imp_right (Or.imp_right ?_)⟩
  rintro ⟨file, hfile, hleads⟩
  refine ⟨file, ?_, hleads⟩
  by_cases hsame : file = location
  · rw [hsame, h.content]
    exact Option.some_ne_none _
  · rwa [h.others file hsame]

theorem Wrote.walks (h : workspace.Wrote written location content)
    (hfree : ¬ workspace.FolderAt location) {start goal : Location} {segments : List String}
    (hwalks : workspace.Walks start segments goal) : written.Walks start segments goal := by
  induction hwalks with
  | done => exact .done
  | stay hfolder hidle _ ih => exact .stay (h.folderAt hfree hfolder) hidle ih
  | up hfolder _ ih => exact .up (h.folderAt hfree hfolder) ih
  | down hfolder hname hshort _ ih => exact .down (h.folderAt hfree hfolder) hname hshort ih

/-- **What was written at a path can be read there.** -/
theorem read_of_write (h : workspace.write path content = .ok written) :
    written.read path = .ok content := by
  obtain ⟨location, ⟨⟨hshort, hwalks⟩, -, hfree⟩, rfl⟩ := write_eq_ok_iff.mp h
  have hwrote := wrote_put workspace location content
  exact read_eq_ok_iff.mpr ⟨location, ⟨hshort, hwrote.walks hfree hwalks⟩, hwrote.content⟩

end

end Workspace

end PureContracts
