import CompressorBench.Proofs.Bench.Machines
import CompressorBench.Proofs.Files.Lookup

/-!
# One more file

A file that is put among the case files, whatever it holds, adds one outcome at the place of its
name and leaves all others alone: they keep everything but the index, which counts one more after
that place, and the time. The path of a listed file does not come to the new location, because all
locations on the way to it have entries; only a link may lead there.

* `Adds`: one tree holds a file where the other holds nothing.
* `Lists.exists_insert`: where the new name stands among the old ones.
* `run_with_one_more_file`: what the run reports.
-/

namespace CompressorBench

open Report (Summary)

variable {tree tree' : FileTree} {location directory : Location} {contents : ByteArray}
  {executable : Bool} {path name other : String}

/-! ## Trees with one more file -/

namespace FileTree

/-- A tree holds a new file at a location, where the old tree holds nothing; everywhere else it
holds the same. -/
structure Adds (tree tree' : FileTree) (location : Location) (contents : ByteArray)
    (executable : Bool) : Prop extends Puts tree tree' location (.file contents executable) where
  vacant : tree.get? location = none

/-- This is what putting a file into a directory does. -/
theorem adds_insert (hdirectory : tree.get? directory = some .directory)
    (hvacant : tree.get? (directory ++ [name]) = none) (contents : ByteArray)
    (executable : Bool) :
    Adds tree (tree.insert (directory ++ [name]) (.file contents executable))
      (directory ++ [name]) contents executable :=
  ⟨puts_insert hdirectory (by rw [hvacant]; exact nofun) _, hvacant⟩

namespace Adds

variable (h : Adds tree tree' location contents executable)
include h

theorem ne_of_isPassage {other : Location} (hother : tree.IsPassage other) : other ≠ location := by
  rcases hother with hentry | ⟨target, hentry⟩ <;> exact ne_of_get? h.vacant hentry

/-- A path that does not come to the new file leads to the same place. -/
theorem resolve_eq (hpath : ¬ tree.ComesTo path location) :
    tree'.resolve .reach path = tree.resolve .reach path := by
  refine resolve_eq_of_looks h.workingDirectory fun hdefect => ?_
  obtain ⟨looked, hlooks⟩ := exists_looks tree .reach hdefect
  refine ⟨looked, _, hlooks, fun other hother => h.elsewhere other ?_⟩
  rintro rfl
  exact hpath ⟨hdefect, looked, _, hlooks, hother⟩

theorem resolve_directory
    (hdirectory : tree.resolve .reach path = .ok (.occupied directory .directory)) :
    tree'.resolve .reach path = .ok (.occupied directory .directory) :=
  resolve_directory_of_isPassage h.workingDirectory
    (fun other hother => h.elsewhere other (h.ne_of_isPassage hother)) hdirectory

/-- The path of another file of the directory leads to the same place. -/
theorem resolve_file {held : ByteArray} {runs : Bool}
    (hdirectory : tree.resolve .reach path = .ok (.occupied directory .directory))
    (hname : Pathname.steps other = [other])
    (hfile : tree.get? (directory ++ [other]) = some (.file held runs)) :
    tree'.resolve .reach (Pathname.join path other) =
      tree.resolve .reach (Pathname.join path other) := by
  refine resolve_eq_of_looks h.workingDirectory fun _ => ?_
  obtain ⟨looked, result, hlooks, hlooked⟩ := exists_looks_join hdirectory hname hfile
  refine ⟨looked, result, hlooks, fun l hl => h.elsewhere l ?_⟩
  rcases hlooked l hl with hpassage | rfl
  · exact h.ne_of_isPassage hpassage
  · exact ne_of_get? h.vacant hfile

/-- **A command that does not stand for the new file is found as before**: it is found on neither
machine if the new file is only in its way. -/
theorem executable_eq_or_error
    (hpath : tree'.resolve .reach path ≠ .ok (.occupied location (.file contents true))) :
    tree'.executable path = tree.executable path ∨
      ∃ error error', tree.executable path = .error error ∧
        tree'.executable path = .error error' := by
  by_cases hcomes : tree.ComesTo path location
  · obtain ⟨hdefect, looked, result, hlooks, hlooked⟩ := hcomes
    obtain ⟨hresult, looked', result', hfollows, hresult'⟩ :=
      Follows.of_vacant hlooks hlooked h.vacant h.toPuts
    have hresolve := hlooks.resolve_eq hdefect
    have hlooks' : tree'.Looks .reach path looked' result' := by
      rw [Looks, h.workingDirectory]
      exact hfollows
    have hresolve' := hlooks'.resolve_eq hdefect
    have herror : tree.executable path = .error .notFound := by
      rcases hresult with rfl | rfl <;> rw [FileTree.executable, hresolve]
    rcases hresult' with rfl | rfl
    · cases executable with
      | true => exact absurd hresolve' hpath
      | false =>
        refine .inr ⟨.notFound, .permissionDenied, herror, ?_⟩
        rw [FileTree.executable, hresolve']
    · refine .inr ⟨.notFound, .notADirectory, herror, ?_⟩
      rw [FileTree.executable, hresolve']
  · exact .inl (executable_eq (h.resolve_eq hcomes))

end Adds

/-! ## The place of a name -/

/-- **Where a new name stands**: behind the smaller ones and before the greater ones. -/
theorem Lists.exists_insert {glob : Glob} {entries entries' : List (String × Entry)}
    {names names' : List String} (h : Lists glob entries names) (h' : Lists glob entries' names')
    (hnew : name ∉ names) (hmem : ∀ other, other ∈ names' ↔ other = name ∨ other ∈ names) :
    ∃ before after, names = before ++ after ∧ names' = before ++ name :: after ∧
      (∀ other ∈ before, other.toUTF8.toList < name.toUTF8.toList) ∧
      ∀ other ∈ after, name.toUTF8.toList < other.toUTF8.toList := by
  obtain ⟨before, after, rfl⟩ := List.append_of_mem ((hmem name).mpr (.inl rfl))
  have hascending := h'.ascending
  rw [List.pairwise_append, List.pairwise_cons] at hascending
  obtain ⟨hbefore, ⟨hgreater, hafter⟩, hless⟩ := hascending
  have hrest : (before ++ after).Pairwise fun a b => a.toUTF8.toList < b.toUTF8.toList :=
    h'.ascending.sublist ((List.Sublist.refl before).append (List.sublist_cons_self name after))
  refine ⟨before, after, eq_of_ascending h.ascending hrest fun other => ?_, rfl,
    fun other hother => hless other hother name List.mem_cons_self, hgreater⟩
  have hne : other ∈ before ++ after → other ≠ name := by
    rintro hother rfl
    rcases List.mem_append.mp hother with hother | hother
    · exact List.lt_irrefl _ (hless other hother other List.mem_cons_self)
    · exact List.lt_irrefl _ (hgreater other hother)
  have hother : other ∈ before ++ name :: after ↔ other = name ∨ other ∈ before ++ after := by
    simp only [List.mem_append, List.mem_cons]
    exact or_left_comm
  constructor
  · intro hold
    refine (hother.mp ((hmem other).mpr (.inr hold))).resolve_left ?_
    rintro rfl
    exact hnew hold
  · intro hold
    exact ((hmem other).mp (hother.mpr (.inr hold))).resolve_left (hne hold)

/-- The new name is listed beside the old ones. -/
theorem Adds.mem_names_iff (h : Adds tree tree' (directory ++ [name]) contents executable)
    {glob : Glob} {names names' : List String} (haccepts : glob.accepts name = true)
    (hlists : Lists glob (tree.children directory) names)
    (hlists' : Lists glob (tree'.children directory) names') (other : String) :
    other ∈ names' ↔ other = name ∨ other ∈ names := by
  rw [hlists'.mem_iff, hlists.mem_iff]
  simp only [mem_children_iff]
  by_cases hother : other = name
  · subst hother
    exact iff_of_true ⟨_, h.put, rfl, haccepts⟩ (.inl rfl)
  · have hne : directory ++ [other] ≠ directory ++ [name] := by simpa using hother
    rw [h.elsewhere _ hne]
    simp only [hother, false_or]

theorem Adds.not_mem_names (h : Adds tree tree' (directory ++ [name]) contents executable)
    {glob : Glob} {names : List String} (hlists : Lists glob (tree.children directory) names) :
    name ∉ names := by
  intro hname
  obtain ⟨entry, hentry, -⟩ := (hlists.mem_iff name).mp hname
  rw [mem_children_iff, h.vacant] at hentry
  cases hentry

/-- **Every listed file has the text that it had.** -/
theorem Adds.readContents_eq (h : Adds tree tree' (directory ++ [name]) contents executable)
    {glob : Glob} {names : List String}
    (hdirectory : tree.resolve .reach path = .ok (.occupied directory .directory))
    (hlists : Lists glob (tree.children directory) names)
    (hnames : ∀ child ∈ tree.children directory, Pathname.steps child.1 = [child.1])
    (hlinks : ∀ other target, (other, .link target) ∈ tree.children directory →
      glob.accepts other = true →
      ¬ tree.ComesTo (Pathname.join path other) (directory ++ [name]))
    (hother : other ∈ names) :
    tree'.readContents (Pathname.join path other) =
      tree.readContents (Pathname.join path other) := by
  obtain ⟨entry, hentry, hfile, haccepts⟩ := (hlists.mem_iff other).mp hother
  refine FileTree.readContents_eq ?_
  cases entry with
  | directory => cases hfile
  | link target => exact h.resolve_eq (hlinks other target hentry haccepts)
  | file held runs =>
    exact h.resolve_file hdirectory (hnames _ hentry) (mem_children_iff.mp hentry)

end FileTree

/-! ## The run -/

namespace Bench

variable {machine machine' : Machine} {config : Config}

/-- The outcome of a file with one more file before it. -/
def shifted (outcome : Outcome) : Outcome := { outcome with index := outcome.index + 1 }

/-- If the programs agree and all old files have the texts that they had, then the outcomes of the
old files are the same around that of the new one. -/
theorem untimed_mapIdx_insert {before after : List String}
    (hagree : (config.runner.invoke machine).Agrees (config.runner.invoke machine'))
    (htext : ∀ other ∈ before ++ after,
      machine'.tree.readContents (Pathname.join config.casesDirectory other) =
        machine.tree.readContents (Pathname.join config.casesDirectory other)) (name : String) :
    ((before ++ name :: after).mapIdx (outcomeOf machine' config)).map Outcome.untimed =
      ((before.mapIdx (outcomeOf machine config)).map Outcome.untimed) ++
        (outcomeOf machine' config before.length name).untimed ::
        ((after.mapIdx fun i => outcomeOf machine config (i + before.length)).map fun old =>
          shifted old.untimed) := by
  have hbefore : (before.mapIdx (outcomeOf machine' config)).map Outcome.untimed =
      (before.mapIdx (outcomeOf machine config)).map Outcome.untimed := by
    refine List.ext_getElem (by simp) fun i hi hi' => ?_
    simp only [List.getElem_map, List.getElem_mapIdx]
    exact outcomeOf_untimed_self hagree
      (htext _ (List.mem_append_left after (List.getElem_mem _))) i
  have hafter : (after.mapIdx fun i => outcomeOf machine' config (i + 1 + before.length)).map
      Outcome.untimed = (after.mapIdx fun i => outcomeOf machine config (i + before.length)).map
        fun old => shifted old.untimed := by
    refine List.ext_getElem (by simp) fun i hi hi' => ?_
    simp only [List.getElem_map, List.getElem_mapIdx]
    rw [outcomeOf_untimed hagree (htext _ (List.mem_append_right before (List.getElem_mem _)))
      (i + before.length)]
    simp only [shifted, Outcome.untimed, index_outcomeOf]
    congr 1
    omega
  rw [List.mapIdx_append, List.mapIdx_cons, List.map_append, List.map_cons, hbefore, hafter,
    Nat.zero_add]

/-- What a summary counts if outcomes are the same around a new one. -/
theorem counts_insert {outcomes' before after : List Outcome} {outcome : Outcome}
    (h : outcomes'.map Outcome.untimed = before.map Outcome.untimed ++
      outcome.untimed :: after.map fun old => shifted old.untimed) :
    (Summary.ofOutcomes outcomes').total = (Summary.ofOutcomes (before ++ after)).total + 1 ∧
      (Summary.ofOutcomes outcomes').passed = (Summary.ofOutcomes (before ++ after)).passed +
        if outcome.verdict.isSuccess = true then 1 else 0 := by
  constructor
  · have hlength := congrArg List.length h
    simp only [List.length_append, List.length_cons, List.length_map] at hlength
    show outcomes'.length = (before ++ after).length + 1
    rw [hlength, List.length_append, Nat.add_assoc]
  · rw [← Report.ofOutcomes_untimed outcomes', h, Summary.passed_eq_countP,
      Summary.passed_eq_countP, List.countP_append, List.countP_append, List.countP_cons,
      List.countP_map, List.countP_map, Nat.add_assoc]
    rfl

/-- **One more file adds one outcome** to those of a run that succeeds, and the run with it
succeeds, too. The outcome is what the file comes to alone, and it stands at the place of its name
among the others, by their bytes. Each of the others keeps all but its time, and its index if it
comes after that place. The new file is no program, and no listed link leads to it, be it at the end
of the way or in the middle. -/
theorem run_with_one_more_file {machine machine' : Machine} {config : Config}
    {schedule schedule' : Pool.Schedule} {outcomes : List Outcome} {directory : Location}
    {glob : Glob} {name : String} {contents : ByteArray} {executable : Bool}
    (hresult : (run machine config schedule).result = .ok outcomes)
    (hreport : config.jsonReport? = none)
    (hdirectory : machine.tree.resolve .reach config.casesDirectory =
      .ok (.occupied directory .directory))
    (hnames : ∀ child ∈ machine.tree.children directory, Pathname.steps child.1 = [child.1])
    (hglob : Glob.ofString config.pattern = .ok glob) (haccepts : glob.accepts name = true)
    (hadds : machine.tree.Adds machine'.tree (directory ++ [name]) contents executable)
    (hlinks : ∀ other target, (other, .link target) ∈ machine.tree.children directory →
      glob.accepts other = true →
      ¬ machine.tree.ComesTo (Pathname.join config.casesDirectory other) (directory ++ [name]))
    (halike : ActsAlike config machine machine')
    (hprogram : config.program.toList.contains '/' = true →
      machine'.tree.resolve .reach config.program ≠
        .ok (.occupied (directory ++ [name]) (.file contents true))) :
    ∃ outcomes' before outcome after, (run machine' config schedule').result = .ok outcomes' ∧
      outcomes = before ++ after ∧
      outcomes'.map Outcome.untimed = before.map Outcome.untimed ++
        outcome.untimed :: after.map (fun old => shifted old.untimed) ∧
      outcome = outcomeOf machine' config before.length name ∧
      (∀ old ∈ before, ∃ other, old.name = Pathname.join config.casesDirectory other ∧
        other.toUTF8.toList < name.toUTF8.toList) ∧
      (∀ old ∈ after, ∃ other, old.name = Pathname.join config.casesDirectory other ∧
        name.toUTF8.toList < other.toUTF8.toList) ∧
      (Summary.ofOutcomes outcomes').total = (Summary.ofOutcomes outcomes).total + 1 ∧
      (Summary.ofOutcomes outcomes').passed = (Summary.ofOutcomes outcomes).passed +
        if outcome.verdict.isSuccess = true then 1 else 0 := by
  -- the listing before
  obtain ⟨cases, hcases, houtcomes, -⟩ := exists_of_result hresult
  obtain ⟨glob₀, entries, names, hglob₀, hentries, hlists, rfl⟩ := FileTree.exists_of_cases hcases
  cases hglob.symm.trans hglob₀
  cases (FileTree.readDirectory_of_resolve hdirectory).symm.trans hentries
  rw [outcomes_evaluateAll] at houtcomes
  -- the listing after
  have hentries' := FileTree.readDirectory_of_resolve (hadds.resolve_directory hdirectory)
  have hmem : (name, Entry.file contents executable) ∈ machine'.tree.children directory :=
    FileTree.mem_children_iff.mpr hadds.put
  obtain ⟨cases', hcases'⟩ := FileTree.exists_cases hglob hentries' hmem
    (FileTree.isListed_iff.mpr ⟨rfl, haccepts⟩)
  obtain ⟨outcomes', hresult'⟩ : ∃ outcomes', (run machine' config schedule').result =
      .ok outcomes' := exists_result hcases' (jobs_le_of_result hresult) hreport
  obtain ⟨_, hcases'', houtcomes', -⟩ := exists_of_result hresult'
  cases hcases'.symm.trans hcases''
  obtain ⟨glob₁, _, names', hglob₁, hentries₁, hlists', rfl⟩ := FileTree.exists_of_cases hcases'
  cases hglob.symm.trans hglob₁
  cases hentries'.symm.trans hentries₁
  rw [outcomes_evaluateAll] at houtcomes'
  obtain ⟨before, after, rfl, rfl, hless, hgreater⟩ := FileTree.Lists.exists_insert hlists hlists'
    (hadds.not_mem_names hlists) (hadds.mem_names_iff haccepts hlists hlists')
  have hagree := agrees_invoke halike
    (.of_executable halike fun hslash => hadds.executable_eq_or_error (hprogram hslash))
  have huntimed := untimed_mapIdx_insert hagree
    (fun other => hadds.readContents_eq hdirectory hlists hnames hlinks) name
  rw [← houtcomes'] at huntimed
  rw [List.mapIdx_append] at houtcomes
  have hlength : (before.mapIdx (outcomeOf machine config)).length = before.length :=
    List.length_mapIdx
  obtain ⟨htotal, hpassed⟩ := counts_insert huntimed
  rw [← houtcomes] at htotal hpassed
  refine ⟨outcomes', _, _, _, hresult', houtcomes, huntimed, by rw [hlength], ?_, ?_, htotal,
    hpassed⟩
  · intro old hold
    obtain ⟨i, hi, rfl⟩ := List.mem_mapIdx.mp hold
    exact ⟨_, name_outcomeOf _ _ _ _, hless _ (List.getElem_mem hi)⟩
  · intro old hold
    obtain ⟨i, hi, rfl⟩ := List.mem_mapIdx.mp hold
    exact ⟨_, name_outcomeOf _ _ _ _, hgreater _ (List.getElem_mem hi)⟩

/-! ## Examples -/

/-- The computer with one more case file, which is executable. -/
def grownMachine : Machine :=
  { echoMachine with tree := echoMachine.tree.insert ["cases", "b.txt"] (.file oneByteText true) }

theorem adds_grownMachine :
    echoMachine.tree.Adds grownMachine.tree (["cases"] ++ ["b.txt"]) oneByteText true :=
  @FileTree.adds_insert echoMachine.tree ["cases"] "b.txt" rfl rfl _ _

theorem payload_grownMachine :
    (TestCase.load grownMachine.tree "cases/b.txt").payload = .ok .oneByte :=
  payload_of_case rfl rfl "b.txt" (by decide) (by decide) (by decide) rfl

/-- A case is put beside another one, and the program passes both. -/
theorem one_more_file_beside_echo :
    ∃ outcomes outcomes', (run echoMachine plainConfig id).result = .ok outcomes ∧
      (run grownMachine plainConfig id).result = .ok outcomes' ∧
      (Summary.ofOutcomes outcomes').total = (Summary.ofOutcomes outcomes).total + 1 ∧
      (Summary.ofOutcomes outcomes').passed = (Summary.ofOutcomes outcomes).passed + 1 := by
  obtain ⟨glob, hglob, haccepts⟩ := exists_glob
  obtain ⟨outcomes, hresult⟩ : ∃ outcomes, (run echoMachine plainConfig id).result =
      .ok outcomes := exists_result cases_echoMachine (by decide) rfl
  have hnames : ∀ child ∈ echoMachine.tree.children ["cases"],
      Pathname.steps child.1 = [child.1] := by decide
  have hlinks : ∀ other target, (other, .link target) ∈ echoMachine.tree.children ["cases"] →
      glob.accepts other = true →
      ¬ echoMachine.tree.ComesTo (Pathname.join "cases" other) (["cases"] ++ ["b.txt"]) := by
    intro other target hlink
    cases List.mem_singleton.mp hlink
  have hslash : plainConfig.program.toList.contains '/' = false := by decide
  have halike : ActsAlike plainConfig echoMachine grownMachine := .of_eq rfl rfl
  obtain ⟨outcomes', _, _, _, hresult', _, _, rfl, _, _, htotal, hpassed⟩ :
      ∃ outcomes' before outcome after, (run grownMachine plainConfig id).result = .ok outcomes' ∧
        _ :=
    run_with_one_more_file hresult rfl resolve_echoMachine hnames hglob
      (haccepts "b.txt" (by decide)) adds_grownMachine hlinks halike
      fun h => absurd (hslash.symm.trans h) (by decide)
  have hverdict : ∀ i, (outcomeOf grownMachine plainConfig i "b.txt").verdict =
      .success 1 1000.0 := fun i =>
    verdict_of_oneByte (echoes_plainConfig _) payload_grownMachine (i + 1)
  rw [hverdict] at hpassed
  exact ⟨outcomes, outcomes', hresult, hresult', htotal, hpassed⟩

/-- A computer with a case and a link through a name of the same directory that nothing has. -/
def crossingMachine : Machine :=
  { echoMachine with
    tree := ⟨[("cases", .directory [("a.txt", .file oneByteText false),
        ("c.txt", .link "b.txt/x")])], [],
      .directory (by decide) (by simp [Node.Proper.file, Node.Proper.directory,
        Node.Proper.link])⟩ }

/-- The same computer with a file of this name, which is executable. -/
def crossedMachine : Machine :=
  { crossingMachine with
    tree := crossingMachine.tree.insert ["cases", "b.txt"] (.file oneByteText true) }

/-- The program is the new file. -/
def crossingConfig : Config := { plainConfig with program := "cases/b.txt" }

theorem adds_crossedMachine :
    crossingMachine.tree.Adds crossedMachine.tree (["cases"] ++ ["b.txt"]) oneByteText true :=
  @FileTree.adds_insert crossingMachine.tree ["cases"] "b.txt" rfl rfl _ _

/-- What the few files of a computer come to. -/
theorem result_of_fewFiles {names : List String} (hworking : machine.tree.workingDirectory = [])
    (hdirectory : machine.tree.get? ["cases"] = some .directory)
    (hfew : FewFiles (machine.tree.children ["cases"]) names) :
    (run machine crossingConfig id).result =
      .ok (names.mapIdx (outcomeOf machine crossingConfig)) := by
  have hcases := cases_of_fewFiles (resolve_casesDirectory hworking hdirectory) hfew
  obtain ⟨outcomes, hresult⟩ : ∃ outcomes, (run machine crossingConfig id).result = .ok outcomes :=
    exists_result hcases (by decide) rfl
  obtain ⟨_, hcases', houtcomes, -⟩ := exists_of_result hresult
  cases hcases.symm.trans hcases'
  rw [hresult, houtcomes]
  exact congrArg Except.ok (outcomes_evaluateAll machine crossingConfig names)

/-- The message about a link that leads nowhere. -/
def unfollowed (error : OsError) : Verdict :=
  .presentationError .input
    (.unreadableFile (FileError.refused .readFile "cases/c.txt" error).message)

/-- What a link comes to that cannot be followed. -/
theorem verdict_of_link {error : OsError} (i : Nat)
    (h : machine.tree.resolve .reach "cases/c.txt" = .error error) :
    (outcomeOf machine crossingConfig i "c.txt").verdict = unfollowed error := by
  have hjoin : Pathname.join crossingConfig.casesDirectory "c.txt" = "cases/c.txt" := by decide
  refine verdict_outcomeOf i ?_
  rw [hjoin, FileTree.readContents, FileTree.readText, FileTree.readBytes, h]
  rfl

/-- Where the link of these computers leads. -/
theorem resolve_link {tree : FileTree} {looked : List Location}
    {result : Except OsError FileTree.Place} (hworking : tree.workingDirectory = [])
    (hdirectory : tree.get? ["cases"] = some .directory)
    (hlink : tree.get? ["cases", "c.txt"] = some (.link "b.txt/x"))
    (hfollows : tree.Follows .reach 39 ["cases"] ["b.txt", "x"] false looked result) :
    tree.resolve .reach "cases/c.txt" = result := by
  have hsteps : Pathname.steps "cases/c.txt" = ["cases", "c.txt"] := by decide
  have hbehind : Pathname.steps "b.txt/x" ++ [] = ["b.txt", "x"] := by decide
  exact FileTree.resolve_of_steps hworking hsteps (by decide) (.enter (by decide) hdirectory
    (.jump (by decide) hlink (by decide) (hbehind ▸ hfollows)))

/-- Before the new file is there, the program cannot be started. -/
theorem verdict_of_missing_program (i : Nat) :
    (outcomeOf crossingMachine crossingConfig i "a.txt").verdict =
      .runtimeError .compress none := by
  have hsteps : Pathname.steps "cases/b.txt" = ["cases", "b.txt"] := by decide
  have hresolve : crossingMachine.tree.resolve .reach "cases/b.txt" =
      .ok (.vacant ["cases", "b.txt"]) :=
    FileTree.resolve_of_steps rfl hsteps (by decide)
      (.enter (by decide) rfl (.vacant (by decide) rfl))
  have hfind : crossingMachine.findExecutable "cases/b.txt" = .error .notFound := by
    rw [Machine.findExecutable, if_pos (by decide), FileTree.executable, hresolve]
  obtain ⟨error, hlaunch⟩ := exists_launch_error hfind []
  have hpayload : (TestCase.load crossingMachine.tree "cases/a.txt").payload = .ok .oneByte :=
    payload_of_case rfl rfl "a.txt" (by decide) (by decide) (by decide) rfl
  exact verdict_of_launch_error hlaunch hpayload (i + 1)

/-- Then it is started, and gives back what it gets. -/
theorem echoes_crossedMachine : Echoes (crossingConfig.runner.invoke crossedMachine) := by
  have hsteps : Pathname.steps "cases/b.txt" = ["cases", "b.txt"] := by decide
  have hresolve : crossedMachine.tree.resolve .reach "cases/b.txt" =
      .ok (.occupied ["cases", "b.txt"] (.file oneByteText true)) :=
    FileTree.resolve_of_steps rfl hsteps (by decide)
      (.enter (by decide) rfl (.file (by decide) rfl (.inr rfl)))
  have hfind : crossedMachine.findExecutable "cases/b.txt" = .ok oneByteText :=
    findExecutable_of_resolve (by decide) hresolve
  exact echoes_of_launch (launch_of_find hfind (by decide) (by decide)) (by decide)

/-- **A new file may be the program, or be in the way of a link**, though no link leads to it: then
old cases come to something else. -/
theorem changed_by_one_more_file :
    ∃ outcomes outcomes', (run crossingMachine crossingConfig id).result = .ok outcomes ∧
      (run crossedMachine crossingConfig id).result = .ok outcomes' ∧
      crossingMachine.tree.Adds crossedMachine.tree (["cases"] ++ ["b.txt"]) oneByteText true ∧
      (∀ entry, crossedMachine.tree.resolve .reach "cases/c.txt" ≠
        .ok (.occupied (["cases"] ++ ["b.txt"]) entry)) ∧
      outcomes.map Outcome.verdict = [.runtimeError .compress none, unfollowed .notFound] ∧
      outcomes'.map Outcome.verdict =
        [.success 1 1000.0, .success 1 1000.0, unfollowed .notADirectory] := by
  have hfew : FewFiles (crossingMachine.tree.children ["cases"]) ["a.txt", "c.txt"] :=
    ⟨nofun, by decide, by decide, by decide⟩
  have hfew' : FewFiles (crossedMachine.tree.children ["cases"]) ["a.txt", "b.txt", "c.txt"] :=
    ⟨nofun, by decide, by decide, by decide⟩
  have hresult := result_of_fewFiles rfl rfl hfew
  have hresult' := result_of_fewFiles rfl rfl hfew'
  -- the link cannot be followed, for different reasons
  have hlink : crossingMachine.tree.resolve .reach "cases/c.txt" = .error .notFound :=
    resolve_link rfl rfl rfl (.missing (by decide) rfl (by decide))
  have hlink' : crossedMachine.tree.resolve .reach "cases/c.txt" = .error .notADirectory :=
    resolve_link rfl rfl rfl (.blocked (by decide) rfl (by decide))
  refine ⟨_, _, hresult, hresult', adds_crossedMachine, fun entry => ?_, ?_, ?_⟩
  · rw [hlink']
    exact nofun
  · simp only [List.mapIdx_cons, List.mapIdx_nil, List.map_cons, List.map_nil]
    rw [verdict_of_missing_program, verdict_of_link _ hlink]
  · simp only [List.mapIdx_cons, List.mapIdx_nil, List.map_cons, List.map_nil]
    rw [verdict_of_link _ hlink']
    have hfirst : (TestCase.load crossedMachine.tree "cases/a.txt").payload = .ok .oneByte :=
      payload_of_case rfl rfl "a.txt" (by decide) (by decide) (by decide) rfl
    have hsecond : (TestCase.load crossedMachine.tree "cases/b.txt").payload = .ok .oneByte :=
      payload_of_case rfl rfl "b.txt" (by decide) (by decide) (by decide) rfl
    have hverdict : (outcomeOf crossedMachine crossingConfig 0 "a.txt").verdict =
        .success 1 1000.0 := verdict_of_oneByte echoes_crossedMachine hfirst 1
    have hverdict' : (outcomeOf crossedMachine crossingConfig 1 "b.txt").verdict =
        .success 1 1000.0 := verdict_of_oneByte echoes_crossedMachine hsecond 2
    rw [hverdict, hverdict']

end Bench

end CompressorBench
