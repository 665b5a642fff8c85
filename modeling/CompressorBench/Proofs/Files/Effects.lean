import CompressorBench.Proofs.Files.Ways

/-!
# What file operations leave

A text that is written can be read, and besides the file that holds it nothing is new but
directories on the way to it; whatever else a path led to, it leads to still. An operation that
fails has changed no file: it leaves directories that it has made on the way, and where it makes
none, nothing at all.

* `exists_stores`: what writing a text leaves.
* `written_text_reads_back`: the operations that succeed.
* `failing_does_no_damage`: the operations that fail.
-/

namespace CompressorBench.FileTree

variable {tree tree' next : FileTree} {path other text : String} {here location : Location}
  {contents : ByteArray} {executable : Bool} {entry : Entry} {isOnWay : Location → Prop}

/-! ## Reading back -/

theorem fromUTF8?_toUTF8 (text : String) : String.fromUTF8? text.toUTF8 = some text := by
  unfold String.fromUTF8?
  exact dif_pos text.isValidUTF8

/-- **No path is redirected**: what it led to is still where it leads, unless this is the file that
was written. -/
theorem Receives.resolve_eq (h : Receives tree tree' path location contents executable)
    (hresolve : tree.resolve .reach other = .ok (.occupied here entry)) (hne : here ≠ location) :
    tree'.resolve .reach other = .ok (.occupied here entry) := by
  rw [← hresolve]
  refine resolve_eq_of_looks h.workingDirectory fun _ => ?_
  obtain ⟨-, looked, hlooks⟩ := exists_looks_of_ok hresolve
  refine ⟨looked, _, hlooks, fun there hthere => ?_⟩
  rcases Follows.isPassage_or_endsAt hlooks rfl there hthere with hpassage | hends
  · exact h.get?_of_isPassage hpassage
  · cases hends with
    | file hfile => rw [hfile, h.keeps _ _ hne hfile]
    | link hlink => rw [hlink, h.keeps _ _ hne hlink]

/-- A tree has got a file that holds a text at a location that a path leads to, and directories on a
way. The text is read from the path, all that was elsewhere is as it was, and every other path leads
where it led. -/
structure Stores (tree tree' : FileTree) (path text : String) (isOnWay : Location → Prop)
    (location : Location) (executable : Bool) : Prop extends
    Receives tree tree' path location text.toUTF8 executable where
  reads : tree'.readContents path = .ok text
  made : ∀ other, other ≠ location → tree.get? other = none →
    tree'.get? other = some .directory → isOnWay other
  found : ∀ other here entry, tree.resolve .reach other = .ok (.occupied here entry) →
    here ≠ location → tree'.resolve .reach other = .ok (.occupied here entry)

/-- A text is written after directories have been made. -/
theorem exists_stores (hplace : tree.HasPlace) (hmakes : Makes tree next isOnWay)
    (h : next.writeFile path text.toUTF8 = (.ok (), tree')) :
    ∃ location executable, Stores tree tree' path text isOnWay location executable := by
  obtain ⟨location, executable, hwritable, hputs, hleads⟩ :=
    writeFile_ok (hmakes.hasPlace hplace) h
  have hreceives : Receives tree tree' path location text.toUTF8 executable :=
    .of_grows hmakes.toGrows hwritable hputs hleads
  refine ⟨location, executable, hreceives, ?_, fun other hne hnone hdirectory => ?_,
    fun other here entry => hreceives.resolve_eq⟩
  · exact readContents_of_resolve (hleads .reach (by decide)) (fromUTF8?_toUTF8 text)
  · rw [hputs.elsewhere other hne] at hdirectory
    exact hmakes.made other hnone hdirectory

/-- Writing a file takes no path off its way. -/
theorem ComesToParent.of_writeFile (hplace : tree.HasPlace)
    (h : tree.writeFile path contents = (.ok (), tree')) (hcomes : tree.ComesToParent other here) :
    tree'.ComesToParent other here := by
  obtain ⟨parent, hparent, hcomes⟩ := hcomes
  obtain ⟨location, executable, hwritable, hputs, -⟩ := writeFile_ok hplace h
  exact ⟨parent, hparent, hcomes.of_isPassage hputs.workingDirectory fun _ hother =>
    hputs.elsewhere _ (hwritable.ne_of_isPassage hother)⟩

theorem exists_stores_of_createFile (hplace : tree.HasPlace)
    (h : tree.createFile path text.toUTF8 = (.ok (), tree')) :
    ∃ location executable,
      Stores tree tree' path text (tree'.ComesToParent path) location executable := by
  obtain ⟨grown, hmakes, hwrite | ⟨error, hfails⟩⟩ :=
    exists_makes_of_createFile tree path text.toUTF8
  · rw [h] at hwrite
    exact exists_stores hplace (hmakes.mono fun _ =>
      .of_writeFile (hmakes.hasPlace hplace) hwrite.symm) hwrite.symm
  · rw [h] at hfails
    cases hfails

/-- **What is written reads back, and nothing else changes.** If a text is written, or a value as
its text, then the path leads to a file from which the text is read. There was nothing or a file
before; every other entry is as it was, no other path is redirected, and nothing else is new but,
where parents are made, directories that the parent of the path comes to. If a directory is made
with its parents, then its path leads to a directory, nothing is new but directories that the path
comes to, and to make it once more changes nothing. -/
theorem written_text_reads_back (hplace : tree.HasPlace) (path text : String)
    (value : Except Json.Unserializable Json) (tree' : FileTree) :
    (tree.writeFile path text.toUTF8 = (.ok (), tree') →
      ∃ location executable,
        Stores tree tree' path text (fun _ => False) location executable) ∧
    (tree.createFile path text.toUTF8 = (.ok (), tree') →
      ∃ location executable,
        Stores tree tree' path text (tree'.ComesToParent path) location executable) ∧
    (tree.createJson path value = (.ok (), tree') →
      ∃ json, value = .ok json ∧ ∃ location executable,
        Stores tree tree' path json.indented (tree'.ComesToParent path) location executable) ∧
    (tree.createDirectory path = (.ok (), tree') → path ≠ "" →
      tree'.isDirectory path = true ∧ Makes tree tree' (tree'.ComesTo path) ∧
        tree'.createDirectory path = (.ok (), tree')) := by
  refine ⟨exists_stores hplace (.refl tree _), exists_stores_of_createFile hplace, fun h => ?_,
    fun h hne => ?_⟩
  · cases value with
    | error e => cases h
    | ok json => exact ⟨json, rfl, exists_stores_of_createFile hplace h⟩
  · have hdirectory := (createDirectory_ok hplace h).2 hne
    have hmakes := makes_createDirectory tree path
    rw [h] at hmakes
    exact ⟨hdirectory, hmakes, createDirectory_of_isDirectory hdirectory⟩

/-- A tree with one directory. -/
def singleDirectory : FileTree := empty.insert ["n"] .directory

theorem createDirectory_singleDirectory :
    empty.createDirectory "n" = (.ok (), singleDirectory) :=
  createDirectory_of_vacant rfl (by decide) (by decide) (by decide) rfl (by decide)

/-- How a file is written with a directory for it. -/
theorem createFile_eq_of_parent (hparent : Pathname.parent? path = some "n") :
    empty.createFile path contents = singleDirectory.writeFile path contents :=
  createFile_of_vacant rfl (by decide) (by decide) (by decide) rfl (by decide) hparent contents

/-- A text reads back from a new directory, which can be made once more. -/
theorem text_in_new_directory_reads_back :
    (∃ tree' location executable, empty.createFile "n/f" "text".toUTF8 = (.ok (), tree') ∧
      Stores empty tree' "n/f" "text" (tree'.ComesToParent "n/f") location executable) ∧
    singleDirectory.isDirectory "n" = true ∧
      Makes empty singleDirectory (singleDirectory.ComesTo "n") ∧
      singleDirectory.createDirectory "n" = (.ok (), singleDirectory) := by
  have hplace : empty.HasPlace := rfl
  have hsteps : Pathname.steps "n/f" = ["n", "f"] := by decide
  have hresolve : singleDirectory.resolve .write "n/f" = .ok (.vacant ["n", "f"]) :=
    resolve_of_steps rfl hsteps (by decide) (.enter (by decide) rfl (.vacant (by decide) rfl))
  have hcreate : empty.createFile "n/f" "text".toUTF8 =
      (.ok (), singleDirectory.insert ["n", "f"] (.file "text".toUTF8 false)) := by
    rw [createFile_eq_of_parent (by decide +kernel), writeFile, writeBytes, hresolve]
  obtain ⟨location, executable, hstores⟩ :=
    (written_text_reads_back hplace "n/f" "text" (.ok .null) _).2.1 hcreate
  exact ⟨⟨_, location, executable, hcreate, hstores⟩,
    (written_text_reads_back hplace "n" "text" (.ok .null) _).2.2.2
      createDirectory_singleDirectory (by decide)⟩

/-! ## Failing -/

theorem eq_of_writeFile_error {error : FileError}
    (h : tree.writeFile path contents = (.error error, tree')) : tree' = tree := by
  unfold writeFile at h
  split at h
  · cases h
  · exact (Prod.mk.inj h).2.symm

theorem makes_of_createFile_error {error : FileError}
    (h : tree.createFile path contents = (.error error, tree')) :
    Makes tree tree' (tree'.ComesToParent path) := by
  obtain ⟨grown, hmakes, hwrite | ⟨error', hfails⟩⟩ :=
    exists_makes_of_createFile tree path contents
  · rw [h] at hwrite
    rwa [eq_of_writeFile_error hwrite.symm]
  · rw [h] at hfails
    rwa [(Prod.mk.inj hfails).2]

/-- **What fails does no damage.** Nothing that was there has changed, and nothing is new but
directories: writing a file makes none, making a directory makes some that its path comes to, and
writing with the directories some that the parent of the path comes to. A value that has no text
leaves the tree alone. -/
theorem failing_does_no_damage (tree : FileTree) (path : String) (contents : ByteArray)
    (value : Except Json.Unserializable Json) (error : FileError) (tree' : FileTree) :
    (tree.createDirectory path = (.error error, tree') → Makes tree tree' (tree'.ComesTo path)) ∧
    (tree.writeFile path contents = (.error error, tree') → tree' = tree) ∧
    (tree.createFile path contents = (.error error, tree') →
      Makes tree tree' (tree'.ComesToParent path)) ∧
    (tree.createJson path value = (.error error, tree') →
      Makes tree tree' (tree'.ComesToParent path) ∧
        ((∃ cause, value = .error cause) → tree' = tree)) := by
  refine ⟨fun h => ?_, eq_of_writeFile_error, makes_of_createFile_error, fun h => ?_⟩
  · have hmakes := makes_createDirectory tree path
    rwa [h] at hmakes
  · cases value with
    | error cause =>
      obtain ⟨-, rfl⟩ := Prod.mk.inj h
      exact ⟨.refl _ _, fun _ => rfl⟩
    | ok json =>
      refine ⟨makes_of_createFile_error h, ?_⟩
      rintro ⟨cause, hcause⟩
      cases hcause

/-- A file that cannot be written leaves the directory that was made for it. -/
theorem failing_behind_new_directory :
    (∃ error, empty.createFile "n/.." "text".toUTF8 = (.error error, singleDirectory)) ∧
      Makes empty singleDirectory (singleDirectory.ComesToParent "n/..") := by
  have hsteps : Pathname.steps "n/.." = ["n", ".."] := by decide
  have hresolve : singleDirectory.resolve .write "n/.." = .ok (.occupied [] .directory) :=
    resolve_of_steps rfl hsteps (by decide) (.enter (by decide) rfl (.leave .arrive))
  have hcreate : empty.createFile "n/.." "text".toUTF8 =
      (.error (.refused .writeFile "n/.." .isADirectory), singleDirectory) := by
    rw [createFile_eq_of_parent (by decide +kernel), writeFile, writeBytes, hresolve]
  exact ⟨⟨_, hcreate⟩,
    (failing_does_no_damage empty "n/.." "text".toUTF8 (.ok .null) _ _).2.2.1 hcreate⟩

end CompressorBench.FileTree
