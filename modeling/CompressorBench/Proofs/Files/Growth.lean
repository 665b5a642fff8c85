import CompressorBench.Proofs.Files.Lookup

/-!
# What writing a file leaves

Writing a file with the directories it belongs to adds directories and the file, and nothing else.
What was there stays, so what is looked up through entries that were there is found again; and as
the path of the file leads to it from then on, writing it once more finds all directories made.

* `Grows`: a tree has got some more directories.
* `makeDirectories_grows`: that is all that making directories does, be it successful or not.
* `Receives`: a tree has got a file beside.
* `receives_createFile`, `createFile_again`: what writing a file does, and that it can be repeated.
-/

namespace CompressorBench.FileTree

variable {tree tree' next : FileTree} {intent : Intent} {links : Nat} {here location : Location}
  {step name path : String} {steps : List String} {slash : Bool} {looked : List Location}
  {result : Except OsError Place} {place : Place} {entry : Entry} {contents : ByteArray}

/-! ## Directories on the way -/

/-- Only a directory holds entries. -/
theorem get?_above (h : tree.get? (here ++ [name]) = some entry) :
    tree.get? here = some .directory := by
  rw [get?, node?_append_singleton] at h
  obtain ⟨node, hnode, -⟩ := Option.map_eq_some_iff.mp h
  unfold nodesIn at hnode
  split at hnode
  · next above habove =>
    cases above with
    | directory children => exact get?_eq_directory_iff.mpr ⟨children, habove⟩
    | file => cases hnode
    | link => cases hnode
  · cases hnode

theorem get?_dropLast (h : tree.get? here = some .directory) :
    tree.get? here.dropLast = some .directory := by
  rcases List.eq_nil_or_concat' here with rfl | ⟨above, name, rfl⟩
  · exact h
  · rw [List.dropLast_concat]
    exact get?_above h

theorem get?_root (tree : FileTree) : tree.get? [] = some .directory := rfl

theorem get?_origin (h : tree.get? here = some .directory) (path : String) :
    tree.get? (origin path here) = some .directory := by
  unfold origin
  split
  · exact get?_root tree
  · exact h

/-- **A new entry would get into a directory.** -/
theorem Follows.get?_of_vacant (h : Follows tree intent links here steps slash looked result)
    (hhere : tree.get? here = some .directory) (hvacant : result = .ok (.vacant location)) :
    tree.get? location = none ∧
      ∃ above name, location = above ++ [name] ∧ tree.get? above = some .directory := by
  induction h with
  | arrive => cases hvacant
  | stay _ ih => exact ih hhere hvacant
  | leave _ ih => exact ih (get?_dropLast hhere) hvacant
  | slashed => cases hvacant
  | tooLong => cases hvacant
  | vacant _ hnone =>
    cases hvacant
    exact ⟨hnone, _, _, rfl, hhere⟩
  | missing => cases hvacant
  | enter _ hdirectory _ ih => exact ih hdirectory hvacant
  | file => cases hvacant
  | blocked => cases hvacant
  | link => cases hvacant
  | exhausted => cases hvacant
  | jump _ _ _ _ ih => exact ih (get?_origin hhere _) hvacant

/-! ## The last step -/

/-- A lookup ends at a location where nothing or a file is. -/
inductive IsOpenAt (location : Location) : Except OsError Place → Prop where
  | vacant : IsOpenAt location (.ok (.vacant location))
  | file {contents : ByteArray} {executable : Bool} :
      IsOpenAt location (.ok (.occupied location (.file contents executable)))

/-- A lookup that comes to where nothing or a file is makes its last step there. In another tree
that has the same directories and links on the way, a lookup comes to the same step. -/
theorem Follows.exists_last (h : Follows tree intent links here steps slash looked result)
    (hopen : IsOpenAt location result) :
    ∃ left above step slash', above ++ [step] = location ∧ LooksUp intent step [] slash' ∧
      ∀ {next : FileTree} {intent' : Intent}, intent' ≠ .make →
        (intent' = .write → intent = .write) →
        (∀ other, tree.IsPassage other → next.get? other = tree.get? other) →
        ∀ {looked' result'}, Follows next intent' left above [step] slash' looked' result' →
          ∃ looked'', Follows next intent' links here steps slash looked'' result' := by
  induction h with
  | arrive => cases hopen
  | stay _ ih =>
    obtain ⟨left, above, step, slash', hlocation, hlast, hrest⟩ := ih hopen
    refine ⟨left, above, step, slash', hlocation, hlast, fun hmake hwrite hsame _ _ hgo => ?_⟩
    obtain ⟨looked'', hfollows⟩ := hrest hmake hwrite hsame hgo
    exact ⟨looked'', .stay hfollows⟩
  | leave _ ih =>
    obtain ⟨left, above, step, slash', hlocation, hlast, hrest⟩ := ih hopen
    refine ⟨left, above, step, slash', hlocation, hlast, fun hmake hwrite hsame _ _ hgo => ?_⟩
    obtain ⟨looked'', hfollows⟩ := hrest hmake hwrite hsame hgo
    exact ⟨looked'', .leave hfollows⟩
  | slashed => cases hopen
  | tooLong => cases hopen
  | vacant hlooks _ =>
    cases hopen
    exact ⟨_, _, _, _, rfl, hlooks, fun _ _ _ _ _ hgo => ⟨_, hgo⟩⟩
  | missing => cases hopen
  | enter hlooks hdirectory _ ih =>
    obtain ⟨left, above, step, slash', hlocation, hlast, hrest⟩ := ih hopen
    refine ⟨left, above, step, slash', hlocation, hlast, fun hmake hwrite hsame _ _ hgo => ?_⟩
    obtain ⟨looked'', hfollows⟩ := hrest hmake hwrite hsame hgo
    exact ⟨_, .enter (hlooks.of_intent hwrite) ((hsame _ (.inl hdirectory)).trans hdirectory)
      hfollows⟩
  | file hlooks _ _ =>
    cases hopen
    exact ⟨_, _, _, _, rfl, hlooks, fun _ _ _ _ _ hgo => ⟨_, hgo⟩⟩
  | blocked => cases hopen
  | link => cases hopen
  | exhausted => cases hopen
  | jump hlooks hlink hfollow _ ih =>
    obtain ⟨left, above, step, slash', hlocation, hlast, hrest⟩ := ih hopen
    refine ⟨left, above, step, slash', hlocation, hlast, fun hmake hwrite hsame _ _ hgo => ?_⟩
    obtain ⟨looked'', hfollows⟩ := hrest hmake hwrite hsame hgo
    exact ⟨_, .jump (hlooks.of_intent hwrite) ((hsame _ (.inr ⟨_, hlink⟩)).trans hlink)
      (fun hend => hmake hend.2) hfollows⟩

/-- A step to something that is in a directory. -/
theorem LooksUp.follows_entry (h : LooksUp intent step [] slash)
    (hentry : tree.get? (here ++ [step]) = some .directory) (links : Nat) :
    Follows tree intent links here [step] slash [here ++ [step]]
      (.ok (.occupied (here ++ [step]) .directory)) :=
  .enter h hentry .arrive

/-! ## More directories -/

/-- A tree has got some more directories, and nothing else has changed. -/
structure Grows (tree tree' : FileTree) : Prop where
  workingDirectory : tree'.workingDirectory = tree.workingDirectory
  keeps : ∀ location entry, tree.get? location = some entry → tree'.get? location = some entry
  adds : ∀ location, tree.get? location = none →
    tree'.get? location = none ∨ tree'.get? location = some .directory

theorem Grows.refl (tree : FileTree) : Grows tree tree := ⟨rfl, fun _ _ => id, fun _ => .inl⟩

theorem Grows.trans (h : Grows tree tree') (h' : Grows tree' next) : Grows tree next where
  workingDirectory := h'.workingDirectory.trans h.workingDirectory
  keeps location entry hentry := h'.keeps location entry (h.keeps location entry hentry)
  adds location hnone := by
    rcases h.adds location hnone with hnone' | hdirectory
    · exact h'.adds location hnone'
    · exact .inr (h'.keeps location _ hdirectory)

theorem Grows.get?_of_isPassage (h : Grows tree tree') {other : Location}
    (hother : tree.IsPassage other) : tree'.get? other = tree.get? other := by
  rcases hother with hentry | ⟨target, hentry⟩ <;> rw [hentry, h.keeps other _ hentry]

/-- The working directory of a tree is a directory of it. -/
def HasPlace (tree : FileTree) : Prop := tree.get? tree.workingDirectory = some .directory

theorem Grows.hasPlace (h : Grows tree tree') (hplace : tree.HasPlace) : tree'.HasPlace := by
  rw [HasPlace, h.workingDirectory]
  exact h.keeps _ _ hplace

theorem isDirectory_iff :
    tree.isDirectory path = true ↔
      ∃ here, tree.resolve .reach path = .ok (.occupied here .directory) := by
  unfold isDirectory
  constructor
  · intro h
    split at h
    · next here hresolve => exact ⟨here, hresolve⟩
    · cases h
  · rintro ⟨here, hresolve⟩
    rw [hresolve]

/-- Where a path leads to nothing, an entry can be put. -/
theorem puts_of_vacant (hplace : tree.HasPlace)
    (h : tree.resolve intent path = .ok (.vacant location)) (entry : Entry) :
    tree.get? location = none ∧ Puts tree (tree.insert location entry) location entry := by
  obtain ⟨-, looked, hlooks⟩ := exists_looks_of_ok h
  obtain ⟨hnone, above, name, rfl, habove⟩ :=
    Follows.get?_of_vacant hlooks (get?_origin hplace path) rfl
  exact ⟨hnone, puts_insert habove (by rw [hnone]; exact nofun) entry⟩

theorem get?_of_resolve_vacant (h : tree.resolve intent path = .ok (.vacant location)) :
    tree.get? location = none := by
  obtain ⟨-, looked, hlooks⟩ := exists_looks_of_ok h
  rcases Follows.directory_or_endsAt hlooks rfl with ⟨_, hdirectory⟩ | ⟨_, -, hends⟩
  · cases hdirectory
  · cases hends with
    | vacant hnone => exact hnone

/-- A directory that is put where nothing is is the only thing that is new. If there is no directory
to put it into, nothing changes. -/
theorem grows_insert (hnone : tree.get? location = none) :
    Grows tree (tree.insert location .directory) := by
  have helsewhere : ∀ other, other ≠ location →
      (tree.insert location .directory).get? other = tree.get? other :=
    fun other hne => get?_insert_of_ne (by rw [hnone]; exact nofun) hne
  refine ⟨rfl, fun other entry hother => ?_, fun other hother => ?_⟩
  · rw [helsewhere other (ne_of_get? hnone hother), hother]
  · by_cases heq : other = location
    · subst heq
      rcases List.eq_nil_or_concat' other with rfl | ⟨above, name, rfl⟩
      · cases hnone
      by_cases habove : tree.get? above = some .directory
      · exact .inr (get?_insert_self habove)
      · refine .inl (Option.eq_none_iff_forall_ne_some.mpr fun entry hentry => habove ?_)
        rw [← helsewhere above (by simp)]
        exact get?_above hentry
    · exact .inl ((helsewhere other heq).trans hother)

/-! ## Making directories -/

/-- **A directory that is made** is a new one in a directory, and its path leads to it. -/
theorem makeDirectory_ok (hplace : tree.HasPlace) (h : tree.makeDirectory path = .ok tree') :
    Grows tree tree' ∧ tree'.isDirectory path = true := by
  unfold makeDirectory makeEntry at h
  split at h
  · cases h
  · next location hresolve =>
    cases h
    obtain ⟨hnone, hputs⟩ := puts_of_vacant hplace hresolve .directory
    have hgrows := grows_insert hnone
    obtain ⟨hdefect, looked, hlooks⟩ := exists_looks_of_ok hresolve
    obtain ⟨left, above, step, slash', rfl, hlast, hrest⟩ := Follows.exists_last hlooks .vacant
    have hlast' : LooksUp .reach step [] slash' := hlast.of_intent nofun
    have hreach : Intent.reach ≠ .make := nofun
    obtain ⟨looked'', hfollows⟩ := hrest hreach nofun (fun _ => hgrows.get?_of_isPassage)
      (hlast'.follows_entry hputs.put left)
    exact ⟨hgrows, isDirectory_iff.mpr ⟨_, Looks.resolve_eq hfollows hdefect⟩⟩
  · cases h

theorem ensureDirectory_ok (hplace : tree.HasPlace) (h : tree.ensureDirectory path = .ok tree') :
    Grows tree tree' ∧ tree'.isDirectory path = true := by
  unfold ensureDirectory at h
  split at h
  · next made hmade =>
    cases h
    exact makeDirectory_ok hplace hmade
  · split at h
    · next hdirectory =>
      cases h
      exact ⟨.refl _, hdirectory⟩
    · cases h

/-- **Making a directory with its parents adds directories only**, also if it fails halfway, and if
it succeeds the path leads to a directory. -/
theorem makeDirectories_grows (hplace : tree.HasPlace) (absolute : Bool) (path : String)
    (parents : List (List String)) :
    Grows tree (makeDirectories absolute path parents tree).2 ∧
      ((makeDirectories absolute path parents tree).1 = .ok () → path ≠ "" →
        (makeDirectories absolute path parents tree).2.isDirectory path = true) := by
  fun_induction makeDirectories absolute path parents tree with
  | case1 => exact ⟨.refl _, fun _ hne => absurd rfl hne⟩
  | case2 _ path _ made hmade =>
    obtain ⟨hgrows, hdirectory⟩ := makeDirectory_ok hplace hmade
    exact ⟨hgrows, fun _ _ => hdirectory⟩
  | case3 => exact ⟨.refl _, nofun⟩
  | case4 path _ _ parent parents error left hparent ih =>
    rw [hparent] at ih
    exact ⟨ih.1, nofun⟩
  | case5 path _ _ parent parents left hparent made hmade ih =>
    rw [hparent] at ih
    obtain ⟨hgrows, hdirectory⟩ := ensureDirectory_ok (ih.1.hasPlace hplace) hmade
    exact ⟨ih.1.trans hgrows, fun _ _ => hdirectory⟩
  | case6 path _ _ parent parents left hparent error _ ih =>
    rw [hparent] at ih
    exact ⟨ih.1, nofun⟩
  | case7 _ path _ error _ _ hdirectory => exact ⟨.refl _, fun _ _ => hdirectory⟩
  | case8 => exact ⟨.refl _, nofun⟩

theorem createDirectory_ok (hplace : tree.HasPlace)
    (h : tree.createDirectory path = (.ok (), tree')) :
    Grows tree tree' ∧ (path ≠ "" → tree'.isDirectory path = true) := by
  have hgrows := makeDirectories_grows hplace (Pathname.isAbsolute path) path
    (Pathname.parentPieces path)
  unfold createDirectory makeDirectoryAll at h
  cases hmade : makeDirectories (Pathname.isAbsolute path) path (Pathname.parentPieces path)
      tree with
  | mk result grown =>
    rw [hmade] at h hgrows
    cases result with
    | error e => cases h
    | ok done =>
      cases h
      exact ⟨hgrows.1, hgrows.2 rfl⟩

/-- What leads to a directory is taken, even if it is a link. -/
theorem Follows.make_of_directory (h : Follows tree .reach links here steps slash looked result)
    (hresult : result = .ok (.occupied location .directory)) :
    ∃ looked' location' entry, Follows tree .make links here steps slash looked'
      (.ok (.occupied location' entry)) := by
  induction h with
  | arrive => exact ⟨_, _, _, .arrive⟩
  | stay _ ih =>
    obtain ⟨looked', location', entry, hfollows⟩ := ih hresult
    exact ⟨looked', location', entry, .stay hfollows⟩
  | leave _ ih =>
    obtain ⟨looked', location', entry, hfollows⟩ := ih hresult
    exact ⟨looked', location', entry, .leave hfollows⟩
  | enter hlooks hdirectory _ ih =>
    obtain ⟨looked', location', entry, hfollows⟩ := ih hresult
    exact ⟨_, location', entry, .enter (hlooks.of_intent nofun) hdirectory hfollows⟩
  | @jump _ _ _ rest _ _ _ _ hlooks hlink _ _ ih =>
    obtain ⟨looked', location', entry, hfollows⟩ := ih hresult
    cases rest with
    | nil => exact ⟨_, _, _, .link (hlooks.of_intent nofun) hlink rfl⟩
    | cons next rest =>
      exact ⟨_, location', entry, .jump (hlooks.of_intent nofun) hlink nofun hfollows⟩
  | slashed => cases hresult
  | tooLong => cases hresult
  | vacant => cases hresult
  | missing => cases hresult
  | file => cases hresult
  | blocked => cases hresult
  | link => cases hresult
  | exhausted => cases hresult

/-- **A directory that is there need not be made.** -/
theorem makeDirectories_of_isDirectory (h : tree.isDirectory path = true) (absolute : Bool)
    (parents : List (List String)) :
    makeDirectories absolute path parents tree = (.ok (), tree) := by
  obtain ⟨here, hresolve⟩ := isDirectory_iff.mp h
  obtain ⟨hdefect, looked, hlooks⟩ := exists_looks_of_ok hresolve
  obtain ⟨looked', location, entry, hmake⟩ := Follows.make_of_directory hlooks rfl
  have hexists : tree.makeDirectory path = .error .alreadyExists := by
    rw [makeDirectory, makeEntry, Looks.resolve_eq hmake hdefect]
  unfold makeDirectories
  rw [hexists]
  dsimp only
  rw [if_pos h]
  split <;> rfl

theorem createDirectory_of_isDirectory (h : tree.isDirectory path = true) :
    tree.createDirectory path = (.ok (), tree) := by
  rw [createDirectory, makeDirectoryAll, makeDirectories_of_isDirectory h]
  rfl

/-! ## Writing a file -/

/-- A file that a path leads to is where the path ends. -/
theorem get?_of_resolve {executable : Bool}
    (h : tree.resolve intent path = .ok (.occupied location (.file contents executable))) :
    tree.get? location = some (.file contents executable) := by
  obtain ⟨-, looked, hlooks⟩ := exists_looks_of_ok h
  rcases Follows.directory_or_endsAt hlooks rfl with ⟨here, hdirectory⟩ | ⟨last, -, hends⟩
  · cases hdirectory
  · cases hends with
    | file hfile => exact hfile

theorem puts_of_file {executable : Bool}
    (h : tree.get? location = some (.file contents executable)) (entry : Entry) :
    Puts tree (tree.insert location entry) location entry := by
  rcases List.eq_nil_or_concat' location with rfl | ⟨above, name, rfl⟩
  · cases h
  · exact puts_insert (get?_above h) (by rw [h]; exact nofun) entry

/-- At a location there is nothing or a file, so that a file can be written there. -/
def IsWritable (tree : FileTree) (location : Location) : Prop :=
  tree.get? location = none ∨ ∃ held executable, tree.get? location = some (.file held executable)

theorem IsWritable.ne_of_isPassage (h : tree.IsWritable location) {other : Location}
    (hother : tree.IsPassage other) : other ≠ location := by
  rintro rfl
  rcases h with h | ⟨_, _, h⟩ <;> rcases hother with hother | ⟨_, hother⟩ <;>
    · rw [h] at hother
      cases hother

/-- Where writing a file comes to, a file can be written. -/
theorem isWritable_of_isOpenAt (hplace : tree.HasPlace)
    (h : IsOpenAt location (tree.resolve intent path)) : tree.IsWritable location := by
  cases hresolve : tree.resolve intent path with
  | error e =>
    rw [hresolve] at h
    cases h
  | ok place =>
    rw [hresolve] at h
    cases h with
    | vacant => exact .inl (puts_of_vacant hplace hresolve .directory).1
    | file => exact .inr ⟨_, _, get?_of_resolve hresolve⟩

/-- What writing a file does, and where. -/
theorem exists_puts_of_writeFile (hplace : tree.HasPlace)
    (h : tree.writeFile path contents = (.ok (), tree')) :
    ∃ location executable, Puts tree tree' location (.file contents executable) ∧
      IsOpenAt location (tree.resolve .write path) := by
  unfold writeFile writeBytes at h
  cases hresolve : tree.resolve .write path with
  | error e => simp [hresolve] at h
  | ok place =>
    simp only [hresolve] at h
    cases place with
    | vacant location =>
      cases h
      exact ⟨location, false, (puts_of_vacant hplace hresolve _).2, .vacant⟩
    | occupied location entry =>
      cases entry with
      | directory => cases h
      | link target => cases h
      | file held executable =>
        cases h
        exact ⟨location, executable, puts_of_file (get?_of_resolve hresolve) _, .file⟩

/-- **A file that is written** is where its path leads from then on, if it is to be read or to be
written once more. -/
theorem writeFile_ok (hplace : tree.HasPlace) (h : tree.writeFile path contents = (.ok (), tree')) :
    ∃ location executable, tree.IsWritable location ∧
      Puts tree tree' location (.file contents executable) ∧
      ∀ intent, intent ≠ .make →
        tree'.resolve intent path = .ok (.occupied location (.file contents executable)) := by
  obtain ⟨location, executable, hputs, hopen⟩ := exists_puts_of_writeFile hplace h
  have hwritable := isWritable_of_isOpenAt hplace hopen
  refine ⟨location, executable, hwritable, hputs, fun intent hmake => ?_⟩
  obtain ⟨place, hresolve⟩ : ∃ place, tree.resolve .write path = .ok place := by
    generalize tree.resolve .write path = result at hopen
    cases hopen <;> exact ⟨_, rfl⟩
  rw [hresolve] at hopen
  obtain ⟨hdefect, looked, hlooks⟩ := exists_looks_of_ok hresolve
  obtain ⟨left, above, step, slash', rfl, hlast, hrest⟩ := Follows.exists_last hlooks hopen
  -- no slash is left at the last step, or the file could not have been written
  have hslash : slash' = false := by
    rw [← Bool.not_eq_true]
    exact fun hslash => hlast.allowed ⟨rfl, rfl, hslash⟩
  subst hslash
  obtain ⟨looked'', hfollows⟩ := hrest hmake (fun _ => rfl)
    (fun other hother => hputs.elsewhere other (hwritable.ne_of_isPassage hother))
    (.file (hlast.of_intent fun _ => rfl) hputs.put (.inr rfl))
  have hlooks' : tree'.Looks intent path looked''
      (.ok (.occupied (above ++ [step]) (.file contents executable))) := by
    rw [Looks, hputs.workingDirectory]
    exact hfollows
  exact hlooks'.resolve_eq hdefect

/-- A tree has got a file at a location that a path leads to, and more directories, and nothing else
has changed. -/
structure Receives (tree tree' : FileTree) (path : String) (location : Location)
    (contents : ByteArray) (executable : Bool) : Prop where
  workingDirectory : tree'.workingDirectory = tree.workingDirectory
  writable : tree.IsWritable location
  leads : ∀ intent, intent ≠ .make →
    tree'.resolve intent path = .ok (.occupied location (.file contents executable))
  keeps : ∀ other entry, other ≠ location → tree.get? other = some entry →
    tree'.get? other = some entry
  adds : ∀ other, other ≠ location → tree.get? other = none →
    tree'.get? other = none ∨ tree'.get? other = some .directory

theorem Receives.get?_of_isPassage {executable : Bool}
    (h : Receives tree tree' path location contents executable) {other : Location}
    (hother : tree.IsPassage other) : tree'.get? other = tree.get? other := by
  have hne := h.writable.ne_of_isPassage hother
  rcases hother with hentry | ⟨target, hentry⟩ <;> rw [hentry, h.keeps other _ hne hentry]

theorem Receives.of_grows {executable : Bool} (hgrows : Grows tree next)
    (hwritable : next.IsWritable location)
    (hputs : Puts next tree' location (.file contents executable))
    (hleads : ∀ intent, intent ≠ .make →
      tree'.resolve intent path = .ok (.occupied location (.file contents executable))) :
    Receives tree tree' path location contents executable where
  workingDirectory := hputs.workingDirectory.trans hgrows.workingDirectory
  leads := hleads
  writable := by
    cases hentry : tree.get? location with
    | none => exact .inl hentry
    | some entry =>
      -- what was there is there still, so it was a file
      rcases hwritable with hnone | ⟨held, runs, hfile⟩
      · rw [hgrows.keeps location entry hentry] at hnone
        cases hnone
      · rw [hgrows.keeps location entry hentry] at hfile
        exact .inr ⟨held, runs, hentry.trans hfile⟩
  keeps other entry hne hother :=
    (hputs.elsewhere other hne).trans (hgrows.keeps other entry hother)
  adds other hne hother := by
    rw [hputs.elsewhere other hne]
    exact hgrows.adds other hother

/-- How a file is written with its directories: those are made first, if there is a parent. -/
theorem createFile_ok (hplace : tree.HasPlace)
    (h : tree.createFile path contents = (.ok (), tree')) :
    ∃ grown, Grows tree grown ∧ grown.writeFile path contents = (.ok (), tree') ∧
      ∀ parent, Pathname.parent? path = some parent → parent ≠ "" →
        grown.isDirectory parent = true := by
  unfold createFile at h
  split at h
  · next hnone =>
    refine ⟨tree, .refl tree, h, fun parent hparent => ?_⟩
    rw [hnone] at hparent
    cases hparent
  · next parent hsome =>
    split at h
    · next hempty =>
      refine ⟨tree, .refl tree, h, fun parent' hparent hne => ?_⟩
      rw [hsome] at hparent
      exact absurd ((Option.some.inj hparent).symm.trans hempty) hne
    · next hne =>
      split at h
      · next grown hmade =>
        obtain ⟨hgrows, hdirectory⟩ := createDirectory_ok hplace hmade
        refine ⟨grown, hgrows, h, fun parent' hparent _ => ?_⟩
        rw [hsome] at hparent
        rw [← Option.some.inj hparent]
        exact hdirectory hne
      · cases h

/-- **Writing a file with its directories** adds directories and the file, and nothing else. -/
theorem receives_createFile (hplace : tree.HasPlace)
    (h : tree.createFile path contents = (.ok (), tree')) :
    ∃ location executable, Receives tree tree' path location contents executable := by
  obtain ⟨grown, hgrows, hwrite, -⟩ := createFile_ok hplace h
  obtain ⟨location, executable, hwritable, hputs, hleads⟩ :=
    writeFile_ok (hgrows.hasPlace hplace) hwrite
  exact ⟨location, executable, .of_grows hgrows hwritable hputs hleads⟩

/-- **A file that was written can be written once more.** -/
theorem createFile_again (hplace : tree.HasPlace)
    (h : tree.createFile path contents = (.ok (), tree')) (other : ByteArray) :
    (tree'.createFile path other).1 = .ok () := by
  obtain ⟨grown, hgrows, hwrite, hparent⟩ := createFile_ok hplace h
  obtain ⟨location, executable, hwritable, hputs, hleads⟩ :=
    writeFile_ok (hgrows.hasPlace hplace) hwrite
  have hagain : (tree'.writeFile path other).1 = .ok () := by
    rw [writeFile, writeBytes, hleads .write (by decide)]
  unfold createFile
  split
  · exact hagain
  · next parent hsome =>
    split
    · exact hagain
    · next hne =>
      obtain ⟨here, hresolve⟩ := isDirectory_iff.mp (hparent parent hsome hne)
      have hdirectory : tree'.isDirectory parent = true :=
        isDirectory_iff.mpr ⟨here, resolve_directory_of_isPassage hputs.workingDirectory
          (fun other hother => hputs.elsewhere other (hwritable.ne_of_isPassage hother)) hresolve⟩
      rw [createDirectory_of_isDirectory hdirectory]
      exact hagain

/-! ## Files of a new directory -/

section

variable {name : String} (hworking : tree.workingDirectory = [])
  (hsteps : Pathname.steps name = [name])
  (hplain : pathDefect? name = none ∧ Pathname.endsInSlash name = false)
  (hlooks : LooksUp .make name [] false) (hvacant : tree.get? [name] = none) (hne : name ≠ "")
include hworking hsteps hplain hlooks hvacant hne

/-- A directory is made where nothing is. -/
theorem createDirectory_of_vacant :
    tree.createDirectory name = (.ok (), tree.insert [name] .directory) := by
  have hresolve : tree.resolve .make name = .ok (.vacant [name]) :=
    resolve_of_steps hworking hsteps hplain (.vacant hlooks hvacant)
  rw [createDirectory, makeDirectoryAll, makeDirectories.eq_def, if_neg hne, makeDirectory,
    makeEntry, hresolve]
  rfl

/-- A file is written after its directory has been made. -/
theorem createFile_of_vacant (hparent : Pathname.parent? path = some name)
    (contents : ByteArray) :
    tree.createFile path contents = (tree.insert [name] .directory).writeFile path contents := by
  rw [createFile, hparent]
  dsimp only
  rw [if_neg hne, createDirectory_of_vacant hworking hsteps hplain hlooks hvacant hne]

end

/-- A file is no directory that another file could be written into. -/
theorem createFile_ne_ok_of_file {name last : String} {held : ByteArray} {runs : Bool}
    (hworking : tree.workingDirectory = []) (hfile : tree.get? [name] = some (.file held runs))
    (hsteps : Pathname.steps path = [name, last])
    (hplain : pathDefect? path = none ∧ Pathname.endsInSlash path = false)
    (hlooks : LooksUp .reach name [last] false) (contents : ByteArray) :
    (tree.createFile path contents).1 ≠ .ok () := by
  intro hok
  cases hcreate : tree.createFile path contents with
  | mk result written =>
    rw [hcreate] at hok
    subst hok
    have hplace : tree.HasPlace := by
      rw [HasPlace, hworking]
      rfl
    obtain ⟨location, executable, hreceives⟩ := receives_createFile hplace hcreate
    have hleads := hreceives.leads .reach nofun
    -- the file is still one, be it the old one or the new one
    obtain ⟨held', runs', hfile'⟩ : ∃ held runs, written.get? [name] = some (.file held runs) := by
      by_cases hlocation : [name] = location
      · exact ⟨contents, executable, hlocation ▸ get?_of_resolve hleads⟩
      · exact ⟨held, runs, hreceives.keeps _ _ hlocation hfile⟩
    have hblocked : written.resolve .reach path = .error .notADirectory :=
      resolve_of_steps (hreceives.workingDirectory.trans hworking) hsteps hplain
        (.blocked hlooks hfile' (by simp))
    rw [hblocked] at hleads
    cases hleads

end CompressorBench.FileTree
