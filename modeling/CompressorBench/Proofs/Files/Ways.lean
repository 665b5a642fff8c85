import CompressorBench.Proofs.Files.Growth
import CompressorBench.Proofs.Files.Parents

/-!
# What following a path comes to

A location that following a path comes to is come to again in a tree where the directories and links
on the way are the same, and by a longer path that goes through the first one. So every directory
that is made for a path is one that following the path comes to, no matter whether all of them could
be made.

* `Follows.exists_further`: a lookup that goes on, also in a tree with more directories.
* `ComesTo.further`: the same for paths.
* `makes_createDirectory`: the directories that are made.
-/

namespace CompressorBench.FileTree

variable {tree tree' next : FileTree} {intent : Intent} {links : Nat} {here location : Location}
  {step path other : String} {steps rest : List String} {slash : Bool} {looked : List Location}
  {result : Except OsError Place} {entry : Entry}

/-! ## Going on -/

/-- A lookup comes to something, wherever it starts. -/
theorem exists_follows_from (tree : FileTree) (intent : Intent) (links : Nat) (here : Location)
    (steps : List String) (slash : Bool) :
    ∃ looked result, Follows tree intent links here steps slash looked result := by
  have hof : (Standpoint.descend ⟨[], tree.top⟩ here).IsOf tree := Standpoint.IsOf.root.descend here
  obtain ⟨looked, hfollows⟩ := exists_follows hof intent links steps slash
  rw [Standpoint.location_descend] at hfollows
  exact ⟨looked, _, hfollows⟩

/-- A step that is looked up is looked at, whatever is there and whatever comes after it. -/
theorem LooksUp.exists_follows (h : LooksUp .reach step rest slash) (tree : FileTree) (links : Nat)
    (here : Location) (rest' : List String) (slash' : Bool) :
    ∃ looked result, Follows tree .reach links here (step :: rest') slash' looked result ∧
      here ++ [step] ∈ looked := by
  obtain ⟨looked, result, hfollows⟩ :=
    exists_follows_from tree .reach links here (step :: rest') slash'
  refine ⟨looked, result, hfollows, ?_⟩
  cases hfollows with
  | stay => exact absurd rfl h.ne_dot
  | leave => exact absurd rfl h.ne_dots
  | slashed _ _ hwrite => cases hwrite
  | tooLong _ _ _ hlong => exact absurd h.length_le (Nat.not_le.mpr hlong)
  | vacant => exact List.mem_cons_self
  | missing => exact List.mem_cons_self
  | enter => exact List.mem_cons_self
  | file => exact List.mem_cons_self
  | blocked => exact List.mem_cons_self
  | link => exact List.mem_cons_self
  | exhausted => exact List.mem_cons_self
  | jump => exact List.mem_cons_self

/-- **A lookup that goes on** looks at all locations that it has looked at, also in another tree
that has the same directories and links. -/
theorem Follows.exists_further (h : Follows tree intent links here steps slash looked result)
    (hintent : intent = .reach)
    (hsame : ∀ other, tree.IsPassage other → tree'.get? other = tree.get? other)
    (more : List String) (slash' : Bool) :
    ∃ looked' result', Follows tree' .reach links here (steps ++ more) slash' looked' result' ∧
      looked ⊆ looked' := by
  subst hintent
  -- where the old lookup ends, the new one may go on
  have hlast : ∀ {links : Nat} {here : Location} {step : String} {rest : List String}
      {slash : Bool} (slash' : Bool), LooksUp .reach step rest slash →
      ∃ looked' result', Follows tree' .reach links here (step :: rest ++ more) slash' looked'
        result' ∧ [here ++ [step]] ⊆ looked' := by
    intro links here step rest slash slash' hlooks
    obtain ⟨looked', result', hfollows, hmem⟩ :=
      hlooks.exists_follows tree' links here (rest ++ more) slash'
    exact ⟨looked', result', hfollows, List.cons_subset.mpr ⟨hmem, List.nil_subset _⟩⟩
  induction h generalizing slash' with
  | arrive =>
    obtain ⟨looked', result', hfollows⟩ := exists_follows_from tree' .reach _ _ more slash'
    exact ⟨looked', result', hfollows, List.nil_subset _⟩
  | stay _ ih =>
    obtain ⟨looked', result', hfollows, hsub⟩ := ih slash'
    exact ⟨looked', result', .stay hfollows, hsub⟩
  | leave _ ih =>
    obtain ⟨looked', result', hfollows, hsub⟩ := ih slash'
    exact ⟨looked', result', .leave hfollows, hsub⟩
  | slashed _ _ hwrite => cases hwrite
  | @tooLong _ _ _ rest _ hdot hdots _ hlong =>
    exact ⟨[], _, .tooLong hdot hdots nofun hlong, List.nil_subset _⟩
  | vacant hlooks => exact hlast slash' hlooks
  | missing hlooks => exact hlast slash' hlooks
  | enter hlooks hdirectory _ ih =>
    obtain ⟨looked', result', hfollows, hsub⟩ := ih slash'
    exact ⟨_, result', .enter ⟨hlooks.ne_dot, hlooks.ne_dots, nofun, hlooks.length_le⟩
      ((hsame _ (.inl hdirectory)).trans hdirectory) hfollows, List.cons_subset_cons _ hsub⟩
  | file hlooks => exact hlast slash' hlooks
  | blocked hlooks => exact hlast slash' hlooks
  | link _ _ hmake => cases hmake
  | exhausted hlooks => exact hlast slash' hlooks
  | @jump _ _ _ rest _ target _ _ hlooks hlink _ _ ih =>
    obtain ⟨looked', result', hfollows, hsub⟩ :=
      ih (slash' || ((rest ++ more).isEmpty && Pathname.endsInSlash target))
    rw [List.append_assoc] at hfollows
    exact ⟨_, result', .jump ⟨hlooks.ne_dot, hlooks.ne_dots, nofun, hlooks.length_le⟩
      ((hsame _ (.inr ⟨target, hlink⟩)).trans hlink) nofun hfollows,
      List.cons_subset_cons _ hsub⟩

/-- **A longer path comes to the same locations** as the one that it goes through, also in another
tree that has the same directories and links. -/
theorem ComesTo.further (h : tree.ComesTo other location)
    (hworking : tree'.workingDirectory = tree.workingDirectory)
    (hsame : ∀ other, tree.IsPassage other → tree'.get? other = tree.get? other)
    (hthrough : Pathname.GoesThrough path other) (hpath : pathDefect? path = none) :
    tree'.ComesTo path location := by
  obtain ⟨-, looked, result, hlooks, hlocation⟩ := h
  obtain ⟨more, hsteps⟩ := hthrough.steps
  obtain ⟨looked', result', hfollows, hsub⟩ :=
    Follows.exists_further hlooks rfl hsame more (Pathname.endsInSlash path)
  refine ⟨hpath, looked', result', ?_, hsub hlocation⟩
  rw [Looks, hworking, ← hsteps, origin, hthrough.start]
  exact hfollows

theorem ComesTo.of_isPassage (h : tree.ComesTo path location)
    (hworking : tree'.workingDirectory = tree.workingDirectory)
    (hsame : ∀ other, tree.IsPassage other → tree'.get? other = tree.get? other) :
    tree'.ComesTo path location :=
  h.further hworking hsame (.refl path) h.1

/-- Where a new entry would get is a location that the path comes to. -/
theorem comesTo_of_vacant (h : tree.resolve .make path = .ok (.vacant location)) :
    tree.ComesTo path location := by
  have hnone := get?_of_resolve_vacant h
  obtain ⟨hpath, looked, hlooks⟩ := exists_looks_of_ok h
  obtain ⟨left, above, step, slash, rfl, hlast, hrest⟩ := Follows.exists_last hlooks .vacant
  have hlast' : LooksUp .reach step [] slash := hlast.of_intent nofun
  have hreach : Intent.reach ≠ .make := nofun
  obtain ⟨looked', hlooks'⟩ := hrest hreach nofun (fun _ _ => rfl) (.vacant hlast' hnone)
  refine ⟨hpath, looked', _, hlooks', ?_⟩
  rcases Follows.directory_or_endsAt hlooks' rfl with ⟨_, hdirectory⟩ | ⟨_, hlocation, hends⟩
  · cases hdirectory
  · cases hends with
    | vacant => exact hlocation

/-! ## Directories that are made -/

/-- A tree has got some more directories, all of them on a way. -/
structure Makes (tree tree' : FileTree) (isOnWay : Location → Prop) : Prop extends
    Grows tree tree' where
  made : ∀ location, tree.get? location = none → tree'.get? location = some .directory →
    isOnWay location

variable {isOnWay isOnWay' : Location → Prop}

theorem Makes.refl (tree : FileTree) (isOnWay : Location → Prop) : Makes tree tree isOnWay where
  toGrows := .refl tree
  made location hnone hdirectory := by
    rw [hnone] at hdirectory
    cases hdirectory

theorem Makes.trans (h : Makes tree next isOnWay) (h' : Makes next tree' isOnWay) :
    Makes tree tree' isOnWay where
  toGrows := h.toGrows.trans h'.toGrows
  made location hnone hdirectory := by
    rcases h.adds location hnone with hnone' | hmade
    · exact h'.made location hnone' hdirectory
    · exact h.made location hnone hmade

theorem Makes.mono (h : Makes tree tree' isOnWay)
    (hway : ∀ location, isOnWay location → isOnWay' location) : Makes tree tree' isOnWay' where
  toGrows := h.toGrows
  made location hnone hdirectory := hway location (h.made location hnone hdirectory)

/-- What is made on the way of a path is on the way of a path through it, and stays there. -/
theorem Makes.further (h : Makes tree next (next.ComesTo other)) (hgrows : Grows next tree')
    (hthrough : Pathname.GoesThrough path other) (hpath : pathDefect? path = none) :
    Makes tree next (tree'.ComesTo path) :=
  h.mono fun _ hcomes => hcomes.further hgrows.workingDirectory
    (fun _ => hgrows.get?_of_isPassage) hthrough hpath

/-- **A directory that is made** is the only thing that is new, and its path comes to it. -/
theorem makes_makeDirectory (h : tree.makeDirectory path = .ok tree') :
    Makes tree tree' (tree'.ComesTo path) := by
  unfold makeDirectory makeEntry at h
  split at h
  · cases h
  · next made hresolve =>
    cases h
    have hcomes := comesTo_of_vacant hresolve
    have hnone := get?_of_resolve_vacant hresolve
    have hgrows := grows_insert hnone
    refine ⟨hgrows, fun location hlocation hdirectory => ?_⟩
    -- the only location where something is new is the one that was vacant
    have heq : location = made := by
      by_contra hne
      rw [get?_insert_of_ne (by rw [hnone]; exact nofun) hne, hlocation] at hdirectory
      cases hdirectory
    rw [heq]
    exact hcomes.of_isPassage hgrows.workingDirectory fun _ => hgrows.get?_of_isPassage
  · cases h

theorem makes_ensureDirectory (h : tree.ensureDirectory path = .ok tree') :
    Makes tree tree' (tree'.ComesTo path) := by
  unfold ensureDirectory at h
  split at h
  · next made hmade =>
    cases h
    exact makes_makeDirectory hmade
  · split at h
    · cases h
      exact .refl _ _
    · cases h

theorem pathDefect?_of_makeDirectory (hne : path ≠ "")
    (h : tree.makeDirectory path = .error .notFound) : pathDefect? path = none := by
  cases hpath : pathDefect? path with
  | none => rfl
  | some error =>
    rw [makeDirectory, makeEntry, resolve, hpath] at h
    rw [Except.error.inj h] at hpath
    unfold pathDefect? at hpath
    split at hpath
    · cases hpath
    · split at hpath <;> cases hpath

/-- **Making a directory with its parents** adds nothing but directories that its path comes to, be
it successful or not. -/
theorem makes_makeDirectories (absolute : Bool) (path : String) (parents : List (List String))
    (tree : FileTree) (hchain : List.IsChain Pathname.GoesThrough
      (path :: parents.map (Pathname.ofReversed absolute))) :
    Makes tree (makeDirectories absolute path parents tree).2
      ((makeDirectories absolute path parents tree).2.ComesTo path) := by
  fun_induction makeDirectories absolute path parents tree with
  | case1 => exact .refl _ _
  | case2 _ _ _ made hmade => exact makes_makeDirectory hmade
  | case3 => exact .refl _ _
  | case4 path hne hmissing parent parents error left hparent ih =>
    obtain ⟨hthrough, hrest⟩ := List.isChain_cons_cons.mp hchain
    have hmakes := ih hrest
    rw [hparent] at hmakes
    exact hmakes.further (.refl left) hthrough (pathDefect?_of_makeDirectory hne hmissing)
  | case5 path hne hmissing parent parents left hparent made hmade ih =>
    obtain ⟨hthrough, hrest⟩ := List.isChain_cons_cons.mp hchain
    have hmakes := ih hrest
    rw [hparent] at hmakes
    have hlast := makes_ensureDirectory hmade
    exact (hmakes.further hlast.toGrows hthrough
      (pathDefect?_of_makeDirectory hne hmissing)).trans hlast
  | case6 path hne hmissing parent parents left hparent error _ ih =>
    obtain ⟨hthrough, hrest⟩ := List.isChain_cons_cons.mp hchain
    have hmakes := ih hrest
    rw [hparent] at hmakes
    exact hmakes.further (.refl left) hthrough (pathDefect?_of_makeDirectory hne hmissing)
  | case7 => exact .refl _ _
  | case8 => exact .refl _ _

theorem makes_createDirectory (tree : FileTree) (path : String) :
    Makes tree (tree.createDirectory path).2 ((tree.createDirectory path).2.ComesTo path) := by
  show Makes tree (makeDirectories (Pathname.isAbsolute path) path (Pathname.parentPieces path)
    tree).2 (FileTree.ComesTo (makeDirectories (Pathname.isAbsolute path) path
      (Pathname.parentPieces path) tree).2 path)
  by_cases hne : path = ""
  · unfold makeDirectories
    rw [if_pos hne]
    exact .refl _ _
  · exact makes_makeDirectories _ _ _ _ (Pathname.isChain_parents hne)

/-! ## Directories for a file -/

/-- Following the parent of a path comes to a location. -/
def ComesToParent (tree : FileTree) (path : String) (location : Location) : Prop :=
  ∃ parent, Pathname.parent? path = some parent ∧ tree.ComesTo parent location

/-- **To write a file with its directories** is to make directories on the way to its parent, and
then to write it, unless they cannot be made. -/
theorem exists_makes_of_createFile (tree : FileTree) (path : String) (contents : ByteArray) :
    ∃ grown, Makes tree grown (grown.ComesToParent path) ∧
      (tree.createFile path contents = grown.writeFile path contents ∨
        ∃ error, tree.createFile path contents = (.error error, grown)) := by
  cases hparent : Pathname.parent? path with
  | none =>
    refine ⟨tree, .refl tree _, .inl ?_⟩
    simp only [createFile, hparent]
  | some parent =>
    by_cases hempty : parent = ""
    · refine ⟨tree, .refl tree _, .inl ?_⟩
      simp only [createFile, hparent, if_pos hempty]
    · have hmakes := makes_createDirectory tree parent
      have hway : Makes tree (tree.createDirectory parent).2
          ((tree.createDirectory parent).2.ComesToParent path) :=
        hmakes.mono fun location hcomes => ⟨parent, hparent, hcomes⟩
      refine ⟨_, hway, ?_⟩
      simp only [createFile, hparent, if_neg hempty]
      rcases tree.createDirectory parent with ⟨error | done, grown⟩
      · exact .inr ⟨error, rfl⟩
      · exact .inl rfl

end CompressorBench.FileTree
