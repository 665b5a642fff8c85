import CompressorBench.Proofs.Files.Listing

/-!
# What a lookup comes to

A lookup is told here by its rules (`Follows`), one for each way that a step of a path can go. The
rules know nothing of a tree but what is at a location, and they keep a record of the locations that
were looked at. So a lookup in another tree goes the same way as long as the same is at all of these
locations.

* `Follows.walk_eq`, `exists_follows`: the rules say exactly what a walk comes to.
* `Follows.congr`: nothing but the locations that are looked at matters.
* `Follows.isPassage_or_endsAt`: all of them but the last are directories and links.
* `Follows.of_vacant`: what becomes of a lookup if a file is put where it found nothing.
* `Follows.append`: a path through a directory goes on as a path from there.
-/

namespace CompressorBench.FileTree

variable {tree tree' : FileTree} {intent : Intent} {links : Nat} {here : Location}
  {step : String} {steps rest : List String} {slash : Bool} {looked : List Location}
  {result : Except OsError Place}

/-! ## Standpoints of a tree -/

/-- The nodes in the directory at a location; there are none if it is no directory. -/
def nodesIn (tree : FileTree) (location : Location) : List (String × Node) :=
  match tree.node? location with
  | some node => node.children
  | none => []

theorem node?_append_singleton (tree : FileTree) (location : Location) (name : String) :
    tree.node? (location ++ [name]) = (tree.nodesIn location).lookup name := by
  rw [node?, Node.find?_append, nodesIn, node?]
  cases Node.find? location tree.root with
  | none => rfl
  | some node =>
    show Node.find? [name] node = node.children.lookup name
    rw [Node.find?]
    cases node.children.lookup name <;> rfl

/-- A standpoint that is come to by entering directories of a tree from its root. -/
inductive Standpoint.IsOf (tree : FileTree) : Standpoint → Prop where
  | root : IsOf tree ⟨[], tree.top⟩
  | enter {here : Standpoint} (h : IsOf tree here) (name : String) :
      IsOf tree (here.enter name (tree.nodesIn (here.location ++ [name])))

namespace Standpoint

variable {stand : Standpoint}

theorem IsOf.children_eq (h : stand.IsOf tree) : stand.children = tree.nodesIn stand.location := by
  cases h with
  | root => rfl
  | enter _ name => rw [location_enter]; rfl

theorem IsOf.lookup_eq (h : stand.IsOf tree) (name : String) :
    stand.children.lookup name = tree.node? (stand.location ++ [name]) := by
  rw [node?_append_singleton, h.children_eq]

theorem IsOf.enter_of_lookup (h : stand.IsOf tree) {name : String} {node : Node}
    (hnode : stand.children.lookup name = some node) :
    (stand.enter name node.children).IsOf tree := by
  have hchildren : node.children = tree.nodesIn (stand.location ++ [name]) := by
    rw [nodesIn, ← h.lookup_eq, hnode]
  rw [hchildren]
  exact h.enter name

theorem IsOf.above (h : stand.IsOf tree) : stand.above.IsOf tree := by
  cases h with
  | root => exact .root
  | enter h name => exact h

theorem location_above (stand : Standpoint) : stand.above.location = stand.location.dropLast := by
  unfold Standpoint.above
  split
  · next hway => simp [location, hway]
  · next hway => simp [location, hway]

theorem IsOf.descend (h : stand.IsOf tree) (names : List String) :
    (stand.descend names).IsOf tree := by
  induction names generalizing stand with
  | nil => exact h
  | cons name rest ih =>
    rw [Standpoint.descend]
    split
    · next node hnode => exact ih (h.enter_of_lookup hnode)
    · next hnone =>
      have hnodes : tree.nodesIn (stand.location ++ [name]) = [] := by
        rw [nodesIn, ← h.lookup_eq, hnone]
      have hentered := h.enter name
      rw [hnodes] at hentered
      exact ih hentered

theorem location_descend (stand : Standpoint) (names : List String) :
    (stand.descend names).location = stand.location ++ names := by
  induction names generalizing stand with
  | nil => exact (List.append_nil _).symm
  | cons name rest ih =>
    rw [Standpoint.descend]
    split <;> rw [ih, location_enter, List.append_assoc, List.singleton_append]

end Standpoint

/-- The location that a path starts from, if it is met in a directory. -/
def origin (path : String) (here : Location) : Location :=
  if Pathname.isAbsolute path then [] else here

theorem isOf_start (tree : FileTree) (path : String) : (tree.start path).IsOf tree := by
  unfold start
  split
  · exact .root
  · exact Standpoint.IsOf.root.descend tree.workingDirectory

theorem location_start (tree : FileTree) (path : String) :
    (tree.start path).location = origin path tree.workingDirectory := by
  unfold start origin
  split
  · rfl
  · rw [Standpoint.location_descend]
    rfl

/-! ## The rules -/

/-- A step is looked up under its name: it is no dot, nothing forbids it, and it is short enough. -/
structure LooksUp (intent : Intent) (step : String) (rest : List String) (slash : Bool) : Prop where
  ne_dot : step ≠ "."
  ne_dots : step ≠ ".."
  allowed : ¬ (intent = .write ∧ rest = [] ∧ slash = true)
  length_le : step.utf8ByteSize ≤ maxNameLength

instance : Decidable (LooksUp intent step rest slash) :=
  decidable_of_iff (step ≠ "." ∧ step ≠ ".." ∧ ¬ (intent = .write ∧ rest = [] ∧ slash = true) ∧
      step.utf8ByteSize ≤ maxNameLength)
    ⟨fun h => ⟨h.1, h.2.1, h.2.2.1, h.2.2.2⟩,
      fun h => ⟨h.ne_dot, h.ne_dots, h.allowed, h.length_le⟩⟩

/-- Only to write a file more is forbidden than otherwise. -/
theorem LooksUp.of_intent (h : LooksUp intent step rest slash) {intent' : Intent}
    (hwrite : intent' = .write → intent = .write) : LooksUp intent' step rest slash :=
  ⟨h.ne_dot, h.ne_dots, fun hforbidden => h.allowed ⟨hwrite hforbidden.1, hforbidden.2⟩,
    h.length_le⟩

theorem LooksUp.append (h : LooksUp intent step rest slash) {more : List String}
    (hmore : more ≠ []) (slash' : Bool) : LooksUp intent step (rest ++ more) slash' :=
  ⟨h.ne_dot, h.ne_dots, fun hforbidden =>
    hmore (List.append_eq_nil_iff.mp hforbidden.2.1).2, h.length_le⟩

/-- **How a lookup goes**: from a location with a row of steps it looks at locations, in this order,
and comes to a result. At most the given number of links is followed. -/
inductive Follows (tree : FileTree) (intent : Intent) :
    Nat → Location → List String → Bool → List Location → Except OsError Place → Prop where
  | arrive {links : Nat} {here : Location} {slash : Bool} :
      Follows tree intent links here [] slash [] (.ok (.occupied here .directory))
  | stay {links : Nat} {here : Location} {rest : List String} {slash : Bool}
      {looked : List Location} {result : Except OsError Place}
      (hrest : Follows tree intent links here rest slash looked result) :
      Follows tree intent links here ("." :: rest) slash looked result
  | leave {links : Nat} {here : Location} {rest : List String} {slash : Bool}
      {looked : List Location} {result : Except OsError Place}
      (hrest : Follows tree intent links here.dropLast rest slash looked result) :
      Follows tree intent links here (".." :: rest) slash looked result
  /-- A file that is to be written is not named with a slash at the end. -/
  | slashed {links : Nat} {here : Location} {step : String} (hdot : step ≠ ".")
      (hdots : step ≠ "..") (hwrite : intent = .write) :
      Follows tree intent links here [step] true [] (.error .isADirectory)
  | tooLong {links : Nat} {here : Location} {step : String} {rest : List String} {slash : Bool}
      (hdot : step ≠ ".") (hdots : step ≠ "..")
      (hallowed : ¬ (intent = .write ∧ rest = [] ∧ slash = true))
      (hlong : maxNameLength < step.utf8ByteSize) :
      Follows tree intent links here (step :: rest) slash [] (.error .nameTooLong)
  /-- Nothing is there, and nothing is to be found in it. -/
  | vacant {links : Nat} {here : Location} {step : String} {slash : Bool}
      (hlooks : LooksUp intent step [] slash) (hnone : tree.get? (here ++ [step]) = none) :
      Follows tree intent links here [step] slash [here ++ [step]]
        (.ok (.vacant (here ++ [step])))
  | missing {links : Nat} {here : Location} {step : String} {rest : List String} {slash : Bool}
      (hlooks : LooksUp intent step rest slash) (hnone : tree.get? (here ++ [step]) = none)
      (hmore : rest ≠ []) :
      Follows tree intent links here (step :: rest) slash [here ++ [step]] (.error .notFound)
  | enter {links : Nat} {here : Location} {step : String} {rest : List String} {slash : Bool}
      {looked : List Location} {result : Except OsError Place}
      (hlooks : LooksUp intent step rest slash)
      (hdirectory : tree.get? (here ++ [step]) = some .directory)
      (hrest : Follows tree intent links (here ++ [step]) rest slash looked result) :
      Follows tree intent links here (step :: rest) slash ((here ++ [step]) :: looked) result
  | file {links : Nat} {here : Location} {step : String} {slash : Bool} {contents : ByteArray}
      {executable : Bool} (hlooks : LooksUp intent step [] slash)
      (hfile : tree.get? (here ++ [step]) = some (.file contents executable))
      (hend : intent = .make ∨ slash = false) :
      Follows tree intent links here [step] slash [here ++ [step]]
        (.ok (.occupied (here ++ [step]) (.file contents executable)))
  /-- A file is no directory, so nothing can be found in it. -/
  | blocked {links : Nat} {here : Location} {step : String} {rest : List String} {slash : Bool}
      {contents : ByteArray} {executable : Bool} (hlooks : LooksUp intent step rest slash)
      (hfile : tree.get? (here ++ [step]) = some (.file contents executable))
      (hmore : ¬ (rest = [] ∧ (intent = .make ∨ slash = false))) :
      Follows tree intent links here (step :: rest) slash [here ++ [step]]
        (.error .notADirectory)
  /-- A link in the place of a new entry is not followed. -/
  | link {links : Nat} {here : Location} {step : String} {slash : Bool} {target : String}
      (hlooks : LooksUp intent step [] slash)
      (hlink : tree.get? (here ++ [step]) = some (.link target)) (hmake : intent = .make) :
      Follows tree intent links here [step] slash [here ++ [step]]
        (.ok (.occupied (here ++ [step]) (.link target)))
  | exhausted {here : Location} {step : String} {rest : List String} {slash : Bool}
      {target : String} (hlooks : LooksUp intent step rest slash)
      (hlink : tree.get? (here ++ [step]) = some (.link target))
      (hfollow : ¬ (rest = [] ∧ intent = .make)) :
      Follows tree intent 0 here (step :: rest) slash [here ++ [step]] (.error .tooManyLinks)
  | jump {links : Nat} {here : Location} {step : String} {rest : List String} {slash : Bool}
      {target : String} {looked : List Location} {result : Except OsError Place}
      (hlooks : LooksUp intent step rest slash)
      (hlink : tree.get? (here ++ [step]) = some (.link target))
      (hfollow : ¬ (rest = [] ∧ intent = .make))
      (hrest : Follows tree intent links (origin target here) (Pathname.steps target ++ rest)
        (slash || (rest.isEmpty && Pathname.endsInSlash target)) looked result) :
      Follows tree intent (links + 1) here (step :: rest) slash ((here ++ [step]) :: looked) result

/-! ## Walks go by the rules -/

theorem get?_eq_none_iff {location : Location} :
    tree.get? location = none ↔ tree.node? location = none := Option.map_eq_none_iff

theorem get?_eq_directory_iff {location : Location} :
    tree.get? location = some .directory ↔
      ∃ children, tree.node? location = some (.directory children) := by
  rw [get?, Option.map_eq_some_iff]
  constructor
  · rintro ⟨node, hnode, hentry⟩
    exact ⟨node.children, by rw [hnode, ← Node.entry_eq_directory_iff.mp hentry]⟩
  · rintro ⟨children, hnode⟩
    exact ⟨_, hnode, rfl⟩

theorem get?_eq_file_iff {location : Location} {contents : ByteArray} {executable : Bool} :
    tree.get? location = some (.file contents executable) ↔
      tree.node? location = some (.file contents executable) := by
  rw [get?, Option.map_eq_some_iff]
  constructor
  · rintro ⟨node, hnode, hentry⟩
    cases node <;> cases hentry
    exact hnode
  · intro hnode
    exact ⟨_, hnode, rfl⟩

theorem get?_eq_link_iff {location : Location} {target : String} :
    tree.get? location = some (.link target) ↔ tree.node? location = some (.link target) := by
  rw [get?, Option.map_eq_some_iff]
  constructor
  · rintro ⟨node, hnode, hentry⟩
    cases node <;> cases hentry
    exact hnode
  · intro hnode
    exact ⟨_, hnode, rfl⟩

/-- The standpoint from which a link is followed. -/
theorem isOf_origin {stand : Standpoint} (h : stand.IsOf tree) (target : String) :
    (if Pathname.isAbsolute target then tree.rootStandpoint else stand).IsOf tree := by
  split
  · exact .root
  · exact h

theorem location_origin (tree : FileTree) (stand : Standpoint) (target : String) :
    (if Pathname.isAbsolute target then tree.rootStandpoint else stand).location =
      origin target stand.location := by
  unfold origin
  split <;> rfl

/-- A step that is looked up goes by what is under its name. -/
theorem LooksUp.walk_eq (h : LooksUp intent step rest slash) (tree : FileTree) (links : Nat)
    (stand : Standpoint) :
    tree.walk intent links stand (step :: rest) slash =
      match stand.children.lookup step with
      | none =>
        if rest = [] then .ok (.vacant (stand.location ++ [step])) else .error .notFound
      | some (.directory children) =>
        tree.walk intent links (stand.enter step children) rest slash
      | some (.file contents executable) =>
        if rest = [] ∧ (intent = .make ∨ !slash) then
          .ok (.occupied (stand.location ++ [step]) (.file contents executable))
        else .error .notADirectory
      | some (.link target) =>
        if rest = [] ∧ intent = .make then
          .ok (.occupied (stand.location ++ [step]) (.link target))
        else
          match links with
          | 0 => .error .tooManyLinks
          | links + 1 =>
            tree.walk intent links
              (if Pathname.isAbsolute target then tree.rootStandpoint else stand)
              (Pathname.steps target ++ rest)
              (slash || (rest.isEmpty && Pathname.endsInSlash target)) := by
  rw [walk, if_neg h.ne_dot, if_neg h.ne_dots, if_neg h.allowed]
  exact if_neg (Nat.not_lt.mpr h.length_le)

/-- **A walk comes to what the rules say.** -/
theorem Follows.walk_eq (h : Follows tree intent links here steps slash looked result)
    {stand : Standpoint} (hof : stand.IsOf tree) (hhere : stand.location = here) :
    tree.walk intent links stand steps slash = result := by
  induction h generalizing stand with
  | arrive => rw [walk, hhere]
  | stay _ ih =>
    rw [walk, if_pos rfl]
    exact ih hof hhere
  | leave _ ih =>
    rw [walk, if_neg (by decide), if_pos rfl]
    exact ih hof.above (by rw [Standpoint.location_above, hhere])
  | slashed hdot hdots hwrite =>
    rw [walk, if_neg hdot, if_neg hdots, if_pos ⟨hwrite, rfl, rfl⟩]
  | tooLong hdot hdots hallowed hlong =>
    rw [walk, if_neg hdot, if_neg hdots, if_neg hallowed, if_pos hlong]
  | vacant hlooks hnone =>
    rw [get?_eq_none_iff, ← hhere, ← hof.lookup_eq] at hnone
    rw [hlooks.walk_eq, hnone, ← hhere]
    exact if_pos rfl
  | missing hlooks hnone hmore =>
    rw [get?_eq_none_iff, ← hhere, ← hof.lookup_eq] at hnone
    rw [hlooks.walk_eq, hnone]
    exact if_neg hmore
  | enter hlooks hdirectory _ ih =>
    obtain ⟨children, hnode⟩ := get?_eq_directory_iff.mp hdirectory
    rw [← hhere, ← hof.lookup_eq] at hnode
    rw [hlooks.walk_eq, hnode]
    exact ih (hof.enter_of_lookup hnode) (by rw [Standpoint.location_enter, hhere])
  | file hlooks hfile hend =>
    rw [get?_eq_file_iff, ← hhere, ← hof.lookup_eq] at hfile
    rw [hlooks.walk_eq, hfile, ← hhere]
    exact if_pos ⟨rfl, by simpa using hend⟩
  | blocked hlooks hfile hmore =>
    rw [get?_eq_file_iff, ← hhere, ← hof.lookup_eq] at hfile
    rw [hlooks.walk_eq, hfile]
    exact if_neg (by simpa using hmore)
  | link hlooks hlink hmake =>
    rw [get?_eq_link_iff, ← hhere, ← hof.lookup_eq] at hlink
    rw [hlooks.walk_eq, hlink, ← hhere]
    exact if_pos ⟨rfl, hmake⟩
  | exhausted hlooks hlink hfollow =>
    rw [get?_eq_link_iff, ← hhere, ← hof.lookup_eq] at hlink
    rw [hlooks.walk_eq, hlink]
    exact if_neg hfollow
  | @jump _ _ _ _ _ target _ _ hlooks hlink hfollow _ ih =>
    rw [get?_eq_link_iff, ← hhere, ← hof.lookup_eq] at hlink
    rw [hlooks.walk_eq, hlink]
    refine (if_neg hfollow).trans ?_
    exact ih (isOf_origin hof target) (by rw [location_origin, hhere])

/-- Every walk goes by the rules. -/
theorem exists_follows {stand : Standpoint} (hof : stand.IsOf tree) (intent : Intent)
    (links : Nat) (steps : List String) (slash : Bool) :
    ∃ looked, Follows tree intent links stand.location steps slash looked
      (tree.walk intent links stand steps slash) := by
  fun_induction walk tree intent links stand steps slash with
  | case1 => exact ⟨_, .arrive⟩
  | case2 links stand slash rest ih =>
    obtain ⟨looked, hrest⟩ := ih hof
    exact ⟨looked, .stay hrest⟩
  | case3 links stand slash rest _ ih =>
    obtain ⟨looked, hrest⟩ := ih hof.above
    rw [Standpoint.location_above] at hrest
    exact ⟨looked, .leave hrest⟩
  | case4 links stand slash step rest hdot hdots hslashed =>
    obtain ⟨hwrite, rfl, rfl⟩ := hslashed
    exact ⟨_, .slashed hdot hdots hwrite⟩
  | case5 links stand slash step rest hdot hdots hallowed hlong =>
    exact ⟨_, .tooLong hdot hdots hallowed hlong⟩
  | case6 links stand slash step hdot hdots hlength hnone hallowed =>
    rw [hof.lookup_eq, ← get?_eq_none_iff] at hnone
    exact ⟨_, .vacant ⟨hdot, hdots, hallowed, Nat.not_lt.mp hlength⟩ hnone⟩
  | case7 links stand slash step rest hdot hdots hallowed hlength hnone hmore =>
    rw [hof.lookup_eq, ← get?_eq_none_iff] at hnone
    exact ⟨_, .missing ⟨hdot, hdots, hallowed, Nat.not_lt.mp hlength⟩ hnone hmore⟩
  | case8 links stand slash step rest hdot hdots hallowed hlength children hnode ih =>
    obtain ⟨looked, hrest⟩ := ih (hof.enter_of_lookup hnode)
    rw [Standpoint.location_enter] at hrest
    rw [hof.lookup_eq] at hnode
    exact ⟨_, .enter ⟨hdot, hdots, hallowed, Nat.not_lt.mp hlength⟩
      (get?_eq_directory_iff.mpr ⟨children, hnode⟩) hrest⟩
  | case9 links stand slash step rest hdot hdots hallowed hlength contents executable hfile hend =>
    rw [hof.lookup_eq, ← get?_eq_file_iff] at hfile
    obtain ⟨rfl, hend⟩ := hend
    exact ⟨_, .file ⟨hdot, hdots, hallowed, Nat.not_lt.mp hlength⟩ hfile (by simpa using hend)⟩
  | case10 links stand slash step rest hdot hdots hallowed hlength contents executable hfile
      hmore =>
    rw [hof.lookup_eq, ← get?_eq_file_iff] at hfile
    exact ⟨_, .blocked ⟨hdot, hdots, hallowed, Nat.not_lt.mp hlength⟩ hfile (by simpa using hmore)⟩
  | case11 links stand slash step rest hdot hdots hallowed hlength target hlink hmake =>
    rw [hof.lookup_eq, ← get?_eq_link_iff] at hlink
    obtain ⟨rfl, hmake⟩ := hmake
    exact ⟨_, .link ⟨hdot, hdots, hallowed, Nat.not_lt.mp hlength⟩ hlink hmake⟩
  | case12 stand slash step rest hdot hdots hallowed hlength target hlink hfollow =>
    rw [hof.lookup_eq, ← get?_eq_link_iff] at hlink
    exact ⟨_, .exhausted ⟨hdot, hdots, hallowed, Nat.not_lt.mp hlength⟩ hlink hfollow⟩
  | case13 stand slash step rest hdot hdots hallowed hlength target hlink hfollow links start ih =>
    have hlocation : start.location = origin target stand.location :=
      location_origin tree stand target
    obtain ⟨looked, hrest⟩ := ih (isOf_origin hof target)
    rw [hlocation] at hrest
    rw [hof.lookup_eq, ← get?_eq_link_iff] at hlink
    exact ⟨_, .jump ⟨hdot, hdots, hallowed, Nat.not_lt.mp hlength⟩ hlink hfollow hrest⟩

/-! ## Putting an entry -/

/-- A tree holds an entry at a location, and elsewhere what the old tree holds. -/
structure Puts (tree tree' : FileTree) (location : Location) (entry : Entry) : Prop where
  workingDirectory : tree'.workingDirectory = tree.workingDirectory
  put : tree'.get? location = some entry
  elsewhere : ∀ other, other ≠ location → tree'.get? other = tree.get? other

/-- This is what inserting an entry into a directory does. -/
theorem puts_insert {directory : Location} {name : String}
    (hdirectory : tree.get? directory = some .directory)
    (hold : tree.get? (directory ++ [name]) ≠ some .directory) (entry : Entry) :
    Puts tree (tree.insert (directory ++ [name]) entry) (directory ++ [name]) entry where
  workingDirectory := rfl
  put := get?_insert_self hdirectory
  elsewhere _ hne := get?_insert_of_ne hold hne

/-- A location with an entry is none where nothing is. -/
theorem ne_of_get? {location other : Location} {entry : Entry} (hnone : tree.get? location = none)
    (hother : tree.get? other = some entry) : other ≠ location := by
  rintro rfl
  rw [hnone] at hother
  cases hother

/-! ## What a lookup depends on -/

/-- **Only what is at the locations that are looked at matters.** -/
theorem Follows.congr (h : Follows tree intent links here steps slash looked result)
    (hsame : ∀ location ∈ looked, tree'.get? location = tree.get? location) :
    Follows tree' intent links here steps slash looked result := by
  induction h with
  | arrive => exact .arrive
  | stay _ ih => exact .stay (ih hsame)
  | leave _ ih => exact .leave (ih hsame)
  | slashed hdot hdots hwrite => exact .slashed hdot hdots hwrite
  | tooLong hdot hdots hallowed hlong => exact .tooLong hdot hdots hallowed hlong
  | vacant hlooks hnone =>
    rw [← hsame _ List.mem_cons_self] at hnone
    exact .vacant hlooks hnone
  | missing hlooks hnone hmore =>
    rw [← hsame _ List.mem_cons_self] at hnone
    exact .missing hlooks hnone hmore
  | enter hlooks hdirectory _ ih =>
    rw [← hsame _ List.mem_cons_self] at hdirectory
    exact .enter hlooks hdirectory (ih fun l hl => hsame l (List.mem_cons_of_mem _ hl))
  | file hlooks hfile hend =>
    rw [← hsame _ List.mem_cons_self] at hfile
    exact .file hlooks hfile hend
  | blocked hlooks hfile hmore =>
    rw [← hsame _ List.mem_cons_self] at hfile
    exact .blocked hlooks hfile hmore
  | link hlooks hlink hmake =>
    rw [← hsame _ List.mem_cons_self] at hlink
    exact .link hlooks hlink hmake
  | exhausted hlooks hlink hfollow =>
    rw [← hsame _ List.mem_cons_self] at hlink
    exact .exhausted hlooks hlink hfollow
  | jump hlooks hlink hfollow _ ih =>
    rw [← hsame _ List.mem_cons_self] at hlink
    exact .jump hlooks hlink hfollow (ih fun l hl => hsame l (List.mem_cons_of_mem _ hl))

/-- A lookup can go on from a location. -/
def IsPassage (tree : FileTree) (location : Location) : Prop :=
  tree.get? location = some .directory ∨ ∃ target, tree.get? location = some (.link target)

/-- A lookup that comes to a place ends at a location that is no directory, and finds there what the
place says. -/
inductive Place.EndsAt (tree : FileTree) : Place → Location → Prop where
  | vacant {location : Location} (hnone : tree.get? location = none) :
      EndsAt tree (.vacant location) location
  | file {location : Location} {contents : ByteArray} {executable : Bool}
      (hfile : tree.get? location = some (.file contents executable)) :
      EndsAt tree (.occupied location (.file contents executable)) location
  | link {location : Location} {target : String}
      (hlink : tree.get? location = some (.link target)) :
      EndsAt tree (.occupied location (.link target)) location

variable {place : Place} {location : Location} {entry : Entry}

/-- **Every location on the way is a directory or a link**, up to the one where the lookup ends. -/
theorem Follows.isPassage_or_endsAt
    (h : Follows tree intent links here steps slash looked result) (hok : result = .ok place) :
    ∀ location ∈ looked, tree.IsPassage location ∨ place.EndsAt tree location := by
  induction h with
  | arrive => exact nofun
  | stay _ ih => exact ih hok
  | leave _ ih => exact ih hok
  | slashed => cases hok
  | tooLong => cases hok
  | vacant _ hnone =>
    cases hok
    intro location hlocation
    rw [List.mem_singleton.mp hlocation]
    exact .inr (.vacant hnone)
  | missing => cases hok
  | enter _ hdirectory _ ih =>
    intro location hlocation
    rcases List.mem_cons.mp hlocation with rfl | hlocation
    · exact .inl (.inl hdirectory)
    · exact ih hok location hlocation
  | file _ hfile =>
    cases hok
    intro location hlocation
    rw [List.mem_singleton.mp hlocation]
    exact .inr (.file hfile)
  | blocked => cases hok
  | link _ hlink =>
    cases hok
    intro location hlocation
    rw [List.mem_singleton.mp hlocation]
    exact .inr (.link hlink)
  | exhausted => cases hok
  | jump _ hlink _ _ ih =>
    intro location hlocation
    rcases List.mem_cons.mp hlocation with rfl | hlocation
    · exact .inl (.inr ⟨_, hlink⟩)
    · exact ih hok location hlocation

/-- A lookup comes to a directory or to where it ends. -/
theorem Follows.directory_or_endsAt
    (h : Follows tree intent links here steps slash looked result) (hok : result = .ok place) :
    (∃ location, place = .occupied location .directory) ∨
      ∃ location ∈ looked, place.EndsAt tree location := by
  induction h with
  | arrive =>
    cases hok
    exact .inl ⟨_, rfl⟩
  | stay _ ih => exact ih hok
  | leave _ ih => exact ih hok
  | slashed => cases hok
  | tooLong => cases hok
  | vacant _ hnone =>
    cases hok
    exact .inr ⟨_, List.mem_cons_self, .vacant hnone⟩
  | missing => cases hok
  | enter _ _ _ ih =>
    exact (ih hok).imp_right fun ⟨location, hlocation, hends⟩ =>
      ⟨location, List.mem_cons_of_mem _ hlocation, hends⟩
  | file _ hfile =>
    cases hok
    exact .inr ⟨_, List.mem_cons_self, .file hfile⟩
  | blocked => cases hok
  | link _ hlink =>
    cases hok
    exact .inr ⟨_, List.mem_cons_self, .link hlink⟩
  | exhausted => cases hok
  | jump _ _ _ _ ih =>
    exact (ih hok).imp_right fun ⟨location, hlocation, hends⟩ =>
      ⟨location, List.mem_cons_of_mem _ hlocation, hends⟩

/-- **A path that goes on behind a directory** is looked up as the rest of it from there. -/
theorem Follows.append (h : Follows tree intent links here steps slash looked result)
    (hok : result = .ok (.occupied location .directory)) {more : List String} (hmore : more ≠ []) :
    ∃ left, ∀ slash' looked' result',
      Follows tree intent left location more slash' looked' result' →
        Follows tree intent links here (steps ++ more) slash' (looked ++ looked') result' := by
  induction h with
  | arrive =>
    cases hok
    exact ⟨_, fun slash' looked' result' hgo => hgo⟩
  | stay _ ih =>
    obtain ⟨left, hleft⟩ := ih hok
    exact ⟨left, fun slash' looked' result' hgo => .stay (hleft _ _ _ hgo)⟩
  | leave _ ih =>
    obtain ⟨left, hleft⟩ := ih hok
    exact ⟨left, fun slash' looked' result' hgo => .leave (hleft _ _ _ hgo)⟩
  | enter hlooks hdirectory _ ih =>
    obtain ⟨left, hleft⟩ := ih hok
    exact ⟨left, fun slash' looked' result' hgo =>
      .enter (hlooks.append hmore slash') hdirectory (hleft _ _ _ hgo)⟩
  | @jump _ _ _ rest _ target _ _ hlooks hlink _ _ ih =>
    obtain ⟨left, hleft⟩ := ih hok
    refine ⟨left, fun slash' looked' result' hgo => ?_⟩
    have hne : rest ++ more ≠ [] := fun hnil => hmore (List.append_eq_nil_iff.mp hnil).2
    -- a slash at the end of the target does not count, because the path goes on
    have hslash : (slash' || ((rest ++ more).isEmpty && Pathname.endsInSlash target)) = slash' := by
      rw [List.isEmpty_eq_false_iff.mpr hne, Bool.false_and, Bool.or_false]
    have hrest := hleft _ _ _ hgo
    rw [List.append_assoc, ← hslash] at hrest
    exact .jump (hlooks.append hmore slash') hlink (fun hnil => hne hnil.1) hrest
  | slashed => cases hok
  | tooLong => cases hok
  | vacant => cases hok
  | missing => cases hok
  | file => cases hok
  | blocked => cases hok
  | link => cases hok
  | exhausted => cases hok

/-- A single step from a directory to a file looks at no other location. -/
theorem exists_follows_file {contents : ByteArray} {executable : Bool}
    (hfile : tree.get? (here ++ [step]) = some (.file contents executable)) (intent : Intent)
    (links : Nat) (slash : Bool) :
    ∃ looked result, Follows tree intent links here [step] slash looked result ∧
      ∀ location ∈ looked, location = here ++ [step] := by
  by_cases hdot : step = "."
  · subst hdot
    exact ⟨[], _, .stay .arrive, List.forall_mem_nil _⟩
  by_cases hdots : step = ".."
  · subst hdots
    exact ⟨[], _, .leave .arrive, List.forall_mem_nil _⟩
  by_cases hslashed : intent = .write ∧ slash = true
  · obtain ⟨hwrite, rfl⟩ := hslashed
    exact ⟨[], _, .slashed hdot hdots hwrite, List.forall_mem_nil _⟩
  have hallowed : ¬ (intent = .write ∧ ([] : List String) = [] ∧ slash = true) :=
    fun h => hslashed ⟨h.1, h.2.2⟩
  by_cases hlong : maxNameLength < step.utf8ByteSize
  · exact ⟨[], _, .tooLong hdot hdots hallowed hlong, List.forall_mem_nil _⟩
  have hlooks : LooksUp intent step [] slash := ⟨hdot, hdots, hallowed, Nat.not_lt.mp hlong⟩
  by_cases hend : intent = .make ∨ slash = false
  · exact ⟨_, _, .file hlooks hfile hend, fun _ => List.mem_singleton.mp⟩
  · exact ⟨_, _, .blocked hlooks hfile fun h => hend h.2, fun _ => List.mem_singleton.mp⟩

/-- **A lookup that looks where nothing is** ends there without a find. If a file was there and all
else was the same, then the lookup would find this file or, with more to come, be stopped by it. -/
theorem Follows.of_vacant (h : Follows tree .reach links here steps slash looked result)
    (hlocation : location ∈ looked) (hnone : tree.get? location = none) {contents : ByteArray}
    {executable : Bool} (hputs : Puts tree tree' location (.file contents executable)) :
    (result = .ok (.vacant location) ∨ result = .error .notFound) ∧
      ∃ looked' result', Follows tree' .reach links here steps slash looked' result' ∧
        (result' = .ok (.occupied location (.file contents executable)) ∨
          result' = .error .notADirectory) := by
  -- a location with an entry is another one, and is the same in both trees
  have hother : ∀ {other : Location} {found : Entry}, tree.get? other = some found →
      other ≠ location ∧ tree'.get? other = some found := by
    intro other found hfound
    have hne := ne_of_get? hnone hfound
    exact ⟨hne, (hputs.elsewhere other hne).trans hfound⟩
  induction h with
  | arrive => cases hlocation
  | stay _ ih =>
    obtain ⟨hresult, looked', result', hfollows, hresult'⟩ := ih hlocation
    exact ⟨hresult, looked', result', .stay hfollows, hresult'⟩
  | leave _ ih =>
    obtain ⟨hresult, looked', result', hfollows, hresult'⟩ := ih hlocation
    exact ⟨hresult, looked', result', .leave hfollows, hresult'⟩
  | slashed => cases hlocation
  | tooLong => cases hlocation
  | @vacant _ _ _ slash hlooks _ =>
    cases List.mem_singleton.mp hlocation
    refine ⟨.inl rfl, ?_⟩
    cases slash with
    | false => exact ⟨_, _, .file hlooks hputs.put (.inr rfl), .inl rfl⟩
    | true => exact ⟨_, _, .blocked hlooks hputs.put (by simp), .inr rfl⟩
  | missing hlooks _ hmore =>
    cases List.mem_singleton.mp hlocation
    exact ⟨.inr rfl, _, _, .blocked hlooks hputs.put fun h => hmore h.1, .inr rfl⟩
  | enter hlooks hdirectory _ ih =>
    obtain ⟨hne, hdirectory'⟩ := hother hdirectory
    obtain ⟨hresult, looked', result', hfollows, hresult'⟩ :=
      ih ((List.mem_cons.mp hlocation).resolve_left hne.symm)
    exact ⟨hresult, _, result', .enter hlooks hdirectory' hfollows, hresult'⟩
  | file _ hfound => exact absurd (List.mem_singleton.mp hlocation).symm (hother hfound).1
  | blocked _ hfound => exact absurd (List.mem_singleton.mp hlocation).symm (hother hfound).1
  | link _ hlink => exact absurd (List.mem_singleton.mp hlocation).symm (hother hlink).1
  | exhausted _ hlink => exact absurd (List.mem_singleton.mp hlocation).symm (hother hlink).1
  | jump hlooks hlink hfollow _ ih =>
    obtain ⟨hne, hlink'⟩ := hother hlink
    obtain ⟨hresult, looked', result', hfollows, hresult'⟩ :=
      ih ((List.mem_cons.mp hlocation).resolve_left hne.symm)
    exact ⟨hresult, _, result', .jump hlooks hlink' hfollow hfollows, hresult'⟩

/-! ## Paths -/

/-- A path is looked up from the root or the working directory. -/
def Looks (tree : FileTree) (intent : Intent) (path : String) (looked : List Location)
    (result : Except OsError Place) : Prop :=
  Follows tree intent maxLinks (origin path tree.workingDirectory) (Pathname.steps path)
    (Pathname.endsInSlash path) looked result

/-- Following a path comes to a location, be it at its end or on the way. -/
def ComesTo (tree : FileTree) (path : String) (location : Location) : Prop :=
  pathDefect? path = none ∧
    ∃ looked result, tree.Looks .reach path looked result ∧ location ∈ looked

variable {path : String}

theorem Looks.resolve_eq (h : tree.Looks intent path looked result)
    (hpath : pathDefect? path = none) : tree.resolve intent path = result := by
  rw [resolve, hpath]
  exact h.walk_eq (isOf_start tree path) (location_start tree path)

/-- In a tree whose working directory is the root, every path is looked up from there. -/
theorem resolve_of_steps (hworking : tree.workingDirectory = [])
    (hsteps : Pathname.steps path = steps)
    (hplain : pathDefect? path = none ∧ Pathname.endsInSlash path = false)
    (h : Follows tree intent maxLinks [] steps false looked result) :
    tree.resolve intent path = result := by
  have horigin : origin path tree.workingDirectory = [] := by
    rw [origin, hworking, ite_self]
  have hlooks : tree.Looks intent path looked result := by
    rw [Looks, horigin, hsteps, hplain.2]
    exact h
  exact hlooks.resolve_eq hplain.1

theorem exists_looks (tree : FileTree) (intent : Intent) (hpath : pathDefect? path = none) :
    ∃ looked, tree.Looks intent path looked (tree.resolve intent path) := by
  simp only [resolve, hpath, Looks, ← location_start]
  exact exists_follows (isOf_start tree path) intent maxLinks _ _

theorem exists_looks_of_ok (h : tree.resolve intent path = .ok place) :
    pathDefect? path = none ∧ ∃ looked, tree.Looks intent path looked (.ok place) := by
  have hpath : pathDefect? path = none := by
    cases hdefect : pathDefect? path with
    | none => rfl
    | some e => rw [resolve, hdefect] at h; cases h
  exact ⟨hpath, h ▸ exists_looks tree intent hpath⟩

theorem Looks.congr (h : tree.Looks intent path looked result)
    (hworking : tree'.workingDirectory = tree.workingDirectory)
    (hsame : ∀ location ∈ looked, tree'.get? location = tree.get? location) :
    tree'.Looks intent path looked result := by
  rw [Looks, hworking]
  exact Follows.congr h hsame

/-- A path leads to the same place in a tree that has the same at all locations on the way. -/
theorem resolve_eq_of_looks
    (hworking : tree'.workingDirectory = tree.workingDirectory)
    (h : pathDefect? path = none → ∃ looked result, tree.Looks intent path looked result ∧
      ∀ location ∈ looked, tree'.get? location = tree.get? location) :
    tree'.resolve intent path = tree.resolve intent path := by
  cases hpath : pathDefect? path with
  | some e => rw [resolve, resolve, hpath]
  | none =>
    obtain ⟨looked, result, hlooks, hsame⟩ := h hpath
    rw [(hlooks.congr hworking hsame).resolve_eq hpath, hlooks.resolve_eq hpath]

/-- All locations that are looked at on the way to a directory have entries. -/
theorem Looks.isPassage (h : tree.Looks intent path looked (.ok (.occupied here .directory))) :
    ∀ location ∈ looked, tree.IsPassage location := by
  intro location hlocation
  rcases Follows.isPassage_or_endsAt h rfl location hlocation with hpassage | hends
  · exact hpassage
  · cases hends

/-- A directory is found again where the same is on the way. -/
theorem resolve_directory_of_isPassage
    (hworking : tree'.workingDirectory = tree.workingDirectory)
    (hsame : ∀ other, tree.IsPassage other → tree'.get? other = tree.get? other)
    (h : tree.resolve .reach path = .ok (.occupied here .directory)) :
    tree'.resolve .reach path = .ok (.occupied here .directory) := by
  rw [← h]
  refine resolve_eq_of_looks hworking fun _ => ?_
  obtain ⟨-, looked, hlooks⟩ := exists_looks_of_ok h
  exact ⟨looked, _, hlooks, fun other hother => hsame other (hlooks.isPassage other hother)⟩

/-- The path of a file in a directory goes through the directory to the file. -/
theorem exists_looks_join {directory name : String} {contents : ByteArray} {executable : Bool}
    (hdirectory : tree.resolve .reach directory = .ok (.occupied here .directory))
    (hname : Pathname.steps name = [name])
    (hfile : tree.get? (here ++ [name]) = some (.file contents executable)) :
    ∃ looked result, tree.Looks .reach (Pathname.join directory name) looked result ∧
      ∀ location ∈ looked, tree.IsPassage location ∨ location = here ++ [name] := by
  obtain ⟨hpath, looked, hlooks⟩ := exists_looks_of_ok hdirectory
  have hne : directory ≠ "" := by
    rintro rfl
    cases hpath
  obtain ⟨left, hleft⟩ := Follows.append hlooks rfl (List.cons_ne_nil name [])
  obtain ⟨looked', result', hgo, honly⟩ := exists_follows_file hfile .reach left
    (Pathname.endsInSlash (Pathname.join directory name))
  refine ⟨looked ++ looked', result', ?_, fun location hlocation => ?_⟩
  · rw [Looks, Pathname.steps_join hne, hname, origin, Pathname.isAbsolute_join hne]
    exact hleft _ _ _ hgo
  · exact (List.mem_append.mp hlocation).imp (hlooks.isPassage location) (honly location)

/-! ## Reading -/

theorem readContents_eq (h : tree'.resolve .reach path = tree.resolve .reach path) :
    tree'.readContents path = tree.readContents path := by
  simp only [readContents, readText, readBytes, h]

theorem executable_eq (h : tree'.resolve .reach path = tree.resolve .reach path) :
    tree'.executable path = tree.executable path := by
  simp only [executable, h]

theorem readDirectory_of_resolve
    (h : tree.resolve .reach path = .ok (.occupied here .directory)) :
    tree.readDirectory path = .ok (tree.children here) := by
  rw [readDirectory, enumerate, h]
  rfl

/-- A directory that can be read is where its path leads. -/
theorem exists_of_readDirectory {entries : List (String × Entry)}
    (h : tree.readDirectory path = .ok entries) :
    ∃ here, tree.resolve .reach path = .ok (.occupied here .directory) ∧
      entries = tree.children here := by
  unfold readDirectory enumerate at h
  split at h
  · cases h
  · cases h
  · next here hresolve =>
    cases h
    exact ⟨here, hresolve, rfl⟩
  · cases h

/-- If names are different, then what is under a name is what is listed with it. -/
theorem lookup_eq_some_iff_mem {nodes : List (String × Node)} (h : (nodes.map Prod.fst).Nodup)
    {name : String} {node : Node} : nodes.lookup name = some node ↔ (name, node) ∈ nodes := by
  rw [List.lookup_eq_some_iff]
  constructor
  · rintro ⟨before, after, rfl, -⟩
    exact List.mem_append_right before List.mem_cons_self
  · intro hmem
    obtain ⟨before, after, rfl⟩ := List.append_of_mem hmem
    refine ⟨before, after, rfl, fun other hother => ?_⟩
    rw [List.map_append, List.map_cons, List.nodup_append] at h
    exact bne_iff_ne.mpr
      (h.2.2 _ (List.mem_map_of_mem hother) _ List.mem_cons_self).symm

/-- A directory holds what is at the locations in it. -/
theorem mem_children_iff {name : String} :
    (name, entry) ∈ tree.children location ↔ tree.get? (location ++ [name]) = some entry := by
  have hchildren : tree.children location =
      (tree.nodesIn location).map fun child => (child.1, child.2.entry) := by
    rw [children, nodesIn]
    cases tree.node? location <;> rfl
  have hnodup : ((tree.nodesIn location).map Prod.fst).Nodup := by
    have h := nodup_children tree location
    rwa [hchildren, List.map_map] at h
  rw [hchildren, get?, node?_append_singleton, List.mem_map]
  constructor
  · rintro ⟨child, hchild, heq⟩
    cases heq
    rw [(lookup_eq_some_iff_mem hnodup).mpr hchild]
    rfl
  · intro h
    obtain ⟨node, hnode, rfl⟩ := Option.map_eq_some_iff.mp h
    exact ⟨(name, node), (lookup_eq_some_iff_mem hnodup).mp hnode, rfl⟩

end CompressorBench.FileTree
