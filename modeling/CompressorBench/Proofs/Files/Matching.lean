import CompressorBench.Bench
import CompressorBench.Proofs.Files.Listing
import CompressorBench.Proofs.Files.Lookup
import CompressorBench.Proofs.Glob.Hidden

/-!
# Which files are listed

A listing holds the entries of a directory that are no directories themselves and whose names can be
cut by the tokens of the pattern, in ascending order. Letters of ASCII match in either case. A file
whose name starts with a dot is listed only by a pattern that has a dot behind nothing but runs.

* `listing_is_exact`: what a listing holds, however the directory is enumerated.
* `hidden_files_listed_iff`: when a listing holds a hidden file.
* `hidden_files_of_default_pattern`: which hidden files are cases if no pattern is given.
-/

namespace CompressorBench.FileTree

variable {tree : FileTree} {directory pattern : String} {glob : Glob}
  {entries : List (String × Entry)}

/-! ## Listings -/

/-- Names are those of the entries that are no directories and can be cut by a pattern, ascending by
their bytes. -/
structure IsListing (fold : Bool) (glob : Glob) (entries : List (String × Entry))
    (names : List String) : Prop where
  mem_iff : ∀ name, name ∈ names ↔ ∃ entry, (name, entry) ∈ entries ∧ entry ≠ .directory ∧
    Glob.Cuts fold true glob.tokens name.toList
  ascending : names.Pairwise fun a b => a.toUTF8.toList < b.toUTF8.toList

theorem mem_map_join_iff {name : String} {names : List String} :
    Pathname.join directory name ∈ names.map (Pathname.join directory) ↔ name ∈ names := by
  refine ⟨fun hpath => ?_, List.mem_map_of_mem⟩
  obtain ⟨name', hname', hjoin⟩ := List.mem_map.mp hpath
  exact Pathname.join_inj hjoin ▸ hname'

theorem isDirectory_eq_false_iff {entry : Entry} :
    entry.isDirectory = false ↔ entry ≠ .directory := by
  cases entry <;> simp [Entry.isDirectory]

theorem Lists.isListing {names : List String} (h : Lists glob entries names)
    (hglob : Glob.ofString pattern = .ok glob)
    (hnames : ∀ child ∈ entries, Glob.separator ∉ child.1.toList) :
    IsListing true glob entries names where
  mem_iff name := by
    rw [h.mem_iff]
    refine exists_congr fun entry => and_congr_right fun hmem => ?_
    rw [isDirectory_eq_false_iff, Glob.accepts_iff hglob (hnames _ hmem)]
  ascending := h.ascending

theorem IsListing.unique {fold : Bool} {names names' : List String}
    (h : IsListing fold glob entries names) (h' : IsListing fold glob entries names') :
    names = names' :=
  eq_of_ascending h.ascending h'.ascending fun name => (h.mem_iff name).trans (h'.mem_iff name).symm

/-- In which order the entries come does not matter. -/
theorem IsListing.of_perm {fold : Bool} {names : List String} {entries' : List (String × Entry)}
    (h : IsListing fold glob entries names) (hperm : entries'.Perm entries) :
    IsListing fold glob entries' names where
  mem_iff name := by
    rw [h.mem_iff]
    exact exists_congr fun entry => and_congr_left fun _ => hperm.mem_iff.symm
  ascending := h.ascending

/-- There is a listing of every directory that can be enumerated. -/
theorem exists_listing (hglob : Glob.ofString pattern = .ok glob)
    (hentries : tree.enumerate directory = .ok entries)
    (hnames : ∀ child ∈ entries, Glob.separator ∉ child.1.toList) :
    ∃ names, IsListing true glob entries names ∧
      tree.listMatching directory pattern = .ok (names.map (Pathname.join directory)) := by
  have hread := readDirectory_of_enumerate hentries
  refine ⟨_, (lists_sortNames (nodup_of_readDirectory hread)).isListing hglob hnames, ?_⟩
  rw [listMatching, hglob, hread]
  rfl

/-! ## Small directories -/

/-- A tree with nothing but a directory `d`. -/
def directoryTree (children : List (String × Node)) (proper : (Node.directory children).Proper) :
    FileTree :=
  ⟨[("d", .directory children)], [], .directory (by simp) (by simpa using proper)⟩

theorem enumerate_directoryTree {children : List (String × Node)}
    (proper : (Node.directory children).Proper) :
    (directoryTree children proper).enumerate "d" =
      .ok (children.map fun child => (child.1, child.2.entry)) := by
  have hsteps : Pathname.steps "d" = ["d"] := by decide
  have hresolve : (directoryTree children proper).resolve .reach "d" =
      .ok (.occupied ["d"] .directory) :=
    resolve_of_steps rfl hsteps (by decide) (.enter (by decide) rfl .arrive)
  rw [enumerate, hresolve]
  rfl

theorem ofString_defaultPattern :
    Glob.ofString Config.defaultPattern = .ok ⟨.anyRun :: ['.', 't', 'x', 't'].map .char⟩ := by
  simp [Glob.ofString, Glob.readTokens, Config.defaultPattern, Except.map]

/-- A directory in descending order with another directory and a link that leads nowhere. -/
def mixedTree : FileTree :=
  directoryTree
    [("b.txt", .file .empty false), ("a.txt", .directory []), ("A.TXT", .link "nowhere")]
    (.directory (by decide) (by simp [Node.Proper.file, Node.Proper.directory, Node.Proper.link]))

theorem enumerate_mixedTree : mixedTree.enumerate "d" =
    .ok [("b.txt", .file .empty false), ("a.txt", .directory), ("A.TXT", .link "nowhere")] :=
  enumerate_directoryTree _

/-- A tree whose directory holds a single file. -/
def lonelyTree (name : String) : FileTree :=
  directoryTree [(name, .file .empty false)] (.directory (by simp) (by simp [Node.Proper.file]))

theorem enumerate_lonelyTree (name : String) :
    (lonelyTree name).enumerate "d" = .ok [(name, .file .empty false)] :=
  enumerate_directoryTree _

theorem listMatching_lonelyTree {name : String} (hglob : Glob.ofString pattern = .ok glob)
    (haccepts : glob.accepts name = true) :
    (lonelyTree name).listMatching "d" pattern = .ok [Pathname.join "d" name] := by
  have hread := readDirectory_of_enumerate (enumerate_lonelyTree name)
  have hlisted : isListed glob (name, .file .empty false) = true :=
    isListed_iff.mpr ⟨rfl, haccepts⟩
  simp [listMatching, hglob, hread, Except.map, hlisted, sortNames]

/-! ## Exact listings -/

/-- **A listing is exact.** It holds the paths of the entries that are no directories and whose
names can be cut by the tokens of the pattern, letters of ASCII in either case. The names ascend by
their bytes, no path is there twice, and every enumeration of the same entries gives the same. -/
theorem listing_is_exact (hglob : Glob.ofString pattern = .ok glob)
    (hentries : tree.enumerate directory = .ok entries)
    (hnames : ∀ child ∈ entries, Glob.separator ∉ child.1.toList) :
    ∃ names, IsListing true glob entries names ∧
      tree.listMatching directory pattern = .ok (names.map (Pathname.join directory)) ∧
      (names.map (Pathname.join directory)).Nodup ∧
      ∀ (other : FileTree) (place : String) (entries' : List (String × Entry)),
        other.enumerate place = .ok entries' → entries'.Perm entries →
          other.listMatching place pattern = .ok (names.map (Pathname.join place)) := by
  obtain ⟨names, hlisting, hpaths⟩ := exists_listing hglob hentries hnames
  refine ⟨names, hlisting, hpaths, ?_, fun other place entries' hentries' hperm => ?_⟩
  · refine List.Nodup.map (fun name name' hpath => Pathname.join_inj hpath) ?_
    refine hlisting.ascending.imp fun {a b} hlt (heq : a = b) => ?_
    exact List.lt_irrefl _ (heq ▸ hlt)
  · have hnames' : ∀ child ∈ entries', Glob.separator ∉ child.1.toList :=
      fun child hchild => hnames child (hperm.mem_iff.mp hchild)
    obtain ⟨names', hlisting', hpaths'⟩ := exists_listing hglob hentries' hnames'
    rw [hpaths', hlisting'.unique (hlisting.of_perm hperm)]

theorem listing_of_mixed_directory :
    ∃ glob entries, Glob.ofString Config.defaultPattern = .ok glob ∧
      mixedTree.enumerate "d" = .ok entries ∧
      (∀ child ∈ entries, Glob.separator ∉ child.1.toList) ∧
      ∃ names, IsListing true glob entries names ∧
        mixedTree.listMatching "d" Config.defaultPattern = .ok (names.map (Pathname.join "d")) := by
  obtain ⟨names, hlisting, hpaths, -⟩ :=
    listing_is_exact ofString_defaultPattern enumerate_mixedTree (by decide)
  exact ⟨_, _, ofString_defaultPattern, enumerate_mixedTree, by decide, names, hlisting, hpaths⟩

/-- A name in capitals is listed, so no listing is exact that minds the case of letters. -/
theorem capitals_are_listed :
    ∃ glob entries, Glob.ofString Config.defaultPattern = .ok glob ∧
      (lonelyTree "A.TXT").enumerate "d" = .ok entries ∧
      (∀ child ∈ entries, Glob.separator ∉ child.1.toList) ∧
      (lonelyTree "A.TXT").listMatching "d" Config.defaultPattern = .ok ["d/A.TXT"] ∧
      ¬ ∃ names, IsListing false glob entries names ∧
        (lonelyTree "A.TXT").listMatching "d" Config.defaultPattern =
          .ok (names.map (Pathname.join "d")) := by
  have hlisted := listMatching_lonelyTree ofString_defaultPattern
    (show Glob.accepts _ "A.TXT" = true by decide +kernel)
  have hjoin : Pathname.join "d" "A.TXT" = "d/A.TXT" := by decide
  refine ⟨_, _, ofString_defaultPattern, enumerate_lonelyTree _, by decide, hjoin ▸ hlisted, ?_⟩
  rintro ⟨names, hlisting, hpaths⟩
  have hname : "A.TXT" ∈ names := by
    rw [← mem_map_join_iff, ← Except.ok.inj (hlisted.symm.trans hpaths)]
    exact List.mem_cons_self
  obtain ⟨-, -, -, hcuts⟩ := (hlisting.mem_iff "A.TXT").mp hname
  obtain ⟨piece, rest, hsplit, -, -, -, hrest⟩ := Glob.cuts_cons.mp hcuts
  have hsuffix : ['.', 't', 'x', 't'] <:+ "A.TXT".toList :=
    ⟨piece, (Glob.cuts_chars_iff_eq.mp hrest ▸ hsplit).symm⟩
  exact absurd hsuffix (by decide)

/-! ## Hidden files -/

/-- What a listing holds, name by name. -/
theorem join_mem_iff {paths : List String} {name : String}
    (hpaths : tree.listMatching directory pattern = .ok paths)
    (hglob : Glob.ofString pattern = .ok glob)
    (hentries : tree.enumerate directory = .ok entries) :
    Pathname.join directory name ∈ paths ↔
      ∃ entry, (name, entry) ∈ entries ∧ entry ≠ .directory ∧ glob.accepts name = true := by
  obtain ⟨_, _, names, hglob', hread, hlists, rfl⟩ := exists_of_listMatching hpaths
  cases hglob.symm.trans hglob'
  cases (readDirectory_of_enumerate hentries).symm.trans hread
  simp only [mem_map_join_iff, hlists.mem_iff, isDirectory_eq_false_iff]

/-- **A hidden file is listed** exactly if the pattern is made of runs, which take nothing, and then
of one that starts with a dot and accepts the name. -/
theorem hidden_files_listed_iff {paths : List String} {name : String}
    (hpaths : tree.listMatching directory pattern = .ok paths)
    (hentries : tree.enumerate directory = .ok entries)
    (hnames : ∀ child ∈ entries, Glob.separator ∉ child.1.toList)
    (hdot : name.toList.head? = some '.') :
    Pathname.join directory name ∈ paths ↔
      (∃ entry, (name, entry) ∈ entries ∧ entry ≠ .directory) ∧
        Glob.AcceptsBehindRuns pattern name := by
  obtain ⟨glob, _, _, hglob, -⟩ := exists_of_listMatching hpaths
  rw [join_mem_iff hpaths hglob hentries]
  constructor
  · rintro ⟨entry, hchild, hfile, haccepts⟩
    exact ⟨⟨entry, hchild, hfile⟩,
      (Glob.accepts_dotted_iff hglob (hnames _ hchild) hdot).mp haccepts⟩
  · rintro ⟨⟨entry, hchild, hfile⟩, haccepts⟩
    exact ⟨entry, hchild, hfile,
      (Glob.accepts_dotted_iff hglob (hnames _ hchild) hdot).mpr haccepts⟩

theorem lonely_hidden_file_listed_iff :
    ∃ paths entries,
      (lonelyTree ".txt").listMatching "d" Config.defaultPattern = .ok paths ∧
      (lonelyTree ".txt").enumerate "d" = .ok entries ∧
      (∀ child ∈ entries, Glob.separator ∉ child.1.toList) ∧
      ".txt".toList.head? = some '.' ∧
      Glob.AcceptsBehindRuns Config.defaultPattern ".txt" := by
  have hpaths := listMatching_lonelyTree ofString_defaultPattern
    (show Glob.accepts _ ".txt" = true by decide +kernel)
  have hdot : ".txt".toList.head? = some '.' := by decide
  have hlisted := hidden_files_listed_iff hpaths (enumerate_lonelyTree ".txt") (by decide) hdot
  exact ⟨_, _, hpaths, enumerate_lonelyTree ".txt", by decide, hdot,
    (hlisted.mp List.mem_cons_self).2⟩

/-- A hidden file is listed although the pattern does not start with a dot. -/
theorem hidden_file_is_listed :
    (∃ glob, Glob.ofString Config.defaultPattern = .ok glob) ∧
      Config.defaultPattern.toList.head? ≠ some '.' ∧
      (lonelyTree ".txt").listMatching "d" Config.defaultPattern = .ok ["d/.txt"] := by
  have hjoin : Pathname.join "d" ".txt" = "d/.txt" := by decide
  refine ⟨⟨_, ofString_defaultPattern⟩, by decide, ?_⟩
  rw [← hjoin]
  exact listMatching_lonelyTree ofString_defaultPattern
    (show Glob.accepts _ ".txt" = true by decide +kernel)

/-- If no pattern is given, a hidden file is listed exactly if its name is `.txt`, in whatever
case. -/
theorem hidden_files_of_default_pattern {paths : List String} {name : String}
    (hpaths : tree.listMatching directory Config.defaultPattern = .ok paths)
    (hentries : tree.enumerate directory = .ok entries)
    (hnames : ∀ child ∈ entries, Glob.separator ∉ child.1.toList)
    (hdot : name.toList.head? = some '.') :
    Pathname.join directory name ∈ paths ↔
      ∃ entry, (name, entry) ∈ entries ∧ entry ≠ .directory ∧
        name.toList.map Char.toLower = ".txt".toList := by
  obtain ⟨tail, htail⟩ := List.head?_eq_some_iff.mp hdot
  rw [join_mem_iff hpaths ofString_defaultPattern hentries]
  refine exists_congr fun entry => and_congr_right fun hchild => and_congr_right fun _ => ?_
  have hskip : Glob.Cuts true true (.anyRun :: ['.', 't', 'x', 't'].map .char) ('.' :: tail) ↔
      Glob.Cuts true true (['.', 't', 'x', 't'].map .char) ('.' :: tail) :=
    Glob.cuts_anyRun_cons.trans (or_iff_left fun h => h.1 ⟨rfl, rfl⟩)
  rw [Glob.accepts_iff ofString_defaultPattern (hnames _ hchild), htail, hskip,
    Glob.cuts_chars_iff, Glob.forall₂_sameChar_iff]
  rfl

end CompressorBench.FileTree
