import Mathlib.Data.List.Sort
import Mathlib.Data.String.Basic
import CompressorBench.Discovery
import CompressorBench.Proofs.Text.Utf8

/-!
# What a listing holds

The names of a directory are all different, because the directory is part of a proper tree. So the
listed names, which are sorted, are strictly ascending, and as UTF-8 keeps the order of characters
they are so byte by byte. In which order the directory enumerates its entries does not matter.

* `pairwise_sortNames`: different names in order ascend strictly, by their bytes.
* `exists_of_listMatching`: what a listing holds, entry by entry.
* `exists_of_cases`, `exists_cases`: what the test cases of a directory are, and that there are some
  if there is anything to list, whatever the files hold.
-/

namespace CompressorBench

/-! ## Names in a directory -/

theorem Node.Proper.of_find? {names : List String} {node child : Node} (h : node.Proper)
    (hc : find? names node = some child) : child.Proper := by
  induction names generalizing node with
  | nil =>
    cases hc
    exact h
  | cons name rest ih =>
    rw [find?] at hc
    split at hc
    · next next hnext =>
      cases node with
      | directory children => exact ih (h.of_lookup hnext) hc
      | file => cases hnext
      | link => cases hnext
    · cases hc

namespace FileTree

variable {tree : FileTree} {directory path pattern : String}

theorem nodup_children (tree : FileTree) (location : Location) :
    ((tree.children location).map Prod.fst).Nodup := by
  rw [children]
  split
  · next node hnode =>
    rw [List.map_map]
    cases tree.proper.of_find? hnode with
    | directory nodup _ => exact nodup
    | file => exact List.nodup_nil
    | link => exact List.nodup_nil
  · exact List.nodup_nil

/-- No two entries of a directory share a name. -/
theorem nodup_of_readDirectory {entries : List (String × Entry)}
    (h : tree.readDirectory path = .ok entries) : (entries.map Prod.fst).Nodup := by
  unfold readDirectory enumerate at h
  split at h
  · cases h
  · cases h
  · cases h
    exact nodup_children tree _
  · cases h

theorem readDirectory_of_enumerate {entries : List (String × Entry)}
    (h : tree.enumerate path = .ok entries) : tree.readDirectory path = .ok entries := by
  rw [readDirectory, h]
  rfl

/-! ## Names in order -/

theorem toUTF8_lt_toUTF8 {a b : String} (h : a < b) : a.toUTF8.toList < b.toUTF8.toList := by
  rw [Text.toList_toUTF8, Text.toList_toUTF8]
  exact Text.encode_lt_encode (String.lt_iff.mp h)

theorem sortNames_perm (names : List String) : (sortNames names).Perm names :=
  List.mergeSort_perm _ _

/-- **Different names in order ascend strictly**, by their bytes. -/
theorem pairwise_sortNames {names : List String} (h : names.Nodup) :
    (sortNames names).Pairwise fun a b => a.toUTF8.toList < b.toUTF8.toList := by
  have hle : (sortNames names).Pairwise fun a b => a ≤ b := List.pairwise_mergeSort' _ names
  have hne : (sortNames names).Pairwise fun a b => a ≠ b := (sortNames_perm names).nodup_iff.mpr h
  refine (hle.and hne).imp fun {a b} hab => toUTF8_lt_toUTF8 ?_
  exact lt_of_le_of_ne hab.1 hab.2

/-- Rows that ascend and hold the same texts are equal. -/
theorem eq_of_ascending {texts texts' : List String}
    (h : texts.Pairwise fun a b => a.toUTF8.toList < b.toUTF8.toList)
    (h' : texts'.Pairwise fun a b => a.toUTF8.toList < b.toUTF8.toList)
    (hmem : ∀ text, text ∈ texts ↔ text ∈ texts') : texts = texts' := by
  have hirrefl : Std.Irrefl fun a b : String => a.toUTF8.toList < b.toUTF8.toList :=
    ⟨fun a => List.lt_irrefl _⟩
  have hantisymm : Std.Antisymm fun a b : String => a.toUTF8.toList < b.toUTF8.toList :=
    ⟨fun a b hab hba => absurd hba (List.lt_asymm hab)⟩
  exact h.eq_of_mem_iff h' hmem

/-! ## Listings -/

theorem isListed_iff {glob : Glob} {child : String × Entry} :
    isListed glob child = true ↔ child.2.isDirectory = false ∧ glob.accepts child.1 = true := by
  rw [isListed, Bool.and_eq_true, Bool.not_eq_true']

/-- Names are those of the entries that a pattern lists, each once, and ascending by their bytes. -/
structure Lists (glob : Glob) (entries : List (String × Entry)) (names : List String) : Prop where
  distinct : (entries.map Prod.fst).Nodup
  mem_iff : ∀ name, name ∈ names ↔
    ∃ entry, (name, entry) ∈ entries ∧ entry.isDirectory = false ∧ glob.accepts name = true
  ascending : names.Pairwise fun a b => a.toUTF8.toList < b.toUTF8.toList

theorem lists_sortNames {glob : Glob} {entries : List (String × Entry)}
    (h : (entries.map Prod.fst).Nodup) :
    Lists glob entries (sortNames ((entries.filter (isListed glob)).map Prod.fst)) where
  distinct := h
  mem_iff name := by
    rw [(sortNames_perm _).mem_iff, List.mem_map]
    constructor
    · rintro ⟨child, hchild, rfl⟩
      obtain ⟨hmem, hlisted⟩ := List.mem_filter.mp hchild
      exact ⟨child.2, hmem, isListed_iff.mp hlisted⟩
    · rintro ⟨entry, hmem, hlisted⟩
      exact ⟨(name, entry), List.mem_filter.mpr ⟨hmem, isListed_iff.mpr hlisted⟩, rfl⟩
  ascending := pairwise_sortNames (h.sublist (List.filter_sublist.map Prod.fst))

/-- There is one listing only. -/
theorem Lists.sortNames_eq {glob : Glob} {entries : List (String × Entry)} {names : List String}
    (h : Lists glob entries names) :
    sortNames ((entries.filter (isListed glob)).map Prod.fst) = names := by
  have hsorted : Lists glob entries _ := lists_sortNames h.distinct
  refine eq_of_ascending hsorted.ascending h.ascending fun name => ?_
  rw [hsorted.mem_iff, h.mem_iff]

theorem caseFiles_of_lists {glob : Glob} {entries : List (String × Entry)} {names : List String}
    (hglob : Glob.ofString pattern = .ok glob)
    (hentries : tree.readDirectory directory = .ok entries) (h : Lists glob entries names) :
    Discovery.caseFiles tree directory pattern = .ok (names.map (Pathname.join directory)) := by
  simp only [Discovery.caseFiles, listMatching, hglob, hentries, Except.map, h.sortNames_eq]

/-- **What a listing holds**: the paths of the listed names in their directory. -/
theorem exists_of_listMatching {paths : List String}
    (h : tree.listMatching directory pattern = .ok paths) :
    ∃ glob entries names, Glob.ofString pattern = .ok glob ∧
      tree.readDirectory directory = .ok entries ∧ Lists glob entries names ∧
      paths = names.map (Pathname.join directory) := by
  unfold listMatching at h
  split at h
  · cases h
  · next glob hglob =>
    cases hentries : tree.readDirectory directory with
    | error e => rw [hentries] at h; cases h
    | ok entries =>
      rw [hentries] at h
      cases h
      exact ⟨glob, entries, _, hglob, rfl, lists_sortNames (nodup_of_readDirectory hentries), rfl⟩

/-- **The test cases of a directory** are the files of a listing, each loaded by its path. -/
theorem exists_of_cases {cases : List TestCase}
    (h : Discovery.cases tree directory pattern = .ok cases) :
    ∃ glob entries names, Glob.ofString pattern = .ok glob ∧
      tree.readDirectory directory = .ok entries ∧ Lists glob entries names ∧
      cases = names.map fun name => TestCase.load tree (Pathname.join directory name) := by
  unfold Discovery.cases Discovery.caseFiles at h
  split at h
  · cases h
  · cases h
  · next file files hfiles =>
    split at hfiles
    · split at hfiles <;> cases hfiles
    · next paths hpaths =>
      obtain ⟨glob, entries, names, hglob, hentries, hlists, rfl⟩ := exists_of_listMatching hpaths
      refine ⟨glob, entries, names, hglob, hentries, hlists, ?_⟩
      cases h
      rw [← Except.ok.inj hfiles, List.map_map]
      rfl

/-- The text of a file is read where a path leads to it. -/
theorem readContents_of_resolve {path text : String} {location : Location} {contents : ByteArray}
    {executable : Bool}
    (hresolve : tree.resolve .reach path = .ok (.occupied location (.file contents executable)))
    (htext : String.fromUTF8? contents = some text) : tree.readContents path = .ok text := by
  have hread : tree.readText path = .ok text := by
    simp only [readText, readBytes, hresolve, htext]
  rw [readContents, hread]
  rfl

/-- What a file comes to that a path leads to. -/
theorem load_of_resolve {path text : String} {location : Location} {contents : ByteArray}
    {executable : Bool}
    (hresolve : tree.resolve .reach path = .ok (.occupied location (.file contents executable)))
    (htext : String.fromUTF8? contents = some text) :
    TestCase.load tree path = .ofContents path text := by
  rw [TestCase.load, readContents_of_resolve hresolve htext]

/-- The test cases are the same in two trees if the same files are found and have the same texts. -/
theorem cases_congr {tree' : FileTree} {files : List String}
    (hfiles : Discovery.caseFiles tree directory pattern = .ok files)
    (hfiles' : Discovery.caseFiles tree' directory pattern = .ok files)
    (htexts : ∀ file ∈ files, tree'.readContents file = tree.readContents file) :
    Discovery.cases tree' directory pattern = Discovery.cases tree directory pattern := by
  have hloads : ∀ file ∈ files, TestCase.load tree' file = TestCase.load tree file := by
    intro file hfile
    rw [TestCase.load, htexts file hfile, TestCase.load]
  rw [Discovery.cases, Discovery.cases, hfiles, hfiles']
  cases files with
  | nil => rfl
  | cons file files => exact congrArg Except.ok (List.map_congr_left hloads)

/-- If there is anything to list, then there are test cases, whatever the files hold. -/
theorem exists_cases {glob : Glob} {entries : List (String × Entry)} {child : String × Entry}
    (hglob : Glob.ofString pattern = .ok glob)
    (hentries : tree.readDirectory directory = .ok entries) (hmem : child ∈ entries)
    (hlisted : isListed glob child = true) :
    ∃ cases, Discovery.cases tree directory pattern = .ok cases := by
  let names := sortNames ((entries.filter (isListed glob)).map Prod.fst)
  have hpaths : Discovery.caseFiles tree directory pattern =
      .ok (names.map (Pathname.join directory)) := by
    simp only [Discovery.caseFiles, listMatching, hglob, hentries, Except.map, names]
  have hname : child.1 ∈ names := by
    refine (sortNames_perm _).mem_iff.mpr ?_
    exact List.mem_map_of_mem (List.mem_filter.mpr ⟨hmem, hlisted⟩)
  have hpath : Pathname.join directory child.1 ∈ names.map (Pathname.join directory) :=
    List.mem_map_of_mem hname
  rw [Discovery.cases, hpaths]
  split
  · next he => cases he
  · next hnil =>
    rw [Except.ok.inj hnil] at hpath
    cases hpath
  · exact ⟨_, rfl⟩

end FileTree

/-! ## What a search comes to -/

namespace Discovery

variable {tree : FileTree} {directory pattern : String}

/-- The directory holds an entry that is no directory and whose name matches. -/
def Finds (tree : FileTree) (directory pattern : String) : Prop :=
  ∃ glob entries child, Glob.ofString pattern = .ok glob ∧
    tree.enumerate directory = .ok entries ∧ child ∈ entries ∧
    child.2.isDirectory = false ∧ glob.accepts child.1 = true

/-- The pattern is one, but the directory is not there or holds nothing of the kind. -/
def FindsNothing (tree : FileTree) (directory pattern : String) : Prop :=
  ∃ glob, Glob.ofString pattern = .ok glob ∧
    (tree.enumerate directory = .error .notFound ∨
      ∃ entries, tree.enumerate directory = .ok entries ∧
        ∀ child ∈ entries, child.2.isDirectory = false → glob.accepts child.1 = false)

/-- The pattern is none, whatever the directory is, or the directory cannot be read for another
reason than that it is not there. -/
def IsRefused (tree : FileTree) (directory pattern : String) : Prop :=
  (∃ error, Glob.ofString pattern = .error error) ∨
    ∃ glob error, Glob.ofString pattern = .ok glob ∧
      tree.enumerate directory = .error error ∧ error ≠ .notFound

theorem finds_or_findsNothing_or_isRefused (tree : FileTree) (directory pattern : String) :
    Finds tree directory pattern ∨ FindsNothing tree directory pattern ∨
      IsRefused tree directory pattern := by
  cases hglob : Glob.ofString pattern with
  | error error => exact .inr (.inr (.inl ⟨error, hglob⟩))
  | ok glob =>
    cases hentries : tree.enumerate directory with
    | error error =>
      by_cases hmissing : error = .notFound
      · exact .inr (.inl ⟨glob, hglob, .inl (hmissing ▸ hentries)⟩)
      · exact .inr (.inr (.inr ⟨glob, error, hglob, hentries, hmissing⟩))
    | ok entries =>
      by_cases hlisted : ∃ child ∈ entries, child.2.isDirectory = false ∧
          glob.accepts child.1 = true
      · obtain ⟨child, hmem, hchild⟩ := hlisted
        exact .inl ⟨glob, entries, child, hglob, hentries, hmem, hchild⟩
      · refine .inr (.inl ⟨glob, hglob, .inr ⟨entries, hentries, fun child hmem hfile => ?_⟩⟩)
        rw [← Bool.not_eq_true]
        exact fun haccepts => hlisted ⟨child, hmem, hfile, haccepts⟩

theorem cases_of_finds (h : Finds tree directory pattern) :
    ∃ cases, Discovery.cases tree directory pattern = .ok cases := by
  obtain ⟨glob, entries, child, hglob, hentries, hmem, hchild⟩ := h
  exact FileTree.exists_cases hglob (FileTree.readDirectory_of_enumerate hentries) hmem
    (FileTree.isListed_iff.mpr hchild)

theorem cases_of_findsNothing (h : FindsNothing tree directory pattern) :
    Discovery.cases tree directory pattern = .error (.noTestcase directory pattern) := by
  obtain ⟨glob, hglob, hmissing | ⟨entries, hentries, hnone⟩⟩ := h
  · simp [Discovery.cases, caseFiles, FileTree.listMatching, hglob, FileTree.readDirectory,
      hmissing, Except.mapError, Except.map, isMissing]
  · have hfilter : entries.filter (FileTree.isListed glob) = [] := by
      refine List.filter_eq_nil_iff.mpr fun child hmem hlisted => ?_
      obtain ⟨hfile, haccepts⟩ := FileTree.isListed_iff.mp hlisted
      rw [hnone child hmem hfile] at haccepts
      cases haccepts
    simp [Discovery.cases, caseFiles, FileTree.listMatching, hglob, FileTree.readDirectory,
      hentries, Except.mapError, Except.map, hfilter, FileTree.sortNames]

/-- The pattern is looked at first, so an invalid one is an error also if there is no directory. -/
theorem cases_of_isRefused (h : IsRefused tree directory pattern) :
    ∃ error, Discovery.cases tree directory pattern = .error (.file error) := by
  obtain ⟨error, hglob⟩ | ⟨glob, error, hglob, hentries, hne⟩ := h
  · exact ⟨.badPattern pattern error, by
      simp [Discovery.cases, caseFiles, FileTree.listMatching, hglob, isMissing]⟩
  · refine ⟨.refused .readDirectory directory error, ?_⟩
    have hmissing : isMissing (.refused .readDirectory directory error) = false := by
      unfold isMissing
      split
      · next heq => cases heq; exact absurd rfl hne
      · rfl
    simp [Discovery.cases, caseFiles, FileTree.listMatching, hglob, FileTree.readDirectory,
      hentries, Except.mapError, Except.map, hmissing]

/-- A search that finds no case is an error. -/
theorem exists_cause (h : ¬ Finds tree directory pattern) :
    ∃ cause, Discovery.cases tree directory pattern = .error cause := by
  rcases finds_or_findsNothing_or_isRefused tree directory pattern with
    hfinds | hnothing | hrefused
  · exact absurd hfinds h
  · exact ⟨_, cases_of_findsNothing hnothing⟩
  · obtain ⟨error, herror⟩ := cases_of_isRefused hrefused
    exact ⟨_, herror⟩

end Discovery

end CompressorBench
