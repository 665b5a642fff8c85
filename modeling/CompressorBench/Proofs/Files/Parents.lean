import CompressorBench.FileTree.Pathname
import Mathlib.Data.List.Chain

/-!
# The way to a path goes through its parents

The parents of a path are a matter of its text, while a lookup goes through its steps. The two fit
together: a parent starts where the path starts, and its steps are the first steps of the path.

* `steps_ofReversed`: the steps of pieces that are put together.
* `isChain_parents`: every parent leads to the one before it, and the nearest to the path.
-/

namespace CompressorBench.Pathname

variable {absolute : Bool} {reversed nearer : List String} {piece path : String}

/-! ## Pieces that are put together -/

/-- The pieces of a path, last one first, without the empty one before the slash of the root. None
holds a slash, and a path that does not start at the root does not start with an empty piece. -/
structure ArePieces (absolute : Bool) (reversed : List String) : Prop where
  slash : ∀ piece ∈ reversed, '/' ∉ piece.toList
  first : absolute = false → reversed.getLast? ≠ some ""

theorem ArePieces.of_suffix (h : ArePieces absolute reversed) (hsuffix : nearer <:+ reversed) :
    ArePieces absolute nearer where
  slash piece hpiece := h.slash piece (hsuffix.subset hpiece)
  first habsolute hempty := by
    obtain ⟨further, rfl⟩ := hsuffix
    refine h.first habsolute ?_
    rw [List.getLast?_append, hempty, Option.some_or]

theorem toList_intercalate_slash (pieces : List String) :
    (String.intercalate "/" pieces).toList = Text.join '/' (pieces.map String.toList) := by
  rw [String.toList_intercalate]
  generalize pieces.map String.toList = pieces
  fun_induction Text.join '/' pieces with
  | case1 => rfl
  | case2 piece => exact List.intercalate_singleton
  | case3 piece next rest ih =>
    rw [List.intercalate_cons_cons, ih, List.append_assoc]
    rfl

/-- Pieces that are joined are cut again; if there are none, there is no step either. -/
theorem steps_join_pieces {pieces : List String} (h : ∀ piece ∈ pieces, '/' ∉ piece.toList) :
    ((Text.split '/' (Text.join '/' (pieces.map String.toList))).map String.ofList).filter
      (· != "") = pieces.filter (· != "") := by
  cases pieces with
  | nil => decide
  | cons piece rest =>
    have hslash : ∀ chars ∈ (piece :: rest).map String.toList, '/' ∉ chars := by
      rwa [List.forall_mem_map]
    have hne : (piece :: rest).map String.toList ≠ [] := List.cons_ne_nil _ _
    rw [Text.split_join hne hslash, List.map_map]
    congr 1
    exact List.map_id'' (fun piece => String.ofList_toList) _

/-- **The steps of pieces that are put together** are those that are not empty. -/
theorem steps_ofReversed (h : ArePieces absolute reversed) :
    steps (ofReversed absolute reversed) = reversed.reverse.filter (· != "") := by
  have hslash : ∀ piece ∈ reversed.reverse, '/' ∉ piece.toList :=
    fun piece hpiece => h.slash piece (List.mem_reverse.mp hpiece)
  rw [steps, pieces, ofReversed, String.toList_append, toList_intercalate_slash,
    ← steps_join_pieces hslash]
  cases absolute with
  | false => rfl
  | true =>
    show ((Text.split '/' ([] ++ '/' :: Text.join '/' _)).map String.ofList).filter _ = _
    rw [Text.split_append, List.map_append, List.filter_append]
    rfl

theorem isAbsolute_ofReversed (h : ArePieces absolute reversed) :
    isAbsolute (ofReversed absolute reversed) = absolute := by
  rw [isAbsolute, ofReversed, String.toList_append, toList_intercalate_slash]
  cases absolute with
  | true => rfl
  | false =>
    rcases List.eq_nil_or_concat' reversed with rfl | ⟨later, first, rfl⟩
    · rfl
    -- the path starts with its first piece, which has a first character that is no slash
    have hfirst : first ≠ "" := by
      intro hempty
      exact h.first rfl (by rw [List.getLast?_concat, hempty])
    obtain ⟨c, cs, hcs⟩ := List.exists_cons_of_ne_nil (mt String.toList_eq_nil_iff.mp hfirst)
    have hc : c ≠ '/' := by
      rintro rfl
      exact h.slash first (List.mem_append_right _ List.mem_cons_self) (by simp [hcs])
    rw [List.reverse_append, List.reverse_singleton, List.singleton_append, List.map_cons, hcs]
    cases later.reverse.map String.toList <;> simp [Text.join, hc]

/-! ## The pieces of a path -/

theorem slash_not_mem_of_mem_pieces (h : piece ∈ pieces path) : '/' ∉ piece.toList := by
  obtain ⟨chars, hchars, rfl⟩ := List.mem_map.mp h
  rw [String.toList_ofList]
  exact Text.not_mem_of_mem_splitFrom List.not_mem_nil hchars

theorem head?_splitFrom (separator : Char) (piece cs : List Char) :
    (Text.splitFrom separator piece cs).head? =
      some (piece.reverse ++ cs.takeWhile (· != separator)) := by
  induction cs generalizing piece with
  | nil => simp [Text.splitFrom]
  | cons c rest ih =>
    rw [Text.splitFrom]
    split
    · next h => simp [h]
    · next h => simp [ih, h]

/-- A path that starts with an empty piece is empty or starts at the root. -/
theorem head?_pieces_eq_iff :
    (pieces path).head? = some "" ↔ path = "" ∨ isAbsolute path = true := by
  rw [pieces, List.head?_map, Text.split, head?_splitFrom, ← String.toList_eq_nil_iff, isAbsolute,
    beq_iff_eq]
  cases path.toList with
  | nil => simp
  | cons c rest => by_cases hc : c = '/' <;> simp [hc, ← String.toList_eq_nil_iff]

/-- The pieces of a path, last one first. -/
def reversedPieces (path : String) : List String :=
  if isAbsolute path then (pieces path).reverse.dropLast else (pieces path).reverse

theorem parentPieces_eq (path : String) :
    parentPieces path =
      parentsFrom (isAbsolute path) (trim (isAbsolute path) (reversedPieces path)) := rfl

theorem arePieces_reversedPieces (h : path ≠ "") :
    ArePieces (isAbsolute path) (reversedPieces path) where
  slash piece hpiece := by
    have hmem : piece ∈ pieces path := by
      unfold reversedPieces at hpiece
      split at hpiece
      · exact List.mem_reverse.mp ((List.dropLast_sublist _).subset hpiece)
      · exact List.mem_reverse.mp hpiece
    exact slash_not_mem_of_mem_pieces hmem
  first habsolute := by
    rw [reversedPieces, habsolute, if_neg Bool.false_ne_true, List.getLast?_reverse, Ne,
      head?_pieces_eq_iff, habsolute]
    simpa using h

theorem steps_eq_reversedPieces (path : String) :
    steps path = (reversedPieces path).reverse.filter (· != "") := by
  rw [steps, reversedPieces]
  split
  · next habsolute =>
    obtain ⟨rest, hrest⟩ := List.head?_eq_some_iff.mp (head?_pieces_eq_iff.mpr (.inr habsolute))
    rw [hrest]
    simp
  · rw [List.reverse_reverse]

/-! ## Parents -/

/-- A path goes through another one: it starts where the other one starts, and its first steps are
those of the other one. -/
structure GoesThrough (path other : String) : Prop where
  start : isAbsolute path = isAbsolute other
  steps : Pathname.steps other <+: Pathname.steps path

theorem GoesThrough.refl (path : String) : GoesThrough path path := ⟨rfl, List.prefix_rfl⟩

theorem trim_suffix (absolute : Bool) (reversed : List String) :
    trim absolute reversed <:+ reversed := by
  fun_induction trim absolute reversed with
  | case1 => exact List.suffix_rfl
  | case2 piece before _ ih => exact ih.trans (List.suffix_cons piece before)
  | case3 => exact List.suffix_rfl

theorem goesThrough_ofReversed (h : ArePieces absolute reversed)
    (hstart : isAbsolute path = absolute)
    (hsteps : reversed.reverse.filter (· != "") <+: steps path) :
    GoesThrough path (ofReversed absolute reversed) where
  start := hstart.trans (isAbsolute_ofReversed h).symm
  steps := by rwa [steps_ofReversed h]

theorem isChain_parentsFrom (h : ArePieces absolute reversed)
    (hstart : isAbsolute path = absolute)
    (hsteps : reversed.reverse.filter (· != "") <+: steps path) :
    List.IsChain GoesThrough
      (path :: (parentsFrom absolute reversed).map (ofReversed absolute)) := by
  fun_induction parentsFrom absolute reversed generalizing path with
  | case1 => exact List.isChain_singleton path
  | case2 piece before ih =>
    have hsuffix : trim absolute before <:+ piece :: before :=
      (trim_suffix absolute before).trans (List.suffix_cons piece before)
    have hnearer := h.of_suffix hsuffix
    have hfewer := (List.reverse_prefix.mpr hsuffix).filter (· != "")
    refine List.isChain_cons_cons.mpr
      ⟨goesThrough_ofReversed hnearer hstart (hfewer.trans hsteps), ih hnearer ?_ ?_⟩
    · exact isAbsolute_ofReversed hnearer
    · exact (steps_ofReversed hnearer).symm ▸ List.prefix_rfl

/-- **A path goes through its parents**, and each of them through the next. -/
theorem isChain_parents (h : path ≠ "") : List.IsChain GoesThrough (path :: parents path) := by
  have htrim := trim_suffix (isAbsolute path) (reversedPieces path)
  rw [parents, parentPieces_eq]
  refine isChain_parentsFrom ((arePieces_reversedPieces h).of_suffix htrim) rfl ?_
  rw [steps_eq_reversedPieces]
  exact (List.reverse_prefix.mpr htrim).filter _

end CompressorBench.Pathname
