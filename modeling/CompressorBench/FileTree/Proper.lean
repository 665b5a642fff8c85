import CompressorBench.FileTree.Node

/-!
# Names of their own

A directory has at most one child of each name. Main statement: putting a node somewhere keeps this
(`Proper.put`).
-/

namespace CompressorBench.Node

/-- Whether no directory has two children of one name. -/
inductive Proper : Node → Prop where
  | file (contents : ByteArray) (executable : Bool) : Proper (.file contents executable)
  | directory {children : List (String × Node)} (nodup : (children.map Prod.fst).Nodup)
      (proper : ∀ child ∈ children, Proper child.2) : Proper (.directory children)
  | link (target : String) : Proper (.link target)

theorem proper_ofEntry (entry : Entry) : (ofEntry entry).Proper := by
  cases entry with
  | file contents executable => exact .file contents executable
  | directory => exact .directory List.nodup_nil (by simp)
  | link target => exact .link target

theorem mem_names_putChild {name other : String} {node : Node} {children : List (String × Node)} :
    other ∈ (putChild name node children).map Prod.fst ↔
      other = name ∨ other ∈ children.map Prod.fst := by
  induction children with
  | nil => simp [putChild]
  | cons head rest ih =>
    rw [putChild]
    split
    · next h => simp only [List.map_cons, List.mem_cons, h]; grind
    · simp only [List.map_cons, List.mem_cons, ih]; grind

theorem nodup_putChild {name : String} {node : Node} {children : List (String × Node)}
    (h : (children.map Prod.fst).Nodup) :
    ((putChild name node children).map Prod.fst).Nodup := by
  induction children with
  | nil => simp [putChild]
  | cons head rest ih =>
    rw [List.map_cons, List.nodup_cons] at h
    rw [putChild]
    split
    · next heq => simpa [heq] using ⟨by simpa [heq] using h.1, h.2⟩
    · next hne =>
      rw [List.map_cons, List.nodup_cons, mem_names_putChild]
      exact ⟨not_or.mpr ⟨hne, h.1⟩, ih h.2⟩

theorem eq_or_mem_of_mem_putChild {name : String} {node : Node}
    {children : List (String × Node)} {child : String × Node}
    (h : child ∈ putChild name node children) : child = (name, node) ∨ child ∈ children := by
  induction children with
  | nil => exact .inl (List.mem_singleton.mp h)
  | cons head rest ih =>
    rw [putChild] at h
    split at h
    · exact (List.mem_cons.mp h).imp_right (List.mem_cons_of_mem head)
    · rcases List.mem_cons.mp h with rfl | h
      · exact .inr List.mem_cons_self
      · exact (ih h).imp_right (List.mem_cons_of_mem head)

theorem Proper.putChild {name : String} {node : Node} {children : List (String × Node)}
    (h : (Node.directory children).Proper) (hnode : node.Proper) :
    (Node.directory (putChild name node children)).Proper := by
  cases h with
  | directory nodup proper =>
    refine .directory (nodup_putChild nodup) fun child hc => ?_
    rcases eq_or_mem_of_mem_putChild hc with rfl | hc
    · exact hnode
    · exact proper child hc

theorem Proper.of_lookup {name : String} {children : List (String × Node)} {child : Node}
    (h : (Node.directory children).Proper) (hc : children.lookup name = some child) :
    child.Proper := by
  cases h with
  | directory nodup proper =>
    obtain ⟨before, after, rfl, -⟩ := List.lookup_eq_some_iff.mp hc
    exact proper _ (List.mem_append_right before List.mem_cons_self)

/-- Names stay of their own. -/
theorem Proper.put {new node : Node} {names : List String} (hnew : new.Proper)
    (h : node.Proper) : (put new names node).Proper := by
  fun_induction Node.put new names node with
  | case1 => exact h.putChild hnew
  | case2 name next rest children child hc ih => exact h.putChild (ih (h.of_lookup hc))
  | case3 => exact h
  | case4 => exact h

end CompressorBench.Node
