import CompressorBench.FileTree.Entry

/-!
# Nodes of a file tree

A node is a regular file, a directory with all that is below it, or a symbolic link. The names of a
directory's children are in the order in which the directory enumerates them; nothing else depends
on that order.

A row of names leads from a node to one below it, and a new node can be put where such a row leads.
Main statements: what was put is there (`find?_put_self`), and every other row of names leads to the
same kind of entry as before (`entry_find?_put_of_ne`), as long as no directory is replaced.
-/

namespace CompressorBench

/-! ## Nodes -/

/-- An entry with all that is below it. -/
inductive Node where
  | file (contents : ByteArray) (executable : Bool)
  | directory (children : List (String × Node))
  | link (target : String)

namespace Node

/-- What a node is. -/
def entry : Node → Entry
  | .file contents executable => .file contents executable
  | .directory _ => .directory
  | .link target => .link target

/-- An entry with nothing below it. -/
def ofEntry : Entry → Node
  | .file contents executable => .file contents executable
  | .directory => .directory []
  | .link target => .link target

/-- The children of a directory; no other node has any. -/
def children : Node → List (String × Node)
  | .directory children => children
  | _ => []

theorem entry_ofEntry (entry : Entry) : (ofEntry entry).entry = entry := by cases entry <;> rfl

theorem children_ofEntry (entry : Entry) : (ofEntry entry).children = [] := by
  cases entry <;> rfl

theorem entry_eq_directory_iff {node : Node} :
    node.entry = .directory ↔ node = .directory node.children := by
  cases node <;> simp [entry, children]

theorem children_eq_nil_of_entry {node : Node} (h : node.entry ≠ .directory) :
    node.children = [] := by
  cases node with
  | file => rfl
  | directory => exact absurd rfl h
  | link => rfl

/-! ## Looking up -/

/-- The node that a row of names leads to. -/
def find? : List String → Node → Option Node
  | [], node => some node
  | name :: rest, node =>
    match node.children.lookup name with
    | some child => find? rest child
    | none => none

theorem find?_append (names more : List String) (node : Node) :
    find? (names ++ more) node = (find? names node).bind (find? more) := by
  induction names generalizing node with
  | nil => rfl
  | cons name rest ih =>
    rw [List.cons_append, find?, find?]
    cases node.children.lookup name with
    | none => rfl
    | some child => exact ih child

/-- Nothing is below a node without children. -/
theorem find?_cons_of_children {name : String} {rest : List String} {node : Node}
    (h : node.children = []) : find? (name :: rest) node = none := by
  rw [find?, h, List.lookup_nil]

/-! ## Putting -/

/-- Puts a node under a name: in the place of the old one, or after all others. -/
def putChild (name : String) (node : Node) : List (String × Node) → List (String × Node)
  | [] => [(name, node)]
  | (other, old) :: rest =>
    if other = name then (name, node) :: rest else (other, old) :: putChild name node rest

theorem lookup_putChild (name other : String) (node : Node) (children : List (String × Node)) :
    (putChild name node children).lookup other =
      if other = name then some node else children.lookup other := by
  induction children with
  | nil =>
    rw [putChild, List.lookup_cons]
    by_cases h : other = name
    · simp [h]
    · simp [h, beq_eq_false_iff_ne.mpr h]
  | cons head rest ih =>
    obtain ⟨n, old⟩ := head
    rw [putChild]
    split
    · next h =>
      have hn : n = name := h
      subst hn
      rw [List.lookup_cons, List.lookup_cons]
      by_cases h' : other = n
      · simp [h']
      · simp [h', beq_eq_false_iff_ne.mpr h']
    · next h =>
      have hn : n ≠ name := h
      rw [List.lookup_cons, List.lookup_cons, ih]
      by_cases h' : other = n
      · subst h'; simp [hn]
      · simp [beq_eq_false_iff_ne.mpr h']

/-- Puts a new node where a row of names leads. It has to lead into a directory; else nothing
changes. -/
def put (new : Node) : List String → Node → Node
  | [name], .directory children => .directory (putChild name new children)
  | name :: next :: rest, .directory children =>
    match children.lookup name with
    | some child => .directory (putChild name (put new (next :: rest) child) children)
    | none => .directory children
  | _, node => node

theorem entry_put (new : Node) (names : List String) (node : Node) :
    (put new names node).entry = node.entry := by
  fun_cases put new names node <;> simp_all [entry]

/-- **What was put is there.** -/
theorem find?_put_self {new node : Node} {names : List String} {name : String}
    {children : List (String × Node)} (h : find? names node = some (.directory children)) :
    find? (names ++ [name]) (put new (names ++ [name]) node) = some new := by
  induction names generalizing node with
  | nil =>
    cases h
    simp [put, find?, Node.children, lookup_putChild]
  | cons first rest ih =>
    rw [find?] at h
    cases hc : node.children.lookup first with
    | none => rw [hc] at h; cases h
    | some child =>
      rw [hc] at h
      cases node with
      | file => simp [Node.children] at hc
      | link => simp [Node.children] at hc
      | directory siblings =>
        have hc' : siblings.lookup first = some child := hc
        have ih' := ih h
        cases rest with
        | nil => simpa [put, hc', find?, Node.children, lookup_putChild] using ih'
        | cons second rest => simpa [put, hc', find?, Node.children, lookup_putChild] using ih'

/-- **Every other row of names leads to the same kind of entry as before**, as long as nothing is
below what was there and what was put there. -/
theorem entry_find?_put_of_ne {new node : Node} {names other : List String}
    (hnew : new.children = []) (hold : ∀ old, find? names node = some old → old.children = [])
    (hne : other ≠ names) :
    (find? other (put new names node)).map entry = (find? other node).map entry := by
  fun_induction put new names node generalizing other with
  | case1 name children =>
    cases other with
    | nil => rfl
    | cons o rest =>
      rw [find?, find?, Node.children, Node.children, lookup_putChild]
      by_cases h : o = name
      · subst h
        cases rest with
        | nil => exact absurd rfl hne
        | cons r rest =>
          simp only [if_pos, find?_cons_of_children hnew]
          cases hc : children.lookup o with
          | none => rfl
          | some old =>
            have := hold old (by simp [find?, Node.children, hc])
            simp only [find?_cons_of_children this]
      · rw [if_neg h]
  | case2 name next rest children child hc ih =>
    cases other with
    | nil => rfl
    | cons o others =>
      rw [find?, find?, Node.children, Node.children, lookup_putChild]
      by_cases h : o = name
      · subst h
        simp only [if_pos, hc]
        refine ih (fun old h => hold old ?_) (fun he => hne (by rw [he]))
        rw [find?, Node.children, hc]
        exact h
      · rw [if_neg h]
  | case3 => rfl
  | case4 => rfl

end Node

end CompressorBench
