/-!
# Entries

What can be under a name: a regular file, a directory or a symbolic link, without what is below it.
-/

namespace CompressorBench

/-- What can be under a name. -/
inductive Entry where
  | file (contents : ByteArray) (executable : Bool)
  | directory
  | link (target : String)

instance : DecidableEq Entry
  | .file a x, .file b y => decidable_of_iff (a.data = b.data ∧ x = y) (by simp [ByteArray.ext_iff])
  | .directory, .directory => isTrue rfl
  | .link a, .link b => decidable_of_iff (a = b) (by simp)
  | .file _ _, .directory => isFalse nofun
  | .file _ _, .link _ => isFalse nofun
  | .directory, .file _ _ => isFalse nofun
  | .directory, .link _ => isFalse nofun
  | .link _, .file _ _ => isFalse nofun
  | .link _, .directory => isFalse nofun

/-- Whether an entry is itself a directory; a link to one is not. -/
def Entry.isDirectory : Entry → Bool
  | .directory => true
  | _ => false

end CompressorBench
