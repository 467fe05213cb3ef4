import ImportScan.Path

/-!
What to scan: the roots, the directory names to leave out and the extensions to take. Both lists
of names act as sets; their order is only seen when they are printed.
-/

namespace ImportScan

/-- The roots of a scan, the directory names it leaves out and the extensions it takes, each
extension with its dot. -/
structure Config where
  roots : List String := ["backend", "frontend"]
  excludeDirs : List String := ["node_modules", ".git"]
  extensions : List String := [".js", ".jsx", ".ts", ".tsx", ".mjs"]
  deriving DecidableEq, Repr, Inhabited

/-- The list with one more element at its end, unless it has that element. -/
def addNew (x : String) (xs : List String) : List String := if x ∈ xs then xs else xs ++ [x]

theorem mem_addNew {x y : String} {xs : List String} : y ∈ addNew x xs ↔ y ∈ xs ∨ y = x := by
  rw [addNew]
  split
  · rename_i h
    exact ⟨Or.inl, fun hy => hy.elim id fun heq => heq ▸ h⟩
  · rw [List.mem_append, List.mem_singleton]

namespace Config

/-- The same configuration with other roots. -/
def withRoots (c : Config) (roots : List String) : Config := { c with roots }

/-- Leaves out one more directory name. -/
def addExcludeDir (c : Config) (name : String) : Config :=
  { c with excludeDirs := addNew name c.excludeDirs }

/-- An extension with its leading dot. -/
def dotted (ext : String) : String := if ext.toList.head? == some '.' then ext else "." ++ ext

/-- Takes one more extension, given with or without its dot. -/
def addExtension (c : Config) (ext : String) : Config :=
  { c with extensions := addNew (dotted ext) c.extensions }

/-- The roots seen from `base`, in configured order. -/
def resolvedRoots (c : Config) (base : String) : List String := c.roots.map (Path.join base)

/-- Whether directories of this name are left out. -/
def isExcludedDir (c : Config) (name : String) : Bool := c.excludeDirs.contains name

/-- Whether the extension of the path is one of those taken. -/
def isSupported (c : Config) (path : String) : Bool :=
  (Path.extension? path).any fun ext => c.extensions.contains ("." ++ ext)

/-- Configurations are the same when their roots are the same paths and their names the same
texts, in the same order. -/
def Same (a b : Config) : Prop :=
  a.roots.map Path.components = b.roots.map Path.components ∧
    a.excludeDirs = b.excludeDirs ∧ a.extensions = b.extensions

instance (a b : Config) : Decidable (Same a b) := by unfold Same; infer_instance

end Config

end ImportScan
