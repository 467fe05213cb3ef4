import ImportScan.Proofs.Pruning

/-!
Entries of a configuration that match nothing. The walk asks the names to leave out only about
entries of directories, and the extensions only about what `Path.extension?` gives. So a name that
no entry can have, and an extension that does not come out of a path, may be there or not
(`dropInert`); and since both lists are only asked for their members, nothing else about them shows
either.
-/

namespace ImportScan

namespace Config

/-- Whether a name to leave out can be met on a walk: no entry has an empty name, `.` or `..` for a
name, or a slash in it. -/
def canName (name : String) : Bool :=
  name ≠ "" && name ≠ "." && name ≠ ".." && !name.toList.contains '/'

/-- Whether an extension to take can be that of a path: a dot, and behind it neither a dot nor a
slash. There may be nothing behind it. -/
def canExtend (ext : String) : Bool :=
  match ext.toList with
  | '.' :: rest => !rest.contains '.' && !rest.contains '/'
  | _ => false

/-- The configuration without the entries that match nothing. -/
def dropInert (c : Config) : Config :=
  { c with
    excludeDirs := c.excludeDirs.filter canName
    extensions := c.extensions.filter canExtend }

/-- Whether two lists have the same elements among those that pass, in whatever order and however
often. -/
def SameAmong (pass : String → Bool) (xs ys : List String) : Prop :=
  ∀ x, pass x = true → (x ∈ xs ↔ x ∈ ys)

instance (pass : String → Bool) (xs ys : List String) : Decidable (SameAmong pass xs ys) :=
  decidable_of_iff (∀ x ∈ xs ++ ys, pass x = true → (x ∈ xs ↔ x ∈ ys)) <| by
    refine ⟨fun h x hx => ?_, fun h x _ => h x⟩
    by_cases hmem : x ∈ xs ++ ys
    · exact h x hmem hx
    · obtain ⟨hxs, hys⟩ := not_or.1 (mt List.mem_append.2 hmem)
      exact iff_of_false hxs hys

/-- Configurations of the same roots that list the same names that entries can have and the same
extensions that paths can have. -/
structure AgreesWith (c d : Config) : Prop where
  roots : d.roots = c.roots
  names : SameAmong canName d.excludeDirs c.excludeDirs
  extensions : SameAmong canExtend d.extensions c.extensions

variable {c d : Config} {fs : FileSystem} {base name path ext : String}

/-! ### What a walk can ask -/

theorem canName_of_isEntryName (h : Path.IsEntryName name) : canName name = true := by
  simp [canName, h.nonempty, h.not_here, h.not_up, h.no_slash]

theorem canExtend_of_extension? (h : Path.extension? path = some ext) :
    canExtend ("." ++ ext) = true := by
  obtain ⟨hdot, hslash⟩ := Path.of_extension?_eq_some h
  have hchars : ("." ++ ext).toList = '.' :: ext.toList := String.toList_append
  rw [canExtend, hchars]
  simp [hdot, hslash]

theorem AgreesWith.isExcludedDir (h : AgreesWith c d) (hname : Path.IsEntryName name) :
    d.isExcludedDir name = c.isExcludedDir name := by
  rw [Bool.eq_iff_iff]
  simp only [Config.isExcludedDir, List.contains_iff_mem]
  exact h.names name (canName_of_isEntryName hname)

theorem AgreesWith.isSupported (h : AgreesWith c d) (path : String) :
    d.isSupported path = c.isSupported path := by
  rw [Config.isSupported, Config.isSupported]
  cases hext : Path.extension? path with
  | none => rfl
  | some ext =>
    rw [Option.any_some, Option.any_some, Bool.eq_iff_iff]
    simp only [List.contains_iff_mem]
    exact h.extensions _ (canExtend_of_extension? hext)

theorem agreesWith_dropInert (c : Config) : AgreesWith c c.dropInert where
  roots := rfl
  names name h := by rw [dropInert, List.mem_filter, and_iff_left h]
  extensions ext h := by rw [dropInert, List.mem_filter, and_iff_left h]

/-! ### Walks that agree -/

theorem AgreesWith.walkRoot (h : AgreesWith c d) (hwf : fs.root.WellFormed) (root : String) :
    d.walkRoot fs root = c.walkRoot fs root := by
  -- below a root that can be listed, all names on the way are names of entries
  refine walkRoot_congr_of (P := Path.IsEntryName) (Q := Node.WellFormed) ?_
    (fun name hname => h.isExcludedDir hname) h.isSupported ?_
  · exact fun inner hinner entry hentry => ⟨hinner.isEntryName hentry, hinner.entry hentry⟩
  · exact fun top htop => Entered.wellFormed (c := c) hwf htop .top

/-- Entries that match nothing do not show in a scan. Without the names that are empty, `.`, `..` or
hold a slash, and without the extensions that are not a dot with neither dot nor slash behind it,
the walk yields the same and the report is the same. So it is for every configuration of the same
roots that agrees on the other entries, whatever the order of its lists, and whatever is repeated in
them or is there that matches nothing. -/
theorem inert_entries (c : Config) (fs : FileSystem) (base : String) (hwf : fs.root.WellFormed) :
    (c.dropInert.walk fs base = c.walk fs base ∧ c.dropInert.scan fs base = c.scan fs base) ∧
      ∀ d : Config, AgreesWith c d →
        d.walk fs base = c.walk fs base ∧ d.scan fs base = c.scan fs base := by
  have hsame (d : Config) (h : AgreesWith c d) :
      d.walk fs base = c.walk fs base ∧ d.scan fs base = c.scan fs base := by
    have hwalk : d.walk fs base = c.walk fs base := walk_congr_of h.roots (h.walkRoot hwf) base
    exact ⟨hwalk, scan_congr hwalk⟩
  exact ⟨hsame _ (agreesWith_dropInert c), hsame⟩

/-- An extension without its dot and one with two are dropped, a dot alone is kept. -/
theorem inert_entries_sample :
    let c : Config :=
      { roots := ["p"], excludeDirs := ["p/..", "lib", "", "node_modules", "lib", ".."]
        extensions := ["js", ".ts", "..js", ".", ".d.ts", ".js"] }
    let d : Config :=
      { roots := ["p"], excludeDirs := ["node_modules", "lib"], extensions := [".js", ".", ".ts"] }
    (treeOf sampleProject).root.WellFormed ∧
      c.dropInert.excludeDirs = ["lib", "node_modules", "lib"] ∧
      c.dropInert.extensions = [".ts", ".", ".js"] ∧
      c.dropInert.walk (treeOf sampleProject) "/" = [.ok "/p/a.js", .ok "/p/b.js"] ∧
      c.dropInert.scan (treeOf sampleProject) "/" = c.scan (treeOf sampleProject) "/" ∧
      d.scan (treeOf sampleProject) "/" = c.scan (treeOf sampleProject) "/" := by
  intro c d
  obtain ⟨⟨-, hdropped⟩, hsame⟩ := inert_entries c (treeOf sampleProject) "/" wellFormed_sample
  have hagree : AgreesWith c d := ⟨rfl, by decide, by decide⟩
  exact ⟨wellFormed_sample, by decide, by decide, by decide, hdropped, (hsame d hagree).2⟩

end Config

end ImportScan
