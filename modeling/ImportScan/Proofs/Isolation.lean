import ImportScan.Proofs.ScanReport

/-!
What cannot influence a scan. Two trees without links may differ in any way strictly inside the
directories left out and in the bytes of files whose extension is not taken: as long as neither the
roots nor the place where relative roots start lead into such a directory, walk, report and warnings
are those of either tree.
-/

namespace ImportScan

namespace Config

/-- What a scan has to see of a tree without links: not what lies inside the directories left out,
nor the bytes of files whose extension is not taken. -/
def view (c : Config) : View where
  hidden name := c.isExcludedDir name = true
  blind name := c.isSupported name = false
  links := False
  all_seen h := h.elim

/-- Whether a component of a path is the name of a directory left out. -/
def excludes (c : Config) : Path.Component → Bool
  | .name name => c.isExcludedDir name
  | _ => false

/-- A scan goes the same way in two trees: each root gives the same results in some order, the
report is the same, and so are the warnings in some order. -/
structure SameRun (c : Config) (base : String) (a b : FileSystem) : Prop where
  walk : ∀ root ∈ c.resolvedRoots base, (c.walkRoot a root).Perm (c.walkRoot b root)
  report : c.scan a base = c.scan b base
  warnings : (c.warnings a base).Perm (c.warnings b base)

variable {c : Config} {a b : FileSystem} {root path base : String} {item : WalkItem}

/-- The components of a path lead into no directory left out. -/
theorem clear_of_components
    (h : ∀ part ∈ Path.components path, c.excludes part = false) :
    c.view.Clear (Path.segments path) := by
  intro name hname hempty hhere hup hhidden
  have hseen : c.isExcludedDir name = false :=
    h (.name name) (Path.name_mem_components hname hempty hhere hup)
  exact absurd (hhidden.symm.trans hseen) (by simp)

/-- In a tree that is seen without links no path that keeps out of what is hidden names a link. -/
theorem isLink_of_view (hroot : c.view.Alike a.root b.root) (hwf : a.root.WellFormed)
    (h : c.view.AlikeOutcomes (a.resolve path false) (b.resolve path false)) :
    a.isLink path = false := by
  have hfinds := FileSystem.finds_alike hroot hwf h
  rw [FileSystem.isLink]
  generalize (a.resolve path false).map (Trail.node a.root) = x at *
  generalize (b.resolve path false).map (Trail.node b.root) = y at *
  cases hfinds with
  | error cause => rfl
  | blind content other _ => rfl
  | alike halike =>
    cases halike with
    | file content => rfl
    | link target hlinks => exact hlinks.elim
    | dir _ _ => rfl

/-- A result due in one tree is visited alike in the other: every file that is read has the same
bytes in both. -/
theorem visit_eq_of_yields (hwfa : a.root.WellFormed) (hwfb : b.root.WellFormed)
    {top bottom : List (String × Node)} (ha : a.entries? root = some top)
    (hb : b.entries? root = some bottom) (htop : c.view.Alike (.dir top) (.dir bottom))
    (h : Yields c a root top item) : a.visit item = b.visit item := by
  cases h with
  | unopened _ _ _ _ => rfl
  | @file place name node entries he hmem hfile hext =>
    obtain ⟨others, hothers, halike⟩ := he.alike (fun _ h => h) hwfa hwfb ha hb htop
    obtain ⟨other, hother⟩ := halike.exists_entry hmem
    have hname : Path.IsEntryName name := (he.wellFormed hwfa ha).isEntryName hmem
    rw [Path.below_concat, isSupported_join c hname] at hext
    have hseen : ¬c.view.MayDiffer name node other := by
      rcases node with content | inner | target
      · rcases other with content' | inner | target
        · intro hblind
          exact absurd (hext.symm.trans hblind) (by simp)
        · exact not_false
        · exact not_false
      · exact absurd rfl (hfile inner)
      · simp [View.MayDiffer]
    have hsame : a.node (Path.below root (place ++ [name])) =
        b.node (Path.below root (place ++ [name])) := by
      cases halike.entry hmem hother hseen with
      | file content =>
        rw [he.node_entry hwfa ha hmem (by simp), hothers.node_entry hwfb hb hother (by simp)]
      | link target hlinks => exact hlinks.elim
      | dir _ _ => exact absurd rfl (hfile _)
    rw [FileSystem.visit, FileSystem.visit, FileSystem.readSource, FileSystem.readSource,
      FileSystem.read, FileSystem.read, hsame]

/-- All results for a root are visited alike in both trees. -/
theorem visit_eq_of_mem_walkRoot (hroot : c.view.Alike a.root b.root) (hwfa : a.root.WellFormed)
    (hwfb : b.root.WellFormed)
    (h : ∀ followLast, c.view.AlikeOutcomes (a.resolve root followLast) (b.resolve root followLast))
    (hitem : item ∈ c.walkRoot a root) : a.visit item = b.visit item := by
  rw [walkRoot] at hitem
  rcases FileSystem.entries?_alike hroot hwfa (h true) with ⟨ha, -⟩ | ⟨top, bottom, ha, hb, htop⟩
  · rw [ha] at hitem
    rw [List.mem_singleton.1 hitem]
    rfl
  · rw [ha] at hitem
    dsimp only at hitem
    rw [isLink_of_view hroot hwfa (h false), if_neg (by simp), List.nil_append] at hitem
    exact visit_eq_of_yields hwfa hwfb ha hb htop ((mem_walkEntries_iff hwfa ha).1 hitem)

theorem visits_walkRoot_perm (hroot : c.view.Alike a.root b.root) (hwfa : a.root.WellFormed)
    (hwfb : b.root.WellFormed)
    (h : ∀ followLast,
      c.view.AlikeOutcomes (a.resolve root followLast) (b.resolve root followLast)) :
    ((c.walkRoot a root).map a.visit).Perm ((c.walkRoot b root).map b.visit) := by
  rw [List.map_congr_left fun item hitem => visit_eq_of_mem_walkRoot hroot hwfa hwfb h hitem]
  exact (walkRoot_perm (fun _ h => h) hroot hwfa h).map b.visit

/-- A scan goes the same way in two trees that look alike from its roots. -/
theorem sameRun_of_resolve (hwfa : a.root.WellFormed) (hwfb : b.root.WellFormed)
    (hroot : c.view.Alike a.root b.root)
    (hresolve : ∀ root ∈ c.resolvedRoots base, ∀ followLast,
      c.view.AlikeOutcomes (a.resolve root followLast) (b.resolve root followLast)) :
    c.SameRun base a b := by
  have hvisits : ∀ root ∈ c.resolvedRoots base,
      ((c.walkRoot a root).map a.visit).Perm ((c.walkRoot b root).map b.visit) :=
    fun root hmem => visits_walkRoot_perm hroot hwfa hwfb (hresolve root hmem)
  refine ⟨?_, scan_eq_of_perm hvisits ?_, ?_⟩
  · intro root hmem
    exact walkRoot_perm (fun _ h => h) hroot hwfa (hresolve root hmem)
  · intro root hmem
    exact FileSystem.isDirectory_alike hroot hwfa (hresolve root hmem true)
  · rw [warnings, warnings, visits_eq_flatMap, visits_eq_flatMap]
    exact (List.Perm.flatMap_left _ hvisits).filterMap Visit.warning?

/-- Nothing strictly inside the directories left out, and no bytes of files whose extension is not
taken, can influence a scan of trees without links: neither roots nor, where one of them is
relative, the way to the working directory may lead through what is hidden. -/
theorem sameRun_of_alike (c : Config) (base : String) (a b : FileSystem)
    (hwfa : a.root.WellFormed) (hwfb : b.root.WellFormed) (hroot : c.view.Alike a.root b.root)
    (hcomponents : ∀ root ∈ c.resolvedRoots base, ∀ part ∈ Path.components root,
      c.excludes part = false)
    (hcwd : (∃ root ∈ c.resolvedRoots base, Path.isAbsolute root = false) →
      c.view.AlikeOutcomes a.cwdTrail b.cwdTrail) :
    c.SameRun base a b := by
  refine sameRun_of_resolve hwfa hwfb hroot fun root hmem followLast => ?_
  exact FileSystem.resolve_alike hroot hwfa (fun hrelative => hcwd ⟨root, hmem, hrelative⟩)
    (clear_of_components (hcomponents root hmem)) followLast

/-- Two trees of a project that differ in what lies inside a directory left out, in the bytes of a
file whose extension is not taken, and in the order of entries. -/
theorem sameRun_of_alike_sample :
    ({ roots := ["p"] } : Config).SameRun "."
      (treeOf [("a.js", .file "import 'x'".toUTF8), ("node_modules", .dir []),
        ("notes.txt", .file .empty)])
      (treeOf [("notes.txt", .file "from 'z'".toUTF8), ("a.js", .file "import 'x'".toUTF8),
        ("node_modules", .dir [("c.js", .file "import 'y'".toUTF8)])]) := by
  have hhidden : ({ roots := ["p"] } : Config).isExcludedDir "node_modules" = true := by decide
  have hblind : ({ roots := ["p"] } : Config).isSupported "notes.txt" = false := by decide
  refine sameRun_of_alike _ _ _ _ (by decide) (by decide) ?_ (by decide) fun _ => .ok .nil
  refine View.alike_treeOf (.dir (by decide) ?_)
  intro name m n hm hn hdiffer
  simp only [List.mem_cons, List.not_mem_nil, or_false] at hm
  rcases hm with hm | hm | hm
  · obtain ⟨rfl, rfl⟩ := Prod.mk.inj hm
    rw [Listing.node_unique (by decide) hn (List.mem_cons_of_mem _ List.mem_cons_self)]
    exact .file _
  · obtain ⟨rfl, rfl⟩ := Prod.mk.inj hm
    rw [Listing.node_unique (by decide) hn
      (List.mem_cons_of_mem _ (List.mem_cons_of_mem _ List.mem_cons_self))] at hdiffer
    exact absurd hhidden hdiffer
  · obtain ⟨rfl, rfl⟩ := Prod.mk.inj hm
    rw [Listing.node_unique (by decide) hn List.mem_cons_self] at hdiffer
    exact absurd hblind hdiffer

/-- In particular nothing of this shows in two runs from one working directory, as long as that lies
in no directory left out either. -/
theorem sameRun_of_cwd_eq (c : Config) (base : String) (a b : FileSystem)
    (hwfa : a.root.WellFormed) (hwfb : b.root.WellFormed) (hroot : c.view.Alike a.root b.root)
    (hcomponents : ∀ root ∈ c.resolvedRoots base, ∀ part ∈ Path.components root,
      c.excludes part = false)
    (hcwd : a.cwd = b.cwd) (hclear : ∀ name ∈ a.cwd, c.isExcludedDir name = false) :
    c.SameRun base a b := by
  have hseen : c.view.Clear a.cwd := fun name hname _ _ _ hhidden =>
    absurd (hhidden.symm.trans (hclear name hname)) (by simp)
  have hstart : c.view.AlikeOutcomes a.cwdTrail b.cwdTrail :=
    FileSystem.cwdTrail_alike hroot hwfa hcwd hseen
  refine sameRun_of_resolve hwfa hwfb hroot fun root hmem followLast => ?_
  exact FileSystem.resolve_alike hroot hwfa (fun _ => hstart)
    (clear_of_components (hcomponents root hmem)) followLast

/-- A tree whose only directory has a name that is usually left out and is the working directory. -/
def vendored (inside : List (String × Node)) : FileSystem where
  root := .dir [("node_modules", .dir inside)]
  cwd := ["node_modules"]

/-- Relative roots start at the working directory: when that lies inside a directory left out, what
is there does show. -/
theorem not_sameRun_in_excluded : ¬∀ (c : Config) (base : String) (a b : FileSystem),
    a.root.WellFormed → b.root.WellFormed → a.cwd = b.cwd → c.view.Alike a.root b.root →
    (∀ root ∈ c.resolvedRoots base, ∀ part ∈ Path.components root, c.excludes part = false) →
    c.SameRun base a b := by
  intro h
  have hhidden : ({ roots := ["src"] } : Config).isExcludedDir "node_modules" = true := by decide
  have hrun := h { roots := ["src"] } "."
    (vendored [("src", .dir [("a.js", .file "import 'x'".toUTF8)])]) (vendored [])
    (by decide) (by decide) rfl ?_ (by decide)
  · have hmem := (hrun.walk "./src" (by decide)).mem_iff (a := .ok "./src/a.js")
    exact absurd (hmem.1 (by decide)) (by decide)
  · refine .dir (.refl _) ?_
    intro name m n hm hn hdiffer
    obtain ⟨rfl, rfl⟩ := Prod.mk.inj (List.mem_singleton.1 hm)
    obtain ⟨-, rfl⟩ := Prod.mk.inj (List.mem_singleton.1 hn)
    exact absurd hhidden hdiffer

end Config

end ImportScan
