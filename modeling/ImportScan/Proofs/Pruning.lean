import ImportScan.Proofs.ScanReport
import Mathlib.Data.List.Flatten

/-!
One more directory name to leave out. The walk turns back where it meets a directory of that name,
and what it then yields is what it would have yielded, with every result taken out that lies in a
directory of that name below its root (`liesIn`). So the order in which names are added does not
matter, adding one again changes nothing, and a report can only lose by it.
-/

namespace ImportScan

/-- The components of a path below a root, as many as the root has being left out. -/
def Path.partsBelow (root path : String) : List Path.Component :=
  (Path.components path).drop (Path.components root).length

/-- A report that has lost nothing but names and files against another of the same roots. -/
structure Report.Within (r s : Report) : Prop where
  names : r.modules ⊆ s.modules
  scanned : r.filesScanned ≤ s.filesScanned
  skipped : r.filesSkipped ≤ s.filesSkipped
  missing : r.rootsMissing = s.rootsMissing

namespace Config

/-- Whether a result for a root lies in a directory of the given name below that root: a file in one
that its path leads through, a directory that could not be opened in itself as well. -/
def liesIn (name root : String) : WalkItem → Bool
  | .ok path => decide (.name name ∈ (Path.partsBelow root path).dropLast)
  | .error (.unopened path _) => decide (.name name ∈ Path.partsBelow root path)
  | .error (.missingRoot _) => false

variable {c d : Config} {fs : FileSystem} {base root dirName name : String} {place : List String}

/-! ### Where a result lies -/

theorem partsBelow_below (h : ∀ n ∈ place, Path.IsEntryName n) :
    Path.partsBelow root (Path.below root place) = place.map .name := by
  rw [Path.partsBelow, Path.components_below h, List.drop_left]

theorem liesIn_file (h : ∀ n ∈ place ++ [name], Path.IsEntryName n) :
    liesIn dirName root (.ok (Path.below root (place ++ [name]))) = decide (dirName ∈ place) := by
  rw [liesIn, partsBelow_below h, List.map_append, List.map_singleton, List.dropLast_concat]
  simp

theorem liesIn_unopened (h : ∀ n ∈ place, Path.IsEntryName n) (cause : OsError) :
    liesIn dirName root (.error (.unopened (Path.below root place) cause)) =
      decide (dirName ∈ place) := by
  rw [liesIn, partsBelow_below h]
  simp

/-- A root itself lies in no directory below it. -/
theorem liesIn_root (dirName root : String) : liesIn dirName root (.ok root) = false := by
  rw [liesIn, Path.partsBelow, List.drop_length]
  rfl

/-! ### Turning back and taking out -/

theorem isExcludedDir_addExcludeDir : (c.addExcludeDir dirName).isExcludedDir name =
    (c.isExcludedDir name || decide (name = dirName)) := by
  rw [Bool.eq_iff_iff]
  simp only [isExcludedDir, addExcludeDir, Bool.or_eq_true, List.contains_iff_mem,
    decide_eq_true_iff, mem_addNew]

theorem isSupported_addExcludeDir (path : String) :
    (c.addExcludeDir dirName).isSupported path = c.isSupported path := rfl

/-- All that the walk yields on a way that leads through a directory of the name lies in it. -/
theorem liesIn_of_mem_walkEntry : ∀ (node : Node) (place : List String) (name : String),
    node.WellFormed → (∀ n ∈ place ++ [name], Path.IsEntryName n) →
    dirName ∈ place ∨ (name = dirName ∧ ∃ inner, node = .dir inner) →
    ∀ item ∈ c.walkEntry name (Path.below root (place ++ [name])) node,
      liesIn dirName root item = true := by
  have hfile {place : List String} {name : String} {item : WalkItem}
      (hnames : ∀ n ∈ place ++ [name], Path.IsEntryName n) (hplace : dirName ∈ place)
      (hitem : item ∈ c.candidate (Path.below root (place ++ [name]))) :
      liesIn dirName root item = true := by
    rw [(mem_candidate.1 hitem).1, liesIn_file hnames, decide_eq_true hplace]
  intro node
  induction node using Node.induction with
  | file content =>
    rintro place name - hnames (hplace | ⟨-, inner, hdir⟩) item hitem
    · exact hfile hnames hplace hitem
    · exact Node.noConfusion hdir
  | link target =>
    rintro place name - hnames (hplace | ⟨-, inner, hdir⟩) item hitem
    · exact hfile hnames hplace hitem
    · exact Node.noConfusion hdir
  | dir inner ih =>
    intro place name hwf hnames hway item hitem
    have hinside : dirName ∈ place ++ [name] := by
      rcases hway with hplace | ⟨rfl, -⟩
      · exact List.mem_append_left _ hplace
      · exact List.mem_append_right _ (List.mem_singleton_self _)
    rw [walkEntry] at hitem
    split_ifs at hitem
    · exact absurd hitem List.not_mem_nil
    · rw [List.mem_singleton.1 hitem, liesIn_unopened hnames, decide_eq_true hinside]
    · obtain ⟨name', node', hmem, hitem'⟩ := mem_walkEntries.1 hitem
      rw [← Path.below_concat] at hitem'
      refine ih _ hmem (place ++ [name]) name' (hwf.entry hmem) ?_ (Or.inl hinside) item hitem'
      exact List.forall_mem_append.2
        ⟨hnames, List.forall_mem_singleton.2 (hwf.isEntryName hmem)⟩

/-- On a way that leads through no directory of the name, the walk that turns back at it yields what
is left of the other. -/
theorem walkEntry_addExcludeDir : ∀ (node : Node) (place : List String) (name : String),
    node.WellFormed → (∀ n ∈ place ++ [name], Path.IsEntryName n) → dirName ∉ place →
    (c.addExcludeDir dirName).walkEntry name (Path.below root (place ++ [name])) node =
      (c.walkEntry name (Path.below root (place ++ [name])) node).filter fun item =>
        !liesIn dirName root item := by
  have hfile {place : List String} {name : String}
      (hnames : ∀ n ∈ place ++ [name], Path.IsEntryName n) (hplace : dirName ∉ place) :
      (c.addExcludeDir dirName).candidate (Path.below root (place ++ [name])) =
        (c.candidate (Path.below root (place ++ [name]))).filter fun item =>
          !liesIn dirName root item := by
    refine candidate_eq_filter ?_
    rw [liesIn_file hnames, decide_eq_false hplace, isSupported_addExcludeDir]
    exact (Bool.and_true _).symm
  intro node
  induction node using Node.induction with
  | file content => exact fun place name _ hnames hplace => hfile hnames hplace
  | link target => exact fun place name _ hnames hplace => hfile hnames hplace
  | dir inner ih =>
    intro place name hwf hnames hplace
    by_cases hname : name = dirName
    · -- the walk turns back here, and all that lies in the directory is taken out
      rw [List.filter_eq_nil_iff.2, walkEntry, isExcludedDir_addExcludeDir, hname,
        decide_eq_true rfl, Bool.or_true, if_pos rfl]
      intro item hitem
      rw [liesIn_of_mem_walkEntry _ place name hwf hnames (Or.inr ⟨hname, inner, rfl⟩) item hitem]
      exact Bool.false_ne_true
    · have hinside : dirName ∉ place ++ [name] := by
        rw [List.mem_append, List.mem_singleton]
        exact not_or.2 ⟨hplace, Ne.symm hname⟩
      rw [walkEntry, walkEntry, isExcludedDir_addExcludeDir, decide_eq_false hname, Bool.or_false]
      split_ifs
      · rfl
      · rw [List.filter_singleton, liesIn_unopened hnames, decide_eq_false hinside]
        rfl
      · refine walkEntries_eq_filter fun entry hentry => ?_
        rw [← Path.below_concat]
        refine ih entry hentry (place ++ [name]) entry.1 (hwf.entry hentry) ?_ hinside
        exact List.forall_mem_append.2
          ⟨hnames, List.forall_mem_singleton.2 (hwf.isEntryName hentry)⟩

/-! ### Roots -/

theorem walkRoot_addExcludeDir (hwf : fs.root.WellFormed) (root : String) :
    (c.addExcludeDir dirName).walkRoot fs root =
      (c.walkRoot fs root).filter fun item => !liesIn dirName root item := by
  refine walkRoot_eq_filter rfl (candidate_eq_filter ?_) fun top htop entry hentry => ?_
  · rw [liesIn_root, isSupported_addExcludeDir]
    exact (Bool.and_true _).symm
  · have htopwf : (Node.dir top).WellFormed := Entered.wellFormed (c := c) hwf htop .top
    exact walkEntry_addExcludeDir entry.2 [] entry.1 (htopwf.entry hentry)
      (List.forall_mem_singleton.2 (htopwf.isEntryName hentry)) List.not_mem_nil

theorem scan_congr (h : c.walk fs base = d.walk fs base) : c.scan fs base = d.scan fs base := by
  rw [scan, scan, visits, visits, h]

/-- A walk that leaves out some results of another takes nothing from a report but names and
files. -/
theorem within_of_sublist (hroots : d.resolvedRoots base = c.resolvedRoots base)
    (h : (d.walk fs base).Sublist (c.walk fs base)) :
    (d.scan fs base).Within (c.scan fs base) := by
  have hd := scan_isOf d fs base
  have hc := scan_isOf c fs base
  have hfiles : (d.files fs base).Sublist (c.files fs base) := h.filterMap _
  refine ⟨fun name hname => ?_, ?_, ?_, ?_⟩
  · obtain ⟨path, text, hpath, hrest⟩ := (hd.names name).1 hname
    exact (hc.names name).2 ⟨path, text, h.subset hpath, hrest⟩
  · rw [hd.scanned, hc.scanned]
    exact hfiles.countP_le
  · rw [hd.skipped, hc.skipped]
    exact hfiles.countP_le
  · rw [hd.missing, hc.missing, hroots]

theorem walk_addExcludeDir (hwf : fs.root.WellFormed) (base : String) :
    (c.addExcludeDir dirName).walk fs base = (c.resolvedRoots base).flatMap fun root =>
      (c.walkRoot fs root).filter fun item => !liesIn dirName root item :=
  List.flatMap_congr fun root _ => walkRoot_addExcludeDir hwf root

theorem addExcludeDir_addExcludeDir (c : Config) (dirName : String) :
    (c.addExcludeDir dirName).addExcludeDir dirName = c.addExcludeDir dirName := by
  have hnames : addNew dirName (addNew dirName c.excludeDirs) = addNew dirName c.excludeDirs :=
    if_pos (mem_addNew.2 (Or.inr rfl))
  exact congrArg (fun excludeDirs => { c with excludeDirs }) hnames

theorem walk_addExcludeDir_comm (c : Config) (fs : FileSystem) (base first second : String) :
    ((c.addExcludeDir first).addExcludeDir second).walk fs base =
      ((c.addExcludeDir second).addExcludeDir first).walk fs base := by
  have hname (name : String) : ((c.addExcludeDir first).addExcludeDir second).isExcludedDir name =
      ((c.addExcludeDir second).addExcludeDir first).isExcludedDir name := by
    simp only [isExcludedDir_addExcludeDir]
    exact Bool.or_right_comm _ _ _
  exact walk_congr (c := (c.addExcludeDir first).addExcludeDir second)
    (d := (c.addExcludeDir second).addExcludeDir first) rfl hname (fun _ => rfl) base

/-- Leaving out one more directory name is exactly a filter: for each root the walk yields, in the
same order, what it yielded before, less the results that lie in a directory of that name below the
root. Missing roots and the roots themselves are not among these. So names may be added in any order
and more than once, and a scan can only lose names and files by it. -/
theorem excluding_filters (c : Config) (fs : FileSystem) (base dirName : String)
    (hwf : fs.root.WellFormed) :
    (∀ root, (c.addExcludeDir dirName).walkRoot fs root =
        (c.walkRoot fs root).filter fun item => !liesIn dirName root item) ∧
      (c.addExcludeDir dirName).walk fs base = ((c.resolvedRoots base).flatMap fun root =>
        (c.walkRoot fs root).filter fun item => !liesIn dirName root item) ∧
      (∀ root, ∀ item ∈ [.error (.missingRoot root), .ok root],
        (item ∈ (c.addExcludeDir dirName).walkRoot fs root ↔ item ∈ c.walkRoot fs root)) ∧
      (∀ other, ((c.addExcludeDir dirName).addExcludeDir other).walk fs base =
          ((c.addExcludeDir other).addExcludeDir dirName).walk fs base ∧
        ((c.addExcludeDir dirName).addExcludeDir other).scan fs base =
          ((c.addExcludeDir other).addExcludeDir dirName).scan fs base) ∧
      (c.addExcludeDir dirName).addExcludeDir dirName = c.addExcludeDir dirName ∧
      ((c.addExcludeDir dirName).scan fs base).Within (c.scan fs base) := by
  refine ⟨walkRoot_addExcludeDir hwf, walk_addExcludeDir hwf base, ?_, ?_,
    addExcludeDir_addExcludeDir c dirName, ?_⟩
  · intro root item hitem
    have hkept : liesIn dirName root item = false := by
      rcases List.mem_pair.1 hitem with rfl | rfl
      · rfl
      · exact liesIn_root dirName root
    rw [walkRoot_addExcludeDir hwf, List.mem_filter, hkept]
    exact and_iff_left rfl
  · intro other
    have hwalk := walk_addExcludeDir_comm c fs base dirName other
    exact ⟨hwalk, scan_congr hwalk⟩
  · refine within_of_sublist rfl ?_
    rw [walk_addExcludeDir hwf, walk]
    exact List.Sublist.flatMap_right _ fun _ _ => List.filter_sublist

/-- A directory that was entered is left out, and its file is gone from the walk. -/
theorem excluding_filters_sample :
    let c : Config := { roots := ["/p"], excludeDirs := [] }
    (treeOf sampleProject).root.WellFormed ∧
      c.walk (treeOf sampleProject) "/" =
        [.ok "/p/a.js", .ok "/p/b.js", .ok "/p/node_modules/c.js"] ∧
      (c.addExcludeDir "node_modules").walk (treeOf sampleProject) "/" =
        [.ok "/p/a.js", .ok "/p/b.js"] ∧
      ((c.addExcludeDir "node_modules").scan (treeOf sampleProject) "/").Within
        (c.scan (treeOf sampleProject) "/") := by
  intro c
  obtain ⟨-, hwalk, -, -, -, hwithin⟩ :=
    excluding_filters c (treeOf sampleProject) "/" "node_modules" wellFormed_sample
  refine ⟨wellFormed_sample, by decide, ?_, hwithin⟩
  rw [hwalk]
  decide

end Config

end ImportScan
