import ImportScan.Proofs.ScanReport
import Mathlib.Data.List.Perm.Basic

/-!
How the list of extensions shows in a report. A path has one extension at most, so two lists without
a common entry share out what is found with both together: each path goes to exactly one of them,
while errors do not depend on extensions and stay with both (`SharedOut`). The report of both lists
together joins their reports.
-/

namespace ImportScan

/-- The report that joins two others of the same roots: all names of both, sorted and each listed
once, the counts added, and the missing roots, which both have. -/
structure Report.Joins (r a b : Report) : Prop where
  ascending : r.modules.Pairwise (· < ·)
  names : ∀ name, name ∈ r.modules ↔ name ∈ a.modules ∨ name ∈ b.modules
  scanned : r.filesScanned = a.filesScanned + b.filesScanned
  skipped : r.filesSkipped = a.filesSkipped + b.filesSkipped
  missing : r.rootsMissing = a.rootsMissing ∧ r.rootsMissing = b.rootsMissing

/-- The paths among the results of a walk. -/
def pathsOf (items : List WalkItem) : List String := items.filterMap Except.toOption

/-- The errors among the results of a walk. -/
def errorsOf (items : List WalkItem) : List WalkItem := items.filter fun item => !item.isOk

/-- Results shared out between two walks: each path goes to one of them and not to the other, and
all errors stay with both. -/
structure SharedOut (items left right : List WalkItem) : Prop where
  disjoint : (pathsOf left).Disjoint (pathsOf right)
  paths : (pathsOf items).Perm (pathsOf left ++ pathsOf right)
  errors : errorsOf left = errorsOf items ∧ errorsOf right = errorsOf items

namespace Config

/-- The same configuration with other extensions. -/
def withExtensions (c : Config) (extensions : List String) : Config := { c with extensions }

/-- Whether a walk would yield a result, as far as extensions go. -/
def admits (c : Config) : WalkItem → Bool
  | .ok path => c.isSupported path
  | .error _ => true

/-- Configurations that differ in their extensions alone, the first taking no path but what the
second takes. -/
structure Narrows (d c : Config) : Prop where
  roots : d.roots = c.roots
  names : ∀ name, d.isExcludedDir name = c.isExcludedDir name
  paths : ∀ path, d.isSupported path = true → c.isSupported path = true

variable {c d : Config} {fs : FileSystem} {base root : String} {items : List WalkItem}
  {a b : List String}

/-! ### Fewer extensions -/

theorem narrows_refl (c : Config) : c.Narrows c := ⟨rfl, fun _ => rfl, fun _ => id⟩

namespace Narrows

theorem candidate_eq (h : d.Narrows c) (path : String) :
    d.candidate path = (c.candidate path).filter d.admits := by
  refine candidate_eq_filter ?_
  rw [admits]
  cases hd : d.isSupported path with
  | false => exact (Bool.and_false _).symm
  | true => rw [h.paths path hd, Bool.and_true]

/-- A walk that takes fewer paths yields what is left of the other. -/
theorem walkEntry_eq (h : d.Narrows c) (node : Node) :
    ∀ name path, d.walkEntry name path node = (c.walkEntry name path node).filter d.admits := by
  induction node using Node.induction with
  | file content => exact fun _ path => h.candidate_eq path
  | link target => exact fun _ path => h.candidate_eq path
  | dir inner ih =>
    intro name path
    rw [walkEntry, walkEntry, h.names]
    split_ifs
    · rfl
    · rfl
    · exact walkEntries_eq_filter fun entry hentry => ih entry hentry _ _

theorem walkRoot_eq (h : d.Narrows c) (root : String) :
    d.walkRoot fs root = (c.walkRoot fs root).filter d.admits :=
  walkRoot_eq_filter rfl (h.candidate_eq root) fun _ _ entry _ => h.walkEntry_eq entry.2 _ _

theorem walk_eq (h : d.Narrows c) (base : String) :
    d.walk fs base = (c.walk fs base).filter d.admits := by
  rw [walk, walk, resolvedRoots, resolvedRoots, h.roots, List.filter_flatMap]
  exact List.flatMap_congr fun root _ => h.walkRoot_eq root

end Narrows

/-! ### One extension for each path -/

theorem isSupported_append (path : String) : (c.withExtensions (a ++ b)).isSupported path =
    ((c.withExtensions a).isSupported path || (c.withExtensions b).isSupported path) := by
  simp only [isSupported, withExtensions]
  cases Path.extension? path with
  | none => rfl
  | some ext => simp

theorem isSupported_of_disjoint (h : a.Disjoint b) {path : String}
    (ha : (c.withExtensions a).isSupported path = true) :
    (c.withExtensions b).isSupported path = false := by
  simp only [isSupported, withExtensions] at ha ⊢
  cases hext : Path.extension? path with
  | none => rfl
  | some ext =>
    simp only [hext, Option.any_some, List.contains_iff_mem] at ha
    rw [Option.any_some, ← Bool.not_eq_true, List.contains_iff_mem]
    exact fun hb => h ha hb

/-- A path that is taken with two lists together is taken with one of them alone. -/
theorem isSupported_right (h : a.Disjoint b) {path : String}
    (hpath : (c.withExtensions (a ++ b)).isSupported path = true) :
    (c.withExtensions b).isSupported path = !(c.withExtensions a).isSupported path := by
  rw [isSupported_append] at hpath
  cases ha : (c.withExtensions a).isSupported path with
  | true => exact isSupported_of_disjoint h ha
  | false => rwa [ha, Bool.false_or] at hpath

theorem narrows_left (c : Config) (a b : List String) :
    (c.withExtensions a).Narrows (c.withExtensions (a ++ b)) := by
  refine ⟨rfl, fun _ => rfl, fun path h => ?_⟩
  rw [isSupported_append, h, Bool.true_or]

theorem narrows_right (c : Config) (a b : List String) :
    (c.withExtensions b).Narrows (c.withExtensions (a ++ b)) := by
  refine ⟨rfl, fun _ => rfl, fun path h => ?_⟩
  rw [isSupported_append, h, Bool.or_true]

/-! ### Sharing out -/

theorem mem_pathsOf {path : String} : path ∈ pathsOf items ↔ .ok path ∈ items := by
  rw [pathsOf, List.mem_filterMap]
  constructor
  · rintro ⟨cause | found, hitem, hpath⟩
    · exact absurd hpath (Option.some_ne_none path).symm
    · rwa [← Option.some.inj hpath]
  · exact fun h => ⟨_, h, rfl⟩

theorem pathsOf_filter_admits (items : List WalkItem) :
    pathsOf (items.filter d.admits) = (pathsOf items).filter d.isSupported := by
  rw [pathsOf, pathsOf, List.filterMap_filter, List.filter_filterMap]
  refine List.filterMap_congr fun item _ => ?_
  rcases item with cause | path
  · rfl
  · exact (Option.filter_some (p := d.isSupported) (a := path)).symm

theorem errorsOf_filter_admits (items : List WalkItem) :
    errorsOf (items.filter d.admits) = errorsOf items := by
  rw [errorsOf, errorsOf, List.filter_filter]
  refine List.filter_congr fun item _ => ?_
  rcases item with cause | path
  · rfl
  · rfl

/-- What is taken with two lists together is shared out between what each list takes of it. -/
theorem sharedOut_filter (h : a.Disjoint b)
    (hitems : items = items.filter (c.withExtensions (a ++ b)).admits) :
    SharedOut items (items.filter (c.withExtensions a).admits)
      (items.filter (c.withExtensions b).admits) where
  disjoint path hleft hright := by
    rw [pathsOf_filter_admits, List.mem_filter] at hleft hright
    exact Bool.false_ne_true ((isSupported_of_disjoint h hleft.2).symm.trans hright.2)
  paths := by
    have hpath (path : String) (hmem : path ∈ pathsOf items) :
        (c.withExtensions (a ++ b)).isSupported path = true := by
      rw [hitems, pathsOf_filter_admits] at hmem
      exact (List.mem_filter.1 hmem).2
    rw [pathsOf_filter_admits, pathsOf_filter_admits,
      List.filter_congr fun path hmem => isSupported_right h (hpath path hmem)]
    exact (List.filter_append_perm _ _).symm
  errors := ⟨errorsOf_filter_admits items, errorsOf_filter_admits items⟩

theorem sharedOut_walkRoot (c : Config) (fs : FileSystem) (h : a.Disjoint b) (root : String) :
    SharedOut ((c.withExtensions (a ++ b)).walkRoot fs root)
      ((c.withExtensions a).walkRoot fs root) ((c.withExtensions b).walkRoot fs root) := by
  rw [(narrows_left c a b).walkRoot_eq, (narrows_right c a b).walkRoot_eq]
  exact sharedOut_filter h ((narrows_refl _).walkRoot_eq root)

theorem sharedOut_walk (c : Config) (fs : FileSystem) (base : String) (h : a.Disjoint b) :
    SharedOut ((c.withExtensions (a ++ b)).walk fs base) ((c.withExtensions a).walk fs base)
      ((c.withExtensions b).walk fs base) := by
  rw [(narrows_left c a b).walk_eq, (narrows_right c a b).walk_eq]
  exact sharedOut_filter h ((narrows_refl _).walk_eq base)

/-! ### Reports -/

/-- Walks that share out the paths of another give reports that it joins. -/
theorem joins_of_sharedOut {e : Config} (hd : d.resolvedRoots base = c.resolvedRoots base)
    (he : e.resolvedRoots base = c.resolvedRoots base)
    (h : SharedOut (c.walk fs base) (d.walk fs base) (e.walk fs base)) :
    (c.scan fs base).Joins (d.scan fs base) (e.scan fs base) := by
  have hc := scan_isOf c fs base
  have hleft := scan_isOf d fs base
  have hright := scan_isOf e fs base
  have hfiles : (c.files fs base).Perm (d.files fs base ++ e.files fs base) := h.paths
  refine ⟨hc.ascending, fun name => ?_, ?_, ?_, ?_, ?_⟩
  · have hmem (path : String) : .ok path ∈ c.walk fs base ↔
        .ok path ∈ d.walk fs base ∨ .ok path ∈ e.walk fs base := by
      rw [← mem_pathsOf, h.paths.mem_iff, List.mem_append, mem_pathsOf, mem_pathsOf]
    rw [hc.names, hleft.names, hright.names]
    simp only [hmem, or_and_right, exists_or]
  · rw [hc.scanned, hleft.scanned, hright.scanned, hfiles.countP_eq, List.countP_append]
  · rw [hc.skipped, hleft.skipped, hright.skipped, hfiles.countP_eq, List.countP_append]
  · rw [hc.missing, hleft.missing, hd]
  · rw [hc.missing, hright.missing, he]

/-- Two lists of extensions without a common entry add up. With both together a scan reports the
names found with either, each once and in order, the sums of the counts, and the same missing roots;
for each root the paths found with both are those found with one list and, apart from these, those
found with the other, and the errors of the walk are the same. -/
theorem scan_extensions (c : Config) (fs : FileSystem) (base : String) (h : a.Disjoint b) :
    ((c.withExtensions (a ++ b)).scan fs base).Joins ((c.withExtensions a).scan fs base)
        ((c.withExtensions b).scan fs base) ∧
      (∀ root, SharedOut ((c.withExtensions (a ++ b)).walkRoot fs root)
        ((c.withExtensions a).walkRoot fs root) ((c.withExtensions b).walkRoot fs root)) ∧
      SharedOut ((c.withExtensions (a ++ b)).walk fs base) ((c.withExtensions a).walk fs base)
        ((c.withExtensions b).walk fs base) :=
  ⟨joins_of_sharedOut rfl rfl (sharedOut_walk c fs base h), sharedOut_walkRoot c fs h,
    sharedOut_walk c fs base h⟩

/-- A name with two dots counts under its last one only, and one that starts with its only dot has
no extension at all. -/
theorem scan_extensions_sample :
    let fs := treeOf [("a.js", .file "import 'x'".toUTF8), ("b.js.ts", .file "import 'y'".toUTF8),
      (".js", .file "import 'z'".toUTF8)]
    let c : Config := { roots := ["/p", "/q"] }
    [".js"].Disjoint [".ts"] ∧
      (c.withExtensions [".js"]).walk fs "/" = [.ok "/p/a.js", .error (.missingRoot "/q")] ∧
      (c.withExtensions [".ts"]).walk fs "/" = [.ok "/p/b.js.ts", .error (.missingRoot "/q")] ∧
      ((c.withExtensions [".js", ".ts"]).scan fs "/").Joins ((c.withExtensions [".js"]).scan fs "/")
        ((c.withExtensions [".ts"]).scan fs "/") := by
  intro fs c
  have hdisjoint : [".js"].Disjoint [".ts"] := by simp
  exact ⟨hdisjoint, by decide, by decide, (scan_extensions c fs "/" hdisjoint).1⟩

end Config

end ImportScan
