import ImportScan.Proofs.Places
import ImportScan.Proofs.RootLists

/-!
Scanning a directory through a link. A root may be a link to a directory, and whatever path leads to
the directory, the same files are found below it and read as the same texts. But a root whose text
names a link also counts as a file of that name: if its extension is taken, it is skipped once.
-/

namespace ImportScan

namespace FileSystem

variable {fs : FileSystem} {path other : String}

/-- Two paths that lead to the same directory: to the same place in the tree. -/
def SameDirectory (fs : FileSystem) (path other : String) : Prop :=
  ∃ trail entries, fs.resolve path true = .ok trail ∧ fs.resolve other true = .ok trail ∧
    trail.node fs.root = .dir entries

/-- Visits of paths that stand for the same are recorded alike. -/
theorem record_visit_congr (h : fs.node path = fs.node other) (c : Collector) :
    c.record (fs.visit (.ok path)) = c.record (fs.visit (.ok other)) := by
  have hread : fs.readSource path = fs.readSource other := by
    rw [readSource, readSource, read, read, h]
  rw [visit, visit, hread]
  cases fs.readSource other with
  | error cause => rfl
  | ok text => rfl

/-- A directory taken for a file is skipped. -/
theorem visit_directory {entries : List (String × Node)} (h : fs.entries? path = some entries) :
    fs.visit (.ok path) = .skipped path (.unreadable .isDirectory) := by
  obtain ⟨trail, hresolve, hdir⟩ := entries?_eq_some.1 h
  rw [visit, readSource, read, node, hresolve, Except.map, hdir]

end FileSystem

namespace Config

variable {c : Config} {fs : FileSystem} {base root other : String}
  {top : List (String × Node)} {trail : Trail}

/-- Whether a root that is a directory counts as a file too: its text names a link whose extension
is taken. -/
def countsAsFile (c : Config) (fs : FileSystem) (root : String) : Bool :=
  fs.isLink root && c.isSupported root

/-- The results for a root that lists `top`, where no path below it is too long. -/
theorem walkRoot_eq_places (hwf : fs.root.WellFormed)
    (htop : fs.entries? root = some top) (hpaths : c.ShortBelow fs root) :
    c.walkRoot fs root = (if c.countsAsFile fs root then [.ok root] else []) ++
      (c.places top).map fun place => .ok (Path.below root place) := by
  rw [walkRoot, htop, ← walkEntries_eq_places hwf htop hpaths, candidate, countsAsFile]
  cases fs.isLink root <;> rfl

/-- The report on the files found below a root that lists `top`. -/
def reportBelow (c : Config) (fs : FileSystem) (root : String) (top : List (String × Node)) :
    Report :=
  .ofVisits ((c.places top).map fun place => fs.visit (.ok (Path.below root place)))

/-- Two roots that lead to the same directory have the same files below them. -/
theorem reportBelow_congr (hwf : fs.root.WellFormed) (h : fs.resolve root true = .ok trail)
    (hother : fs.resolve other true = .ok trail) (hdir : trail.node fs.root = .dir top)
    (hlimits : c.WithinLimits fs root) (hlimits' : c.WithinLimits fs other) :
    c.reportBelow fs root top = c.reportBelow fs other top := by
  have htop : fs.entries? root = some top := FileSystem.entries?_eq_some.2 ⟨trail, h, hdir⟩
  have htop' : fs.entries? other = some top := FileSystem.entries?_eq_some.2 ⟨trail, hother, hdir⟩
  have hnode : ∀ place ∈ c.places top,
      fs.node (Path.below root place) = fs.node (Path.below other place) := by
    intro place hplace
    obtain ⟨hne, hnames⟩ :=
      isEntryName_of_mem_places (Entered.wellFormed (c := c) hwf htop .top) hplace
    obtain ⟨hshort, hlinks⟩ := hlimits.usable hwf htop hplace
    obtain ⟨hshort', hlinks'⟩ := hlimits'.usable hwf htop' hplace
    exact FileSystem.node_below_congr h hother hnames hne hshort hshort' hlinks hlinks'
  have hgathered : ((c.places top).map fun place =>
        fs.visit (.ok (Path.below root place))).foldl Collector.record {} =
      ((c.places top).map fun place =>
        fs.visit (.ok (Path.below other place))).foldl Collector.record {} := by
    rw [List.foldl_map, List.foldl_map]
    exact List.foldl_ext _ _ _ fun found place hplace =>
      FileSystem.record_visit_congr (hnode place hplace) found
  have hmissing (path : String) : ((c.places top).map fun place =>
      fs.visit (.ok (Path.below path place))).filterMap Visit.missing? = [] := by
    rw [List.filterMap_map, List.filterMap_eq_nil_iff]
    exact fun place _ => FileSystem.missing?_visit_ok
  rw [reportBelow, reportBelow, Report.ofVisits, Report.ofVisits, hgathered, hmissing, hmissing]

/-- What a single root adds to a report, if it is a directory. -/
theorem isSum_root (hwf : fs.root.WellFormed)
    (htop : fs.entries? (Path.join base root) = some top)
    (hlimits : c.WithinLimits fs (Path.join base root)) :
    ((c.withRoots [root]).scan fs base).IsSum
      { filesSkipped := (c.countsAsFile fs (Path.join base root)).toNat }
      (c.reportBelow fs (Path.join base root) top) := by
  rw [scan, visits_withRoots, List.flatMap_singleton,
    walkRoot_eq_places hwf htop hlimits.short, List.map_append, List.map_map]
  have hself : Report.ofVisits ((if c.countsAsFile fs (Path.join base root) then
        [.ok (Path.join base root)] else []).map fs.visit) =
      { filesSkipped := (c.countsAsFile fs (Path.join base root)).toNat } := by
    cases c.countsAsFile fs (Path.join base root) with
    | false => rfl
    | true =>
      rw [if_pos rfl, List.map_singleton, FileSystem.visit_directory htop]
      rfl
  rw [← hself]
  exact Report.isSum_ofVisits _ _

/-- The report of a list of roots, taken apart at one of them that is a directory. -/
theorem scan_listed_root (hwf : fs.root.WellFormed)
    (htop : fs.entries? (Path.join base root) = some top)
    (hlimits : c.WithinLimits fs (Path.join base root)) (front back : List String) :
    (∀ name, name ∈ ((c.withRoots (front ++ root :: back)).scan fs base).modules ↔
        name ∈ ((c.withRoots front).scan fs base).modules ∨
          name ∈ (c.reportBelow fs (Path.join base root) top).modules ∨
          name ∈ ((c.withRoots back).scan fs base).modules) ∧
      ((c.withRoots (front ++ root :: back)).scan fs base).filesScanned =
        ((c.withRoots front).scan fs base).filesScanned +
          ((c.reportBelow fs (Path.join base root) top).filesScanned +
            ((c.withRoots back).scan fs base).filesScanned) ∧
      ((c.withRoots (front ++ root :: back)).scan fs base).filesSkipped =
        ((c.withRoots front).scan fs base).filesSkipped +
          ((c.countsAsFile fs (Path.join base root)).toNat +
            (c.reportBelow fs (Path.join base root) top).filesSkipped +
            ((c.withRoots back).scan fs base).filesSkipped) := by
  have hlist : ((c.withRoots (front ++ root :: back)).scan fs base).IsSum
      ((c.withRoots front).scan fs base) ((c.withRoots (root :: back)).scan fs base) :=
    scan_withRoots_append front (root :: back)
  have hrest : ((c.withRoots (root :: back)).scan fs base).IsSum
      ((c.withRoots [root]).scan fs base) ((c.withRoots back).scan fs base) :=
    scan_withRoots_append [root] back
  have hroot := isSum_root hwf htop hlimits
  refine ⟨fun name => ?_, ?_, ?_⟩
  · rw [hlist.names, hrest.names, hroot.names]
    simp only [List.not_mem_nil, false_or]
  · rw [hlist.scanned, hrest.scanned, hroot.scanned, Nat.zero_add]
  · rw [hlist.skipped, hrest.skipped, hroot.skipped]

/-- A scan finds the same through any path that leads to the same directory: names and files read
do not change where one root takes the place of another, and neither do the files skipped, but for
the roots themselves: they are unchanged exactly when both roots count as files or neither does. -/
theorem scan_through_link (c : Config) (fs : FileSystem) (base : String) (front back : List String)
    {root link : String} (hwf : fs.root.WellFormed)
    (hsame : fs.SameDirectory (Path.join base root) (Path.join base link))
    (hroot : c.WithinLimits fs (Path.join base root))
    (hlink : c.WithinLimits fs (Path.join base link)) :
    let direct := (c.withRoots (front ++ root :: back)).scan fs base
    let linked := (c.withRoots (front ++ link :: back)).scan fs base
    let rootCounts := c.countsAsFile fs (Path.join base root)
    let linkCounts := c.countsAsFile fs (Path.join base link)
    linked.modules = direct.modules ∧ linked.filesScanned = direct.filesScanned ∧
      linked.filesSkipped + rootCounts.toNat = direct.filesSkipped + linkCounts.toNat ∧
      (linked.filesSkipped = direct.filesSkipped ↔ linkCounts = rootCounts) := by
  intro direct linked rootCounts linkCounts
  obtain ⟨trail, top, hr, hl, hdir⟩ := hsame
  obtain ⟨hnames, hscanned, hskipped⟩ := scan_listed_root hwf
    (FileSystem.entries?_eq_some.2 ⟨trail, hr, hdir⟩) hroot front back
  obtain ⟨hnames', hscanned', hskipped'⟩ := scan_listed_root hwf
    (FileSystem.entries?_eq_some.2 ⟨trail, hl, hdir⟩) hlink front back
  -- what lies below is the same report in both scans; only the roots themselves are left
  rw [reportBelow_congr hwf hr hl hdir hroot hlink] at hnames hscanned hskipped
  have hcounts : linked.filesSkipped + rootCounts.toNat =
      direct.filesSkipped + linkCounts.toNat := by
    change linked.filesSkipped = _ + (linkCounts.toNat + _ + _) at hskipped'
    change direct.filesSkipped = _ + (rootCounts.toNat + _ + _) at hskipped
    omega
  have hbool : ∀ x y : Bool, x.toNat = y.toNat ↔ x = y := by decide
  refine ⟨?_, hscanned'.trans hscanned.symm, hcounts, ?_⟩
  · refine Report.modules_ext (Report.modules_ascending _) (Report.modules_ascending _) ?_
    exact fun name => (hnames' name).trans (hnames name).symm
  · rw [← hbool]
    omega

/-! ### A project reached through links -/

/-- Nothing but the root is entered where it lists no directories. -/
theorem Entered.eq_top {place : List String} {entries : List (String × Node)}
    (hfiles : ∀ entry ∈ top, ∀ inner, entry.2 ≠ .dir inner)
    (he : c.Entered fs root top place entries) : place = [] ∧ entries = top := by
  induction he with
  | top => exact ⟨rfl, rfl⟩
  | enter _ hdir _ _ ih =>
    rw [ih.2] at hdir
    exact absurd rfl (hfiles _ hdir _)

/-- A root that lists files alone is within the limits if their paths are short and all that is read
is there. -/
theorem withinLimits_of_files (htop : fs.entries? root = some top)
    (hfiles : ∀ entry ∈ top, ∀ inner, entry.2 ≠ .dir inner)
    (hshort : ∀ entry ∈ top,
      (Path.below root [entry.1]).utf8ByteSize < FileSystem.maxPathBytes)
    (hread : ∀ path ∈ (c.walkRoot fs root).filterMap Except.toOption,
      fs.pathExists path = true) :
    c.WithinLimits fs root := by
  constructor
  · intro top' place entries name node htop' he hmem
    have hsame : top = top' := Option.some.inj (htop.symm.trans htop')
    subst hsame
    obtain ⟨hplace, hentries⟩ := he.eq_top hfiles
    rw [hentries] at hmem
    rw [hplace, List.nil_append]
    exact hshort (name, node) hmem
  · intro path hpath herror
    have hexists := hread path (List.mem_filterMap.2 ⟨_, hpath, rfl⟩)
    rw [FileSystem.pathExists, herror] at hexists
    cases hexists

/-- The sources of the project below. -/
def linkedSources : List (String × Node) := [("a.js", .file "import 'x'".toUTF8)]

/-- A project with a source directory and two links to it, one of them with a name like a file's. -/
def linkedProject : List (String × Node) :=
  [("src", .dir linkedSources), ("web", .link "src"), ("web.js", .link "src")]

/-- The trail to the source directory. -/
def linkedTrail : Trail := [("src", .dir linkedSources), ("p", .dir linkedProject)]

theorem resolve_src : (treeOf linkedProject).resolve "/p/src" true = .ok linkedTrail := rfl

theorem resolve_web : (treeOf linkedProject).resolve "/p/web" true = .ok linkedTrail := rfl

theorem resolve_webjs : (treeOf linkedProject).resolve "/p/web.js" true = .ok linkedTrail := rfl

theorem withinLimits_linkedProject {root : String}
    (hroot : (treeOf linkedProject).resolve root true = .ok linkedTrail)
    (hshort : (Path.below root ["a.js"]).utf8ByteSize < FileSystem.maxPathBytes)
    (hread : ∀ path ∈ (({} : Config).walkRoot (treeOf linkedProject) root).filterMap
      Except.toOption, (treeOf linkedProject).pathExists path = true) :
    ({} : Config).WithinLimits (treeOf linkedProject) root := by
  have htop : (treeOf linkedProject).entries? root = some linkedSources :=
    FileSystem.entries?_eq_some.2 ⟨linkedTrail, hroot, rfl⟩
  refine withinLimits_of_files htop (fun entry hentry inner => ?_) (fun entry hentry => ?_) hread
  · rw [List.mem_singleton.1 hentry]
    exact Node.noConfusion
  · have hname : entry.1 = "a.js" := congrArg Prod.fst (List.mem_singleton.1 hentry)
    rw [hname]
    exact hshort

theorem withinLimits_src : ({} : Config).WithinLimits (treeOf linkedProject) "/p/src" :=
  withinLimits_linkedProject resolve_src (by decide) (by decide +kernel)

/-- The same names and the same counts through a link with a name like a directory's. -/
theorem scan_through_link_sample :
    let scan (root : String) := (({} : Config).withRoots [root]).scan (treeOf linkedProject) "/"
    (scan "/p/web").modules = (scan "/p/src").modules ∧
      (scan "/p/web").filesScanned = (scan "/p/src").filesScanned ∧
      (scan "/p/web").filesSkipped = (scan "/p/src").filesSkipped := by
  intro scan
  have hweb : ({} : Config).WithinLimits (treeOf linkedProject) "/p/web" :=
    withinLimits_linkedProject resolve_web (by decide) (by decide +kernel)
  have hwf : (treeOf linkedProject).root.WellFormed := by decide
  have hsame : (treeOf linkedProject).SameDirectory "/p/src" "/p/web" :=
    ⟨linkedTrail, linkedSources, resolve_src, resolve_web, rfl⟩
  obtain ⟨hmodules, hscanned, -, hskipped⟩ :=
    @scan_through_link {} (treeOf linkedProject) "/" [] [] "/p/src" "/p/web" hwf hsame
      withinLimits_src hweb
  exact ⟨hmodules, hscanned, hskipped.2 (by decide)⟩

/-- A link to a directory is no substitute for the directory if its own name has an extension that
is taken: here the file skipped is the link itself. -/
theorem not_scan_eq_through_link :
    ¬ ∀ (c : Config) (fs : FileSystem) (base : String) (front back : List String)
      (root link : String), fs.root.WellFormed →
      fs.SameDirectory (Path.join base root) (Path.join base link) →
      fs.isLink (Path.join base link) = true →
      c.WithinLimits fs (Path.join base root) → c.WithinLimits fs (Path.join base link) →
      let direct := (c.withRoots (front ++ root :: back)).scan fs base
      let linked := (c.withRoots (front ++ link :: back)).scan fs base
      linked.modules = direct.modules ∧ linked.filesScanned = direct.filesScanned ∧
        linked.filesSkipped = direct.filesSkipped := by
  intro h
  have hwebjs : ({} : Config).WithinLimits (treeOf linkedProject) "/p/web.js" :=
    withinLimits_linkedProject resolve_webjs (by decide) (by decide +kernel)
  have hsame : (treeOf linkedProject).SameDirectory "/p/src" "/p/web.js" :=
    ⟨linkedTrail, linkedSources, resolve_src, resolve_webjs, rfl⟩
  obtain ⟨-, -, hskipped⟩ := h {} (treeOf linkedProject) "/" [] [] "/p/src" "/p/web.js" (by decide)
    hsame (by decide) withinLimits_src hwebjs
  exact absurd hskipped (by decide +kernel)

end Config

end ImportScan
