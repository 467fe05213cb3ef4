import ImportScan.Proofs.LinkedRoot

/-!
The working directory by two names. The system gives its place as an absolute path; `.` stands for
it in every path that is followed. So whatever is joined to the one leads where it leads when joined
to the other, and a scan from `.` meets the same roots and the same files as a scan from the
absolute path, although the texts of their paths differ.
-/

namespace ImportScan

namespace Path

/-- Names put behind a path with slashes in between. -/
theorem below_eq_intercalate {names : List String} (h : ∀ name ∈ names, IsEntryName name)
    {root : String} (hroot : isOpen root = false) :
    below root names = "/".intercalate (root :: names) := by
  induction names generalizing root with
  | nil => rw [below_nil, String.intercalate_singleton]
  | cons name names ih =>
    obtain ⟨hname, hnames⟩ := List.forall_mem_cons.1 h
    rw [below_cons, ih hnames (isOpen_join hname), join_of_no_slash hname.no_slash, hroot,
      if_neg Bool.false_ne_true, String.intercalate_cons_append, String.intercalate_cons_cons]

/-- The file named by a relative path is named by what the path is joined to as well. -/
theorem fileName?_join {path other name : String} (habs : isAbsolute other = false)
    (hlast : (segments other).getLast? = some name) (h : component? name = some (.name name)) :
    fileName? (join path other) = some name := by
  obtain ⟨front, hfront⟩ := List.getLast?_eq_some_iff.1 hlast
  refine fileName?_of_segments (stem path ++ front) h ?_
  rw [segments_join_relative habs, hfront, List.append_assoc]

end Path

namespace FileSystem

variable {fs : FileSystem} {path : String}

/-- The working directory is a directory, and its place leads over no link. -/
def InDirectory (fs : FileSystem) : Prop := ∃ entries, fs.root.at? fs.cwd = some (.dir entries)

theorem cwdPath_eq_below (h : ∀ name ∈ fs.cwd, Path.IsEntryName name) :
    fs.cwdPath = Path.below "/" fs.cwd := by
  rw [cwdPath]
  cases hcwd : fs.cwd with
  | nil => rfl
  | cons name names =>
    rw [hcwd] at h
    obtain ⟨hname, hnames⟩ := List.forall_mem_cons.1 h
    have hjoin : Path.join "/" name = "/" ++ name := Path.join_of_no_slash hname.no_slash
    rw [Path.below_cons, Path.below_eq_intercalate hnames (Path.isOpen_join hname), hjoin,
      String.intercalate_cons_append]

theorem no_nul_cwdPath (h : ∀ name ∈ fs.cwd, Path.IsEntryName name) :
    '\x00' ∉ fs.cwdPath.toList :=
  cwdPath_eq_below h ▸ Path.no_nul_below h (by decide)

theorem cwdPath_ne_empty (h : ∀ name ∈ fs.cwd, Path.IsEntryName name) : fs.cwdPath ≠ "" :=
  cwdPath_eq_below h ▸ Path.below_ne_empty h (by decide)

theorem isAbsolute_cwdPath (h : ∀ name ∈ fs.cwd, Path.IsEntryName name) :
    Path.isAbsolute fs.cwdPath = true := by
  rw [cwdPath_eq_below h, Path.isAbsolute_below h]
  rfl

theorem stem_cwdPath (h : ∀ name ∈ fs.cwd, Path.IsEntryName name) :
    Path.stem fs.cwdPath = "" :: fs.cwd := by
  rw [cwdPath_eq_below h, Path.stem_below h]
  rfl

/-- The trail to the working directory, from which all goes on that is followed through its
place. -/
theorem exists_cwdTrail (hwf : fs.root.WellFormed) (hcwd : fs.InDirectory) :
    (∀ name ∈ fs.cwd, Path.IsEntryName name) ∧ ∃ (trail : Trail) (entries : List (String × Node)),
      fs.cwdTrail = .ok trail ∧ trail.node fs.root = .dir entries ∧
        ∀ followLast links more, follow fs.root followLast links [] (fs.cwd ++ more) =
          follow fs.root followLast links trail more := by
  obtain ⟨entries, hat⟩ := hcwd
  obtain ⟨hnames, trail, hdir, hmore⟩ := @follow_names fs.root [] fs.cwd entries hwf hat
  have hend := hmore true maxLinks []
  rw [List.append_nil, follow_nil] at hend
  exact ⟨hnames, trail, entries, hend, hdir, hmore⟩

/-! ### Paths from the working directory -/

/-- What is joined to `.` leads where it leads when joined to the absolute path of the working
directory. -/
theorem resolve_here (hwf : fs.root.WellFormed) (hcwd : fs.InDirectory)
    (hhere : (Path.join "." path).utf8ByteSize < maxPathBytes)
    (hthere : (Path.join fs.cwdPath path).utf8ByteSize < maxPathBytes) (followLast : Bool) :
    fs.resolve (Path.join "." path) followLast =
      fs.resolve (Path.join fs.cwdPath path) followLast := by
  cases habs : Path.isAbsolute path with
  | true => rw [Path.join_of_absolute habs, Path.join_of_absolute habs]
  | false =>
    obtain ⟨hnames, trail, entries, htrail, hdir, hmore⟩ := exists_cwdTrail hwf hcwd
    obtain ⟨top, htop⟩ : ∃ top, Trail.node fs.root [] = .dir top := dir_of_at? hcwd.choose_spec
    rw [resolve_eq, resolve_eq, objection?_join_relative (by decide) (by decide) habs,
      objection?_join_relative (no_nul_cwdPath hnames) (cwdPath_ne_empty hnames) habs,
      if_neg (Nat.not_le.2 hhere), if_neg (Nat.not_le.2 hthere)]
    split_ifs with hpath
    · rfl
    · have hhereStart : fs.start "." = .ok trail := htrail
      have hthereStart : fs.start fs.cwdPath = .ok [] := if_pos (isAbsolute_cwdPath hnames)
      have hhereStem : Path.stem "." = ["."] := by decide
      simp only [start_join habs, hhereStart, hthereStart, Path.segments_join_relative habs,
        hhereStem, stem_cwdPath hnames]
      -- both are followed from the trail to the working directory in the end
      show follow fs.root followLast maxLinks trail ("." :: Path.segments path) =
        follow fs.root followLast maxLinks [] ("" :: (fs.cwd ++ Path.segments path))
      rw [follow_stay hdir (Or.inr rfl), follow_stay htop (Or.inl rfl), hmore]

theorem node_here (hwf : fs.root.WellFormed) (hcwd : fs.InDirectory)
    (hhere : (Path.join "." path).utf8ByteSize < maxPathBytes)
    (hthere : (Path.join fs.cwdPath path).utf8ByteSize < maxPathBytes) :
    fs.node (Path.join "." path) = fs.node (Path.join fs.cwdPath path) := by
  rw [node, node, resolve_here hwf hcwd hhere hthere]

end FileSystem

namespace Config

variable {c : Config} {fs : FileSystem} {root : String}

/-! ### Roots -/

/-- No path that a scan of a root forms from a directory is too long. -/
structure ShortFrom (c : Config) (fs : FileSystem) (base root : String) : Prop where
  self : (Path.join base root).utf8ByteSize < FileSystem.maxPathBytes
  below : c.ShortBelow fs (Path.join base root)

theorem isLink_here (hwf : fs.root.WellFormed) (hcwd : fs.InDirectory)
    (hhere : c.ShortFrom fs "." root) (hthere : c.ShortFrom fs fs.cwdPath root) :
    fs.isLink (Path.join "." root) = fs.isLink (Path.join fs.cwdPath root) := by
  rw [FileSystem.isLink, FileSystem.isLink,
    FileSystem.resolve_here hwf hcwd hhere.self hthere.self]

/-- A root that is a link has its own name for its last segment, so its extension is the same from
wherever it is seen. -/
theorem countsAsFile_here (hwf : fs.root.WellFormed) (hcwd : fs.InDirectory)
    (hhere : c.ShortFrom fs "." root) (hthere : c.ShortFrom fs fs.cwdPath root) :
    c.countsAsFile fs (Path.join "." root) = c.countsAsFile fs (Path.join fs.cwdPath root) := by
  cases habs : Path.isAbsolute root with
  | true => rw [Path.join_of_absolute habs, Path.join_of_absolute habs]
  | false =>
    rw [countsAsFile, countsAsFile, ← isLink_here hwf hcwd hhere hthere]
    -- the absolute path of `.` has the working directory's name at its end, but is no link
    cases hlink : fs.isLink (Path.join "." root) with
    | false => rfl
    | true =>
      obtain ⟨name, hlast, hname⟩ := FileSystem.last_of_isLink hlink
      rw [Path.segments_join_relative habs,
        List.getLast?_append_of_ne_nil _ (Path.segments_ne_nil root)] at hlast
      rw [isSupported, isSupported, Path.extension?, Path.extension?,
        Path.fileName?_join habs hlast hname, Path.fileName?_join habs hlast hname]

/-- Results of the two walks that belong together: the same root that is no directory, or paths of
the same file, which are followed to the same place and read alike. -/
inductive Corresponds (fs : FileSystem) : WalkItem → WalkItem → Prop
  | missing (root : String) : Corresponds fs (.error (.missingRoot (Path.join "." root)))
      (.error (.missingRoot (Path.join fs.cwdPath root)))
  | file {path : String} (hplace : fs.resolve (Path.join "." path) true =
        fs.resolve (Path.join fs.cwdPath path) true)
      (hread : fs.readSource (Path.join "." path) =
        fs.readSource (Path.join fs.cwdPath path)) :
      Corresponds fs (.ok (Path.join "." path)) (.ok (Path.join fs.cwdPath path))

theorem corresponds_file (hwf : fs.root.WellFormed) (hcwd : fs.InDirectory) {path : String}
    (hhere : (Path.join "." path).utf8ByteSize < FileSystem.maxPathBytes)
    (hthere : (Path.join fs.cwdPath path).utf8ByteSize < FileSystem.maxPathBytes) :
    Corresponds fs (.ok (Path.join "." path)) (.ok (Path.join fs.cwdPath path)) := by
  refine .file (FileSystem.resolve_here hwf hcwd hhere hthere true) ?_
  rw [FileSystem.readSource, FileSystem.readSource, FileSystem.read, FileSystem.read,
    FileSystem.node_here hwf hcwd hhere hthere]

theorem walkRoot_here (hwf : fs.root.WellFormed) (hcwd : fs.InDirectory)
    (hhere : c.ShortFrom fs "." root) (hthere : c.ShortFrom fs fs.cwdPath root) :
    List.Forall₂ (Corresponds fs) (c.walkRoot fs (Path.join "." root))
      (c.walkRoot fs (Path.join fs.cwdPath root)) := by
  have hentries : fs.entries? (Path.join "." root) =
      fs.entries? (Path.join fs.cwdPath root) := by
    rw [FileSystem.entries?, FileSystem.entries?,
      FileSystem.node_here hwf hcwd hhere.self hthere.self]
  cases htop : fs.entries? (Path.join fs.cwdPath root) with
  | none =>
    rw [walkRoot, walkRoot, hentries, htop]
    exact .cons (.missing root) .nil
  | some top =>
    have htop' := hentries.trans htop
    rw [walkRoot_eq_places hwf htop' hhere.below, walkRoot_eq_places hwf htop hthere.below,
      countsAsFile_here hwf hcwd hhere hthere]
    refine List.rel_append ?_ ?_
    · split_ifs
      · exact .cons (corresponds_file hwf hcwd hhere.self hthere.self) .nil
      · exact .nil
    · rw [List.forall₂_map_left_iff, List.forall₂_map_right_iff, List.forall₂_same]
      intro place hplace
      have hshort := hhere.below.short hwf htop' hplace
      have hshort' := hthere.below.short hwf htop hplace
      rw [Path.below_join] at hshort hshort' ⊢
      rw [Path.below_join]
      exact corresponds_file hwf hcwd hshort hshort'

/-! ### Scans -/

/-- The two walks yield results that belong together, one by one and in the same order. -/
theorem walk_here (hwf : fs.root.WellFormed) (hcwd : fs.InDirectory)
    (hhere : ∀ root ∈ c.roots, c.ShortFrom fs "." root)
    (hthere : ∀ root ∈ c.roots, c.ShortFrom fs fs.cwdPath root) :
    List.Forall₂ (Corresponds fs) (c.walk fs ".") (c.walk fs fs.cwdPath) := by
  rw [walk, walk, resolvedRoots, resolvedRoots, List.flatMap_map, List.flatMap_map]
  generalize c.roots = roots at hhere hthere
  induction roots with
  | nil => exact .nil
  | cons root roots ih =>
    obtain ⟨hroot, hroots⟩ := List.forall_mem_cons.1 hhere
    obtain ⟨hroot', hroots'⟩ := List.forall_mem_cons.1 hthere
    rw [List.flatMap_cons, List.flatMap_cons]
    exact List.rel_append (walkRoot_here hwf hcwd hroot hroot') (ih hroots hroots')

/-- Results that belong together are taken in alike. -/
theorem Corresponds.record {item other : WalkItem} (h : Corresponds fs item other)
    (found : Collector) : found.record (fs.visit item) = found.record (fs.visit other) := by
  cases h with
  | missing root => rfl
  | file hplace _ =>
    refine FileSystem.record_visit_congr ?_ found
    rw [FileSystem.node, FileSystem.node, hplace]

theorem foldl_record_congr {items others : List WalkItem}
    (h : List.Forall₂ (Corresponds fs) items others) (found : Collector) :
    (items.map fs.visit).foldl Collector.record found =
      (others.map fs.visit).foldl Collector.record found := by
  induction h generalizing found with
  | nil => rfl
  | cons h _ ih => rw [List.map_cons, List.map_cons, List.foldl_cons, List.foldl_cons, h.record, ih]

/-- The two reports differ in nothing but the texts of the missing roots. -/
theorem scan_here (hwf : fs.root.WellFormed) (hcwd : fs.InDirectory)
    (hhere : ∀ root ∈ c.roots, c.ShortFrom fs "." root)
    (hthere : ∀ root ∈ c.roots, c.ShortFrom fs fs.cwdPath root) :
    let here := c.scan fs "."
    let there := c.scan fs fs.cwdPath
    here.modules = there.modules ∧ here.filesScanned = there.filesScanned ∧
      here.filesSkipped = there.filesSkipped := by
  have hfound := foldl_record_congr (walk_here hwf hcwd hhere hthere) {}
  simp only [scan, Report.ofVisits, visits, hfound, and_self]

end Config

end ImportScan
