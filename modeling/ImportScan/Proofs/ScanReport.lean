import ImportScan.Proofs.AlikeWalk
import ImportScan.Proofs.Gathering

/-!
What a scan reports. `Report.IsOf` states each part of a report by the walk and by what the paths it
yields stand for; the report of a scan is the only one of which this holds. Errors of the walk and
the order in which directories list their entries do not show in it.
-/

namespace ImportScan

namespace FileSystem

variable {fs : FileSystem} {path text : String}

/-- The path leads to a file whose bytes are some text in UTF-8. -/
def IsText (fs : FileSystem) (path : String) : Prop :=
  ∃ text : String, fs.node path = .ok (.file text.toUTF8)

/-- The path leads to a directory. -/
def IsDirectory (fs : FileSystem) (path : String) : Prop :=
  ∃ entries, fs.node path = .ok (.dir entries)

theorem fromUTF8?_eq_some {bytes : ByteArray} :
    String.fromUTF8? bytes = some text ↔ bytes = text.toUTF8 := by
  rw [String.fromUTF8?]
  split_ifs with h
  · rw [Option.some.injEq, ← String.toByteArray_inj, String.toUTF8_eq_toByteArray]
    exact Iff.rfl
  · simp only [false_iff]
    rintro rfl
    exact h text.isValidUTF8

theorem readSource_eq_ok :
    fs.readSource path = .ok text ↔ fs.node path = .ok (.file text.toUTF8) := by
  rw [readSource, read]
  rcases fs.node path with cause | ⟨content⟩ | ⟨entries⟩ | ⟨target⟩
  · simp
  · simp only [Except.ok.injEq, Node.file.injEq]
    rw [← fromUTF8?_eq_some]
    cases String.fromUTF8? content with
    | none => simp
    | some found => simp
  · simp
  · simp

theorem isText_iff : fs.IsText path ↔ (fs.readSource path).isOk = true := by
  rw [IsText]
  simp only [← readSource_eq_ok]
  cases fs.readSource path with
  | error cause => simp [Except.isOk, Except.toBool]
  | ok text => simp [Except.isOk, Except.toBool]

instance (path : String) : Decidable (fs.IsText path) := decidable_of_iff' _ isText_iff

theorem isDirectory_iff : fs.IsDirectory path ↔ (fs.entries? path).isSome = true := by
  rw [IsDirectory, entries?]
  rcases fs.node path with cause | ⟨content⟩ | ⟨entries⟩ | ⟨target⟩ <;> simp

instance (path : String) : Decidable (fs.IsDirectory path) := decidable_of_iff' _ isDirectory_iff

/-! ### Visits -/

theorem visit_eq_scanned {item : WalkItem} :
    fs.visit item = .scanned path text ↔
      item = .ok path ∧ fs.node path = .ok (.file text.toUTF8) := by
  rw [← readSource_eq_ok]
  rcases item with (root | ⟨other, cause⟩) | other
  · simp [visit]
  · simp [visit]
  · rw [visit]
    constructor
    · intro h
      split at h
      · rename_i source hread
        obtain ⟨rfl, rfl⟩ := Visit.scanned.inj h
        exact ⟨rfl, hread⟩
      · simp at h
    · rintro ⟨heq, hread⟩
      obtain rfl := Except.ok.inj heq
      rw [hread]

theorem isScanned_visit_ok :
    (fs.visit (.ok path)).isScanned = decide (fs.IsText path) := by
  rw [Bool.eq_iff_iff, decide_eq_true_iff, isText_iff, visit]
  cases fs.readSource path with
  | error cause => exact Iff.rfl
  | ok text => exact Iff.rfl

theorem isSkipped_visit_ok :
    (fs.visit (.ok path)).isSkipped = decide ¬fs.IsText path := by
  rw [Bool.eq_iff_iff, decide_eq_true_iff, isText_iff, visit]
  cases fs.readSource path with
  | error cause => simp [Visit.isSkipped, Except.isOk, Except.toBool]
  | ok text => simp [Visit.isSkipped, Except.isOk, Except.toBool]

theorem missing?_visit_ok : (fs.visit (.ok path)).missing? = none := by
  rw [visit]
  cases fs.readSource path with
  | error cause => rfl
  | ok text => rfl

end FileSystem

/-- Whether a result of a walk is a directory that could not be opened. -/
def WalkItem.isUnopened : WalkItem → Bool
  | .error (.unopened _ _) => true
  | _ => false

theorem isUnopened_visit (fs : FileSystem) (item : WalkItem) :
    (fs.visit item).isUnopened = WalkItem.isUnopened item := by
  rcases item with (root | ⟨other, cause⟩) | path
  · rfl
  · rfl
  · rw [FileSystem.visit]
    cases fs.readSource path with
    | error cause => rfl
    | ok text => rfl

namespace Config

variable {c : Config} {fs : FileSystem} {root : String}

/-- Below a root no root is missing. -/
theorem missing?_of_mem_walkEntry : ∀ (node : Node) (name path : String),
    ∀ item ∈ c.walkEntry name path node, (fs.visit item).missing? = none := by
  intro node
  induction node using Node.induction with
  | file content =>
    intro name path item hitem
    rw [(mem_candidate.1 hitem).1]
    exact FileSystem.missing?_visit_ok
  | link target =>
    intro name path item hitem
    rw [(mem_candidate.1 hitem).1]
    exact FileSystem.missing?_visit_ok
  | dir inner ih =>
    intro name path item hitem
    rw [walkEntry] at hitem
    split_ifs at hitem
    · exact absurd hitem List.not_mem_nil
    · rw [List.mem_singleton.1 hitem]
      rfl
    · obtain ⟨name', node', hmem, hitem'⟩ := mem_walkEntries.1 hitem
      exact ih (name', node') hmem name' _ item hitem'

/-- The visits of a root report it missing exactly if it is no directory. -/
theorem missing_walkRoot : ((c.walkRoot fs root).map fs.visit).filterMap Visit.missing? =
    if fs.IsDirectory root then [] else [root] := by
  rw [walkRoot]
  cases htop : fs.entries? root with
  | none =>
    have hdir : ¬fs.IsDirectory root := by rw [FileSystem.isDirectory_iff, htop]; simp
    rw [if_neg hdir]
    rfl
  | some top =>
    have hdir : fs.IsDirectory root := by rw [FileSystem.isDirectory_iff, htop]; rfl
    rw [if_pos hdir, List.filterMap_map, List.filterMap_eq_nil_iff]
    intro item hitem
    rcases List.mem_append.1 hitem with hitem | hitem
    · split_ifs at hitem
      · rw [(mem_candidate.1 hitem).1]
        exact FileSystem.missing?_visit_ok
      · exact absurd hitem List.not_mem_nil
    · obtain ⟨name, node, -, hitem'⟩ := mem_walkEntries.1 hitem
      exact missing?_of_mem_walkEntry node name _ item hitem'

theorem visits_eq_flatMap (c : Config) (fs : FileSystem) (base : String) :
    c.visits fs base =
      (c.resolvedRoots base).flatMap fun root => (c.walkRoot fs root).map fs.visit := by
  rw [visits, walk, List.map_flatMap]

theorem missing_visits (c : Config) (fs : FileSystem) (base : String) :
    (c.visits fs base).filterMap Visit.missing? =
      (c.resolvedRoots base).filter fun root => decide ¬fs.IsDirectory root := by
  rw [visits_eq_flatMap]
  induction c.resolvedRoots base with
  | nil => rfl
  | cons root roots ih =>
    rw [List.flatMap_cons, List.filterMap_append, missing_walkRoot, ih, List.filter_cons]
    split_ifs with hdir h h
    · simp [hdir] at h
    · rfl
    · rfl
    · simp [hdir] at h

/-- Counting visits of one kind is counting paths whose visits are of that kind. -/
theorem countP_visits {kind : Visit → Bool} (c : Config) (fs : FileSystem) (base : String)
    (hmissing : ∀ root, kind (.missing root) = false)
    (hunopened : ∀ path cause, kind (.unopened path cause) = false) :
    (c.visits fs base).countP kind =
      (c.files fs base).countP fun path => kind (fs.visit (.ok path)) := by
  rw [visits, files]
  induction c.walk fs base with
  | nil => rfl
  | cons item items ih =>
    rw [List.map_cons, List.countP_cons, List.filterMap_cons, ih]
    rcases item with (root | ⟨path, cause⟩) | path
    · have h : kind (fs.visit (.error (.missingRoot root))) = false := hmissing root
      rw [h]
      rfl
    · have h : kind (fs.visit (.error (.unopened path cause))) = false := hunopened path cause
      rw [h]
      rfl
    · exact List.countP_cons.symm

end Config

/-- The report that is due for a scan: the names referred to in the texts that the walk's paths lead
to, in ascending order; how many of these paths lead to a text and how many do not; and the roots
that are no directories. -/
structure Report.IsOf (r : Report) (c : Config) (fs : FileSystem) (base : String) : Prop where
  ascending : r.modules.Pairwise (· < ·)
  names : ∀ name, name ∈ r.modules ↔ ∃ path text, .ok path ∈ c.walk fs base ∧
    fs.node path = .ok (.file (String.toUTF8 text)) ∧ name ∈ moduleNames text
  scanned : r.filesScanned = (c.files fs base).countP fun path => decide (fs.IsText path)
  skipped : r.filesSkipped = (c.files fs base).countP fun path => decide ¬fs.IsText path
  missing : r.rootsMissing =
    (c.resolvedRoots base).filter fun root => decide ¬fs.IsDirectory root

namespace Config

theorem scan_isOf (c : Config) (fs : FileSystem) (base : String) :
    (c.scan fs base).IsOf c fs base where
  ascending := Report.modules_ascending _
  names name := by
    rw [scan, Report.mem_modules, visits]
    constructor
    · rintro ⟨path, text, hvisit, hname⟩
      obtain ⟨item, hitem, heq⟩ := List.mem_map.1 hvisit
      obtain ⟨rfl, hnode⟩ := FileSystem.visit_eq_scanned.1 heq
      exact ⟨path, text, hitem, hnode, hname⟩
    · rintro ⟨path, text, hitem, hnode, hname⟩
      refine ⟨path, text, List.mem_map.2 ⟨_, hitem, ?_⟩, hname⟩
      exact FileSystem.visit_eq_scanned.2 ⟨rfl, hnode⟩
  scanned := by
    rw [scan, Report.filesScanned_ofVisits, countP_visits c fs base (by simp [Visit.isScanned])
      (by simp [Visit.isScanned])]
    simp only [FileSystem.isScanned_visit_ok]
  skipped := by
    rw [scan, Report.filesSkipped_ofVisits, countP_visits c fs base (by simp [Visit.isSkipped])
      (by simp [Visit.isSkipped])]
    simp only [FileSystem.isSkipped_visit_ok]
  missing := missing_visits c fs base

/-- Scans whose roots give the same visits in some order, and have the same roots missing, report
the same. -/
theorem scan_eq_of_perm {c : Config} {a b : FileSystem} {base : String}
    (hvisits : ∀ root ∈ c.resolvedRoots base,
      ((c.walkRoot a root).map a.visit).Perm ((c.walkRoot b root).map b.visit))
    (hroots : ∀ root ∈ c.resolvedRoots base, a.IsDirectory root ↔ b.IsDirectory root) :
    c.scan a base = c.scan b base := by
  refine Report.ofVisits_perm ?_ ?_
  · rw [visits_eq_flatMap, visits_eq_flatMap]
    exact List.Perm.flatMap_left _ hvisits
  · rw [missing_visits, missing_visits]
    exact List.filter_congr fun root hroot => by simp [hroots root hroot]

end Config

/-! ### The order of directory listings -/

/-- The same tree, with the entries of its directories listed in another order. -/
def FileSystem.Reordered (a b : FileSystem) : Prop :=
  a.cwd = b.cwd ∧ View.full.Alike a.root b.root

namespace FileSystem

variable {a b : FileSystem} {path : String}

theorem Reordered.outcomes (h : a.Reordered b) (hwf : a.root.WellFormed) (followLast : Bool) :
    View.full.AlikeOutcomes (a.resolve path followLast) (b.resolve path followLast) := by
  have hclear (segments : List String) : View.full.Clear segments :=
    View.clear_of_links trivial segments
  exact resolve_alike h.2 hwf (fun _ => cwdTrail_alike h.2 hwf h.1 (hclear _)) (hclear _) followLast

theorem Reordered.visit (h : a.Reordered b) (hwf : a.root.WellFormed) (item : WalkItem) :
    a.visit item = b.visit item := by
  rcases item with (root | ⟨path, cause⟩) | path
  · rfl
  · rfl
  · rw [FileSystem.visit, FileSystem.visit,
      readSource_alike h.2 hwf (fun _ => not_false) (h.outcomes hwf true)]

theorem isDirectory_alike {v : View} (hroot : v.Alike a.root b.root) (hwf : a.root.WellFormed)
    (h : v.AlikeOutcomes (a.resolve path true) (b.resolve path true)) :
    a.IsDirectory path ↔ b.IsDirectory path := by
  rw [isDirectory_iff, isDirectory_iff]
  rcases entries?_alike hroot hwf h with ⟨ha, hb⟩ | ⟨entries, others, ha, hb, -⟩
  · rw [ha, hb]
  · rw [ha, hb]
    exact ⟨fun _ => rfl, fun _ => rfl⟩

end FileSystem

namespace Config

theorem scan_reordered {a b : FileSystem} (c : Config) (base : String) (h : a.Reordered b)
    (hwf : a.root.WellFormed) : c.scan a base = c.scan b base := by
  have hvisit : a.visit = b.visit := funext fun item => h.visit hwf item
  refine scan_eq_of_perm ?_ ?_
  · intro root _
    rw [hvisit]
    exact (walkRoot_perm (fun _ hfalse => absurd hfalse not_false) h.2 hwf
      (h.outcomes hwf)).map b.visit
  · intro root _
    exact FileSystem.isDirectory_alike h.2 hwf (h.outcomes hwf true)

/-- A scan gives the report due, for every tree in whatever order its directories are listed. Errors
of the walk change nothing in it, each path yielded counts as read or as skipped, and a collector
rejects no name found in a text unless it has it already. -/
theorem scan_report (c : Config) (fs : FileSystem) (base : String) :
    (c.scan fs base).IsOf c fs base ∧
    (∀ items : List WalkItem, items.filter (fun item => !WalkItem.isUnopened item) =
        (c.walk fs base).filter (fun item => !WalkItem.isUnopened item) →
      Report.ofVisits (items.map fs.visit) = c.scan fs base) ∧
    (c.scan fs base).filesScanned + (c.scan fs base).filesSkipped = (c.files fs base).length ∧
    (∀ text name, name ∈ moduleNames text → ∀ collector : Collector,
      (collector.insert name).2 = decide (name ∉ collector.names)) ∧
    (∀ other : FileSystem, fs.root.WellFormed → fs.Reordered other →
      c.scan other base = c.scan fs base) := by
  have hreport := scan_isOf c fs base
  refine ⟨hreport, ?_, ?_, ?_, ?_⟩
  · -- only the visits of results other than such errors show in a report
    intro items hitems
    have hfilter (xs : List WalkItem) : (xs.map fs.visit).filter (fun v => !v.isUnopened) =
        (xs.filter fun item => !WalkItem.isUnopened item).map fs.visit := by
      rw [List.filter_map]
      congr 1
      refine List.filter_congr ?_
      intro item _
      rw [Function.comp_apply, isUnopened_visit]
    rw [scan, visits, ← Report.ofVisits_filter, hfilter, hitems, ← hfilter, Report.ofVisits_filter]
  · rw [hreport.scanned, hreport.skipped,
      List.length_eq_countP_add_countP fun path => decide (fs.IsText path)]
    simp
  · intro text name hname collector
    exact Collector.insert_snd collector (isModuleName_of_mem_moduleNames hname)
  · intro other hwf h
    exact (scan_reordered c base h hwf).symm

theorem scan_report_sample : (treeOf sampleProject).root.WellFormed ∧
    (treeOf sampleProject).Reordered (treeOf sampleProject.reverse) ∧
    ({ roots := ["/p"] } : Config).scan (treeOf sampleProject.reverse) "/" =
      ({ roots := ["/p"] } : Config).scan (treeOf sampleProject) "/" := by
  have hreordered : (treeOf sampleProject).Reordered (treeOf sampleProject.reverse) := by
    refine ⟨rfl, View.alike_treeOf ?_⟩
    exact View.alike_of_perm trivial sampleProject.reverse_perm.symm (by decide)
  exact ⟨wellFormed_sample, hreordered,
    (scan_report _ _ _).2.2.2.2 _ wellFormed_sample hreordered⟩

end Config

end ImportScan
