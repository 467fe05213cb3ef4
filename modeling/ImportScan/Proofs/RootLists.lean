import ImportScan.Proofs.ScanReport

/-!
How the list of roots shows in a report. Each root is scanned for itself: the report of two lists of
roots put together is the sum of their reports, so the names depend on which roots there are, and
neither on their order nor on how often a root is listed.
-/

namespace ImportScan

/-- The report that two others add up to: all names of both, sorted and each listed once, the counts
added, and the missing roots of the one before those of the other. -/
structure Report.IsSum (r a b : Report) : Prop where
  ascending : r.modules.Pairwise (· < ·)
  names : ∀ name, name ∈ r.modules ↔ name ∈ a.modules ∨ name ∈ b.modules
  scanned : r.filesScanned = a.filesScanned + b.filesScanned
  skipped : r.filesSkipped = a.filesSkipped + b.filesSkipped
  missing : r.rootsMissing = a.rootsMissing ++ b.rootsMissing

/-- Visits one after another report the sum of what they report apart. -/
theorem Report.isSum_ofVisits (visits others : List Visit) :
    (ofVisits (visits ++ others)).IsSum (ofVisits visits) (ofVisits others) where
  ascending := modules_ascending _
  names name := by
    simp only [mem_modules, List.mem_append]
    constructor
    · rintro ⟨path, source, hmem | hmem, hname⟩
      · exact Or.inl ⟨path, source, hmem, hname⟩
      · exact Or.inr ⟨path, source, hmem, hname⟩
    · rintro (⟨path, source, hmem, hname⟩ | ⟨path, source, hmem, hname⟩)
      · exact ⟨path, source, Or.inl hmem, hname⟩
      · exact ⟨path, source, Or.inr hmem, hname⟩
  scanned := by simp only [filesScanned_ofVisits, List.countP_append]
  skipped := by simp only [filesSkipped_ofVisits, List.countP_append]
  missing := List.filterMap_append

namespace Config

variable {c : Config} {fs : FileSystem} {base : String}

/-- The visits of a list of roots, root by root. -/
theorem visits_withRoots (roots : List String) : (c.withRoots roots).visits fs base =
    roots.flatMap fun root => (c.walkRoot fs (Path.join base root)).map fs.visit := by
  have hroot (root : String) : (c.withRoots roots).walkRoot fs root = c.walkRoot fs root :=
    walkRoot_congr (c := c.withRoots roots) (d := c) (fun _ => rfl) (fun _ => rfl) root
  rw [visits_eq_flatMap, resolvedRoots, withRoots, List.flatMap_map]
  exact List.flatMap_congr fun root _ => congrArg (List.map fs.visit) (hroot _)

theorem scan_withRoots_append (first rest : List String) :
    ((c.withRoots (first ++ rest)).scan fs base).IsSum ((c.withRoots first).scan fs base)
      ((c.withRoots rest).scan fs base) := by
  rw [scan, visits_withRoots, List.flatMap_append, ← visits_withRoots, ← visits_withRoots]
  exact Report.isSum_ofVisits _ _

theorem modules_withRoots {roots others : List String} (h : ∀ root, root ∈ roots ↔ root ∈ others) :
    ((c.withRoots roots).scan fs base).modules = ((c.withRoots others).scan fs base).modules := by
  refine Report.modules_ext (Report.modules_ascending _) (Report.modules_ascending _) ?_
  intro name
  rw [scan, scan, Report.mem_modules, Report.mem_modules, visits_withRoots, visits_withRoots]
  simp only [List.mem_flatMap, h]

/-- Scanning is a homomorphism in the list of roots, whether these overlap, repeat or are missing:
nothing met below one root changes what another adds to the report. So permuting or repeating roots
never changes the names, and leaving out a root that is still listed elsewhere changes the counts
and the missing roots alone. -/
theorem scan_roots (c : Config) (fs : FileSystem) (base : String) (first rest : List String) :
    ((c.withRoots (first ++ rest)).scan fs base).IsSum ((c.withRoots first).scan fs base)
        ((c.withRoots rest).scan fs base) ∧
      (∀ roots others : List String, (∀ root, root ∈ roots ↔ root ∈ others) →
        ((c.withRoots roots).scan fs base).modules =
          ((c.withRoots others).scan fs base).modules) ∧
      ∀ root ∈ first ++ rest,
        ((c.withRoots (first ++ root :: rest)).scan fs base).modules =
          ((c.withRoots (first ++ rest)).scan fs base).modules := by
  refine ⟨scan_withRoots_append first rest, fun roots others h => modules_withRoots h, ?_⟩
  intro root hroot
  refine modules_withRoots fun other => ?_
  rw [List.mem_append, List.mem_cons, List.mem_append]
  constructor
  · rintro (h | rfl | h)
    · exact Or.inl h
    · exact List.mem_append.1 hroot
    · exact Or.inr h
  · rintro (h | h)
    · exact Or.inl h
    · exact Or.inr (Or.inr h)

/-- A root inside another, a missing one, and a root listed twice. -/
theorem scan_roots_sample :
    let scan (roots : List String) :=
      (({} : Config).withRoots roots).scan (treeOf sampleProject) "/"
    (scan ["p/node_modules", "q", "p"]).IsSum (scan ["p/node_modules"]) (scan ["q", "p"]) ∧
      (scan ["q", "p", "p"]).modules = (scan ["p", "q"]).modules ∧
      (scan ["p/node_modules", "p", "q", "p"]).modules =
        (scan ["p/node_modules", "q", "p"]).modules ∧
      (scan ["p/node_modules", "p", "q", "p"]).filesScanned ≠
        (scan ["p/node_modules", "q", "p"]).filesScanned := by
  intro scan
  obtain ⟨hsum, hmodules, hrepeated⟩ :=
    scan_roots {} (treeOf sampleProject) "/" ["p/node_modules"] ["q", "p"]
  have hsame : ∀ root, root ∈ ["q", "p", "p"] ↔ root ∈ ["p", "q"] := by
    intro root
    simp only [List.mem_cons, List.not_mem_nil, or_false]
    tauto
  exact ⟨hsum, hmodules _ _ hsame, hrepeated "p" (by decide), by decide +kernel⟩

end Config

end ImportScan
