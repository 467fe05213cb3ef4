import ImportScan.Proofs.Traversal

/-!
Where a walk finds its files. As long as no path gets too long, a walk yields below a root just the
paths of its `places`, the names on the way to each file that is taken; these depend on the
directory that the root leads to, and not on the text of the root.
-/

namespace ImportScan.Config

mutual

/-- The places of the files that are taken at an entry of a directory. -/
def entryPlaces (c : Config) (name : String) : Node → List (List String)
  | .dir entries => if c.isExcludedDir name then [] else (c.places entries).map (name :: ·)
  | .file _ => if c.isSupported name then [[name]] else []
  | .link _ => if c.isSupported name then [[name]] else []

/-- The places of the files that are taken below a directory: the names on the way to each. -/
def places (c : Config) : List (String × Node) → List (List String)
  | [] => []
  | (name, node) :: rest => c.entryPlaces name node ++ c.places rest

end

/-- No path that a walk forms below a root is too long. -/
def ShortBelow (c : Config) (fs : FileSystem) (root : String) : Prop :=
  ∀ top place entries name node, fs.entries? root = some top →
    c.Entered fs root top place entries → (name, node) ∈ entries →
    (Path.below root (place ++ [name])).utf8ByteSize < FileSystem.maxPathBytes

/-- Nothing that a scan does below a root meets a limit of the system: no path formed there is too
long, and no path read leads through too many links. -/
structure WithinLimits (c : Config) (fs : FileSystem) (root : String) : Prop where
  short : ∀ top place entries name node, fs.entries? root = some top →
    c.Entered fs root top place entries → (name, node) ∈ entries →
    (Path.below root (place ++ [name])).utf8ByteSize < FileSystem.maxPathBytes
  links : ∀ path, .ok path ∈ c.walkRoot fs root → fs.node path ≠ .error .tooManyLinks

variable {c : Config} {fs : FileSystem} {root name : String} {top entries : List (String × Node)}
  {place : List String}

theorem places_eq_flatMap : ∀ entries : List (String × Node),
    c.places entries = entries.flatMap fun entry => c.entryPlaces entry.1 entry.2
  | [] => rfl
  | (name, node) :: rest => by rw [places, List.flatMap_cons, places_eq_flatMap rest]

/-- A place is reached over names of entries, one at least. -/
theorem isEntryName_of_mem_entryPlaces : ∀ (node : Node) (name : String), node.WellFormed →
    Path.IsEntryName name → ∀ place ∈ c.entryPlaces name node,
      place ≠ [] ∧ ∀ n ∈ place, Path.IsEntryName n := by
  have hfile {name : String} (hname : Path.IsEntryName name) {place : List String}
      (h : place ∈ if c.isSupported name then [[name]] else []) :
      place ≠ [] ∧ ∀ n ∈ place, Path.IsEntryName n := by
    split_ifs at h
    · obtain rfl := List.mem_singleton.1 h
      exact ⟨List.cons_ne_nil _ _, fun n hn => List.mem_singleton.1 hn ▸ hname⟩
    · exact absurd h List.not_mem_nil
  intro node
  induction node using Node.induction with
  | file content => exact fun name _ hname place h => hfile hname h
  | link target => exact fun name _ hname place h => hfile hname h
  | dir inner ih =>
    intro name hwf hname place h
    rw [entryPlaces] at h
    split_ifs at h
    · exact absurd h List.not_mem_nil
    · obtain ⟨rest, hrest, rfl⟩ := List.mem_map.1 h
      rw [places_eq_flatMap] at hrest
      obtain ⟨⟨name', node'⟩, hmem, hrest⟩ := List.mem_flatMap.1 hrest
      obtain ⟨-, hnames⟩ :=
        ih _ hmem name' (hwf.entry hmem) (hwf.isEntryName hmem) rest hrest
      exact ⟨List.cons_ne_nil _ _, List.forall_mem_cons.2 ⟨hname, hnames⟩⟩

theorem isEntryName_of_mem_places (hwf : (Node.dir entries).WellFormed)
    (h : place ∈ c.places entries) : place ≠ [] ∧ ∀ n ∈ place, Path.IsEntryName n := by
  rw [places_eq_flatMap] at h
  obtain ⟨⟨name, node⟩, hmem, h⟩ := List.mem_flatMap.1 h
  exact isEntryName_of_mem_entryPlaces node name (hwf.entry hmem) (hwf.isEntryName hmem) place h

/-- Where no path is too long, the walk of an entry of a directory entered yields the places at
it. -/
theorem walkEntry_eq_places (hwf : fs.root.WellFormed) (htop : fs.entries? root = some top)
    (hpaths : c.ShortBelow fs root) : ∀ node place entries name,
      c.Entered fs root top place entries → (name, node) ∈ entries →
      c.walkEntry name (Path.below root (place ++ [name])) node =
        (c.entryPlaces name node).map fun rest => .ok (Path.below root (place ++ rest)) := by
  have hfile {place : List String} {name : String} (hname : Path.IsEntryName name) :
      c.candidate (Path.below root (place ++ [name])) =
        (if c.isSupported name then [[name]] else []).map
          fun rest => .ok (Path.below root (place ++ rest)) := by
    rw [candidate, Path.below_concat, isSupported_join c hname]
    split_ifs
    · rw [List.map_singleton, Path.below_concat]
    · rfl
  intro node
  induction node using Node.induction with
  | file content =>
    exact fun place entries name he hmem => hfile ((he.wellFormed hwf htop).isEntryName hmem)
  | link target =>
    exact fun place entries name he hmem => hfile ((he.wellFormed hwf htop).isEntryName hmem)
  | dir inner ih =>
    intro place entries name he hmem
    have hshort := hpaths top place entries name _ htop he hmem
    rw [walkEntry, entryPlaces, if_neg (Nat.not_le.2 hshort)]
    split_ifs with hname
    · rfl
    · have hopen : (fs.entries? (Path.below root (place ++ [name]))).isSome := by
        rw [FileSystem.entries?, he.node_entry hwf htop hmem (by simp),
          if_neg (Nat.not_le.2 hshort)]
        rfl
      have hin : c.Entered fs root top (place ++ [name]) inner :=
        .enter he hmem (by simpa using hname) hopen
      rw [walkEntries_eq_flatMap, places_eq_flatMap, List.map_map, List.map_flatMap]
      refine List.flatMap_congr fun entry hentry => ?_
      rw [← Path.below_concat, ih entry hentry _ _ _ hin hentry]
      simp only [Function.comp_def, List.append_assoc, List.singleton_append]

/-- Where no path is too long, a walk yields below a root the path of each place, and nothing
else. -/
theorem walkEntries_eq_places (hwf : fs.root.WellFormed) (htop : fs.entries? root = some top)
    (hpaths : c.ShortBelow fs root) :
    c.walkEntries root top = (c.places top).map fun place => .ok (Path.below root place) := by
  rw [walkEntries_eq_flatMap, places_eq_flatMap, List.map_flatMap]
  refine List.flatMap_congr fun entry hentry => ?_
  exact walkEntry_eq_places hwf htop hpaths entry.2 [] top entry.1 .top hentry

theorem ShortBelow.short (hwf : fs.root.WellFormed) (htop : fs.entries? root = some top)
    (hpaths : c.ShortBelow fs root) (h : place ∈ c.places top) :
    (Path.below root place).utf8ByteSize < FileSystem.maxPathBytes := by
  have hitem : .ok (Path.below root place) ∈ c.walkEntries root top := by
    rw [walkEntries_eq_places hwf htop hpaths]
    exact List.mem_map_of_mem h
  have hyields := (mem_walkEntries_iff hwf htop).1 hitem
  generalize Path.below root place = path at *
  cases hyields with
  | file he hmem _ _ => exact hpaths top _ _ _ _ htop he hmem

/-- The path of a place within the limits is short and leads through few enough links. -/
theorem WithinLimits.usable (hwf : fs.root.WellFormed) (htop : fs.entries? root = some top)
    (hlimits : c.WithinLimits fs root) (h : place ∈ c.places top) :
    (Path.below root place).utf8ByteSize < FileSystem.maxPathBytes ∧
      fs.node (Path.below root place) ≠ .error .tooManyLinks := by
  refine ⟨ShortBelow.short hwf htop hlimits.short h, hlimits.links _ ?_⟩
  rw [walkRoot, htop]
  refine List.mem_append_right _ ?_
  rw [walkEntries_eq_places hwf htop hlimits.short]
  exact List.mem_map_of_mem h

end ImportScan.Config
