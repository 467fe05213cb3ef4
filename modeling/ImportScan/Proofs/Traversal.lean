import ImportScan.Proofs.Resolution
import ImportScan.Walk
import Mathlib.Data.List.Nodup
import Mathlib.Data.List.Pairwise

/-!
What a walk finds. `Entered` lists the directories below a root that the walk goes into, `Yields`
the results they have to give; the walk gives these, each once, and nothing else.
-/

namespace ImportScan

/-- The path that a result of a walk is about. -/
def WalkItem.path : WalkItem → String
  | .ok path => path
  | .error (.missingRoot root) => root
  | .error (.unopened path _) => path

namespace Config

/-- The directories entered below a root that lists `top`: the place below the root, and what is
listed there. A directory is entered when its name is not left out and the system opens its path. -/
inductive Entered (c : Config) (fs : FileSystem) (root : String) (top : List (String × Node)) :
    List String → List (String × Node) → Prop
  | top : Entered c fs root top [] top
  | enter {place : List String} {name : String} {entries inner : List (String × Node)} :
      Entered c fs root top place entries → (name, .dir inner) ∈ entries →
      c.isExcludedDir name = false → (fs.entries? (Path.below root (place ++ [name]))).isSome →
      Entered c fs root top (place ++ [name]) inner

/-- The results due below a root: each file or link of a directory entered whose path is taken, and
an error for each directory that is not left out and whose path is too long to open. -/
inductive Yields (c : Config) (fs : FileSystem) (root : String) (top : List (String × Node)) :
    WalkItem → Prop
  | file {place : List String} {name : String} {node : Node} {entries : List (String × Node)} :
      Entered c fs root top place entries → (name, node) ∈ entries →
      (∀ inner, node ≠ .dir inner) → c.isSupported (Path.below root (place ++ [name])) = true →
      Yields c fs root top (.ok (Path.below root (place ++ [name])))
  | unopened {place : List String} {name : String} {entries inner : List (String × Node)} :
      Entered c fs root top place entries → (name, .dir inner) ∈ entries →
      c.isExcludedDir name = false →
      fs.node (Path.below root (place ++ [name])) = .error .nameTooLong →
      Yields c fs root top (.error (.unopened (Path.below root (place ++ [name])) .nameTooLong))

/-- The results due for a root: one error if it is no directory; otherwise each result due below it
once, and the root itself if its text names a link whose extension is taken. -/
structure WalksRoot (c : Config) (fs : FileSystem) (root : String) (items : List WalkItem) :
    Prop where
  missing : fs.entries? root = none → items = [.error (.missingRoot root)]
  once : items.Nodup
  exactly : ∀ top, fs.entries? root = some top → ∀ item, item ∈ items ↔
    Yields c fs root top item ∨
      item = .ok root ∧ fs.isLink root = true ∧ c.isSupported root = true

variable {c : Config} {fs : FileSystem} {root : String} {top entries : List (String × Node)}
  {place : List String} {name : String} {item : WalkItem}

/-! ### Entries of a directory -/

theorem walkEntries_eq_flatMap (path : String) : ∀ entries : List (String × Node),
    c.walkEntries path entries =
      entries.flatMap fun entry => c.walkEntry entry.1 (Path.join path entry.1) entry.2
  | [] => rfl
  | (name, node) :: rest => by
    rw [walkEntries, List.flatMap_cons, walkEntries_eq_flatMap path rest]

theorem mem_walkEntries {path : String} : item ∈ c.walkEntries path entries ↔
    ∃ name node, (name, node) ∈ entries ∧ item ∈ c.walkEntry name (Path.join path name) node := by
  rw [walkEntries_eq_flatMap, List.mem_flatMap]
  exact Prod.exists

/-- Listings give what is left of the results of another walk if their entries do. -/
theorem walkEntries_eq_filter {d : Config} {keep : WalkItem → Bool} {path : String}
    (h : ∀ entry ∈ entries, d.walkEntry entry.1 (Path.join path entry.1) entry.2 =
      (c.walkEntry entry.1 (Path.join path entry.1) entry.2).filter keep) :
    d.walkEntries path entries = (c.walkEntries path entries).filter keep := by
  rw [walkEntries_eq_flatMap, walkEntries_eq_flatMap, List.filter_flatMap]
  exact List.flatMap_congr h

theorem mem_candidate {path : String} :
    item ∈ c.candidate path ↔ item = .ok path ∧ c.isSupported path = true := by
  rw [candidate]
  split_ifs with h
  · simp [h]
  · simp [h]

theorem candidate_eq_filter {d : Config} {keep : WalkItem → Bool} {path : String}
    (h : d.isSupported path = (c.isSupported path && keep (.ok path))) :
    d.candidate path = (c.candidate path).filter keep := by
  rw [candidate, candidate, h]
  cases c.isSupported path with
  | false => rfl
  | true =>
    rw [Bool.true_and, if_pos rfl, List.filter_singleton]
    cases keep (.ok path) <;> rfl

theorem walkEntry_of_not_dir {node : Node} {path : String} (h : ∀ inner, node ≠ .dir inner) :
    c.walkEntry name path node = c.candidate path := by
  rcases node with content | inner | target
  · rfl
  · exact absurd rfl (h inner)
  · rfl

/-- A root gives what is left of the results of another walk if the root itself and its entries
do. -/
theorem walkRoot_eq_filter {d : Config} {keep : WalkItem → Bool}
    (hmissing : keep (.error (.missingRoot root)) = true)
    (hself : d.candidate root = (c.candidate root).filter keep)
    (hentry : ∀ top, fs.entries? root = some top → ∀ entry ∈ top,
      d.walkEntry entry.1 (Path.join root entry.1) entry.2 =
        (c.walkEntry entry.1 (Path.join root entry.1) entry.2).filter keep) :
    d.walkRoot fs root = (c.walkRoot fs root).filter keep := by
  rw [walkRoot, walkRoot]
  cases htop : fs.entries? root with
  | none => exact (List.filter_eq_self.2 (List.forall_mem_singleton.2 hmissing)).symm
  | some top =>
    dsimp only
    rw [List.filter_append, ← walkEntries_eq_filter (hentry top htop), hself]
    split_ifs <;> rfl

/-! ### What a walk asks of a configuration -/

/-- A walk asks a configuration only which names of directories are left out and which paths are
taken. So agreement on the names that satisfy `P` is enough where the listings keep to them, which
`Q` says of the nodes on the way. -/
theorem walkEntry_congr_of {d : Config} {P : String → Prop} {Q : Node → Prop}
    (hdown : ∀ inner, Q (.dir inner) → ∀ entry ∈ inner, P entry.1 ∧ Q entry.2)
    (hname : ∀ name, P name → c.isExcludedDir name = d.isExcludedDir name)
    (hpath : ∀ path, c.isSupported path = d.isSupported path) (node : Node) :
    Q node → ∀ name path, P name → c.walkEntry name path node = d.walkEntry name path node := by
  induction node using Node.induction with
  | file content =>
    intro _ name path _
    rw [walkEntry, walkEntry, candidate, candidate, hpath]
  | link target =>
    intro _ name path _
    rw [walkEntry, walkEntry, candidate, candidate, hpath]
  | dir inner ih =>
    intro hnode name path hn
    rw [walkEntry, walkEntry, hname name hn, walkEntries_eq_flatMap, walkEntries_eq_flatMap]
    have hinner : (inner.flatMap fun entry =>
          c.walkEntry entry.1 (Path.join path entry.1) entry.2) =
        inner.flatMap fun entry => d.walkEntry entry.1 (Path.join path entry.1) entry.2 :=
      List.flatMap_congr fun entry hentry =>
        ih entry hentry (hdown inner hnode entry hentry).2 _ _ (hdown inner hnode entry hentry).1
    rw [hinner]

theorem walkRoot_congr_of {d : Config} {P : String → Prop} {Q : Node → Prop}
    (hdown : ∀ inner, Q (.dir inner) → ∀ entry ∈ inner, P entry.1 ∧ Q entry.2)
    (hname : ∀ name, P name → c.isExcludedDir name = d.isExcludedDir name)
    (hpath : ∀ path, c.isSupported path = d.isSupported path)
    (htop : ∀ top, fs.entries? root = some top → Q (.dir top)) :
    c.walkRoot fs root = d.walkRoot fs root := by
  rw [walkRoot, walkRoot]
  cases h : fs.entries? root with
  | none => rfl
  | some top =>
    have hentries : c.walkEntries root top = d.walkEntries root top := by
      rw [walkEntries_eq_flatMap, walkEntries_eq_flatMap]
      refine List.flatMap_congr fun entry hentry => ?_
      obtain ⟨hn, hnode⟩ := hdown top (htop top h) entry hentry
      exact walkEntry_congr_of hdown hname hpath entry.2 hnode _ _ hn
    simp only [hentries, candidate, hpath]

theorem walkRoot_congr {d : Config} (hname : ∀ name, c.isExcludedDir name = d.isExcludedDir name)
    (hpath : ∀ path, c.isSupported path = d.isSupported path) (root : String) :
    c.walkRoot fs root = d.walkRoot fs root :=
  walkRoot_congr_of (P := fun _ => True) (Q := fun _ => True) (fun _ _ _ _ => ⟨trivial, trivial⟩)
    (fun name _ => hname name) hpath fun _ _ => trivial

theorem walk_congr_of {d : Config} (hroots : c.roots = d.roots)
    (h : ∀ root, c.walkRoot fs root = d.walkRoot fs root) (base : String) :
    c.walk fs base = d.walk fs base := by
  rw [walk, walk, resolvedRoots, resolvedRoots, hroots]
  exact List.flatMap_congr fun root _ => h root

theorem walk_congr {d : Config} (hroots : c.roots = d.roots)
    (hname : ∀ name, c.isExcludedDir name = d.isExcludedDir name)
    (hpath : ∀ path, c.isSupported path = d.isSupported path) (base : String) :
    c.walk fs base = d.walk fs base :=
  walk_congr_of hroots (walkRoot_congr hname hpath) base

/-! ### Directories entered -/

theorem Entered.resolve (hwf : fs.root.WellFormed) (htop : fs.entries? root = some top)
    (h : Entered c fs root top place entries) :
    ∃ trail, fs.resolve (Path.below root place) true = .ok trail ∧
      trail.node fs.root = .dir entries := by
  induction h with
  | top => exact FileSystem.entries?_eq_some.1 htop
  | @enter place name entries inner h hmem hname hopen ih =>
    obtain ⟨trail, hres, hd⟩ := ih
    have hdir := (FileSystem.rooted_resolve hres).wellFormed hwf
    rw [hd] at hdir
    have hlook := (Listing.lookup_eq_some hdir.nodup).2 hmem
    rw [Path.below_concat] at hopen ⊢
    obtain ⟨found, hfound⟩ := Option.isSome_iff_exists.1 hopen
    obtain ⟨trail', hres', -⟩ := FileSystem.entries?_eq_some.1 hfound
    have hjoin := FileSystem.resolve_join true hres hd (hdir.isEntryName hmem) hlook (by simp)
    rw [hres'] at hjoin
    split_ifs at hjoin
    obtain rfl := Except.ok.inj hjoin
    exact ⟨_, hres', rfl⟩

theorem Entered.wellFormed (hwf : fs.root.WellFormed) (htop : fs.entries? root = some top)
    (h : Entered c fs root top place entries) : (Node.dir entries).WellFormed := by
  obtain ⟨trail, hres, hd⟩ := h.resolve hwf htop
  rw [← hd]
  exact (FileSystem.rooted_resolve hres).wellFormed hwf

/-- What the path of an entry of a directory entered stands for, when the entry is no link. -/
theorem Entered.node_entry (hwf : fs.root.WellFormed) (htop : fs.entries? root = some top)
    (h : Entered c fs root top place entries) {node : Node} (hmem : (name, node) ∈ entries)
    (hnode : ∀ target, node ≠ .link target) :
    fs.node (Path.below root (place ++ [name])) =
      if FileSystem.maxPathBytes ≤ (Path.below root (place ++ [name])).utf8ByteSize
      then .error .nameTooLong else .ok node := by
  obtain ⟨trail, hres, hd⟩ := h.resolve hwf htop
  have hdir := h.wellFormed hwf htop
  rw [Path.below_concat]
  exact FileSystem.node_join hres hd (hdir.isEntryName hmem)
    ((Listing.lookup_eq_some hdir.nodup).2 hmem) hnode

/-! ### The walk yields what is due -/

/-- All that the walk finds in a directory entered is among the results for the root. -/
theorem Entered.subset (hwf : fs.root.WellFormed) (htop : fs.entries? root = some top)
    (h : Entered c fs root top place entries)
    (hitem : item ∈ c.walkEntries (Path.below root place) entries) :
    item ∈ c.walkEntries root top := by
  induction h with
  | top => exact hitem
  | @enter place name entries inner h hmem hname hopen ih =>
    refine ih (mem_walkEntries.2 ⟨name, .dir inner, hmem, ?_⟩)
    have hnode := h.node_entry hwf htop hmem (by simp)
    have hshort : ¬FileSystem.maxPathBytes ≤
        (Path.below root (place ++ [name])).utf8ByteSize := by
      intro hlong
      rw [if_pos hlong] at hnode
      rw [FileSystem.entries?, hnode] at hopen
      simp at hopen
    rw [Path.below_concat] at hshort hitem
    rw [walkEntry, hname, if_neg (by simp), if_neg hshort]
    exact hitem

theorem mem_of_yields (hwf : fs.root.WellFormed) (htop : fs.entries? root = some top)
    (h : Yields c fs root top item) : item ∈ c.walkEntries root top := by
  cases h with
  | @file place name node entries he hmem hnode hext =>
    refine he.subset hwf htop (mem_walkEntries.2 ⟨name, node, hmem, ?_⟩)
    rw [walkEntry_of_not_dir hnode, ← Path.below_concat]
    exact mem_candidate.2 ⟨rfl, hext⟩
  | @unopened place name entries inner he hmem hname hlong =>
    refine he.subset hwf htop (mem_walkEntries.2 ⟨name, .dir inner, hmem, ?_⟩)
    rw [he.node_entry hwf htop hmem (by simp)] at hlong
    split_ifs at hlong with hsize
    rw [← Path.below_concat, walkEntry, hname, if_neg (by simp), if_pos hsize]
    exact List.mem_singleton_self _

/-- The walk of an entry of a directory entered gives only what is due. -/
theorem yields_of_mem_walkEntry (hwf : fs.root.WellFormed) (htop : fs.entries? root = some top) :
    ∀ node place entries name, Entered c fs root top place entries → (name, node) ∈ entries →
      ∀ item ∈ c.walkEntry name (Path.below root (place ++ [name])) node,
        Yields c fs root top item := by
  intro node
  induction node using Node.induction with
  | file content =>
    intro place entries name he hmem item hitem
    obtain ⟨rfl, hext⟩ := mem_candidate.1 hitem
    exact .file he hmem (by simp) hext
  | link target =>
    intro place entries name he hmem item hitem
    obtain ⟨rfl, hext⟩ := mem_candidate.1 hitem
    exact .file he hmem (by simp) hext
  | dir inner ih =>
    intro place entries name he hmem item hitem
    have hnode := he.node_entry hwf htop hmem (by simp)
    rw [walkEntry] at hitem
    split_ifs at hitem with hname hlong
    · exact absurd hitem List.not_mem_nil
    · rw [if_pos hlong] at hnode
      rw [List.mem_singleton.1 hitem]
      exact .unopened he hmem (by simpa using hname) hnode
    · rw [if_neg hlong] at hnode
      have hopen : (fs.entries? (Path.below root (place ++ [name]))).isSome := by
        rw [FileSystem.entries?, hnode]; rfl
      have hin : Entered c fs root top (place ++ [name]) inner :=
        .enter he hmem (by simpa using hname) hopen
      obtain ⟨name', node', hmem', hitem'⟩ := mem_walkEntries.1 hitem
      rw [← Path.below_concat] at hitem'
      exact ih (name', node') hmem' _ _ _ hin hmem' item hitem'

theorem mem_walkEntries_iff (hwf : fs.root.WellFormed) (htop : fs.entries? root = some top) :
    item ∈ c.walkEntries root top ↔ Yields c fs root top item := by
  refine ⟨?_, mem_of_yields hwf htop⟩
  intro h
  obtain ⟨name, node, hmem, hitem⟩ := mem_walkEntries.1 h
  exact yields_of_mem_walkEntry hwf htop node [] top name .top hmem item hitem

/-! ### No result comes twice -/

/-- The walk of an entry stays below its path. -/
theorem path_of_mem_walkEntry : ∀ (node : Node) (name path : String), node.WellFormed →
    ∀ item ∈ c.walkEntry name path node, ∃ more : List String,
      (∀ n ∈ more, Path.IsEntryName n) ∧ WalkItem.path item = Path.below path more := by
  intro node
  induction node using Node.induction with
  | file content =>
    intro name path _ item hitem
    obtain ⟨rfl, -⟩ := mem_candidate.1 hitem
    exact ⟨[], by simp, rfl⟩
  | link target =>
    intro name path _ item hitem
    obtain ⟨rfl, -⟩ := mem_candidate.1 hitem
    exact ⟨[], by simp, rfl⟩
  | dir inner ih =>
    intro name path hwf item hitem
    rw [walkEntry] at hitem
    split_ifs at hitem
    · exact absurd hitem List.not_mem_nil
    · rw [List.mem_singleton.1 hitem]
      exact ⟨[], by simp, rfl⟩
    · obtain ⟨name', node', hmem, hitem'⟩ := mem_walkEntries.1 hitem
      obtain ⟨more, hmore, hpath⟩ := ih (name', node') hmem name' _ (hwf.entry hmem) item hitem'
      refine ⟨name' :: more, ?_, hpath⟩
      intro n hn
      rcases List.mem_cons.1 hn with rfl | hn
      · exact hwf.isEntryName hmem
      · exact hmore n hn

theorem path_of_mem_walkEntries {path : String} (hwf : (Node.dir entries).WellFormed)
    (hmem : ∃ node, (name, node) ∈ entries ∧ item ∈ c.walkEntry name (Path.join path name) node) :
    ∃ more : List String, (∀ n ∈ name :: more, Path.IsEntryName n) ∧
      WalkItem.path item = Path.below path (name :: more) := by
  obtain ⟨node, hmem, hitem⟩ := hmem
  obtain ⟨more, hmore, hpath⟩ := path_of_mem_walkEntry node name _ (hwf.entry hmem) item hitem
  refine ⟨more, ?_, hpath⟩
  intro n hn
  rcases List.mem_cons.1 hn with rfl | hn
  · exact hwf.isEntryName hmem
  · exact hmore n hn

/-- Entries of different names have no result in common. -/
theorem nodup_walkEntries {path : String} (hwf : (Node.dir entries).WellFormed)
    (hentry : ∀ entry ∈ entries,
      (c.walkEntry entry.1 (Path.join path entry.1) entry.2).Nodup) :
    (c.walkEntries path entries).Nodup := by
  rw [walkEntries_eq_flatMap, List.nodup_flatMap]
  refine ⟨hentry, ?_⟩
  refine (List.pairwise_map.1 hwf.nodup).imp_of_mem ?_
  intro a b ha hb hne item hia hib
  obtain ⟨more, hmore, hpath⟩ := path_of_mem_walkEntries hwf ⟨a.2, ha, hia⟩
  obtain ⟨more', hmore', hpath'⟩ := path_of_mem_walkEntries hwf ⟨b.2, hb, hib⟩
  exact hne (List.cons.inj (Path.below_inj hmore hmore' (hpath.symm.trans hpath'))).1

theorem nodup_walkEntry : ∀ (node : Node) (name path : String), node.WellFormed →
    (c.walkEntry name path node).Nodup := by
  have hcandidate (path : String) : (c.candidate path).Nodup := by
    rw [candidate]
    split_ifs
    · exact List.nodup_singleton _
    · exact List.nodup_nil
  intro node
  induction node using Node.induction with
  | file content => exact fun name path _ => hcandidate path
  | link target => exact fun name path _ => hcandidate path
  | dir inner ih =>
    intro name path hwf
    rw [walkEntry]
    split_ifs
    · exact List.nodup_nil
    · exact List.nodup_singleton _
    · exact nodup_walkEntries hwf fun entry he => ih entry he _ _ (hwf.entry he)

/-! ### Roots -/

theorem walksRoot_walkRoot (hwf : fs.root.WellFormed) (root : String) :
    WalksRoot c fs root (c.walkRoot fs root) := by
  have hmissing (h : fs.entries? root = none) :
      c.walkRoot fs root = [.error (.missingRoot root)] := by
    rw [walkRoot, h]
  have hfound (top) (h : fs.entries? root = some top) : c.walkRoot fs root =
      (if fs.isLink root then c.candidate root else []) ++ c.walkEntries root top := by
    rw [walkRoot, h]
  refine ⟨hmissing, ?_, ?_⟩
  · cases h : fs.entries? root with
    | none =>
      rw [hmissing h]
      exact List.nodup_singleton _
    | some top =>
      have htop : (Node.dir top).WellFormed := Entered.wellFormed (c := c) hwf h .top
      rw [hfound top h]
      refine List.nodup_append'.2 ⟨?_, ?_, ?_⟩
      · split_ifs
        · exact nodup_walkEntry (c := c) (.link "") "" root (.link "")
        · exact List.nodup_nil
      · exact nodup_walkEntries htop fun entry he => nodup_walkEntry _ _ _ (htop.entry he)
      · -- what lies below the root has a longer path than the root itself
        intro item hroot hbelow
        split_ifs at hroot
        · obtain ⟨rfl, -⟩ := mem_candidate.1 hroot
          obtain ⟨name, node, hmem, hitem⟩ := mem_walkEntries.1 hbelow
          obtain ⟨more, hmore, hpath⟩ := path_of_mem_walkEntries htop ⟨node, hmem, hitem⟩
          have hnil : [] = name :: more := Path.below_inj (by simp) hmore hpath
          exact absurd hnil (by simp)
        · simp at hroot
  · intro top h item
    rw [hfound top h, List.mem_append, mem_walkEntries_iff hwf h, or_comm]
    split_ifs with hlink
    · rw [mem_candidate]
      simp [hlink]
    · simp [hlink]

/-- A walk is one block of results for each root, in configured order, and each block holds exactly
the results due for its root, each once. -/
theorem walk_eq_blocks (c : Config) (fs : FileSystem) (base : String)
    (hwf : fs.root.WellFormed) :
    ∃ blocks : List (List WalkItem), c.walk fs base = blocks.flatten ∧
      List.Forall₂ (WalksRoot c fs) (c.resolvedRoots base) blocks := by
  refine ⟨(c.resolvedRoots base).map (c.walkRoot fs), ?_, ?_⟩
  · rw [walk, List.flatMap_def]
  · rw [List.forall₂_map_right_iff, List.forall₂_same]
    exact fun root _ => walksRoot_walkRoot hwf root

theorem walk_eq_blocks_sample : (treeOf sampleProject).root.WellFormed ∧
    ({ roots := ["/p"] } : Config).walk (treeOf sampleProject) "/" =
      [.ok "/p/a.js", .ok "/p/b.js"] ∧
    ∃ blocks : List (List WalkItem),
      ({ roots := ["/p"] } : Config).walk (treeOf sampleProject) "/" = blocks.flatten ∧
      List.Forall₂ (WalksRoot { roots := ["/p"] } (treeOf sampleProject)) ["/p"] blocks :=
  ⟨wellFormed_sample, by decide, walk_eq_blocks _ _ _ wellFormed_sample⟩

end Config

end ImportScan
