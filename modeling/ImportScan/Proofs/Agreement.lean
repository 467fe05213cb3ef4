import ImportScan.FileSystem.Source
import ImportScan.Proofs.Resolution
import Mathlib.Data.List.Perm.Basic

/-!
Two trees that look alike. A `View` says which parts of a tree are not looked at; trees are `Alike`
when all else is the same up to the order of entries. Along a path that keeps out of the hidden
directories both trees give the same answer, and a walk that leaves these directories out finds the
same in both.
-/

namespace ImportScan

/-- What is seen of a tree: into directories of the `hidden` names nobody looks, nor at the bytes of
files of the `blind` names. Links may lead anywhere, so where there are `links` all is seen. -/
structure View where
  hidden : String → Prop
  blind : String → Prop
  links : Prop
  all_seen : links → ∀ name, ¬hidden name ∧ ¬blind name

namespace View

/-- The view of a tree in which only the order of entries does not show. -/
def full : View where
  hidden _ := False
  blind _ := False
  links := True
  all_seen _ _ := ⟨not_false, not_false⟩

/-- Whether two entries of a name may differ in what they hold. -/
def MayDiffer (v : View) (name : String) : Node → Node → Prop
  | .file _, .file _ => v.blind name
  | .dir _, .dir _ => v.hidden name
  | _, _ => False

/-- Nodes that look alike: directories list the same names in any order, and entries of a name that
may not differ look alike again. -/
inductive Alike (v : View) : Node → Node → Prop
  | file (content : ByteArray) : Alike v (.file content) (.file content)
  | link (target : String) : v.links → Alike v (.link target) (.link target)
  | dir {entries others : List (String × Node)} :
      (entries.map Prod.fst).Perm (others.map Prod.fst) →
      (∀ name m n, (name, m) ∈ entries → (name, n) ∈ others → ¬v.MayDiffer name m n →
        Alike v m n) →
      Alike v (.dir entries) (.dir others)

/-- Entries of a name that look alike as far as a path may go on from them. -/
def Seen (v : View) (x y : String × Node) : Prop :=
  x.1 = y.1 ∧ x.2.WellFormed ∧
    (v.Alike x.2 y.2 ∨ ∃ content other, x.2 = .file content ∧ y.2 = .file other ∧ v.blind x.1)

/-- Trails that pass entries of the same names which look alike. -/
def AlikeTrails (v : View) : Trail → Trail → Prop := List.Forall₂ v.Seen

/-- Outcomes of following a path: the same error or trails that look alike. -/
inductive AlikeOutcomes (v : View) : Except OsError Trail → Except OsError Trail → Prop
  | ok {t u : Trail} : v.AlikeTrails t u → AlikeOutcomes v (.ok t) (.ok u)
  | error (cause : OsError) : AlikeOutcomes v (.error cause) (.error cause)

/-- Segments that lead into no hidden directory. -/
def Clear (v : View) (segments : List String) : Prop :=
  ∀ name ∈ segments, name ≠ "" → name ≠ "." → name ≠ ".." → ¬v.hidden name

variable {v : View} {a b m n : Node} {t u : Trail} {name : String}
  {entries others : List (String × Node)}

/-! ### Looking up a name -/

theorem Alike.names (h : v.Alike (.dir entries) (.dir others)) :
    (entries.map Prod.fst).Perm (others.map Prod.fst) := by
  cases h with
  | dir hnames _ => exact hnames

theorem Alike.entry (h : v.Alike (.dir entries) (.dir others)) (hm : (name, m) ∈ entries)
    (hn : (name, n) ∈ others) (hdiffer : ¬v.MayDiffer name m n) : v.Alike m n := by
  cases h with
  | dir _ hentries => exact hentries name m n hm hn hdiffer

/-- An entry on one side has its like on the other. -/
theorem Alike.exists_entry (h : v.Alike (.dir entries) (.dir others)) (hm : (name, m) ∈ entries) :
    ∃ n, (name, n) ∈ others := by
  obtain ⟨⟨name', n⟩, hn, rfl⟩ := List.mem_map.1 (h.names.mem_iff.1 (Listing.mem_names hm))
  exact ⟨n, hn⟩

theorem Alike.lookup_eq_none (h : v.Alike (.dir entries) (.dir others)) :
    entries.lookup name = none ↔ others.lookup name = none := by
  rw [Listing.lookup_eq_none, Listing.lookup_eq_none, h.names.mem_iff]

/-- Outside the hidden directories, what one side holds under a name is seen on the other. -/
theorem Alike.seen (h : v.Alike (.dir entries) (.dir others))
    (hwf : (Node.dir entries).WellFormed) (hclear : ¬v.hidden name)
    (hm : entries.lookup name = some m) (hn : others.lookup name = some n) :
    v.Seen (name, m) (name, n) := by
  have hmem := Listing.mem_of_lookup hm
  refine ⟨rfl, hwf.entry hmem, ?_⟩
  by_cases hdiffer : v.MayDiffer name m n
  · rcases m with content | inner | target
    · rcases n with other | inner | target
      · exact Or.inr ⟨content, other, rfl, rfl, hdiffer⟩
      · exact absurd hdiffer not_false
      · exact absurd hdiffer not_false
    · rcases n with other | inner | target
      · exact absurd hdiffer not_false
      · exact absurd hdiffer hclear
      · exact absurd hdiffer not_false
    · exact absurd hdiffer (by simp [MayDiffer])
  · exact Or.inl (h.entry hmem (Listing.mem_of_lookup hn) hdiffer)

/-- Where links may be there, a tree looks like itself. -/
theorem alike_self (hlinks : v.links) : ∀ node : Node, node.WellFormed → v.Alike node node := by
  intro node
  induction node using Node.induction with
  | file content => exact fun _ => .file content
  | link target => exact fun _ => .link target hlinks
  | dir entries ih =>
    intro hwf
    refine .dir (.refl _) ?_
    intro name m n hm hn _
    rw [Listing.node_unique hwf.nodup hn hm]
    exact ih (name, m) hm (hwf.entry hm)

/-- Where links may be there, a directory looks like one that lists its entries differently. -/
theorem alike_of_perm (hlinks : v.links) (h : entries.Perm others)
    (hwf : (Node.dir entries).WellFormed) : v.Alike (.dir entries) (.dir others) := by
  refine .dir (h.map Prod.fst) ?_
  intro name m n hm hn _
  rw [Listing.node_unique hwf.nodup (h.mem_iff.2 hn) hm]
  exact alike_self hlinks m (hwf.entry hm)

/-- Trees look alike if the projects in them do. -/
theorem alike_treeOf (h : v.Alike (.dir entries) (.dir others)) :
    v.Alike (treeOf entries).root (treeOf others).root := by
  refine .dir (.refl _) ?_
  intro name m n hm hn _
  obtain ⟨rfl, rfl⟩ := Prod.mk.inj (List.mem_singleton.1 hm)
  obtain ⟨-, rfl⟩ := Prod.mk.inj (List.mem_singleton.1 hn)
  exact h

/-- Where a path may go on, both trails end in nodes that look alike. -/
theorem AlikeTrails.node (hroot : v.Alike a b) (hwf : a.WellFormed) (h : v.AlikeTrails t u) :
    (t.node a).WellFormed ∧ (v.Alike (t.node a) (u.node b) ∨
      ∃ name content other, t.node a = .file content ∧ u.node b = .file other ∧
        v.blind name) := by
  cases h with
  | nil => exact ⟨hwf, Or.inl hroot⟩
  | @cons x y t u hxy _ =>
    obtain ⟨-, hx, h | ⟨content, other, hcontent, hother, hblind⟩⟩ := hxy
    · exact ⟨hx, Or.inl h⟩
    · exact ⟨hx, Or.inr ⟨x.1, content, other, hcontent, hother, hblind⟩⟩

/-! ### Following paths -/

open FileSystem

/-- Moves that lead to entries which look alike. -/
inductive AlikeMoves (v : View) (name : String) : Move → Move → Prop
  | stay : AlikeMoves v name .stay .stay
  | up : AlikeMoves v name .up .up
  | enter {m n : Node} : v.Seen (name, m) (name, n) → AlikeMoves v name (.enter m) (.enter n)
  | jump {target : String} : v.links → v.Seen (name, .link target) (name, .link target) →
      AlikeMoves v name (.jump target) (.jump target)
  | refuse (cause : OsError) : AlikeMoves v name (.refuse cause) (.refuse cause)

theorem alikeMoves_lookup (h : v.Alike (.dir entries) (.dir others))
    (hwf : (Node.dir entries).WellFormed) (hclear : ¬v.hidden name) :
    v.AlikeMoves name
      (match entries.lookup name with
        | none => .refuse .notFound
        | some (.link target) => .jump target
        | some node => .enter node)
      (match others.lookup name with
        | none => .refuse .notFound
        | some (.link target) => .jump target
        | some node => .enter node) := by
  cases hm : entries.lookup name with
  | none =>
    rw [h.lookup_eq_none.1 hm]
    exact .refuse _
  | some m =>
    cases hn : others.lookup name with
    | none => exact absurd (h.lookup_eq_none.2 hn) (by simp [hm])
    | some n =>
      have hseen := h.seen hwf hclear hm hn
      rcases hseen.2.2 with halike | ⟨content, other, rfl, rfl, -⟩
      · cases halike with
        | file content => exact .enter hseen
        | link target hlinks => exact .jump hlinks hseen
        | dir _ _ => exact .enter hseen
      · exact .enter hseen

theorem alikeMoves (hroot : v.Alike a b) (hwf : a.WellFormed) (ht : v.AlikeTrails t u)
    (hclear : name ≠ "" → name ≠ "." → name ≠ ".." → ¬v.hidden name) :
    v.AlikeMoves name (move a t name) (move b u name) := by
  obtain ⟨hnode, halike | ⟨-, content, other, hcontent, hother, -⟩⟩ := ht.node hroot hwf
  · rw [move, move]
    generalize t.node a = p at *
    generalize u.node b = q at *
    cases halike with
    | file content => exact .refuse _
    | link target _ => exact .refuse _
    | @dir entries others hnames hentries =>
      dsimp only
      by_cases hstay : name = "" ∨ name = "."
      · rw [if_pos hstay, if_pos hstay]
        exact .stay
      · rw [if_neg hstay, if_neg hstay]
        by_cases hup : name = ".."
        · rw [if_pos hup, if_pos hup]
          exact .up
        · rw [if_neg hup, if_neg hup]
          by_cases hlong : maxNameBytes < name.utf8ByteSize
          · rw [if_pos hlong, if_pos hlong]
            exact .refuse _
          · rw [if_neg hlong, if_neg hlong]
            obtain ⟨hempty, hhere⟩ := not_or.1 hstay
            exact alikeMoves_lookup (.dir hnames hentries) hnode (hclear hempty hhere hup)
  · rw [move, move, hcontent, hother]
    exact .refuse _

theorem AlikeTrails.tail (h : v.AlikeTrails t u) : v.AlikeTrails t.tail u.tail := by
  cases h with
  | nil => exact .nil
  | cons _ htail => exact htail

theorem clear_of_links (h : v.links) (segments : List String) : v.Clear segments :=
  fun name _ _ _ _ => (v.all_seen h name).1

theorem step_alike {followLast : Bool}
    {onLinkA onLinkB : Trail → List String → Except OsError Trail} (hroot : v.Alike a b)
    (hwf : a.WellFormed)
    (hlink : v.links → ∀ t u segments, v.AlikeTrails t u →
      v.AlikeOutcomes (onLinkA t segments) (onLinkB u segments))
    {segments : List String} (ht : v.AlikeTrails t u) (hclear : v.Clear segments) :
    v.AlikeOutcomes (step a followLast onLinkA t segments)
      (step b followLast onLinkB u segments) := by
  induction segments generalizing t u with
  | nil => exact .ok ht
  | cons name rest ih =>
    have hmoves := alikeMoves hroot hwf ht (hclear name List.mem_cons_self)
    have hrest : v.Clear rest := fun n hn => hclear n (List.mem_cons_of_mem name hn)
    rw [step_cons, step_cons]
    generalize move a t name = x at *
    generalize move b u name = y at *
    cases hmoves with
    | stay => exact ih ht hrest
    | up => exact ih ht.tail hrest
    | enter hseen => exact ih (.cons hseen ht) hrest
    | @jump target hlinks hseen =>
      dsimp only
      split_ifs
      · exact .ok (.cons hseen ht)
      · exact hlink hlinks [] [] _ .nil
      · exact hlink hlinks t u _ ht
    | refuse cause => exact .error cause

theorem follow_alike (hroot : v.Alike a b) (hwf : a.WellFormed) (links : ℕ) {followLast : Bool}
    {segments : List String} (ht : v.AlikeTrails t u) (hclear : v.Clear segments) :
    v.AlikeOutcomes (follow a followLast links t segments)
      (follow b followLast links u segments) := by
  induction links generalizing t u segments followLast with
  | zero => exact step_alike hroot hwf (fun _ _ _ _ _ => .error _) ht hclear
  | succ links ih =>
    have hlink : v.links → ∀ t u segments, v.AlikeTrails t u →
        v.AlikeOutcomes (follow a followLast links t segments)
          (follow b followLast links u segments) :=
      fun hlinks t u segments ht => ih ht (clear_of_links hlinks segments)
    exact step_alike hroot hwf hlink ht hclear

end View

/-! ### File systems -/

namespace FileSystem

variable {v : View} {a b : FileSystem} {path : String}

/-- Both trees have the same working directory when its path leads into no hidden directory. -/
theorem cwdTrail_alike (hroot : v.Alike a.root b.root) (hwf : a.root.WellFormed)
    (hcwd : a.cwd = b.cwd) (hclear : v.Clear a.cwd) :
    v.AlikeOutcomes a.cwdTrail b.cwdTrail := by
  rw [cwdTrail, cwdTrail, ← hcwd]
  exact View.follow_alike hroot hwf maxLinks .nil hclear

theorem resolve_alike (hroot : v.Alike a.root b.root) (hwf : a.root.WellFormed)
    (hcwd : Path.isAbsolute path = false → v.AlikeOutcomes a.cwdTrail b.cwdTrail)
    (hclear : v.Clear (Path.segments path)) (followLast : Bool) :
    v.AlikeOutcomes (a.resolve path followLast) (b.resolve path followLast) := by
  rw [resolve_eq, resolve_eq]
  cases objection? path with
  | some cause => exact .error cause
  | none =>
    have hstart : v.AlikeOutcomes (a.start path) (b.start path) := by
      rw [start, start]
      split_ifs with habs
      · exact .ok .nil
      · exact hcwd (by simpa using habs)
    dsimp only
    generalize a.start path = x at *
    generalize b.start path = y at *
    cases hstart with
    | ok ht => exact View.follow_alike hroot hwf maxLinks ht hclear
    | error cause => exact .error cause

/-- What a path stands for in two trees: the same error, nodes that look alike, or files at whose
bytes nobody looks. -/
inductive AlikeFinds (v : View) : Except OsError Node → Except OsError Node → Prop
  | error (cause : OsError) : AlikeFinds v (.error cause) (.error cause)
  | alike {m n : Node} : v.Alike m n → AlikeFinds v (.ok m) (.ok n)
  | blind {name : String} (content other : ByteArray) : v.blind name →
      AlikeFinds v (.ok (.file content)) (.ok (.file other))

theorem finds_alike (hroot : v.Alike a.root b.root) (hwf : a.root.WellFormed) {followLast : Bool}
    (h : v.AlikeOutcomes (a.resolve path followLast) (b.resolve path followLast)) :
    AlikeFinds v ((a.resolve path followLast).map (Trail.node a.root))
      ((b.resolve path followLast).map (Trail.node b.root)) := by
  generalize a.resolve path followLast = x at *
  generalize b.resolve path followLast = y at *
  cases h with
  | error cause => exact .error cause
  | ok ht =>
    rw [Except.map, Except.map]
    obtain ⟨-, halike | ⟨name, content, other, hcontent, hother, hblind⟩⟩ := ht.node hroot hwf
    · exact .alike halike
    · rw [hcontent, hother]
      exact .blind content other hblind

theorem isLink_alike (hroot : v.Alike a.root b.root) (hwf : a.root.WellFormed)
    (h : v.AlikeOutcomes (a.resolve path false) (b.resolve path false)) :
    a.isLink path = b.isLink path := by
  have hfinds := finds_alike hroot hwf h
  rw [isLink, isLink]
  generalize (a.resolve path false).map (Trail.node a.root) = x at *
  generalize (b.resolve path false).map (Trail.node b.root) = y at *
  cases hfinds with
  | error cause => rfl
  | alike halike => cases halike <;> rfl
  | blind content other _ => rfl

/-- A path leads to directories that look alike in both trees, or to none in either. -/
theorem entries?_alike (hroot : v.Alike a.root b.root) (hwf : a.root.WellFormed)
    (h : v.AlikeOutcomes (a.resolve path true) (b.resolve path true)) :
    (a.entries? path = none ∧ b.entries? path = none) ∨
    ∃ entries others, a.entries? path = some entries ∧ b.entries? path = some others ∧
      v.Alike (.dir entries) (.dir others) := by
  have hfinds := finds_alike hroot hwf h
  rw [entries?, entries?, node, node]
  generalize (a.resolve path true).map (Trail.node a.root) = x at *
  generalize (b.resolve path true).map (Trail.node b.root) = y at *
  cases hfinds with
  | error cause => exact Or.inl ⟨rfl, rfl⟩
  | blind content other _ => exact Or.inl ⟨rfl, rfl⟩
  | alike halike =>
    cases halike with
    | file content => exact Or.inl ⟨rfl, rfl⟩
    | link target _ => exact Or.inl ⟨rfl, rfl⟩
    | dir hnames hentries => exact Or.inr ⟨_, _, rfl, rfl, .dir hnames hentries⟩

/-- Where all bytes are looked at, reading a path gives the same in both trees. -/
theorem readSource_alike (hroot : v.Alike a.root b.root) (hwf : a.root.WellFormed)
    (hblind : ∀ name, ¬v.blind name)
    (h : v.AlikeOutcomes (a.resolve path true) (b.resolve path true)) :
    a.readSource path = b.readSource path := by
  have hfinds := finds_alike hroot hwf h
  rw [readSource, readSource, read, read, node, node]
  generalize (a.resolve path true).map (Trail.node a.root) = x at *
  generalize (b.resolve path true).map (Trail.node b.root) = y at *
  cases hfinds with
  | error cause => rfl
  | alike halike => cases halike <;> rfl
  | blind content other hname => exact absurd hname (hblind _)

end FileSystem

end ImportScan
