import ImportScan.Proofs.Components
import Mathlib.Data.List.Nodup
import Mathlib.Data.List.Perm.Basic

/-!
Trees as a file system holds them: each directory lists a name once, and only names that an entry
can have. In such a directory looking up a name and finding it in the listing are the same.
-/

namespace ImportScan

/-! ### Directory listings -/

namespace Listing

variable {entries others : List (String × Node)} {name : String} {node : Node}

theorem mem_of_lookup (h : entries.lookup name = some node) : (name, node) ∈ entries := by
  obtain ⟨front, back, rfl, -⟩ := List.lookup_eq_some_iff.1 h
  exact List.mem_append_right _ List.mem_cons_self

theorem mem_names (h : (name, node) ∈ entries) : name ∈ entries.map Prod.fst :=
  List.mem_map.2 ⟨(name, node), h, rfl⟩

theorem lookup_eq_some (hd : (entries.map Prod.fst).Nodup) :
    entries.lookup name = some node ↔ (name, node) ∈ entries := by
  refine ⟨mem_of_lookup, ?_⟩
  intro h
  obtain ⟨front, back, rfl⟩ := List.append_of_mem h
  refine List.lookup_eq_some_iff.2 ⟨front, back, rfl, ?_⟩
  intro p hp
  rw [List.map_append, List.map_cons] at hd
  have hne := (List.nodup_middle.1 hd).notMem
  rw [bne_iff_ne]
  rintro rfl
  exact hne (List.mem_append_left _ (List.mem_map.2 ⟨p, hp, rfl⟩))

theorem lookup_eq_none : entries.lookup name = none ↔ name ∉ entries.map Prod.fst := by
  rw [List.lookup_eq_none_iff]
  simp only [bne_iff_ne, List.mem_map, not_exists, not_and]
  exact ⟨fun h p hp heq => h p hp heq.symm, fun h p hp heq => h p hp heq.symm⟩

theorem node_unique {other : Node} (hd : (entries.map Prod.fst).Nodup) (h : (name, node) ∈ entries)
    (h' : (name, other) ∈ entries) : node = other := by
  rw [← lookup_eq_some hd] at h h'
  exact Option.some.inj (h.symm.trans h')

end Listing

namespace Node

/-- A property of all trees follows if each directory gets it from its entries. -/
theorem induction {P : Node → Prop} (file : ∀ content, P (.file content))
    (link : ∀ target, P (.link target))
    (dir : ∀ entries, (∀ entry ∈ entries, P entry.2) → P (.dir entries)) : ∀ node, P node
  | .file content => file content
  | .link target => link target
  | .dir entries => dir entries (inEntries entries)
where
  inEntries : ∀ entries : List (String × Node), ∀ entry ∈ entries, P entry.2
    | [] => fun _ h => absurd h List.not_mem_nil
    | (_, node) :: rest => fun entry h => by
      rcases List.mem_cons.1 h with rfl | h
      · exact induction file link dir node
      · exact inEntries rest entry h

/-- What a file system promises of a tree: no directory has two entries of one name or an entry
with a name that none can have. -/
inductive WellFormed : Node → Prop
  | file (content : ByteArray) : WellFormed (.file content)
  | link (target : String) : WellFormed (.link target)
  | dir {entries : List (String × Node)} : (entries.map Prod.fst).Nodup →
      (∀ entry ∈ entries, Path.IsEntryName entry.1) →
      (∀ entry ∈ entries, WellFormed entry.2) → WellFormed (.dir entries)

section

variable {entries : List (String × Node)} {name : String} {node : Node}

theorem WellFormed.nodup (h : (Node.dir entries).WellFormed) :
    (entries.map Prod.fst).Nodup := by
  cases h with
  | dir hd _ _ => exact hd

theorem WellFormed.isEntryName (h : (Node.dir entries).WellFormed) (hm : (name, node) ∈ entries) :
    Path.IsEntryName name := by
  cases h with
  | dir _ hn _ => exact hn _ hm

theorem WellFormed.entry (h : (Node.dir entries).WellFormed) (hm : (name, node) ∈ entries) :
    node.WellFormed := by
  cases h with
  | dir _ _ he => exact he _ hm

end

mutual

/-- The test for `WellFormed`. -/
def isWellFormed : Node → Bool
  | .file _ => true
  | .link _ => true
  | .dir entries => decide (entries.map Prod.fst).Nodup && areWellFormed entries

/-- The same test for all entries of a directory and their names. -/
def areWellFormed : List (String × Node) → Bool
  | [] => true
  | (name, node) :: rest =>
    decide (Path.IsEntryName name) && node.isWellFormed && areWellFormed rest

end

theorem areWellFormed_iff : ∀ entries : List (String × Node), areWellFormed entries = true ↔
    ∀ entry ∈ entries, Path.IsEntryName entry.1 ∧ entry.2.isWellFormed = true
  | [] => by simp [areWellFormed]
  | (name, node) :: rest => by
    rw [areWellFormed, Bool.and_eq_true, Bool.and_eq_true, decide_eq_true_iff,
      areWellFormed_iff rest, List.forall_mem_cons]

theorem isWellFormed_iff : ∀ node : Node, node.isWellFormed = true ↔ node.WellFormed := by
  intro node
  induction node using Node.induction with
  | file content => exact iff_of_true rfl (.file content)
  | link target => exact iff_of_true rfl (.link target)
  | dir entries ih =>
    rw [isWellFormed, Bool.and_eq_true, decide_eq_true_iff, areWellFormed_iff]
    constructor
    · rintro ⟨hd, h⟩
      exact .dir hd (fun entry hm => (h entry hm).1) fun entry hm => (ih entry hm).1 (h entry hm).2
    · intro h
      exact ⟨h.nodup, fun entry hm => ⟨h.isEntryName hm, (ih entry hm).2 (h.entry hm)⟩⟩

instance : DecidablePred WellFormed := fun node => decidable_of_iff _ (isWellFormed_iff node)

end Node

/-! ### A small tree -/

/-- What a small project holds: a source file, a link to it, and a directory usually left out. -/
def sampleProject : List (String × Node) :=
  [("a.js", .file "import 'x'".toUTF8), ("b.js", .link "a.js"),
    ("node_modules", .dir [("c.js", .file "import 'y'".toUTF8)])]

/-- A tree with nothing but a project in it. -/
def treeOf (project : List (String × Node)) : FileSystem where
  root := .dir [("p", .dir project)]
  cwd := []

theorem wellFormed_sample : (treeOf sampleProject).root.WellFormed := by decide

end ImportScan
