import ImportScan.Proofs.Agreement
import ImportScan.Proofs.Traversal

/-!
Walks of trees that look alike. As long as a walk leaves out the directories that are hidden from a
view, it gives the same results in any two trees that look alike in it, up to the order in which
directories list their entries.
-/

namespace ImportScan

/-- Listings of the same names in any order, with results that agree name by name. -/
theorem Listing.perm_flatMap {α : Type} {f g : String × Node → List α}
    {entries others : List (String × Node)}
    (hnames : (entries.map Prod.fst).Perm (others.map Prod.fst))
    (hd : (entries.map Prod.fst).Nodup)
    (h : ∀ name m n, (name, m) ∈ entries → (name, n) ∈ others →
      (f (name, m)).Perm (g (name, n))) :
    (entries.flatMap f).Perm (others.flatMap g) := by
  induction entries generalizing others with
  | nil =>
    obtain rfl : others = [] := by simpa using hnames.symm.eq_nil
    exact .refl _
  | cons entry entries ih =>
    obtain ⟨name, m⟩ := entry
    have hin : name ∈ others.map Prod.fst := hnames.mem_iff.1 (by simp)
    obtain ⟨⟨name', n⟩, hn, rfl⟩ := List.mem_map.1 hin
    obtain ⟨front, back, rfl⟩ := List.append_of_mem hn
    have hrest : (entries.map Prod.fst).Perm ((front ++ back).map Prod.fst) := by
      rw [List.map_append, List.map_cons] at hnames
      rw [List.map_append]
      exact (List.perm_cons _).1 (hnames.trans List.perm_middle)
    have hih : (entries.flatMap f).Perm ((front ++ back).flatMap g) :=
      ih hrest (List.nodup_cons.1 hd).2 fun x p q hp hq =>
        h x p q (List.mem_cons_of_mem _ hp) (List.perm_middle.mem_iff.2 (List.mem_cons_of_mem _ hq))
    have hfirst := h name' m n List.mem_cons_self hn
    rw [List.flatMap_cons]
    refine (hfirst.append hih).trans ?_
    rw [← List.flatMap_cons]
    exact List.perm_middle.symm.flatMap_right g

namespace Config

variable {c : Config} {v : View} {a b : FileSystem} {m n : Node} {root name : String}

/-- An entry that may differ gives the same results whatever it holds. -/
theorem walkEntry_eq_of_mayDiffer (hv : ∀ name, v.hidden name → c.isExcludedDir name = true)
    (h : v.MayDiffer name m n) (path : String) :
    c.walkEntry name path m = c.walkEntry name path n := by
  rcases m with content | inner | target
  · rcases n with other | inner | target
    · rfl
    · exact absurd h not_false
    · exact absurd h not_false
  · rcases n with other | inner' | target
    · exact absurd h not_false
    · rw [walkEntry, walkEntry, if_pos (hv name h), if_pos (hv name h)]
    · exact absurd h not_false
  · exact absurd h (by simp [View.MayDiffer])

/-- Listings give the same results if their entries do, those that may differ left aside. -/
theorem walkEntries_perm_of_entries {entries others : List (String × Node)}
    (hv : ∀ name, v.hidden name → c.isExcludedDir name = true)
    (hnames : (entries.map Prod.fst).Perm (others.map Prod.fst))
    (hnodup : (entries.map Prod.fst).Nodup)
    (h : ∀ name m n, (name, m) ∈ entries → (name, n) ∈ others → ¬v.MayDiffer name m n →
      ∀ path, (c.walkEntry name path m).Perm (c.walkEntry name path n)) (path : String) :
    (c.walkEntries path entries).Perm (c.walkEntries path others) := by
  rw [walkEntries_eq_flatMap, walkEntries_eq_flatMap]
  refine Listing.perm_flatMap hnames hnodup ?_
  intro name m n hm hn
  by_cases hdiffer : v.MayDiffer name m n
  · rw [walkEntry_eq_of_mayDiffer hv hdiffer]
  · exact h name m n hm hn hdiffer _

theorem walkEntry_perm (hv : ∀ name, v.hidden name → c.isExcludedDir name = true)
    (h : v.Alike m n) : ∀ name path : String, m.WellFormed →
      (c.walkEntry name path m).Perm (c.walkEntry name path n) := by
  induction h with
  | file content => exact fun _ _ _ => .refl _
  | link target _ => exact fun _ _ _ => .refl _
  | @dir entries others hnames _ ih =>
    intro name path hwf
    rw [walkEntry, walkEntry]
    split_ifs
    · exact .refl _
    · exact .refl _
    · refine walkEntries_perm_of_entries hv hnames hwf.nodup ?_ path
      intro x p q hp hq hdiffer path
      exact ih x p q hp hq hdiffer x path (hwf.entry hp)

theorem walkEntries_perm {entries others : List (String × Node)}
    (hv : ∀ name, v.hidden name → c.isExcludedDir name = true)
    (h : v.Alike (.dir entries) (.dir others)) (hwf : (Node.dir entries).WellFormed)
    (path : String) : (c.walkEntries path entries).Perm (c.walkEntries path others) := by
  refine walkEntries_perm_of_entries hv h.names hwf.nodup ?_ path
  intro name m n hm hn hdiffer path
  exact walkEntry_perm hv (h.entry hm hn hdiffer) name path (hwf.entry hm)

/-- The walk of a root gives the same in both trees, up to the order of entries. -/
theorem walkRoot_perm (hv : ∀ name, v.hidden name → c.isExcludedDir name = true)
    (halike : v.Alike a.root b.root) (hwf : a.root.WellFormed)
    (h : ∀ followLast, v.AlikeOutcomes (a.resolve root followLast) (b.resolve root followLast)) :
    (c.walkRoot a root).Perm (c.walkRoot b root) := by
  rw [walkRoot, walkRoot]
  rcases FileSystem.entries?_alike halike hwf (h true) with ⟨ha, hb⟩ |
    ⟨entries, others, ha, hb, htop⟩
  · rw [ha, hb]
  · have htopwf : (Node.dir entries).WellFormed := Entered.wellFormed (c := c) hwf ha .top
    rw [ha, hb]
    dsimp only
    rw [FileSystem.isLink_alike halike hwf (h false)]
    exact (walkEntries_perm hv htop htopwf root).append_left _

/-- A directory entered in one tree is entered in the other, and looks alike there. -/
theorem Entered.alike (hv : ∀ name, v.hidden name → c.isExcludedDir name = true)
    (hwfa : a.root.WellFormed) (hwfb : b.root.WellFormed) {top bottom : List (String × Node)}
    (ha : a.entries? root = some top) (hb : b.entries? root = some bottom)
    (htop : v.Alike (.dir top) (.dir bottom)) {place : List String}
    {entries : List (String × Node)} (h : Entered c a root top place entries) :
    ∃ others, Entered c b root bottom place others ∧ v.Alike (.dir entries) (.dir others) := by
  induction h with
  | top => exact ⟨bottom, .top, htop⟩
  | @enter place name entries inner h hmem hname hopen ih =>
    obtain ⟨others, hothers, halike⟩ := ih
    obtain ⟨n, hn⟩ := halike.exists_entry hmem
    have hseen : ¬v.MayDiffer name (.dir inner) n := by
      intro hdiffer
      rcases n with content | inner' | target
      · exact hdiffer
      · have hexcluded := hv name hdiffer
        rw [hname] at hexcluded
        exact absurd hexcluded (by simp)
      · exact hdiffer
    have hentry := halike.entry hmem hn hseen
    cases hentry with
    | @dir _ inner' hnames hentries =>
      refine ⟨inner', .enter hothers hn hname ?_, .dir hnames hentries⟩
      have hnodea := h.node_entry hwfa ha hmem (by simp)
      have hnodeb := hothers.node_entry hwfb hb hn (by simp)
      rw [FileSystem.entries?, hnodea] at hopen
      rw [FileSystem.entries?, hnodeb]
      split_ifs at hopen ⊢
      · exact hopen
      · rfl

end Config

end ImportScan
