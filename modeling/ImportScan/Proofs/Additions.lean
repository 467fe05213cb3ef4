import ImportScan.Proofs.Pruning

/-!
Names and extensions added to a configuration. However the additions are interleaved, each of the
two lists keeps what it had and grows by what is new to it, in the order in which that was first
added (`Grows`). The lists are only asked for their members, so adding the same again changes
nothing, and the order of the additions never shows in a scan.
-/

namespace ImportScan

/-- What a list grows by when elements are added that it may have already: those it does not have,
each once, in the order of their first addition. -/
structure NewOnes (old added new : List String) : Prop where
  members : ∀ x, x ∈ new ↔ x ∈ added ∧ x ∉ old
  once : new.Nodup
  ordered : new.Pairwise fun x y => added.idxOf x < added.idxOf y

/-- A list that has grown by what is new to it among the elements added. -/
def Grows (old added result : List String) : Prop :=
  ∃ new, result = old ++ new ∧ NewOnes old added new

namespace Config

/-- One addition to a configuration. -/
inductive Addition where
  | excludeDir (name : String)
  | extension (ext : String)
  deriving DecidableEq

namespace Addition

/-- The configuration after an addition. -/
def apply (c : Config) : Addition → Config
  | excludeDir name => c.addExcludeDir name
  | extension ext => c.addExtension ext

/-- The directory names among additions, in order. -/
def names (adds : List Addition) : List String :=
  adds.filterMap fun
    | excludeDir name => some name
    | extension _ => none

/-- The extensions among additions, in order, each with its dot. -/
def extensions (adds : List Addition) : List String :=
  adds.filterMap fun
    | excludeDir _ => none
    | extension ext => some (dotted ext)

end Addition

/-- The configuration after a sequence of additions. -/
def addAll (c : Config) (adds : List Addition) : Config := adds.foldl Addition.apply c

/-- What additions make of a configuration. -/
structure Extends (c : Config) (adds : List Addition) (d : Config) : Prop where
  roots : d.roots = c.roots
  names : Grows c.excludeDirs (Addition.names adds) d.excludeDirs
  extensions : Grows c.extensions (Addition.extensions adds) d.extensions

end Config

variable {old added new result : List String} {x : String}

/-! ### One list -/

theorem newOnes_nil (old : List String) : NewOnes old [] [] := ⟨by simp, .nil, .nil⟩

/-- What was added first stays where it was, whatever is added behind it. -/
theorem NewOnes.idxOf_append (h : NewOnes old added new) {y : String} (hy : y ∈ new)
    (more : List String) : (added ++ more).idxOf y = added.idxOf y :=
  List.idxOf_append_of_mem ((h.members y).1 hy).1

theorem NewOnes.ordered_append (h : NewOnes old added new) (more : List String) :
    new.Pairwise fun x y => (added ++ more).idxOf x < (added ++ more).idxOf y := by
  refine h.ordered.imp_of_mem fun hy hz hlt => ?_
  rwa [h.idxOf_append hy, h.idxOf_append hz]

/-- An addition of what is there changes nothing. -/
theorem NewOnes.known (h : NewOnes old added new) (hx : x ∈ old ∨ x ∈ new) :
    NewOnes old (added ++ [x]) new where
  members y := by
    rw [h.members, List.mem_append, List.mem_singleton]
    constructor
    · exact fun ⟨hy, hold⟩ => ⟨Or.inl hy, hold⟩
    · rintro ⟨hy | rfl, hold⟩
      · exact ⟨hy, hold⟩
      · exact ⟨((h.members y).1 (hx.resolve_left hold)).1, hold⟩
  once := h.once
  ordered := h.ordered_append [x]

/-- An addition of what is not there comes behind all that was added before. -/
theorem NewOnes.fresh (h : NewOnes old added new) (hold : x ∉ old) (hnew : x ∉ new) :
    NewOnes old (added ++ [x]) (new ++ [x]) where
  members y := by
    simp only [List.mem_append, List.mem_singleton, h.members]
    constructor
    · rintro (⟨hy, hyold⟩ | rfl)
      · exact ⟨Or.inl hy, hyold⟩
      · exact ⟨Or.inr rfl, hold⟩
    · rintro ⟨hy | rfl, hyold⟩
      · exact Or.inl ⟨hy, hyold⟩
      · exact Or.inr rfl
  once := List.nodup_append'.2 ⟨h.once, List.nodup_singleton x, by simpa using hnew⟩
  ordered := by
    have hadded : x ∉ added := fun hx => hnew ((h.members x).2 ⟨hx, hold⟩)
    refine List.pairwise_append.2 ⟨h.ordered_append [x], List.pairwise_singleton _ _, ?_⟩
    intro y hy z hz
    obtain rfl := List.mem_singleton.1 hz
    rw [h.idxOf_append hy, List.idxOf_append_of_notMem hadded]
    exact Nat.lt_add_right _ (List.idxOf_lt_length_of_mem ((h.members y).1 hy).1)

theorem grows_nil (old : List String) : Grows old [] old :=
  ⟨[], (List.append_nil old).symm, newOnes_nil old⟩

theorem Grows.step (h : Grows old added result) (x : String) :
    Grows old (added ++ [x]) (addNew x result) := by
  obtain ⟨new, rfl, hnew⟩ := h
  rw [addNew]
  split_ifs with hx
  · exact ⟨new, rfl, hnew.known (List.mem_append.1 hx)⟩
  · obtain ⟨hold, hfresh⟩ := not_or.1 (mt List.mem_append.2 hx)
    exact ⟨new ++ [x], List.append_assoc _ _ _, hnew.fresh hold hfresh⟩

theorem Grows.mem_iff (h : Grows old added result) : x ∈ result ↔ x ∈ old ∨ x ∈ added := by
  obtain ⟨new, rfl, hnew⟩ := h
  rw [List.mem_append, hnew.members]
  by_cases hx : x ∈ old <;> simp [hx]

/-- A list that has all that is added does not grow. -/
theorem Grows.eq_self (h : Grows old added result) (hall : ∀ x ∈ added, x ∈ old) :
    result = old := by
  obtain ⟨new, rfl, hnew⟩ := h
  have hnil : new = [] := List.eq_nil_iff_forall_not_mem.2 fun x hx =>
    ((hnew.members x).1 hx).2 (hall x ((hnew.members x).1 hx).1)
  rw [hnil, List.append_nil]

/-! ### Sequences of additions -/

namespace Config

variable {c d : Config} {adds others : List Addition}

theorem extends_nil (c : Config) : c.Extends [] c := ⟨rfl, grows_nil _, grows_nil _⟩

theorem Extends.step (h : c.Extends adds d) (add : Addition) :
    c.Extends (adds ++ [add]) (add.apply d) := by
  have hnames : Addition.names (adds ++ [add]) = Addition.names adds ++ Addition.names [add] :=
    List.filterMap_append
  have hexts : Addition.extensions (adds ++ [add]) =
      Addition.extensions adds ++ Addition.extensions [add] := List.filterMap_append
  cases add with
  | excludeDir name =>
    refine ⟨h.roots, hnames ▸ h.names.step name, ?_⟩
    rw [hexts]
    exact (List.append_nil (Addition.extensions adds)).symm ▸ h.extensions
  | extension ext =>
    refine ⟨h.roots, ?_, hexts ▸ h.extensions.step (dotted ext)⟩
    rw [hnames]
    exact (List.append_nil (Addition.names adds)).symm ▸ h.names

theorem Extends.run (h : c.Extends adds d) (more : List Addition) :
    c.Extends (adds ++ more) (d.addAll more) := by
  -- the additions still to come are made one by one, each put behind those in `adds`
  induction more generalizing d adds with
  | nil =>
    rw [List.append_nil]
    exact h
  | cons add more ih =>
    rw [List.append_cons]
    exact ih (h.step add)

theorem extends_addAll (c : Config) (adds : List Addition) : c.Extends adds (c.addAll adds) :=
  (extends_nil c).run adds

/-- Additions of what is there change nothing. -/
theorem addAll_eq_self (hnames : ∀ name ∈ Addition.names adds, name ∈ c.excludeDirs)
    (hexts : ∀ ext ∈ Addition.extensions adds, ext ∈ c.extensions) : c.addAll adds = c := by
  have h := extends_addAll c adds
  have hroots := h.roots
  have hdirs := h.names.eq_self hnames
  have hextensions := h.extensions.eq_self hexts
  generalize c.addAll adds = d at hroots hdirs hextensions
  cases c
  cases d
  simp_all

theorem isExcludedDir_addAll (c : Config) (adds : List Addition) (name : String) :
    (c.addAll adds).isExcludedDir name =
      (c.isExcludedDir name || (Addition.names adds).contains name) := by
  rw [Bool.eq_iff_iff]
  simp only [isExcludedDir, Bool.or_eq_true, List.contains_iff_mem]
  exact (extends_addAll c adds).names.mem_iff

theorem contains_extensions_addAll (c : Config) (adds : List Addition) (ext : String) :
    (c.addAll adds).extensions.contains ext =
      (c.extensions.contains ext || (Addition.extensions adds).contains ext) := by
  rw [Bool.eq_iff_iff]
  simp only [Bool.or_eq_true, List.contains_iff_mem]
  exact (extends_addAll c adds).extensions.mem_iff

/-- The order of additions does not show in what a configuration says of a name. -/
theorem isExcludedDir_addAll_perm (c : Config) (h : adds.Perm others) (name : String) :
    (c.addAll others).isExcludedDir name = (c.addAll adds).isExcludedDir name := by
  have hperm : (Addition.names adds).Perm (Addition.names others) := h.filterMap _
  rw [isExcludedDir_addAll, isExcludedDir_addAll, hperm.contains_eq]

theorem isSupported_addAll_perm (c : Config) (h : adds.Perm others) (path : String) :
    (c.addAll others).isSupported path = (c.addAll adds).isSupported path := by
  have hperm : (Addition.extensions adds).Perm (Addition.extensions others) := h.filterMap _
  rw [isSupported, isSupported]
  simp only [contains_extensions_addAll, hperm.contains_eq]

/-- An extension is the same addition with its dot and without. -/
theorem apply_dotted {ext : String} (h : ext.toList.head? ≠ some '.') (c : Config) :
    (Addition.extension ("." ++ ext)).apply c = (Addition.extension ext).apply c := by
  have hplain : dotted ext = "." ++ ext := if_neg (by simpa using h)
  have hdotted : dotted ("." ++ ext) = "." ++ ext := if_pos (by simp)
  rw [Addition.apply, Addition.apply, addExtension, addExtension, hplain, hdotted]

/-- However directory names and extensions are added to a configuration, its roots stay, and each of
its lists keeps what it has, repeated or without a dot as that may be, and grows by what is new to
it, in the order of the first addition; extensions get their dots before that, so with or without
its dot each is the same addition. Making the same additions again changes nothing, and making them
in another order gives a configuration that says the same of every name and every path, and with
which each scan yields the same results and the same report. -/
theorem addAll_grows (c : Config) (adds : List Addition) :
    (c.addAll adds).roots = c.roots ∧
    Grows c.excludeDirs (Addition.names adds) (c.addAll adds).excludeDirs ∧
    Grows c.extensions (Addition.extensions adds) (c.addAll adds).extensions ∧
    (∀ ext : String, ext.toList.head? ≠ some '.' →
      ∀ d, (Addition.extension ("." ++ ext)).apply d = (Addition.extension ext).apply d) ∧
    (c.addAll adds).addAll adds = c.addAll adds ∧
    ∀ others : List Addition, adds.Perm others →
      (∀ name, (c.addAll others).isExcludedDir name = (c.addAll adds).isExcludedDir name) ∧
      (∀ path, (c.addAll others).isSupported path = (c.addAll adds).isSupported path) ∧
      ∀ (fs : FileSystem) (base : String),
        (c.addAll others).walk fs base = (c.addAll adds).walk fs base ∧
        (c.addAll others).scan fs base = (c.addAll adds).scan fs base := by
  have h := extends_addAll c adds
  refine ⟨h.roots, h.names, h.extensions, fun ext => apply_dotted, ?_, fun others hperm => ?_⟩
  · exact addAll_eq_self (fun name hname => h.names.mem_iff.2 (Or.inr hname))
      (fun ext hext => h.extensions.mem_iff.2 (Or.inr hext))
  · have hname := isExcludedDir_addAll_perm c hperm
    have hpath := isSupported_addAll_perm c hperm
    refine ⟨hname, hpath, fun fs base => ?_⟩
    have hroots : (c.addAll others).roots = (c.addAll adds).roots :=
      (extends_addAll c others).roots.trans h.roots.symm
    have hwalk : (c.addAll others).walk fs base = (c.addAll adds).walk fs base :=
      walk_congr hroots hname hpath base
    exact ⟨hwalk, scan_congr hwalk⟩

/-- An extension added without its dot and with it, and a list that had a name twice. -/
theorem addAll_grows_sample :
    let c : Config := { excludeDirs := ["lib", "lib"], extensions := ["ts"] }
    let adds : List Addition :=
      [.excludeDir "out", .extension "ts", .excludeDir "lib", .extension ".ts", .excludeDir "bin"]
    let sorted : List Addition :=
      [.excludeDir "bin", .excludeDir "lib", .excludeDir "out", .extension ".ts", .extension "ts"]
    (c.addAll adds).excludeDirs = ["lib", "lib", "out", "bin"] ∧
      (c.addAll adds).extensions = ["ts", ".ts"] ∧ (c.addAll adds).addAll adds = c.addAll adds ∧
      (Addition.extension ".ts").apply c = (Addition.extension "ts").apply c ∧
      (c.addAll sorted).excludeDirs = ["lib", "lib", "bin", "out"] ∧
      (c.addAll sorted).scan (treeOf sampleProject) "/" =
        (c.addAll adds).scan (treeOf sampleProject) "/" := by
  intro c adds sorted
  obtain ⟨-, -, -, hdot, hagain, hperm⟩ := addAll_grows c adds
  exact ⟨by decide, by decide, hagain, hdot "ts" (by decide) c, by decide,
    ((hperm sorted (by decide)).2.2 (treeOf sampleProject) "/").2⟩

end Config

end ImportScan
