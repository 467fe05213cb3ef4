import ImportScan.Config
import ImportScan.FileSystem.Resolve
import Mathlib.Data.List.Basic

/-!
Paths made by joining names. A name that a directory can hold becomes one more segment of the path
it is joined to, so the segments of a path below a directory are those of the directory (`stem`)
and the names on the way.
-/

namespace ImportScan.Path

/-- A name that an entry of a directory can have. -/
structure IsEntryName (name : String) : Prop where
  nonempty : name ≠ ""
  not_here : name ≠ "."
  not_up : name ≠ ".."
  no_slash : '/' ∉ name.toList
  no_nul : '\x00' ∉ name.toList
  short : name.utf8ByteSize ≤ FileSystem.maxNameBytes

theorem isEntryName_iff {name : String} : IsEntryName name ↔ name ≠ "" ∧ name ≠ "." ∧ name ≠ ".." ∧
    '/' ∉ name.toList ∧ '\x00' ∉ name.toList ∧ name.utf8ByteSize ≤ FileSystem.maxNameBytes :=
  ⟨fun h => ⟨h.1, h.2, h.3, h.4, h.5, h.6⟩,
    fun ⟨h1, h2, h3, h4, h5, h6⟩ => ⟨h1, h2, h3, h4, h5, h6⟩⟩

instance (name : String) : Decidable (IsEntryName name) := decidable_of_iff' _ isEntryName_iff

/-- Whether a name joined to the path is put right behind it, with no slash in between. -/
def isOpen (path : String) : Bool := path.isEmpty || path.toList.getLast? == some '/'

/-- The segments that a path keeps when a name is joined to it: an empty last one gives way. -/
def stem (path : String) : List String :=
  if isOpen path then (segments path).dropLast else segments path

/-- What is put in front of a relative path that is joined to `path`. -/
def lead (path : String) : String := if isOpen path then path else path ++ "/"

/-- The path of what lies below `root` at the end of the given names. -/
def below (root : String) (names : List String) : String := names.foldl join root

@[simp] theorem below_nil (root : String) : below root [] = root := rfl

theorem below_cons (root name : String) (names : List String) :
    below root (name :: names) = below (join root name) names := rfl

theorem below_concat (root name : String) (names : List String) :
    below root (names ++ [name]) = join (below root names) name := by
  rw [below, List.foldl_append]; rfl

/-! ### Segments -/

theorem segments_of_no_slash {name : String} (h : '/' ∉ name.toList) : segments name = [name] := by
  rw [segments, List.splitOn_eq_singleton h, List.map_singleton, String.ofList_toList]

theorem segments_empty : segments "" = [""] := rfl

theorem segments_ne_nil (path : String) : segments path ≠ [] :=
  fun h => List.splitOn_ne_nil '/' path.toList (List.map_eq_nil_iff.1 h)

/-- No piece of a split holds what the text was split at. -/
theorem not_mem_of_mem_splitOn {sep : Char} {text piece : List Char}
    (h : piece ∈ text.splitOn sep) : sep ∉ piece := by
  induction text generalizing piece with
  | nil =>
    rw [List.splitOn_nil, List.mem_singleton] at h
    exact h ▸ List.not_mem_nil
  | cons c text ih =>
    rw [List.splitOn_cons_eq_if_modifyHead] at h
    split at h
    · rcases List.mem_cons.1 h with rfl | h
      · exact List.not_mem_nil
      · exact ih h
    · -- any other character is put in front of the first piece of the rest
      rename_i hc
      cases hsplit : text.splitOn sep with
      | nil => exact absurd hsplit (List.splitOn_ne_nil _ _)
      | cons first rest =>
        rw [hsplit, List.modifyHead_cons] at h
        rw [hsplit] at ih
        rcases List.mem_cons.1 h with rfl | h
        · rw [List.mem_cons]
          rintro (rfl | hsep)
          · exact hc (beq_self_eq_true _)
          · exact ih List.mem_cons_self hsep
        · exact ih (List.mem_cons_of_mem _ h)

theorem no_slash_of_mem_segments {path segment : String} (h : segment ∈ segments path) :
    '/' ∉ segment.toList := by
  obtain ⟨piece, hpiece, rfl⟩ := List.mem_map.1 h
  rw [String.toList_ofList]
  exact not_mem_of_mem_splitOn hpiece

/-- What stands behind a slash adds its segments. -/
theorem segments_append (front rest : String) :
    segments (front ++ "/" ++ rest) = segments front ++ segments rest := by
  have htext : (front ++ "/" ++ rest).toList = front.toList ++ '/' :: rest.toList := by simp
  rw [segments, htext, List.splitOn_append_cons_self, List.map_append]
  rfl

theorem segments_append_slash (front : String) :
    segments (front ++ "/") = segments front ++ [""] := by
  have hsegments := segments_append front ""
  rwa [String.append_empty, segments_empty] at hsegments

/-- A path is its segments with slashes in between. -/
theorem intercalate_segments (path : String) : "/".intercalate (segments path) = path := by
  rw [← String.toList_inj, String.toList_intercalate, segments, List.map_map]
  simp

theorem isAbsolute_of_no_slash {name : String} (h : '/' ∉ name.toList) :
    isAbsolute name = false := by
  rw [isAbsolute, beq_eq_false_iff_ne]
  intro hc
  exact h (List.mem_of_head? hc)

theorem join_of_no_slash {path name : String} (h : '/' ∉ name.toList) :
    join path name = if isOpen path then path ++ name else path ++ "/" ++ name := by
  rw [join, if_neg (by rw [isAbsolute_of_no_slash h]; simp), isOpen]

/-- A path that takes a name right behind it is empty or ends in a slash. -/
theorem isOpen_iff {path : String} :
    isOpen path = true ↔ path = "" ∨ ∃ front, path = front ++ "/" := by
  rw [isOpen, Bool.or_eq_true, String.isEmpty_iff, beq_iff_eq, List.getLast?_eq_some_iff]
  refine or_congr Iff.rfl ⟨?_, ?_⟩
  · rintro ⟨front, hfront⟩
    exact ⟨String.ofList front, by rw [← String.toList_inj, hfront]; simp⟩
  · rintro ⟨front, rfl⟩
    exact ⟨front.toList, by simp⟩

theorem segments_eq_stem (path : String) :
    segments path = stem path ∨ segments path = stem path ++ [""] := by
  rw [stem]
  split
  · rename_i hopen
    right
    rcases isOpen_iff.1 hopen with rfl | ⟨front, rfl⟩
    · rfl
    · rw [segments_append_slash, List.dropLast_concat]
  · exact Or.inl rfl

theorem join_eq_lead {path other : String} (h : isAbsolute other = false) :
    join path other = lead path ++ other := by
  rw [join, if_neg (by rw [h]; simp), lead, isOpen]
  split_ifs <;> rfl

/-- A relative path adds its segments to what the path keeps of its own. -/
theorem segments_join_relative {path other : String} (h : isAbsolute other = false) :
    segments (join path other) = stem path ++ segments other := by
  rw [join_eq_lead h, lead, stem]
  split
  · rename_i hopen
    rcases isOpen_iff.1 hopen with rfl | ⟨front, rfl⟩
    · rw [String.empty_append]
      rfl
    · rw [segments_append, segments_append_slash, List.dropLast_concat]
  · exact segments_append path other

theorem segments_join {path name : String} (h : '/' ∉ name.toList) :
    segments (join path name) = stem path ++ [name] := by
  rw [segments_join_relative (isAbsolute_of_no_slash h), segments_of_no_slash h]

theorem isOpen_join {path name : String} (h : IsEntryName name) :
    isOpen (join path name) = false := by
  have hne : name.toList ≠ [] := by
    rw [Ne, String.toList_eq_nil_iff]; exact h.nonempty
  have hlast : (join path name).toList.getLast? = name.toList.getLast? := by
    rw [join_of_no_slash h.no_slash]
    split
    · rw [String.toList_append, List.getLast?_append_of_ne_nil _ hne]
    · rw [String.toList_append, List.getLast?_append_of_ne_nil _ hne]
  rw [isOpen, hlast, Bool.or_eq_false_iff]
  constructor
  · rw [← Bool.not_eq_true, String.isEmpty_iff]
    intro hempty
    rw [hempty] at hlast
    exact hne (List.getLast?_eq_none_iff.1 hlast.symm)
  · rw [beq_eq_false_iff_ne]
    intro hslash
    exact h.no_slash (List.mem_of_getLast? hslash)

theorem stem_join {path name : String} (h : IsEntryName name) :
    stem (join path name) = stem path ++ [name] := by
  rw [stem, isOpen_join h, if_neg (by simp), segments_join h.no_slash]

theorem stem_below {root : String} {names : List String} (h : ∀ name ∈ names, IsEntryName name) :
    stem (below root names) = stem root ++ names := by
  induction names generalizing root with
  | nil => rw [below_nil, List.append_nil]
  | cons name names ih =>
    rw [below_cons, ih fun n hn => h n (List.mem_cons_of_mem _ hn)]
    rw [stem_join (h name List.mem_cons_self), List.append_assoc, List.singleton_append]

/-- Different names lead to different paths below the same root. -/
theorem below_inj {root : String} {names others : List String}
    (hn : ∀ name ∈ names, IsEntryName name) (ho : ∀ name ∈ others, IsEntryName name)
    (h : below root names = below root others) : names = others := by
  have hstem := congrArg stem h
  rw [stem_below hn, stem_below ho] at hstem
  exact List.append_cancel_left hstem

/-! ### Joins of joins -/

theorem join_of_absolute {path other : String} (h : isAbsolute other = true) :
    join path other = other := by
  rw [join, if_pos h]

theorem isOpen_lead (path : String) : isOpen (lead path) = true := by
  rw [lead]
  split_ifs with h
  · exact h
  · rw [isOpen, String.toList_append, List.getLast?_append_of_ne_nil _ (by decide)]
    exact Bool.or_true _

/-- Behind a path that is open for it, what is put in front of the next path stays the same. -/
theorem lead_append {front path : String} (h : isOpen front = true) :
    lead (front ++ path) = front ++ lead path := by
  have hopen : isOpen (front ++ path) = isOpen path := by
    rcases eq_or_ne path "" with rfl | hne
    · rw [String.append_empty, h]
      rfl
    · have hchars : path.toList ≠ [] := by rwa [Ne, String.toList_eq_nil_iff]
      have hempty (text : String) (htext : text.toList ≠ []) : text.isEmpty = false := by
        rw [← Bool.not_eq_true, String.isEmpty_iff, ← String.toList_eq_nil_iff]
        exact htext
      rw [isOpen, isOpen, hempty path hchars, hempty (front ++ path) (by simp [hchars]),
        String.toList_append, List.getLast?_append_of_ne_nil _ hchars]
  rw [lead, lead, hopen]
  split_ifs
  · rfl
  · rw [String.append_assoc]

theorem isAbsolute_lead_append {path other : String} (h : isAbsolute other = false) :
    isAbsolute (lead path ++ other) = isAbsolute path := by
  rcases eq_or_ne path "" with rfl | hne
  · rw [lead, if_pos (by decide), String.empty_append, h]
    rfl
  · have hchars : path.toList ≠ [] := by rwa [Ne, String.toList_eq_nil_iff]
    rw [isAbsolute, isAbsolute, lead]
    split_ifs
    · rw [String.toList_append, List.head?_append_of_ne_nil _ hchars]
    · rw [String.toList_append, String.toList_append, List.append_assoc,
        List.head?_append_of_ne_nil _ hchars]

theorem isAbsolute_join {path other : String} (h : isAbsolute other = false) :
    isAbsolute (join path other) = isAbsolute path := by
  rw [join_eq_lead h, isAbsolute_lead_append h]

/-- Joining is associative. -/
theorem join_join (first second third : String) :
    join (join first second) third = join first (join second third) := by
  cases hthird : isAbsolute third with
  | true => rw [join_of_absolute hthird, join_of_absolute hthird, join_of_absolute hthird]
  | false =>
    rw [join_eq_lead hthird, join_eq_lead hthird]
    have habs : isAbsolute (lead second ++ third) = isAbsolute second :=
      isAbsolute_lead_append hthird
    cases hsecond : isAbsolute second with
    | true => rw [join_of_absolute hsecond, join_of_absolute (habs.trans hsecond)]
    | false =>
      rw [join_eq_lead hsecond, join_eq_lead (habs.trans hsecond),
        lead_append (isOpen_lead first), String.append_assoc]

/-- What lies below a joined path is joined as a whole. -/
theorem below_join (path root : String) (names : List String) :
    below (join path root) names = join path (below root names) := by
  induction names generalizing root with
  | nil => rfl
  | cons name names ih => rw [below_cons, join_join, ih, below_cons]

/-! ### What else a joined path keeps -/

theorem mem_join {path name : String} {c : Char} (h : '/' ∉ name.toList)
    (hc : c ∈ (join path name).toList) : c ∈ path.toList ∨ c = '/' ∨ c ∈ name.toList := by
  rw [join_of_no_slash h] at hc
  split at hc
  · rw [String.toList_append, List.mem_append] at hc
    tauto
  · simp only [String.toList_append, List.mem_append] at hc
    rcases hc with (hc | hc) | hc
    · exact Or.inl hc
    · exact Or.inr (Or.inl (by simpa using hc))
    · exact Or.inr (Or.inr hc)

theorem join_ne_empty {path name : String} (h : IsEntryName name) : join path name ≠ "" := by
  intro hempty
  have hopen : isOpen (join path name) = false := isOpen_join h
  rw [hempty] at hopen
  exact absurd hopen (by decide)

theorem below_ne_empty {root : String} {names : List String}
    (h : ∀ name ∈ names, IsEntryName name) (hroot : root ≠ "") : below root names ≠ "" := by
  induction names generalizing root with
  | nil => exact hroot
  | cons name names ih =>
    obtain ⟨hname, hnames⟩ := List.forall_mem_cons.1 h
    exact ih hnames (join_ne_empty hname)

theorem isAbsolute_below {root : String} {names : List String}
    (h : ∀ name ∈ names, IsEntryName name) :
    isAbsolute (below root names) = isAbsolute root := by
  induction names generalizing root with
  | nil => rfl
  | cons name names ih =>
    obtain ⟨hname, hnames⟩ := List.forall_mem_cons.1 h
    rw [below_cons, ih hnames, isAbsolute_join (isAbsolute_of_no_slash hname.no_slash)]

theorem no_nul_below {root : String} {names : List String} (h : ∀ name ∈ names, IsEntryName name)
    (hroot : '\x00' ∉ root.toList) : '\x00' ∉ (below root names).toList := by
  induction names generalizing root with
  | nil => exact hroot
  | cons name names ih =>
    obtain ⟨hname, hnames⟩ := List.forall_mem_cons.1 h
    refine ih hnames fun hc => ?_
    rcases mem_join hname.no_slash hc with hc | hc | hc
    · exact hroot hc
    · exact absurd hc (by decide)
    · exact hname.no_nul hc

/-- Below a path the names on the way follow what the path keeps of its own segments. -/
theorem segments_below {root : String} {names : List String}
    (h : ∀ name ∈ names, IsEntryName name) (hne : names ≠ []) :
    segments (below root names) = stem root ++ names := by
  induction names generalizing root with
  | nil => exact absurd rfl hne
  | cons name names ih =>
    obtain ⟨hname, hnames⟩ := List.forall_mem_cons.1 h
    rw [below_cons]
    rcases eq_or_ne names [] with rfl | hmore
    · exact segments_join hname.no_slash
    · rw [ih hnames hmore, stem_join hname, List.append_assoc, List.singleton_append]

end ImportScan.Path
