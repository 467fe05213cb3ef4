import ImportScan.Proofs.PathText
import Mathlib.Data.List.TakeWhile

/-!
What the segments of a path say. Apart from what a path starts with, each segment says something for
itself (`steps`), so a path put behind another one adds its own steps. What a joined path says
therefore depends on what its two parts say (`components_join_eq_seenFrom`), not on their spelling.
The name of the file that a path leads to and its extension come from the last step.
-/

namespace ImportScan.Path

/-- A segment that says nothing behind another one. -/
def IsIdle (segment : String) : Prop := segment = "" ∨ segment = "."

/-- What the segments of a path say, wherever the path starts. -/
def steps (path : String) : List Component := (segments path).filterMap component?

/-- The components of a path seen from a base: an absolute path stands for itself, and the `.` that
another one starts with only counts where nothing comes before it. -/
def seenFrom (base path : List Component) : List Component :=
  if path.head? = some .root ∨ base = [] then path else base ++ path.filter (· ≠ .here)

variable {path other name segment front rest : String}

/-! ### Segments and steps -/

theorem component?_eq_none_iff : component? segment = none ↔ IsIdle segment := by
  rw [component?, IsIdle]
  split_ifs with hidle <;> simp [hidle]

theorem component?_of_name (hempty : name ≠ "") (hhere : name ≠ ".") (hup : name ≠ "..") :
    component? name = some (.name name) := by
  rw [component?, if_neg (not_or.2 ⟨hempty, hhere⟩), if_neg hup]

theorem component?_eq_name (h : component? segment = some (.name name)) : segment = name := by
  rw [component?] at h
  split_ifs at h
  · cases h
  · exact Component.name.inj (Option.some.inj h)

theorem steps_append (front rest : String) :
    steps (front ++ "/" ++ rest) = steps front ++ steps rest := by
  rw [steps, segments_append, List.filterMap_append]
  rfl

theorem steps_of_isIdle (h : IsIdle segment) : steps segment = [] := by
  rcases h with rfl | rfl <;> decide

theorem steps_of_isEntryName (h : IsEntryName name) : steps name = [.name name] := by
  rw [steps, segments_of_no_slash h.no_slash, List.filterMap_cons,
    component?_of_name h.nonempty h.not_here h.not_up, List.filterMap_nil]

/-- Steps lead up or into something. -/
theorem mem_steps {component : Component} (h : component ∈ steps path) :
    component = .up ∨ ∃ name ∈ segments path, component = .name name := by
  obtain ⟨segment, hsegment, hcomponent⟩ := List.mem_filterMap.1 h
  rw [component?] at hcomponent
  split_ifs at hcomponent
  · exact Or.inl (Option.some.inj hcomponent).symm
  · exact Or.inr ⟨segment, hsegment, (Option.some.inj hcomponent).symm⟩

/-! ### Steps and components -/

theorem components_of_isAbsolute (h : isAbsolute path = true) :
    components path = .root :: steps path := if_pos h

theorem components_of_relative (h : isAbsolute path = false) :
    components path =
      if (segments path).head? = some "." then .here :: steps path else steps path :=
  if_neg (by rw [h]; exact Bool.false_ne_true)

/-- In front of its steps a path only says where it starts. -/
theorem components_eq_append (path : String) :
    ∃ start, components path = start ++ steps path ∧ ∀ name, .name name ∉ start := by
  cases habs : isAbsolute path with
  | true => exact ⟨[.root], components_of_isAbsolute habs, by simp⟩
  | false =>
    rw [components_of_relative habs]
    split_ifs
    · exact ⟨[.here], rfl, by simp⟩
    · exact ⟨[], rfl, by simp⟩

theorem name_mem_components_iff : .name name ∈ components path ↔ .name name ∈ steps path := by
  obtain ⟨start, hpath, hstart⟩ := components_eq_append path
  rw [hpath, List.mem_append, or_iff_right (hstart name)]

/-- A segment that leads into an entry is a component of the path. -/
theorem name_mem_components (h : name ∈ segments path) (hempty : name ≠ "")
    (hhere : name ≠ ".") (hup : name ≠ "..") : .name name ∈ components path :=
  name_mem_components_iff.2 (List.mem_filterMap.2 ⟨name, h, component?_of_name hempty hhere hup⟩)

theorem head?_components_eq_root :
    (components path).head? = some .root ↔ isAbsolute path = true := by
  cases h : isAbsolute path with
  | true => simp [components_of_isAbsolute h]
  | false =>
    have hsteps : (steps path).head? ≠ some .root := fun hhead => by
      simpa using mem_steps (List.mem_of_head? hhead)
    rw [components_of_relative h]
    split_ifs <;> simp [hsteps]

/-- A relative path starts with what its first segment says. -/
theorem exists_first_segment (hne : path ≠ "") (h : isAbsolute path = false) :
    ∃ first rest, segments path = first :: rest ∧ first ≠ "" := by
  obtain ⟨first, rest, hsegments⟩ := List.exists_cons_of_ne_nil (segments_ne_nil path)
  refine ⟨first, rest, hsegments, ?_⟩
  rintro rfl
  have htext := intercalate_segments path
  rw [hsegments] at htext
  rcases eq_or_ne rest [] with rfl | hrest
  · exact hne htext.symm
  · rw [String.intercalate_cons_of_ne_nil hrest] at htext
    rw [← htext] at h
    simp [isAbsolute] at h

/-- Only the empty path has no components. -/
theorem components_eq_nil_iff : components path = [] ↔ path = "" := by
  constructor
  · intro h
    by_contra hne
    cases habs : isAbsolute path with
    | true =>
      rw [components_of_isAbsolute habs] at h
      cases h
    | false =>
      obtain ⟨first, rest, hsegments, hfirst⟩ := exists_first_segment hne habs
      rw [components_of_relative habs, steps, hsegments] at h
      split_ifs at h with hhere
      have hidle : IsIdle first :=
        component?_eq_none_iff.1 (List.filterMap_eq_nil_iff.1 h first List.mem_cons_self)
      exact hidle.elim hfirst fun heq => hhere (congrArg some heq)
  · rintro rfl
    decide

/-- What stands behind a slash adds its steps; in front of the slash of an absolute path there is
nothing. -/
theorem components_append (front rest : String) :
    components (front ++ "/" ++ rest) =
      (if front = "" then [.root] else components front) ++ steps rest := by
  split_ifs with hfront
  · subst hfront
    have habs : isAbsolute ("" ++ "/" ++ rest) = true := by simp [isAbsolute]
    rw [components_of_isAbsolute habs, steps_append, steps_of_isIdle (Or.inl rfl)]
    rfl
  · have hchars : front.toList ≠ [] := by rwa [Ne, String.toList_eq_nil_iff]
    have habs : isAbsolute (front ++ "/" ++ rest) = isAbsolute front := by
      rw [isAbsolute, isAbsolute, String.append_assoc, String.toList_append,
        List.head?_append_of_ne_nil _ hchars]
    cases h : isAbsolute front with
    | true =>
      rw [components_of_isAbsolute (habs.trans h), components_of_isAbsolute h, steps_append,
        List.cons_append]
    | false =>
      rw [components_of_relative (habs.trans h), components_of_relative h, steps_append,
        segments_append, List.head?_append_of_ne_nil _ (segments_ne_nil front)]
      split_ifs <;> rfl

/-! ### Joined paths -/

/-- The steps of a relative path are its components without the `.` it may start with. -/
theorem filter_components_of_relative (h : isAbsolute path = false) :
    (components path).filter (· ≠ .here) = steps path := by
  have hsteps : (steps path).filter (· ≠ .here) = steps path := by
    rw [List.filter_eq_self]
    intro component hmem
    rw [decide_eq_true_eq]
    rintro rfl
    simpa using mem_steps hmem
  rw [components_of_relative h]
  split_ifs
  · rw [List.filter_cons_of_neg (by simp), hsteps]
  · exact hsteps

/-- Behind a path that is not empty, a relative path adds its steps. -/
theorem components_join_of_relative {base : String} (hbase : base ≠ "")
    (h : isAbsolute path = false) :
    components (join base path) = components base ++ steps path := by
  rw [join_eq_lead h, lead]
  split_ifs with hopen
  · rcases isOpen_iff.1 hopen with rfl | ⟨front, rfl⟩
    · exact absurd rfl hbase
    · have hslash := components_append front ""
      rw [String.append_empty, steps_of_isIdle (Or.inl rfl), List.append_nil] at hslash
      rw [components_append, hslash]
  · rw [components_append, if_neg hbase]

/-- The components of a joined path depend on those of its two parts alone. -/
theorem components_join_eq_seenFrom (base path : String) :
    components (join base path) = seenFrom (components base) (components path) := by
  simp only [seenFrom, head?_components_eq_root, components_eq_nil_iff]
  cases h : isAbsolute path with
  | true => rw [join_of_absolute h, if_pos (Or.inl rfl)]
  | false =>
    rcases eq_or_ne base "" with rfl | hbase
    · rw [if_pos (Or.inr rfl), join_eq_lead h]
      exact congrArg components String.empty_append
    · rw [if_neg (by simp [hbase]), components_join_of_relative hbase h,
        filter_components_of_relative h]

/-- Joining gives the same path, however its two parts are spelled. -/
theorem Same.join {base base' path' : String} (hbase : Same base base')
    (hpath : Same path path') : Same (join base path) (Path.join base' path') := by
  rw [Same, components_join_eq_seenFrom, components_join_eq_seenFrom, hbase, hpath]

/-- A name joined to a path is one more component of it. -/
theorem components_join (h : IsEntryName name) :
    components (join path name) = components path ++ [.name name] := by
  have habs := isAbsolute_of_no_slash h.no_slash
  rcases eq_or_ne path "" with rfl | hne
  · have hhead : (segments name).head? ≠ some "." := by
      rw [segments_of_no_slash h.no_slash]
      exact fun heq => h.not_here (Option.some.inj heq)
    have hjoin : join "" name = name := by rw [join_eq_lead habs]; exact String.empty_append
    rw [hjoin, components_of_relative habs, if_neg hhead, steps_of_isEntryName h]
    rfl
  · rw [components_join_of_relative hne habs, steps_of_isEntryName h]

/-- The names on the way are the components that a path has below a root. -/
theorem components_below {root : String} {names : List String}
    (h : ∀ name ∈ names, IsEntryName name) :
    components (below root names) = components root ++ names.map .name := by
  induction names generalizing root with
  | nil => rw [below_nil, List.map_nil, List.append_nil]
  | cons name names ih =>
    obtain ⟨hname, hnames⟩ := List.forall_mem_cons.1 h
    rw [below_cons, ih hnames, components_join hname, List.append_assoc, List.map_cons,
      List.singleton_append]

/-! ### File names -/

theorem fileName?_congr (h : Same path other) : fileName? path = fileName? other := by
  rw [fileName?, fileName?, h]

theorem fileName?_eq_some_iff_components :
    fileName? path = some name ↔ (components path).getLast? = some (.name name) := by
  rw [fileName?]
  split
  · rename_i text hlast
    rw [hlast, Option.some.injEq, Option.some.injEq, Component.name.injEq]
  · rename_i hlast
    exact iff_of_false (Option.some_ne_none name).symm (hlast name)

/-- The file that a path names is its last step, if that leads into something. -/
theorem fileName?_eq_some_iff_steps :
    fileName? path = some name ↔ (steps path).getLast? = some (.name name) := by
  rw [fileName?_eq_some_iff_components]
  obtain ⟨start, hpath, hstart⟩ := components_eq_append path
  rcases eq_or_ne (steps path) [] with hnil | hne
  · rw [hpath, hnil, List.append_nil]
    exact iff_of_false (fun hlast => hstart name (List.mem_of_getLast? hlast)) (by simp)
  · rw [hpath, List.getLast?_append_of_ne_nil _ hne]

theorem fileName?_of_segments (front : List String) (h : component? name = some (.name name))
    (hp : segments path = front ++ [name]) : fileName? path = some name := by
  rw [fileName?_eq_some_iff_steps, steps, hp, List.filterMap_append, List.filterMap_cons, h]
  exact List.getLast?_concat

theorem no_slash_of_fileName? (h : fileName? path = some name) : '/' ∉ name.toList := by
  rcases mem_steps (List.mem_of_getLast? (fileName?_eq_some_iff_steps.1 h)) with
    hup | ⟨segment, hsegment, heq⟩
  · cases hup
  · exact Component.name.inj heq ▸ no_slash_of_mem_segments hsegment

/-! ### Extensions -/

theorem extensionOf?_append {front ext : List Char} (hfront : front ≠ []) (hdot : '.' ∉ ext) :
    extensionOf? (front ++ '.' :: ext) = some ext := by
  obtain ⟨d, rest, hrest⟩ := List.exists_cons_of_ne_nil (List.reverse_eq_nil_iff.not.2 hfront)
  have hreverse : (front ++ '.' :: ext).reverse = ext.reverse ++ '.' :: d :: rest := by
    rw [List.reverse_append, List.reverse_cons, List.append_assoc, List.singleton_append, hrest]
  have hall : ∀ c ∈ ext.reverse, decide (c ≠ '.') = true := by
    intro c hc
    rw [decide_eq_true_eq]
    rintro rfl
    exact hdot (List.mem_reverse.1 hc)
  rw [extensionOf?, hreverse, List.dropWhile_append_of_pos hall,
    List.takeWhile_append_of_pos hall]
  simp

/-- The extension of a name is what is behind its last dot, if there is something in front. -/
theorem extensionOf?_eq_some_iff {name ext : List Char} : extensionOf? name = some ext ↔
    '.' ∉ ext ∧ ∃ front, front ≠ [] ∧ name = front ++ '.' :: ext := by
  constructor
  · intro h
    rw [extensionOf?] at h
    split at h
    · rename_i c d front hdrop
      have hext := Option.some.inj h
      have hc : c = '.' := by
        have hnot := List.head?_dropWhile_not (· ≠ '.') name.reverse
        rw [hdrop] at hnot
        simpa using hnot
      -- read backwards, the name is its extension, the dot and what is in front
      have hname := congrArg List.reverse (List.takeWhile_append_dropWhile
        (p := (· ≠ '.')) (l := name.reverse))
      rw [hdrop, hc, List.reverse_append, List.reverse_reverse, hext] at hname
      refine ⟨?_, (d :: front).reverse, by simp, ?_⟩
      · rw [← hext, List.mem_reverse]
        exact fun hdot => by simpa using List.mem_takeWhile_imp hdot
      · rw [← hname, List.reverse_cons, List.append_assoc, List.singleton_append]
    · cases h
  · rintro ⟨hdot, front, hfront, rfl⟩
    exact extensionOf?_append hfront hdot

/-- A path has an extension when the name that it leads to ends in a dot and this extension, with
something in front and no dot in the extension. -/
theorem extension?_eq_some_iff {ext : String} : extension? path = some ext ↔
    ∃ name, fileName? path = some name ∧
      '.' ∉ ext.toList ∧ ∃ front, front ≠ "" ∧ name = front ++ ("." ++ ext) := by
  rw [extension?]
  simp only [Option.map_eq_some_iff, Option.bind_eq_some_iff]
  constructor
  · rintro ⟨_, ⟨name, hname, hext⟩, rfl⟩
    obtain ⟨hdot, front, hfront, hsplit⟩ := extensionOf?_eq_some_iff.1 hext
    refine ⟨name, hname, by rwa [String.toList_ofList], String.ofList front, ?_, ?_⟩
    · rwa [Ne, ← String.toList_eq_nil_iff, String.toList_ofList]
    · rw [← String.toList_inj, hsplit]
      simp
  · rintro ⟨name, hname, hdot, front, hfront, rfl⟩
    refine ⟨ext.toList, ⟨_, hname, extensionOf?_eq_some_iff.2 ⟨hdot, front.toList, ?_, ?_⟩⟩,
      String.ofList_toList⟩
    · rwa [Ne, String.toList_eq_nil_iff]
    · simp

/-- An extension begins behind the last dot of a name, and no slash is in it. -/
theorem of_extension?_eq_some {ext : String} (h : extension? path = some ext) :
    '.' ∉ ext.toList ∧ '/' ∉ ext.toList := by
  obtain ⟨name, hname, hdot, front, -, rfl⟩ := extension?_eq_some_iff.1 h
  refine ⟨hdot, fun hslash => no_slash_of_fileName? hname ?_⟩
  simp [hslash]

theorem extension?_congr (h : Same path other) : extension? path = extension? other := by
  rw [extension?, extension?, fileName?_congr h]

theorem extension?_join (h : IsEntryName name) : extension? (join path name) = extension? name := by
  have hname := component?_of_name h.nonempty h.not_here h.not_up
  rw [extension?, extension?, fileName?_of_segments _ hname (segments_join h.no_slash),
    fileName?_of_segments [] hname (segments_of_no_slash h.no_slash)]

end ImportScan.Path

namespace ImportScan.Config

/-- Whether a path is taken depends on the last name alone. -/
theorem isSupported_join {path name : String} (c : Config) (h : Path.IsEntryName name) :
    c.isSupported (Path.join path name) = c.isSupported name := by
  rw [isSupported, isSupported, Path.extension?_join h]

end ImportScan.Config
