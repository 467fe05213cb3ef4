import ImportScan.Proofs.Spellings
import Mathlib.Data.List.Induction

/-!
Which paths are taken for their extension. A path leads to a file exactly when it is made of a
directory, a name and a tail of slashes and `.` steps (`fileName?_eq_some_iff`), and the extension
of a name shows at its end. So the test of a path is a test of how a name ends.
-/

namespace ImportScan.Path

/-- A name that can be the last component of a path. -/
structure IsFileName (name : String) : Prop where
  nonempty : name ≠ ""
  not_here : name ≠ "."
  not_up : name ≠ ".."
  no_slash : '/' ∉ name.toList

/-- What may stand behind a path and leads nowhere: any number of `/` and `/.`. -/
inductive IsTail : String → Prop
  | nil : IsTail ""
  | slash {tail : String} (h : IsTail tail) : IsTail (tail ++ "/")
  | here {tail : String} (h : IsTail tail) : IsTail (tail ++ "/.")

variable {path name tail : String}

/-! ### File names -/

theorem same_of_isTail (hpath : path ≠ "") (h : IsTail tail) : Same (path ++ tail) path := by
  have hidle {tail segment : String} (hsegment : IsIdle segment) (ih : Same (path ++ tail) path) :
      Same (path ++ (tail ++ "/" ++ segment)) path := by
    have hne : path ++ tail ≠ "" := by simp [hpath]
    rw [← String.append_assoc, ← String.append_assoc]
    exact (Respells.last hne hsegment).same.trans ih
  induction h with
  | nil => rw [String.append_empty]; rfl
  | slash _ ih => simpa using hidle (Or.inl rfl) ih
  | here _ ih => simpa [String.append_assoc] using hidle (Or.inr rfl) ih

theorem fileName?_tail (dir : String) (h : IsFileName name) (htail : IsTail tail) :
    fileName? (join dir name ++ tail) = some name := by
  have hjoin : fileName? (join dir name) = some name :=
    fileName?_of_segments (stem dir) (component?_of_name h.nonempty h.not_here h.not_up)
      (segments_join h.no_slash)
  have hne : join dir name ≠ "" := by
    intro hempty
    rw [hempty] at hjoin
    cases hjoin
  rw [fileName?_congr (same_of_isTail hne htail), hjoin]

theorem isFileName_of_component? (h : component? name = some (.name name))
    (hslash : '/' ∉ name.toList) : IsFileName name where
  nonempty := by rintro rfl; cases h
  not_here := by rintro rfl; cases h
  not_up := by rintro rfl; cases h
  no_slash := hslash

/-- Segments that say nothing make up a tail. -/
theorem exists_tail {idle : List String} (h : ∀ segment ∈ idle, IsIdle segment) :
    ∃ tail, IsTail tail ∧ ∀ front ≠ [],
      "/".intercalate (front ++ idle) = "/".intercalate front ++ tail := by
  induction idle using List.reverseRecOn with
  | nil => exact ⟨"", .nil, fun front _ => by rw [List.append_nil, String.append_empty]⟩
  | append_singleton idle segment ih =>
    obtain ⟨tail, htail, hidle⟩ := ih fun s hs => h s (List.mem_append_left _ hs)
    have htext (front : List String) (hne : front ≠ []) :
        "/".intercalate (front ++ (idle ++ [segment])) =
          "/".intercalate front ++ (tail ++ "/" ++ segment) := by
      rw [← List.append_assoc, String.intercalate_append_of_ne_nil (by simp [hne]) (by simp),
        hidle front hne, String.intercalate_singleton]
      simp only [String.append_assoc]
    rcases h segment (List.mem_append_right _ List.mem_cons_self) with rfl | rfl
    · exact ⟨tail ++ "/", htail.slash, fun front hne => by simpa using htext front hne⟩
    · exact ⟨tail ++ "/.", htail.here, fun front hne => by
        simpa [String.append_assoc] using htext front hne⟩

theorem exists_join (front : List String) (h : '/' ∉ name.toList) :
    ∃ dir, "/".intercalate (front ++ [name]) = join dir name := by
  rcases eq_or_ne front [] with rfl | hne
  · refine ⟨"", ?_⟩
    rw [join_of_no_slash h, if_pos (by decide), String.empty_append]
    exact String.intercalate_singleton
  · refine ⟨"/".intercalate front ++ "/", ?_⟩
    have hopen : isOpen ("/".intercalate front ++ "/") = true :=
      isOpen_iff.2 (Or.inr ⟨"/".intercalate front, rfl⟩)
    rw [join_of_no_slash h, if_pos hopen, String.intercalate_append_of_ne_nil hne (by simp),
      String.intercalate_singleton]

/-- A path leads to a file name exactly when it is the name in some directory, apart from a tail. -/
theorem fileName?_eq_some_iff : fileName? path = some name ↔
    IsFileName name ∧ ∃ dir tail, IsTail tail ∧ path = join dir name ++ tail := by
  constructor
  · intro h
    have hslash := no_slash_of_fileName? h
    obtain ⟨before, hsteps⟩ :=
      List.getLast?_eq_some_iff.1 (fileName?_eq_some_iff_steps.1 h)
    rw [steps, List.filterMap_eq_append_iff] at hsteps
    obtain ⟨front, rest, hsegments, -, hrest⟩ := hsteps
    obtain ⟨skipped, segment, idle, rfl, -, hsegment, hidle⟩ := List.filterMap_eq_cons_iff.1 hrest
    obtain rfl := component?_eq_name hsegment
    obtain ⟨tail, htail, htext⟩ := exists_tail fun s hs =>
      component?_eq_none_iff.1 (List.filterMap_eq_nil_iff.1 hidle s hs)
    obtain ⟨dir, hdir⟩ := exists_join (front ++ skipped) hslash
    refine ⟨isFileName_of_component? hsegment hslash, dir, tail, htail, ?_⟩
    rw [← hdir, ← htext _ (by simp), ← intercalate_segments path, hsegments]
    simp
  · rintro ⟨hname, dir, tail, htail, rfl⟩
    exact fileName?_tail dir hname htail

end ImportScan.Path

namespace ImportScan.Config

/-- The name ends in one of the extensions and has something in front of it. An extension only
counts when it is a dot with no further dot behind it. -/
def EndsInExtension (c : Config) (name : String) : Prop :=
  ∃ front, ∃ ext ∈ c.extensions, front ≠ "" ∧ (∃ text, ext = "." ++ text ∧ '.' ∉ text.toList) ∧
    name = front ++ ext

/-- An extension less one leading dot. -/
def undotted (ext : String) : String :=
  if ext.toList.head? == some '.' then String.ofList ext.toList.tail else ext

variable {c : Config} {path name : String}

theorem isSupported_iff : c.isSupported path = true ↔
    ∃ ext, Path.extension? path = some ext ∧ "." ++ ext ∈ c.extensions := by
  rw [isSupported, Option.any_eq_true]
  simp only [List.contains_iff_mem]

theorem isSupported_iff_endsInExtension (h : Path.fileName? path = some name) :
    c.isSupported path = true ↔ c.EndsInExtension name := by
  rw [isSupported_iff]
  simp only [Path.extension?_eq_some_iff, h, Option.some.injEq]
  constructor
  · rintro ⟨text, ⟨name, rfl, hdot, front, hfront, hname⟩, hmem⟩
    exact ⟨front, _, hmem, hfront, ⟨text, rfl, hdot⟩, hname⟩
  · rintro ⟨front, _, hmem, hfront, ⟨text, rfl, hdot⟩, hname⟩
    exact ⟨text, ⟨name, rfl, hdot, front, hfront, hname⟩, hmem⟩

theorem isSupported_of_no_fileName (h : Path.fileName? path = none) :
    c.isSupported path = false := by
  rw [isSupported, Path.extension?, h]
  rfl

theorem dotted_eq (ext : String) : dotted ext = "." ++ undotted ext := by
  rw [dotted, undotted]
  split
  · rename_i hhead
    obtain ⟨rest, hrest⟩ := List.head?_eq_some_iff.1 (beq_iff_eq.1 hhead)
    rw [← String.toList_inj, hrest]
    simp
  · rfl

/-- One more extension takes the paths that have it, and no others. -/
theorem isSupported_addExtension (ext : String) : (c.addExtension ext).isSupported path = true ↔
    c.isSupported path = true ∨ Path.extension? path = some (undotted ext) := by
  have hmem (text : String) : "." ++ text ∈ (c.addExtension ext).extensions ↔
      "." ++ text ∈ c.extensions ∨ text = undotted ext := by
    rw [addExtension, mem_addNew, dotted_eq, String.append_right_inj]
  simp only [isSupported_iff, hmem, and_or_left, exists_or, exists_eq_right]

/-- Whether a path is taken depends on the name alone that it leads to, and this name has to end in
an extension that is taken: a dot, with no dot behind it and something before it. Directories in
front, and slashes and `.` steps behind, make no difference. A path whose last component is no name
but `..`, the root, a `.` or nothing at all is not taken, so each path taken is such a name in some
directory. One more extension makes the paths taken grow by those which have it, less one dot. -/
theorem isSupported_by_name (c : Config) :
    (∀ dir name tail, Path.IsFileName name → Path.IsTail tail →
        (c.isSupported (Path.join dir name ++ tail) = true ↔ c.EndsInExtension name)) ∧
      (∀ path, (∀ name, (Path.components path).getLast? ≠ some (.name name)) →
        c.isSupported path = false) ∧
      (∀ path, c.isSupported path = true → ∃ dir name tail,
        Path.IsFileName name ∧ Path.IsTail tail ∧ path = Path.join dir name ++ tail) ∧
      ∀ ext path, (c.addExtension ext).isSupported path = true ↔
        c.isSupported path = true ∨ Path.extension? path = some (undotted ext) := by
  refine ⟨fun dir name tail hname htail => ?_, fun path hlast => ?_, fun path hpath => ?_, ?_⟩
  · exact isSupported_iff_endsInExtension (Path.fileName?_tail dir hname htail)
  · refine isSupported_of_no_fileName (Option.eq_none_iff_forall_ne_some.2 fun name hname => ?_)
    exact hlast name (Path.fileName?_eq_some_iff_components.1 hname)
  · obtain ⟨ext, hext, -⟩ := isSupported_iff.1 hpath
    obtain ⟨name, hname, -⟩ := Path.extension?_eq_some_iff.1 hext
    obtain ⟨hfile, dir, tail, htail, rfl⟩ := Path.fileName?_eq_some_iff.1 hname
    exact ⟨dir, name, tail, hfile, htail, rfl⟩
  · exact fun ext path => isSupported_addExtension ext

/-- A name of two dots and an extension has this extension. An entry without a dot is of no use
until it is added as an extension, and one with two dots never is. -/
theorem isSupported_by_name_sample :
    let c : Config := { extensions := [".js", "ts", ".d.ts"] }
    (Path.IsFileName "..js" ∧ Path.IsTail "/./") ∧ c.EndsInExtension "..js" ∧
      c.isSupported (Path.join "/p//.." "..js" ++ "/./") = true ∧
      (∀ name, (Path.components "p/a.js/..").getLast? ≠ some (.name name)) ∧
      c.isSupported "p/a.js/.." = false ∧ c.isSupported ".js" = false ∧
      c.isSupported "a.d.ts" = false ∧ Path.extension? "a.d.ts" = some (undotted "ts") ∧
      (c.addExtension "ts").isSupported "a.d.ts" = true := by
  intro c
  obtain ⟨hname, hnone, -, hadd⟩ := isSupported_by_name c
  have hfile : Path.IsFileName "..js" := ⟨by decide, by decide, by decide, by decide⟩
  have htail : Path.IsTail "/./" := Path.IsTail.nil.here.slash
  have hends : c.EndsInExtension "..js" :=
    ⟨".", ".js", by decide, by decide, ⟨"js", by decide, by decide⟩, by decide⟩
  have hup : ∀ name, (Path.components "p/a.js/..").getLast? ≠ some (.name name) := by
    intro name
    rw [show (Path.components "p/a.js/..").getLast? = some .up by decide]
    simp
  have hext : Path.extension? "a.d.ts" = some (undotted "ts") := by decide
  exact ⟨⟨hfile, htail⟩, hends, (hname "/p//.." "..js" "/./" hfile htail).2 hends, hup,
    hnone _ hup, by decide, by decide, hext, (hadd "ts" "a.d.ts").2 (Or.inr hext)⟩

end ImportScan.Config
