import ImportScan.Proofs.Components
import Mathlib.Logic.Relation

/-!
The spellings of a path. Paths are the same when their components are; on the text this comes down
to one rule: a segment that says nothing may be put in or taken out anywhere but at the front
(`same_iff_respells`). So every path has a plainest spelling (`spell`), a `.` that a relative path
starts with is there to stay, and `..` takes nothing out.
-/

namespace ImportScan.Path

open Relation (EqvGen)

/-- The second path is the first one without a segment that says nothing. In front of that segment
there is something, be it the slash of an absolute path, and something is left. -/
inductive Respells : String → String → Prop
  | within (front rest : String) {segment : String} (h : IsIdle segment) :
      Respells (front ++ "/" ++ segment ++ "/" ++ rest) (front ++ "/" ++ rest)
  | last {path segment : String} (hpath : path ≠ "") (h : IsIdle segment) :
      Respells (path ++ "/" ++ segment) path

/-- The segment that stands for a component. -/
def Component.text : Component → String
  | root => ""
  | here => "."
  | up => ".."
  | name text => text

/-- The plainest text with the given components. -/
def spell (path : List Component) : String :=
  if path = [.root] then "/" else "/".intercalate (path.map Component.text)

variable {path segment : String}

/-- A segment that is not idle stands for a component, which stands for the segment. -/
theorem exists_component (h : ¬IsIdle segment) :
    ∃ component, component? segment = some component ∧ component.text = segment := by
  rw [IsIdle] at h
  rw [component?, if_neg h]
  split_ifs with hup
  · exact ⟨.up, rfl, hup.symm⟩
  · exact ⟨.name segment, rfl, rfl⟩

/-! ### What a respelling keeps, and how far respellings lead -/

theorem Respells.same {path other : String} (h : Respells path other) : Same path other := by
  rw [Same]
  cases h with
  | within front rest hidle =>
    rw [String.append_assoc, String.append_assoc, components_append, components_append]
    rw [← String.append_assoc, steps_append, steps_of_isIdle hidle, List.nil_append]
  | last hpath hidle =>
    rw [components_append, if_neg hpath, steps_of_isIdle hidle, List.append_nil]

/-- Behind segments that make up some text, one that says nothing can be taken out. -/
theorem respells_of_isIdle {front rest : List String} (hfront : "/".intercalate front ≠ "")
    (h : IsIdle segment) : Respells ("/".intercalate (front ++ segment :: rest))
      ("/".intercalate (front ++ rest)) := by
  have hne : front ≠ [] := by
    rintro rfl
    exact hfront String.intercalate_nil
  rw [String.intercalate_append_of_ne_nil hne (List.cons_ne_nil segment rest)]
  rcases eq_or_ne rest [] with rfl | hrest
  · rw [List.append_nil, String.intercalate_singleton]
    exact .last hfront h
  · rw [String.intercalate_cons_of_ne_nil hrest, String.intercalate_append_of_ne_nil hne hrest]
    simpa only [String.append_assoc] using
      Respells.within ("/".intercalate front) ("/".intercalate rest) h

/-- All segments that say nothing can be taken out of what is behind the first ones. -/
theorem respelled_rest (rest : List String) {front : List String}
    (hfront : "/".intercalate front ≠ "") : EqvGen Respells ("/".intercalate (front ++ rest))
      ("/".intercalate (front ++ (rest.filterMap component?).map Component.text)) := by
  induction rest generalizing front with
  | nil => exact .refl _
  | cons segment rest ih =>
    by_cases hidle : IsIdle segment
    · rw [List.filterMap_cons, component?_eq_none_iff.2 hidle]
      exact .trans _ _ _ (.rel _ _ (respells_of_isIdle hfront hidle)) (ih hfront)
    · -- a segment that says something is from here on one of the first
      obtain ⟨component, hcomponent, htext⟩ := exists_component hidle
      have hne : segment ≠ "" := fun heq => hidle (Or.inl heq)
      have hmore : "/".intercalate (front ++ [segment]) ≠ "" := by
        rcases eq_or_ne front [] with rfl | hfront
        · rwa [List.nil_append, String.intercalate_singleton]
        · rw [String.intercalate_append_of_ne_nil hfront (List.cons_ne_nil segment [])]
          simp [hne]
      rw [List.filterMap_cons, hcomponent, List.map_cons, htext]
      simpa only [List.append_assoc, List.singleton_append] using ih hmore

/-- The slash at the front of an absolute path may be written twice. -/
theorem respelled_slash {rest : List String} (hne : rest ≠ []) :
    EqvGen Respells ("/".intercalate ("" :: rest)) ("/".intercalate ("" :: "" :: rest)) := by
  have htwo : "/".intercalate ("" :: "" :: rest) =
      "" ++ "/" ++ "" ++ "/" ++ "/".intercalate rest := by
    rw [String.intercalate_cons_cons, String.intercalate_cons_of_ne_nil hne]
    simp only [String.append_assoc]
  rw [htwo, String.intercalate_cons_of_ne_nil hne]
  exact .symm _ _ (.rel _ _ (.within "" ("/".intercalate rest) (Or.inl rfl)))

theorem respelled_absolute (rest : String) :
    EqvGen Respells ("" ++ "/" ++ rest) (spell (.root :: steps rest)) := by
  have hpath : "" ++ "/" ++ rest = "/".intercalate ("" :: segments rest) := by
    rw [String.intercalate_cons_of_ne_nil (segments_ne_nil rest), intercalate_segments]
  -- with a second slash there is some text in front of all that follows
  have hfront : "/".intercalate ["", ""] ≠ "" := by decide
  have hrest : EqvGen Respells ("/".intercalate ("" :: "" :: segments rest))
      ("/".intercalate ("" :: "" :: (steps rest).map Component.text)) :=
    respelled_rest (segments rest) hfront
  rw [hpath]
  refine (respelled_slash (segments_ne_nil rest)).trans _ _ _ (hrest.trans _ _ _ ?_)
  rcases eq_or_ne (steps rest) [] with hnil | hne
  · rw [hnil]
    exact .refl _
  · rw [spell, if_neg (by simpa using hne)]
    exact (respelled_slash (by simpa using hne)).symm

theorem respelled_relative {first : String} {rest : List String} (hfirst : first ≠ "")
    (hpath : segments path = first :: rest) (h : isAbsolute path = false) :
    EqvGen Respells path (spell (components path)) := by
  have hroot : components path ≠ [.root] := fun heq => by
    have habs := head?_components_eq_root.1 (congrArg List.head? heq)
    rw [h] at habs
    cases habs
  have hspell : spell (components path) =
      "/".intercalate (first :: (rest.filterMap component?).map Component.text) := by
    rw [spell, if_neg hroot, components_of_relative h, steps, hpath, List.head?_cons]
    split_ifs with hhere
    · rw [Option.some.inj hhere]
      rfl
    · have hidle : ¬IsIdle first := not_or.2 ⟨hfirst, fun heq => hhere (congrArg some heq)⟩
      obtain ⟨component, hcomponent, htext⟩ := exists_component hidle
      rw [List.filterMap_cons, hcomponent, List.map_cons, htext]
  have hlead : "/".intercalate [first] ≠ "" := by rwa [String.intercalate_singleton]
  have hrest := respelled_rest rest hlead
  rw [List.singleton_append, ← hpath, intercalate_segments] at hrest
  rw [hspell]
  exact hrest

/-- Every path can be respelled as the plainest text with its components. -/
theorem respelled_spell (path : String) : EqvGen Respells path (spell (components path)) := by
  cases habs : isAbsolute path with
  | true =>
    obtain ⟨rest, rfl⟩ : ∃ rest, path = "" ++ "/" ++ rest := by
      rw [isAbsolute, beq_iff_eq, List.head?_eq_some_iff] at habs
      obtain ⟨chars, hchars⟩ := habs
      exact ⟨String.ofList chars, by rw [← String.toList_inj, hchars]; simp⟩
    rw [components_append, if_pos rfl]
    exact respelled_absolute rest
  | false =>
    rcases eq_or_ne path "" with rfl | hne
    · exact .refl _
    · obtain ⟨first, rest, hpath, hfirst⟩ := exists_first_segment hne habs
      exact respelled_relative hfirst hpath habs

/-- Two texts are the same path exactly when one can be respelled as the other. -/
theorem same_iff_respells {path other : String} :
    Same path other ↔ EqvGen Respells path other := by
  constructor
  · intro h
    have hother := (respelled_spell other).symm
    rw [← show components path = components other from h] at hother
    exact (respelled_spell path).trans _ _ _ hother
  · intro h
    induction h with
    | rel path other h => exact h.same
    | refl path => rfl
    | symm path other _ ih => exact ih.symm
    | trans path middle other _ _ ih ih' => exact ih.trans ih'

/-! ### What no respelling reaches -/

/-- A `.` in front of a relative path that does not start with one is not taken out. -/
theorem not_same_here (h : isAbsolute path = false) (hhere : (segments path).head? ≠ some ".") :
    ¬Same ("./" ++ path) path := by
  intro hsame
  have htext : "./" ++ path = "." ++ "/" ++ path := by rw [show "." ++ "/" = "./" by decide]
  rw [Same, htext, components_append, if_neg (by decide), components_of_relative h,
    if_neg hhere] at hsame
  have hlength := congrArg List.length hsame
  rw [List.length_append, show (components ".").length = 1 by decide] at hlength
  omega

/-- A step up does not take out what it leads back from. -/
theorem not_same_up (path inner : String) : ¬Same (path ++ "/" ++ inner ++ "/..") path := by
  intro hsame
  have htext : path ++ "/" ++ inner ++ "/.." = path ++ "/" ++ inner ++ "/" ++ ".." := by
    rw [show "/.." = "/" ++ ".." by decide, ← String.append_assoc]
  rw [Same, htext, components_append, if_neg (by simp), components_append] at hsame
  have hlength := congrArg List.length hsame
  rw [List.length_append, List.length_append, show (steps "..").length = 1 by decide] at hlength
  split_ifs at hlength with hpath
  · rw [components_eq_nil_iff.2 hpath] at hlength
    simp at hlength
  · omega

end ImportScan.Path
