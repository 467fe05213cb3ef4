import ImportScan.Proofs.PathText
import Mathlib.Data.List.Induction

/-!
Roots seen from one place after another. Joining is associative and the empty path its unit, so
resolving roots against several bases in turn comes to resolving them once, against these bases
joined (`resolveAlong_eq`). From an absolute base on nothing changes any more.
-/

namespace ImportScan.Config

/-- The configuration with its roots seen from one base after another. -/
def resolveAlong (c : Config) (bases : List String) : Config :=
  bases.foldl (fun d base => d.withRoots (d.resolvedRoots base)) c

/-- Bases joined into one, each in front of those before it. -/
def joinAlong (bases : List String) : String :=
  bases.foldl (fun inner base => Path.join base inner) ""

variable {sub : String}

theorem resolveAlong_concat (c : Config) (bases : List String) (base : String) :
    c.resolveAlong (bases ++ [base]) =
      (c.resolveAlong bases).withRoots ((c.resolveAlong bases).resolvedRoots base) :=
  List.foldl_append

theorem joinAlong_concat (bases : List String) (base : String) :
    joinAlong (bases ++ [base]) = Path.join base (joinAlong bases) :=
  List.foldl_append

theorem resolvedRoots_withRoots (c : Config) (base sub : String) :
    (c.withRoots (c.resolvedRoots sub)).resolvedRoots base =
      c.resolvedRoots (Path.join base sub) := by
  rw [resolvedRoots, resolvedRoots, resolvedRoots, withRoots, List.map_map]
  exact List.map_congr_left fun root _ => (Path.join_join base sub root).symm

/-- An absolute root stands for itself; any other is put behind what leads to it. -/
theorem resolvedRoots_eq_map (c : Config) (base : String) : c.resolvedRoots base =
    c.roots.map fun root => if Path.isAbsolute root then root else Path.lead base ++ root := by
  refine List.map_congr_left fun root _ => ?_
  split_ifs with habs
  · exact Path.join_of_absolute habs
  · exact Path.join_eq_lead (Bool.not_eq_true _ ▸ habs)

theorem resolvedRoots_empty (c : Config) : c.resolvedRoots "" = c.roots := by
  rw [resolvedRoots_eq_map]
  refine (List.map_congr_left fun root _ => ?_).trans (List.map_id' c.roots)
  split_ifs
  · rfl
  · exact String.empty_append

/-- Bases in turn are one base. -/
theorem resolveAlong_eq (c : Config) (bases : List String) :
    c.resolveAlong bases = c.withRoots (c.resolvedRoots (joinAlong bases)) := by
  induction bases using List.reverseRecOn with
  | nil =>
    rw [joinAlong, List.foldl_nil, resolvedRoots_empty]
    rfl
  | append_singleton bases base ih =>
    rw [resolveAlong_concat, joinAlong_concat, ih, resolvedRoots_withRoots]
    rfl

/-- What was seen from an absolute base looks the same from everywhere. -/
theorem resolveAlong_of_isAbsolute (c : Config) (h : Path.isAbsolute sub = true)
    (bases : List String) : (c.withRoots (c.resolvedRoots sub)).resolveAlong bases =
      c.withRoots (c.resolvedRoots sub) := by
  induction bases with
  | nil => rfl
  | cons base bases ih =>
    have hstep := resolvedRoots_withRoots c base sub
    rw [Path.join_of_absolute h] at hstep
    rw [resolveAlong, List.foldl_cons, hstep]
    exact ih

/-- Resolving roots composes, as texts and in order: the roots seen from `sub` and then from `base`
are the roots seen from `sub` joined to `base`. So bases in turn, however many, come to one base,
and roots seen from an absolute path stay as they are whatever they are resolved against later. -/
theorem resolvedRoots_compose (c : Config) :
    (∀ base sub, (c.withRoots (c.resolvedRoots sub)).resolvedRoots base =
        c.resolvedRoots (Path.join base sub)) ∧
      (∀ bases, (c.resolveAlong bases).roots = c.resolvedRoots (joinAlong bases)) ∧
      ∀ sub, Path.isAbsolute sub = true →
        ∀ bases, ((c.withRoots (c.resolvedRoots sub)).resolveAlong bases).roots =
          c.resolvedRoots sub :=
  ⟨resolvedRoots_withRoots c, fun bases => congrArg roots (resolveAlong_eq c bases),
    fun _ h bases => congrArg roots (resolveAlong_of_isAbsolute c h bases)⟩

/-- An empty base adds nothing, an empty root adds a slash, and `.` and `..` are not resolved. -/
theorem resolvedRoots_compose_sample :
    let c : Config := { roots := ["a", "/b", "", "./c/.."] }
    Path.isAbsolute "/p//" = true ∧
      c.resolvedRoots "/p//" = ["/p//a", "/b", "/p//", "/p//./c/.."] ∧
      ((c.withRoots (c.resolvedRoots "/p//")).resolveAlong ["q", "", "/r"]).roots =
        ["/p//a", "/b", "/p//", "/p//./c/.."] ∧
      (c.withRoots (c.resolvedRoots "sub")).resolvedRoots "/q" = c.resolvedRoots "/q/sub" ∧
      c.resolvedRoots "/q/sub" = ["/q/sub/a", "/b", "/q/sub/", "/q/sub/./c/.."] := by
  intro c
  obtain ⟨hcompose, -, habsolute⟩ := resolvedRoots_compose c
  have habs : Path.isAbsolute "/p//" = true := by decide
  have hseen : c.resolvedRoots "/p//" = ["/p//a", "/b", "/p//", "/p//./c/.."] := by decide
  refine ⟨habs, hseen, ?_, ?_, by decide⟩
  · rw [habsolute "/p//" habs, hseen]
  · exact hcompose "/q" "sub"

end ImportScan.Config
