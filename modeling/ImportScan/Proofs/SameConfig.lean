import ImportScan.Proofs.Additions
import ImportScan.Proofs.Spellings
import Mathlib.Data.List.Forall2

/-!
Equal configurations. Two configurations are the same when their roots are the same paths, however
these are spelled, and their names are the same texts. Such configurations cannot be told apart: for
each base they resolve to the same paths, they say the same of each name and each path, and they
stay the same under every change.
-/

namespace ImportScan.Config

open Relation (EqvGen)

/-- A change to a configuration: other roots in the place of those it has, or an addition. -/
inductive Change where
  | roots (others : List String)
  | addition (add : Addition)
  deriving DecidableEq

/-- The configuration after a change. -/
def Change.apply (c : Config) : Change → Config
  | roots others => c.withRoots others
  | addition add => add.apply c

/-- The configuration after a sequence of changes. -/
def changeAll (c : Config) (changes : List Change) : Config := changes.foldl Change.apply c

variable {a b : Config} {base other : String}

/-! ### What equal configurations say -/

theorem map_components_eq_iff {roots others : List String} :
    roots.map Path.components = others.map Path.components ↔
      List.Forall₂ Path.Same roots others := by
  rw [← List.forall₂_eq_eq_eq, List.forall₂_map_left_iff, List.forall₂_map_right_iff]
  rfl

theorem Same.resolvedRoots (h : a.Same b) (hbase : Path.Same base other) :
    List.Forall₂ Path.Same (a.resolvedRoots base) (b.resolvedRoots other) := by
  rw [Config.resolvedRoots, Config.resolvedRoots, List.forall₂_map_left_iff,
    List.forall₂_map_right_iff]
  exact (map_components_eq_iff.1 h.1).imp fun root root' hroot => hbase.join hroot

theorem Same.isExcludedDir (h : a.Same b) (name : String) :
    a.isExcludedDir name = b.isExcludedDir name := by
  rw [Config.isExcludedDir, Config.isExcludedDir, h.2.1]

theorem Same.isSupported (h : a.Same b) {path path' : String} (hpath : Path.Same path path') :
    a.isSupported path = b.isSupported path' := by
  rw [Config.isSupported, Config.isSupported, Path.extension?_congr hpath, h.2.2]

/-! ### What changes make of equal configurations -/

theorem Same.withRoots (h : a.Same b) {roots others : List String}
    (hroots : List.Forall₂ Path.Same roots others) :
    (a.withRoots roots).Same (b.withRoots others) :=
  ⟨map_components_eq_iff.2 hroots, h.2⟩

theorem Same.addition (h : a.Same b) (add : Addition) : (add.apply a).Same (add.apply b) := by
  obtain ⟨hroots, hnames, hexts⟩ := h
  cases add with
  | excludeDir name => exact ⟨hroots, congrArg (addNew name) hnames, hexts⟩
  | extension ext => exact ⟨hroots, hnames, congrArg (addNew (dotted ext)) hexts⟩

theorem Same.step (h : a.Same b) (change : Change) : (change.apply a).Same (change.apply b) := by
  cases change with
  | roots others => exact h.withRoots (List.forall₂_same.2 fun root _ => rfl)
  | addition add => exact h.addition add

theorem Same.run (h : a.Same b) (changes : List Change) :
    (a.changeAll changes).Same (b.changeAll changes) := by
  induction changes generalizing a b with
  | nil => exact h
  | cons change changes ih => exact ih (h.step change)

/-- Equality is respected by all that can be done with a configuration. Paths are the same when one
becomes the other by putting in and taking out segments that say nothing, which neither the `.` a
relative path starts with nor a name in front of `..` do. Configurations that are the same have,
seen from bases that are the same, as many roots, each the same path as its counterpart; they
leave out the same names and take the same paths, however these are spelled; and they are the same
after getting roots that are the same, and after any sequence of equal changes. -/
theorem same_respected :
    ((∀ path other, Path.Same path other ↔ EqvGen Path.Respells path other) ∧
      (∀ path, Path.isAbsolute path = false → (Path.segments path).head? ≠ some "." →
        ¬Path.Same ("./" ++ path) path) ∧
      ∀ path inner, ¬Path.Same (path ++ "/" ++ inner ++ "/..") path) ∧
    ∀ a b : Config, a.Same b →
      (∀ base other, Path.Same base other →
        List.Forall₂ Path.Same (a.resolvedRoots base) (b.resolvedRoots other)) ∧
      (∀ name, a.isExcludedDir name = b.isExcludedDir name) ∧
      (∀ path other, Path.Same path other → a.isSupported path = b.isSupported other) ∧
      (∀ roots others, List.Forall₂ Path.Same roots others →
        (a.withRoots roots).Same (b.withRoots others)) ∧
      ∀ changes, (a.changeAll changes).Same (b.changeAll changes) := by
  refine ⟨⟨fun path other => Path.same_iff_respells, fun path => Path.not_same_here,
    Path.not_same_up⟩, fun a b h => ⟨?_, h.isExcludedDir, ?_, ?_, h.run⟩⟩
  · exact fun base other hbase => h.resolvedRoots hbase
  · exact fun path other hpath => h.isSupported hpath
  · exact fun roots others hroots => h.withRoots hroots

/-- Seen from an empty base `./a` stays another path than `a`, seen from any other it does not. -/
theorem same_respected_sample :
    let a : Config := { roots := ["./a", "x//y/.", "/z/"] }
    let b : Config := { roots := ["././a/", "x/y", "//z"] }
    let changes : List Change :=
      [.addition (.extension "css"), .roots ["q/./r"], .addition (.excludeDir "out")]
    (Path.isAbsolute "a" = false ∧ (Path.segments "a").head? ≠ some "." ∧
        ¬Path.Same ("./" ++ "a") "a") ∧
      (a.Same b ∧ Path.Same "p/./" "p") ∧
      a.resolvedRoots "p/./" = ["p/././a", "p/./x//y/.", "/z/"] ∧
      b.resolvedRoots "p" = ["p/././a/", "p/x/y", "//z"] ∧
      List.Forall₂ Path.Same (a.resolvedRoots "p/./") (b.resolvedRoots "p") ∧
      List.Forall₂ Path.Same (a.resolvedRoots "") (b.resolvedRoots "") ∧
      a.isSupported "p/./" = b.isSupported "p" ∧
      (a.withRoots (a.resolvedRoots "")).Same (b.withRoots (b.resolvedRoots "")) ∧
      (a.changeAll changes).Same (b.changeAll changes) := by
  intro a b changes
  obtain ⟨⟨-, hhere, -⟩, hrespected⟩ := same_respected
  have hsame : a.Same b := by decide
  have hbase : Path.Same "p/./" "p" := by decide
  obtain ⟨hroots, -, hpath, hwith, hrun⟩ := hrespected a b hsame
  have habs : Path.isAbsolute "a" = false := by decide
  have hhead : (Path.segments "a").head? ≠ some "." := by decide
  exact ⟨⟨habs, hhead, hhere "a" habs hhead⟩, ⟨hsame, hbase⟩, by decide, by decide,
    hroots _ _ hbase, hroots "" "" rfl, hpath _ _ hbase, hwith _ _ (hroots "" "" rfl),
    hrun changes⟩

end ImportScan.Config
