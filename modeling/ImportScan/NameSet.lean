/-!
Finite sets of names, kept as strictly ascending lists in code-point order. Two sets with the same
members are the same list (`ext_mem`), so the order in which names arrive never shows.
-/

namespace ImportScan

/-- A set of names, listed in strictly ascending order. -/
structure NameSet where
  toList : List String
  ascending : toList.Pairwise (· < ·)
  deriving DecidableEq

namespace NameSet

instance : Membership String NameSet := ⟨fun set name => name ∈ set.toList⟩

instance (name : String) (set : NameSet) : Decidable (name ∈ set) :=
  inferInstanceAs (Decidable (name ∈ set.toList))

@[simp] theorem mem_toList {name : String} {set : NameSet} : name ∈ set.toList ↔ name ∈ set :=
  Iff.rfl

theorem nodup (set : NameSet) : set.toList.Nodup := List.nodup_iff_pairwise_ne.2 <|
  set.ascending.imp fun {a b} (hlt : a < b) (heq : a = b) => String.lt_irrefl b (heq ▸ hlt)

/-- Sets with the same members are equal. -/
theorem ext_mem {a b : NameSet} (h : ∀ name, name ∈ a ↔ name ∈ b) : a = b := by
  have perm := (List.perm_ext_iff_of_nodup a.nodup b.nodup).2 h
  have lists := perm.eq_of_pairwise
    (fun _ _ _ _ hxy hyx => (String.lt_asymm hxy hyx).elim) a.ascending b.ascending
  cases a; cases b; simp_all

/-- The set without members. -/
def empty : NameSet := ⟨[], .nil⟩

/-- Puts a name at its place in an ascending list, unless it is there. -/
def place (name : String) : List String → List String
  | [] => [name]
  | first :: rest =>
    if name < first then name :: first :: rest
    else if name = first then first :: rest
    else first :: place name rest

theorem mem_place {x name : String} {names : List String} :
    x ∈ place name names ↔ x = name ∨ x ∈ names := by
  induction names with
  | nil => simp [place]
  | cons first rest ih => grind [place]

theorem pairwise_place {name : String} {names : List String} (h : names.Pairwise (· < ·)) :
    (place name names).Pairwise (· < ·) := by
  induction names with
  | nil => simp [place]
  | cons first rest ih =>
    obtain ⟨hfirst, hrest⟩ := List.pairwise_cons.1 h
    unfold place
    split
    · rename_i hlt
      refine List.pairwise_cons.2 ⟨fun x hx => ?_, h⟩
      rcases List.mem_cons.1 hx with rfl | hx
      · exact hlt
      · exact String.lt_trans hlt (hfirst x hx)
    · split
      · exact h
      · rename_i hge hne
        refine List.pairwise_cons.2 ⟨fun x hx => ?_, ih hrest⟩
        rcases mem_place.1 hx with rfl | hx
        · exact Std.lt_of_le_of_ne (String.not_lt.1 hge) (Ne.symm hne)
        · exact hfirst x hx

/-- The set with one more member. -/
def insert (name : String) (set : NameSet) : NameSet :=
  ⟨place name set.toList, pairwise_place set.ascending⟩

@[simp] theorem mem_insert {x name : String} {set : NameSet} :
    x ∈ set.insert name ↔ x = name ∨ x ∈ set := mem_place

@[simp] theorem not_mem_empty {x : String} : x ∉ empty := List.not_mem_nil

/-- The number of members. -/
def size (set : NameSet) : Nat := set.toList.length

/-- Whether the set has no members. -/
def isEmpty (set : NameSet) : Bool := set.toList.isEmpty

end NameSet

end ImportScan
