import ImportScan.Proofs.Json.Values

/-!
Lists and objects item by item, in the order in which a reader meets their parts: what stands in
front of an item, the item, and in the end the closing bracket. The grammar puts blanks with the
items they surround instead; `spells_list_iff_items` and `spells_object_iff_items` relate the two.
-/

namespace ImportScan.Json

variable {α : Type} {IsItem : α → List Char → Prop} {close : Char} {first : Bool}

/-- What stands behind the item before, up to the comma; in front of the first item there is
nothing. -/
def Opens : Bool → List Char → Prop
  | true, p => p = []
  | false, p => ∃ b, IsBlank b ∧ p = b ++ [',']

theorem opens_comma : Opens false [','] := ⟨[], isBlank_nil, rfl⟩

/-- The items of a list or an object from one on, up to the closing bracket. -/
inductive Items (IsItem : α → List Char → Prop) (close : Char) :
    Bool → List α → List Char → Prop where
  | close {first : Bool} {b : List Char} (blank : IsBlank b) :
      Items IsItem close first [] (b ++ [close])
  | item {first : Bool} {p b s t : List Char} {x : α} {xs : List α} (opens : Opens first p)
      (before : IsBlank b) (h : IsItem x s) (rest : Items IsItem close false xs t) :
      Items IsItem close first (x :: xs) (p ++ (b ++ (s ++ t)))

theorem Items.exists_close {xs : List α} {t : List Char} (h : Items IsItem close first xs t) :
    ∃ u, t = u ++ [close] := by
  induction h with
  | close hb => exact ⟨_, rfl⟩
  | @item _ p b s _ _ _ hp hb hs hmore ih =>
    obtain ⟨u, rfl⟩ := ih
    exact ⟨p ++ (b ++ (s ++ u)), by simp⟩

/-- Items with blanks around each and commas between them. -/
inductive Joined (IsItem : α → List Char → Prop) : List α → List Char → Prop where
  | last {b s b' : List Char} {x : α} (before : IsBlank b) (h : IsItem x s) (behind : IsBlank b') :
      Joined IsItem [x] (b ++ (s ++ b'))
  | next {b s b' t : List Char} {x : α} {xs : List α} (before : IsBlank b) (h : IsItem x s)
      (behind : IsBlank b') (rest : Joined IsItem xs t) :
      Joined IsItem (x :: xs) (b ++ (s ++ (b' ++ ',' :: t)))

theorem Joined.items {xs : List α} {s p : List Char} (h : Joined IsItem xs s)
    (hp : Opens first p) : Items IsItem close first xs (p ++ (s ++ [close])) := by
  induction h generalizing first p with
  | @last b s b' x hb hs hb' =>
    have hend : Items IsItem close false [] (b' ++ [close]) := .close hb'
    simpa using Items.item hp hb hs hend
  | @next b s b' t x xs hb hs hb' hmore ih =>
    have hcomma : Opens false (b' ++ [',']) := ⟨b', hb', rfl⟩
    simpa using Items.item hp hb hs (ih hcomma)

theorem Items.joined {xs : List α} {t : List Char} (h : Items IsItem close first xs t) :
    (xs = [] ∧ ∃ b, IsBlank b ∧ t = b ++ [close]) ∨
      ∃ p s, Opens first p ∧ Joined IsItem xs s ∧ t = p ++ (s ++ [close]) := by
  induction h with
  | close hb => exact .inl ⟨rfl, _, hb, rfl⟩
  | item hp hb hs hmore ih =>
    right
    obtain ⟨rfl, b', hb', rfl⟩ | ⟨p', s', ⟨b', hb', rfl⟩, hjoined, rfl⟩ := ih
    · exact ⟨_, _, hp, .last hb hs hb', by simp⟩
    · exact ⟨_, _, hp, .next hb hs hb' hjoined, by simp⟩

/-- An element of a list, without the blanks around it. -/
def IsElement (d : Data) (s : List Char) : Prop := Spells (.value d) s

/-- A member of an object, without the blanks around it. -/
def IsMember (m : List ℕ × Data) (s : List Char) : Prop :=
  ∃ k b b' v, IsString k m.1 ∧ IsBlank b ∧ IsBlank b' ∧ Spells (.value m.2) v ∧
    s = k ++ (b ++ ':' :: (b' ++ v))

theorem spells_elements_iff {ds : List Data} {s : List Char} :
    Spells (.elements ds) s ↔ Joined IsElement ds s := by
  constructor
  · intro h
    induction ds generalizing s with
    | nil => cases h
    | cons d ds ih =>
      cases h with
      | lastElement h =>
        cases h with
        | @element b v b' _ hb hv hb' =>
          have hitem : IsElement d v := hv
          simpa using Joined.last hb hitem hb'
      | nextElement h hmore =>
        cases h with
        | @element b v b' _ hb hv hb' =>
          have hitem : IsElement d v := hv
          simpa using Joined.next hb hitem hb' (ih hmore)
  · intro h
    induction h with
    | last hb hv hb' => simpa using Spells.lastElement (.element hb hv hb')
    | next hb hv hb' hmore ih => simpa using Spells.nextElement (.element hb hv hb') ih

theorem spells_members_iff {ms : List (List ℕ × Data)} {s : List Char} :
    Spells (.members ms) s ↔ Joined IsMember ms s := by
  constructor
  · intro h
    induction ms generalizing s with
    | nil => cases h
    | cons m ms ih =>
      cases h with
      | lastMember h =>
        cases h with
        | member hb hk hb₁ h =>
          cases h with
          | element hb₂ hv hb' =>
            have hitem : IsMember (_, _) _ := ⟨_, _, _, _, hk, hb₁, hb₂, hv, rfl⟩
            simpa using Joined.last hb hitem hb'
      | nextMember h hmore =>
        cases h with
        | member hb hk hb₁ h =>
          cases h with
          | element hb₂ hv hb' =>
            have hitem : IsMember (_, _) _ := ⟨_, _, _, _, hk, hb₁, hb₂, hv, rfl⟩
            simpa using Joined.next hb hitem hb' (ih hmore)
  · intro h
    induction h with
    | last hb hm hb' =>
      obtain ⟨k, b₁, b₂, v, hk, hb₁, hb₂, hv, rfl⟩ := hm
      simpa using Spells.lastMember (.member hb hk hb₁ (.element hb₂ hv hb'))
    | next hb hm hb' hmore ih =>
      obtain ⟨k, b₁, b₂, v, hk, hb₁, hb₂, hv, rfl⟩ := hm
      simpa using Spells.nextMember (.member hb hk hb₁ (.element hb₂ hv hb')) ih

theorem spells_list_iff_items {ds : List Data} {s : List Char} :
    Spells (.value (.list ds)) s ↔ ∃ t, Items IsElement ']' true ds t ∧ s = '[' :: t := by
  rw [spells_list_iff]
  constructor
  · rintro (⟨rfl, b, hb, rfl⟩ | ⟨t, ht, rfl⟩)
    · exact ⟨_, .close hb, rfl⟩
    · exact ⟨_, (spells_elements_iff.1 ht).items rfl, rfl⟩
  · rintro ⟨t, ht, rfl⟩
    obtain ⟨rfl, b, hb, rfl⟩ | ⟨p, s, rfl, hs, rfl⟩ := ht.joined
    · exact .inl ⟨rfl, b, hb, rfl⟩
    · exact .inr ⟨s, spells_elements_iff.2 hs, rfl⟩

theorem spells_object_iff_items {ms : List (List ℕ × Data)} {s : List Char} :
    Spells (.value (.object ms)) s ↔ ∃ t, Items IsMember '\x7d' true ms t ∧ s = '\x7b' :: t := by
  rw [spells_object_iff]
  constructor
  · rintro (⟨rfl, b, hb, rfl⟩ | ⟨t, ht, rfl⟩)
    · exact ⟨_, .close hb, rfl⟩
    · exact ⟨_, (spells_members_iff.1 ht).items rfl, rfl⟩
  · rintro ⟨t, ht, rfl⟩
    obtain ⟨rfl, b, hb, rfl⟩ | ⟨p, s, rfl, hs, rfl⟩ := ht.joined
    · exact .inl ⟨rfl, b, hb, rfl⟩
    · exact .inr ⟨s, spells_members_iff.2 hs, rfl⟩

end ImportScan.Json
