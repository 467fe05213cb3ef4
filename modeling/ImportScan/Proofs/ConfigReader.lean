import ImportScan.Config.Reader
import ImportScan.Proofs.Json.Items

/-!
The readers of a configuration, against the grammar of JSON: each succeeds exactly on a passage of
the shape it is for, and takes just that passage. What the members of an object do to the fields
read so far is said by `Takes`, one member after another; the elements of a list do the same to the
fields in order.
-/

namespace ImportScan.Config.Reader

open Json

variable {first : Bool} {s t rest : List Char} {wanted : String} {texts : List String}

/-! ### Lists of strings -/

theorem nextElement_last :
    nextElement first s = .ok (.last rest) ↔ ∃ b, IsBlank b ∧ s = b ++ ']' :: rest := by
  constructor
  · intro h
    unfold nextElement at h
    split at h
    · exact absurd h (by simp)
    · rename_i c tail hs
      split_ifs at h with hc hfirst hcomma
      · obtain rfl := Next.last.inj (Except.ok.inj h)
        exact hc ▸ (skipBlank_eq_cons.1 hs).2
      · exact absurd h (by simp)
      · split at h
        · exact absurd h (by simp)
        · split_ifs at h
          exact absurd h (by simp)
  · rintro ⟨b, hb, rfl⟩
    rw [nextElement, skipBlank_append hb, skipBlank_cons (by decide)]
    rfl

theorem nextElement_item :
    nextElement first s = .ok (.item t) ↔
      ∃ p b c r, Opens first p ∧ IsBlank b ∧ isBlank c = false ∧ c ≠ ']' ∧ t = c :: r ∧
        s = p ++ (b ++ t) := by
  constructor
  · intro h
    unfold nextElement at h
    split at h
    · exact absurd h (by simp)
    · rename_i c tail hs
      obtain ⟨hc, b, hb, rfl⟩ := skipBlank_eq_cons.1 hs
      split_ifs at h with hend hfirst hcomma
      · exact absurd h (by simp)
      · obtain rfl := Next.item.inj (Except.ok.inj h)
        subst hfirst
        exact ⟨[], b, c, tail, rfl, hb, hc, hend, rfl, rfl⟩
      · split at h
        · exact absurd h (by simp)
        · rename_i d after htail
          obtain ⟨hd, b', hb', rfl⟩ := skipBlank_eq_cons.1 htail
          split_ifs at h with hend'
          obtain rfl := Next.item.inj (Except.ok.inj h)
          rw [Bool.not_eq_true] at hfirst
          subst hfirst hcomma
          exact ⟨b ++ [','], b', d, after, ⟨b, hb, rfl⟩, hb', hd, hend', rfl, by simp⟩
  · rintro ⟨p, b, c, r, hp, hb, hc, hend, rfl, rfl⟩
    cases first with
    | true =>
      obtain rfl := hp
      rw [List.nil_append, nextElement, skipBlank_append hb, skipBlank_cons hc]
      simp [hend]
    | false =>
      obtain ⟨b', hb', rfl⟩ := hp
      rw [List.append_assoc, List.singleton_append, nextElement, skipBlank_append hb',
        skipBlank_cons (by decide)]
      simp [skipBlank_append hb, skipBlank_cons hc, hend]

theorem nextElement_close {b : List Char} (hb : IsBlank b) :
    nextElement first (b ++ [']'] ++ rest) = .ok (.last rest) :=
  nextElement_last.2 ⟨b, hb, by simp⟩

theorem nextElement_element {p b v : List Char} {d : Data} (hp : Opens first p) (hb : IsBlank b)
    (hv : IsElement d v) :
    nextElement first (p ++ (b ++ (v ++ t)) ++ rest) = .ok (.item (v ++ (t ++ rest))) := by
  obtain ⟨c, r, rfl, hc⟩ := Spells.exists_head hv
  exact nextElement_item.2 ⟨p, b, c, _, hp, hb, hc.ne.1, hc.ne.2.1, rfl, by simp⟩

theorem readText_eq_ok {text : String} :
    readText wanted s = .ok (text, rest) ↔ ∃ t, IsElement (.text text) t ∧ s = t ++ rest := by
  constructor
  · intro h
    unfold readText at h
    split at h
    · rename_i tail
      cases hr : StringLiteral.read tail with
      | error fault => rw [hr] at h; exact absurd h (by simp [Except.map])
      | ok p =>
        rw [hr] at h
        obtain ⟨rfl, rfl⟩ := Prod.mk.inj (Except.ok.inj h)
        obtain ⟨body, hbody, rfl⟩ := StringLiteral.read_eq_ok.1 hr
        refine ⟨_, .string ⟨body, ?_, rfl⟩, by simp⟩
        rwa [unitsOf, String.toList_ofList]
    · exact absurd h (by simp)
  · rintro ⟨t, ht, rfl⟩
    cases ht with
    | string hs =>
      obtain ⟨body, hbody, rfl⟩ := hs
      have hread : StringLiteral.read (body ++ '\x22' :: rest) = .ok (text.toList, rest) :=
        StringLiteral.read_eq_ok.2 ⟨body, hbody, rfl⟩
      rw [List.cons_append, List.append_assoc, List.singleton_append, readText, hread]
      simp [Except.map]

theorem readTexts_last (h : nextElement first s = .ok (.last rest)) :
    readTexts wanted first s = .ok ([], rest) := by
  rw [readTexts]
  split <;> rename_i heq <;> rw [h] at heq <;> simp at heq
  rw [heq]

theorem readTexts_item {text : String} (h : nextElement first s = .ok (.item t))
    (ht : readText wanted t = .ok (text, rest)) :
    readTexts wanted first s =
      (readTexts wanted false rest).map fun (texts, rest) => (text :: texts, rest) := by
  rw [readTexts]
  split <;> rename_i heq <;> rw [h] at heq <;> simp at heq
  subst heq
  split <;> rename_i heq <;> rw [ht] at heq <;> simp at heq
  obtain ⟨rfl, rfl⟩ := heq
  rfl

/-- The strings of a list are read from one element on as far as the list goes. -/
theorem readTexts_eq_ok :
    readTexts wanted first s = .ok (texts, rest) ↔
      ∃ t, Items IsElement ']' first (texts.map .text) t ∧ s = t ++ rest := by
  constructor
  · intro h
    fun_induction readTexts wanted first s generalizing texts rest with
    | case1 => exact absurd h (by simp)
    | case2 first s after hn =>
      obtain ⟨rfl, rfl⟩ := Prod.mk.inj (Except.ok.inj h)
      obtain ⟨b, hb, rfl⟩ := nextElement_last.1 hn
      exact ⟨_, .close hb, by simp⟩
    | case3 => exact absurd h (by simp)
    | case4 first s u hn text after hu ih =>
      cases hr : readTexts wanted false after with
      | error fault => rw [hr] at h; exact absurd h (by simp [Except.map])
      | ok p =>
        rw [hr] at h
        obtain ⟨rfl, rfl⟩ := Prod.mk.inj (Except.ok.inj h)
        obtain ⟨p, b, c, r, hp, hb, -, -, -, rfl⟩ := nextElement_item.1 hn
        obtain ⟨v, hv, rfl⟩ := readText_eq_ok.1 hu
        obtain ⟨t, ht, rfl⟩ := ih hr
        exact ⟨_, .item hp hb hv ht, by simp⟩
  · rintro ⟨t, ht, rfl⟩
    induction texts generalizing first t with
    | nil =>
      cases ht with
      | close hb => exact readTexts_last (nextElement_close hb)
    | cons text texts ih =>
      cases ht with
      | item hp hb hv hmore =>
        rw [readTexts_item (nextElement_element hp hb hv) (readText_eq_ok.2 ⟨_, hv, rfl⟩),
          ih _ hmore]
        rfl

/-- The value of a field is a list of strings, with blanks in front of it. -/
theorem readField_eq_ok {field : Field} :
    readField field s = .ok (texts, rest) ↔
      ∃ b t, IsBlank b ∧ IsElement (.texts texts) t ∧ s = b ++ (t ++ rest) := by
  constructor
  · intro h
    unfold readField at h
    split at h
    · rename_i tail hs
      obtain ⟨-, b, hb, rfl⟩ := skipBlank_eq_cons.1 hs
      obtain ⟨t, ht, rfl⟩ := readTexts_eq_ok.1 h
      exact ⟨b, _, hb, spells_list_iff_items.2 ⟨t, ht, rfl⟩, rfl⟩
    · exact absurd h (by simp)
  · rintro ⟨b, t, hb, ht, rfl⟩
    obtain ⟨t, hitems, rfl⟩ := spells_list_iff_items.1 ht
    rw [readField, skipBlank_append hb, List.cons_append, skipBlank_cons (by decide)]
    exact readTexts_eq_ok.2 ⟨t, hitems, rfl⟩

/-! ### Lists of fields -/

theorem readListEnd_eq_ok :
    readListEnd s = .ok rest ↔ ∃ b, IsBlank b ∧ s = b ++ ']' :: rest := by
  constructor
  · intro h
    unfold readListEnd at h
    split at h
    · exact absurd h (by simp)
    · rename_i tail hs
      obtain rfl := Except.ok.inj h
      exact (skipBlank_eq_cons.1 hs).2
    · split at h <;> exact absurd h (by simp)
    · exact absurd h (by simp)
  · rintro ⟨b, hb, rfl⟩
    rw [readListEnd, skipBlank_append hb, skipBlank_cons (by decide)]
    rfl

/-- What the elements of a list do to the fields read so far: each sets the next field. -/
inductive TakesList : Draft → List Field → List Data → Draft → Prop where
  | nil {d : Draft} {fields : List Field} : TakesList d fields [] d
  | cons {d d' : Draft} {field : Field} {fields : List Field} {texts : List String}
      {ds : List Data} (h : TakesList (d.set field texts) fields ds d') :
      TakesList d (field :: fields) (.texts texts :: ds) d'

theorem readSequence_eq_ok {d d' : Draft} {fields : List Field} :
    readSequence d first fields s = .ok (d', rest) ↔
      ∃ ds t, Items IsElement ']' first ds t ∧ TakesList d fields ds d' ∧ s = t ++ rest := by
  induction fields generalizing d first s with
  | nil =>
    rw [readSequence]
    constructor
    · intro h
      cases hend : readListEnd s with
      | error fault => rw [hend] at h; exact absurd h (by simp [Except.map])
      | ok after =>
        rw [hend] at h
        obtain ⟨rfl, rfl⟩ := Prod.mk.inj (Except.ok.inj h)
        obtain ⟨b, hb, rfl⟩ := readListEnd_eq_ok.1 hend
        exact ⟨[], _, .close hb, .nil, by simp⟩
    · rintro ⟨ds, t, ht, htakes, rfl⟩
      cases htakes with
      | nil =>
        cases ht with
        | close hb =>
          rw [readListEnd_eq_ok.2 ⟨_, hb, by rw [List.append_assoc, List.singleton_append]⟩]
          rfl
  | cons field fields ih =>
    constructor
    · intro h
      rw [readSequence] at h
      split at h
      · exact absurd h (by simp)
      · rename_i after hn
        obtain ⟨rfl, rfl⟩ := Prod.mk.inj (Except.ok.inj h)
        obtain ⟨b, hb, rfl⟩ := nextElement_last.1 hn
        exact ⟨[], _, .close hb, .nil, by simp⟩
      · rename_i u hn
        split at h
        · exact absurd h (by simp)
        · rename_i texts after hu
          obtain ⟨p, b, c, r, hp, hb, -, -, -, rfl⟩ := nextElement_item.1 hn
          obtain ⟨b', v, hb', hv, rfl⟩ := readField_eq_ok.1 hu
          obtain ⟨ds, t, ht, htakes, rfl⟩ := ih.1 h
          exact ⟨.texts texts :: ds, _, .item hp (hb.append hb') hv ht, .cons htakes, by simp⟩
    · rintro ⟨ds, t, ht, htakes, rfl⟩
      cases htakes with
      | nil =>
        cases ht with
        | close hb => rw [readSequence, nextElement_close hb]
      | cons htakes =>
        cases ht with
        | @item _ p b v t _ _ hp hb hv hmore =>
          have hfield : readField field (v ++ (t ++ rest)) = .ok (_, t ++ rest) :=
            readField_eq_ok.2 ⟨[], v, isBlank_nil, hv, rfl⟩
          rw [readSequence, nextElement_element hp hb hv]
          simp only [hfield]
          exact ih.2 ⟨_, t, hmore, htakes, rfl⟩

/-! ### Objects -/

theorem nextKey_last :
    nextKey first s = .ok (.last rest) ↔ ∃ b, IsBlank b ∧ s = b ++ '\x7d' :: rest := by
  constructor
  · intro h
    unfold nextKey at h
    split at h
    · exact absurd h (by simp)
    · rename_i c tail hs
      split_ifs at h with hc hfirst hquote hcomma
      · obtain rfl := Next.last.inj (Except.ok.inj h)
        exact hc ▸ (skipBlank_eq_cons.1 hs).2
      · exact absurd h (by simp)
      · split at h
        · exact absurd h (by simp)
        · split_ifs at h
          exact absurd h (by simp)
  · rintro ⟨b, hb, rfl⟩
    rw [nextKey, skipBlank_append hb, skipBlank_cons (by decide)]
    rfl

theorem nextKey_item :
    nextKey first s = .ok (.item t) ↔
      ∃ p b, Opens first p ∧ IsBlank b ∧ s = p ++ (b ++ '\x22' :: t) := by
  constructor
  · intro h
    unfold nextKey at h
    split at h
    · exact absurd h (by simp)
    · rename_i c tail hs
      obtain ⟨hc, b, hb, rfl⟩ := skipBlank_eq_cons.1 hs
      split_ifs at h with hend hfirst hquote hcomma
      · exact absurd h (by simp)
      · obtain rfl := Next.item.inj (Except.ok.inj h)
        subst hfirst hquote
        exact ⟨[], b, rfl, hb, rfl⟩
      · split at h
        · exact absurd h (by simp)
        · rename_i d after htail
          obtain ⟨hd, b', hb', rfl⟩ := skipBlank_eq_cons.1 htail
          split_ifs at h with hquote
          obtain rfl := Next.item.inj (Except.ok.inj h)
          rw [Bool.not_eq_true] at hfirst
          subst hfirst hcomma hquote
          exact ⟨b ++ [','], b', ⟨b, hb, rfl⟩, hb', by simp⟩
  · rintro ⟨p, b, hp, hb, rfl⟩
    have hquote : skipBlank (b ++ '\x22' :: t) = '\x22' :: t :=
      (skipBlank_append hb).trans (skipBlank_cons (by decide))
    cases first with
    | true =>
      obtain rfl := hp
      rw [List.nil_append, nextKey, hquote]
      rfl
    | false =>
      obtain ⟨b', hb', rfl⟩ := hp
      rw [List.append_assoc, List.singleton_append, nextKey, skipBlank_append hb',
        skipBlank_cons (by decide)]
      simp [hquote]

/-- What a member of an object does to the fields read so far: its key is some text; if that is the
key of a field, the field was not there yet and is set to the strings that are the value. -/
def Takes (d : Draft) (m : List ℕ × Data) (d' : Draft) : Prop :=
  ∃ name, m.1 = unitsOf name ∧
    match Field.ofKey? name with
    | none => d' = d
    | some field => d.get? field = none ∧ ∃ texts, m.2 = .texts texts ∧ d' = d.set field texts

/-- What the members of an object do to the fields read so far, one after another. -/
inductive TakesAll : Draft → List (List ℕ × Data) → Draft → Prop where
  | nil {d : Draft} : TakesAll d [] d
  | cons {d d' d'' : Draft} {m : List ℕ × Data} {ms : List (List ℕ × Data)} (h : Takes d m d')
      (rest : TakesAll d' ms d'') : TakesAll d (m :: ms) d''

theorem takes_of_readMember {d d' : Draft} (h : readMember d s = .ok (d', rest)) :
    ∃ m t, IsMember m ('\x22' :: t) ∧ Takes d m d' ∧ s = t ++ rest := by
  unfold readMember at h
  split at h
  · exact absurd h (by simp)
  · rename_i key after hkey
    obtain ⟨body, hbody, rfl⟩ := StringLiteral.read_eq_ok.1 hkey
    have hname : IsString ('\x22' :: (body ++ ['\x22'])) (unitsOf (String.ofList key)) :=
      ⟨body, by rwa [unitsOf, String.toList_ofList], rfl⟩
    split at h
    · rename_i hfield
      split at h
      · exact absurd h (by simp)
      · rename_i value hcolon
        obtain ⟨b, hb, rfl⟩ := skipColon_eq_ok.1 hcolon
        cases hskip : skipValue [] value with
        | error fault => rw [hskip] at h; exact absurd h (by simp [Except.map])
        | ok r =>
          rw [hskip] at h
          obtain ⟨rfl, rfl⟩ := Prod.mk.inj (Except.ok.inj h)
          obtain ⟨v, b', t, hb', hv, rfl⟩ := spells_of_skipValue hskip
          exact ⟨(_, v), _, ⟨_, b, b', t, hname, hb, hb', hv, rfl⟩, ⟨_, rfl, by rw [hfield]⟩,
            by simp⟩
    · rename_i field hfield
      split_ifs at h with hseen
      split at h
      · exact absurd h (by simp)
      · rename_i value hcolon
        obtain ⟨b, hb, rfl⟩ := skipColon_eq_ok.1 hcolon
        cases hread : readField field value with
        | error fault => rw [hread] at h; exact absurd h (by simp [Except.map])
        | ok p =>
          rw [hread] at h
          obtain ⟨rfl, rfl⟩ := Prod.mk.inj (Except.ok.inj h)
          obtain ⟨b', t, hb', hv, rfl⟩ := readField_eq_ok.1 hread
          refine ⟨(_, .texts p.1), _, ⟨_, b, b', t, hname, hb, hb', hv, rfl⟩, ⟨_, rfl, ?_⟩,
            by simp⟩
          rw [hfield]
          exact ⟨by simpa using hseen, _, rfl, rfl⟩

theorem readMember_of_takes {d d' : Draft} {m : List ℕ × Data} (hm : IsMember m ('\x22' :: t))
    (h : Takes d m d') (hrest : Apart rest) : readMember d (t ++ rest) = .ok (d', rest) := by
  obtain ⟨k, b, b', v, ⟨body, hbody, rfl⟩, hb, hb', hv, heq⟩ := hm
  obtain ⟨name, hname, htakes⟩ := h
  obtain rfl : t = body ++ ['\x22'] ++ (b ++ ':' :: (b' ++ v)) := (List.cons.inj heq).2
  rw [hname] at hbody
  have hkey : StringLiteral.read (body ++ '\x22' :: (b ++ ':' :: (b' ++ (v ++ rest)))) =
      .ok (name.toList, b ++ ':' :: (b' ++ (v ++ rest))) :=
    StringLiteral.read_eq_ok.2 ⟨body, hbody, rfl⟩
  have hcolon : skipColon (b ++ ':' :: (b' ++ (v ++ rest))) = .ok (b' ++ (v ++ rest)) :=
    skipColon_eq_ok.2 ⟨b, hb, rfl⟩
  have hs : body ++ ['\x22'] ++ (b ++ ':' :: (b' ++ v)) ++ rest =
      body ++ '\x22' :: (b ++ ':' :: (b' ++ (v ++ rest))) := by simp
  rw [hs, readMember, hkey]
  simp only [String.ofList_toList]
  cases hfield : Field.ofKey? name with
  | none =>
    simp only [hfield] at htakes ⊢
    simp only [hcolon]
    rw [skipValue_blank hb', skipValue_of_spells hv hrest, htakes]
    rfl
  | some field =>
    simp only [hfield] at htakes ⊢
    obtain ⟨hnew, texts, htexts, rfl⟩ := htakes
    rw [htexts] at hv
    simp only [hnew, hcolon, Option.isSome_none, Bool.false_eq_true, if_false]
    rw [readField_eq_ok.2 ⟨b', v, hb', hv, rfl⟩]
    rfl

theorem readMembers_last {d : Draft} (h : nextKey first s = .ok (.last rest)) :
    readMembers d first s = .ok (d, rest) := by
  rw [readMembers]
  split <;> rename_i heq <;> rw [h] at heq <;> simp at heq
  rw [heq]

theorem readMembers_item {d d' : Draft} (h : nextKey first s = .ok (.item t))
    (ht : readMember d t = .ok (d', rest)) :
    readMembers d first s = readMembers d' false rest := by
  rw [readMembers]
  split <;> rename_i heq <;> rw [h] at heq <;> simp at heq
  subst heq
  split <;> rename_i heq <;> rw [ht] at heq <;> simp at heq
  obtain ⟨rfl, rfl⟩ := heq
  rfl

/-- What may follow a member of an object is not part of a number. -/
theorem apart_items (rest : List Char) {ms : List (List ℕ × Data)}
    (h : Items IsMember '\x7d' false ms t) : Apart (t ++ rest) := by
  cases h with
  | close hb =>
    rw [List.append_assoc]
    exact Apart.append hb (apart_cons (by decide))
  | item hp hb hm hmore =>
    obtain ⟨b', hb', rfl⟩ := hp
    rw [List.append_assoc, List.append_assoc, List.singleton_append]
    exact Apart.append hb' (apart_cons (by decide))

/-- The members of an object are read from one key on as far as the object goes. -/
theorem readMembers_eq_ok {d d' : Draft} :
    readMembers d first s = .ok (d', rest) ↔
      ∃ ms t, Items IsMember '\x7d' first ms t ∧ TakesAll d ms d' ∧ s = t ++ rest := by
  constructor
  · intro h
    fun_induction readMembers d first s with
    | case1 => exact absurd h (by simp)
    | case2 d first s after hn =>
      obtain ⟨rfl, rfl⟩ := Prod.mk.inj (Except.ok.inj h)
      obtain ⟨b, hb, rfl⟩ := nextKey_last.1 hn
      exact ⟨[], _, .close hb, .nil, by simp⟩
    | case3 => exact absurd h (by simp)
    | case4 d first s u hn d₁ after hu ih =>
      obtain ⟨p, b, hp, hb, rfl⟩ := nextKey_item.1 hn
      obtain ⟨m, k, hm, htakes, rfl⟩ := takes_of_readMember hu
      obtain ⟨ms, t, ht, hmore, rfl⟩ := ih h
      exact ⟨m :: ms, _, .item hp hb hm ht, .cons htakes hmore, by simp⟩
  · rintro ⟨ms, t, ht, htakes, rfl⟩
    induction htakes generalizing first t with
    | nil =>
      cases ht with
      | close hb => exact readMembers_last (nextKey_last.2 ⟨_, hb, by simp⟩)
    | cons h hmore ih =>
      cases ht with
      | @item _ p b s t _ _ hp hb hm ht =>
        obtain ⟨k, b₁, b₂, v, ⟨body, hbody, rfl⟩, hb₁, hb₂, hv, rfl⟩ := hm
        have hmember := readMember_of_takes ⟨_, b₁, b₂, v, ⟨body, hbody, rfl⟩, hb₁, hb₂, hv, rfl⟩ h
          (apart_items rest ht)
        rw [readMembers_item (nextKey_item.2 ⟨p, b, hp, hb, by simp⟩) hmember]
        exact ih _ ht

end ImportScan.Config.Reader
