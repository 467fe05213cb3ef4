import ImportScan.Config.Load
import ImportScan.Proofs.ConfigReader
import ImportScan.Proofs.ScanReport

/-!
Which texts hold a configuration, and which one. `Holds` says it of the data that a text stands for,
field by field, so neither blanks nor escapes nor the order of members nor other members show in it;
loading succeeds exactly on the texts that stand for such data.
-/

namespace ImportScan.Config

open Json

/-- The value of a field. -/
def get (c : Config) : Field → List String
  | .roots => c.roots
  | .excludeDirs => c.excludeDirs
  | .extensions => c.extensions

/-- The values that data give a field: an object those under its key, a list the one in its
place. -/
def Field.given (field : Field) : Data → List Data
  | .object ms => (ms.filter fun m => m.1 = unitsOf field.key).map Prod.snd
  | .list ds => ((Field.all.zip ds).filter fun p => p.1 = field).map Prod.snd
  | _ => []

/-- Data in which fields can be looked for: an object whose keys are texts, or a list that has no
more elements than there are fields. -/
def Shaped : Data → Prop
  | .object ms => ∀ m ∈ ms, ∃ name : String, m.1 = unitsOf name
  | .list ds => ds.length ≤ Field.all.length
  | _ => False

/-- Data that hold a configuration: each field is given at most once, as the list of its strings,
and has its default where it is not given. -/
structure Holds (d : Data) (c : Config) : Prop where
  shaped : Shaped d
  fields : ∀ field : Field, (field.given d = [] ∧ c.get field = ({} : Config).get field) ∨
    field.given d = [.texts (c.get field)]

theorem ext_get {c c' : Config} (h : ∀ field, c.get field = c'.get field) : c = c' := by
  cases c
  cases c'
  have hroots := h .roots
  have hdirs := h .excludeDirs
  have hexts := h .extensions
  simp_all [get]

/-- Whether a text holds a configuration, and which, depends on what its data give the fields. -/
theorem Holds.congr {d d' : Data} {c : Config} (h : Holds d c) (hshaped : Shaped d')
    (hgiven : ∀ field : Field, field.given d = field.given d') : Holds d' c :=
  ⟨hshaped, fun field => hgiven field ▸ h.fields field⟩

/-! ### Fields read one after another -/

namespace Draft

theorem ext_get? {d d' : Draft} (h : ∀ field, d.get? field = d'.get? field) : d = d' := by
  cases d
  cases d'
  have hroots := h .roots
  have hdirs := h .excludeDirs
  have hexts := h .extensions
  simp_all [get?]

theorem get?_set (d : Draft) (field other : Field) (texts : List String) :
    (d.set field texts).get? other = if other = field then some texts else d.get? other := by
  cases field <;> cases other <;> rfl

theorem get_config (d : Draft) (field : Field) :
    d.config.get field = (d.get? field).getD (({} : Config).get field) := by
  cases field <;> rfl

end Draft

theorem Field.ofKey?_eq_some {name : String} {field : Field} :
    Field.ofKey? name = some field ↔ field.key = name := by
  constructor
  · intro h
    simpa [ofKey?] using List.find?_some h
  · rintro rfl
    cases field <;> decide

theorem Field.key_eq_iff {name : String} {field : Field} :
    unitsOf name = unitsOf field.key ↔ Field.ofKey? name = some field := by
  rw [Field.ofKey?_eq_some]
  exact ⟨fun h => (unitsOf_injective h).symm, fun h => by rw [h]⟩

/-- What the values given to a field do to what was read of it: nothing when there are none; else
there is one, a list of strings, and nothing was read before. -/
def Settles (values : List Data) (before after : Option (List String)) : Prop :=
  (values = [] ∧ after = before) ∨
    (before = none ∧ ∃ texts, values = [.texts texts] ∧ after = some texts)

theorem settles_nil {before after : Option (List String)} :
    Settles [] before after ↔ after = before := by
  simp [Settles]

theorem settles_append {us vs : List Data} {before after : Option (List String)} :
    Settles (us ++ vs) before after ↔ ∃ mid, Settles us before mid ∧ Settles vs mid after := by
  constructor
  · rintro (⟨hnil, rfl⟩ | ⟨rfl, texts, hone, rfl⟩)
    · obtain ⟨rfl, rfl⟩ := List.append_eq_nil_iff.1 hnil
      exact ⟨_, .inl ⟨rfl, rfl⟩, .inl ⟨rfl, rfl⟩⟩
    · obtain ⟨rfl, rfl⟩ | ⟨rfl, rfl⟩ := List.append_eq_singleton_iff.1 hone
      · exact ⟨none, .inl ⟨rfl, rfl⟩, .inr ⟨rfl, texts, rfl, rfl⟩⟩
      · exact ⟨some texts, .inr ⟨rfl, texts, rfl, rfl⟩, .inl ⟨rfl, rfl⟩⟩
  · rintro ⟨mid, ⟨rfl, rfl⟩ | ⟨rfl, texts, rfl, rfl⟩, hvs⟩
    · exact hvs
    · obtain ⟨rfl, rfl⟩ | ⟨habsurd, -⟩ := hvs
      · exact .inr ⟨rfl, texts, rfl, rfl⟩
      · exact absurd habsurd (by simp)

/-- A draft can be settled field by field. -/
theorem Draft.exists_get? {P : Field → Option (List String) → Prop}
    (h : ∀ field, ∃ value, P field value) : ∃ d : Draft, ∀ field, P field (d.get? field) := by
  choose value hvalue using h
  exact ⟨⟨value .roots, value .excludeDirs, value .extensions⟩,
    fun field => by cases field <;> exact hvalue _⟩

theorem set_iff {d d' : Draft} {field : Field} {x : Data} :
    (d.get? field = none ∧ ∃ texts, x = .texts texts ∧ d' = d.set field texts) ↔
      ∀ other, Settles (if field = other then [x] else []) (d.get? other) (d'.get? other) := by
  constructor
  · rintro ⟨hnew, texts, rfl, rfl⟩ other
    by_cases h : field = other
    · subst h
      rw [if_pos rfl, Draft.get?_set, if_pos rfl]
      exact .inr ⟨hnew, texts, rfl, rfl⟩
    · rw [if_neg h, Draft.get?_set, if_neg (Ne.symm h)]
      exact settles_nil.2 rfl
  · intro h
    have hself := h field
    rw [if_pos rfl] at hself
    obtain ⟨habsurd, -⟩ | ⟨hnew, texts, hx, hset⟩ := hself
    · exact absurd habsurd (List.cons_ne_nil _ _)
    · refine ⟨hnew, texts, (List.cons.inj hx).1, Draft.ext_get? fun other => ?_⟩
      rw [Draft.get?_set]
      by_cases hother : other = field
      · rw [if_pos hother, hother, hset]
      · rw [if_neg hother]
        have hrest := h other
        rw [if_neg (Ne.symm hother)] at hrest
        exact settles_nil.1 hrest

open Reader

/-- One member settles each field by the value that it gives it, if any. -/
theorem takes_iff {d d' : Draft} {m : List ℕ × Data} :
    Takes d m d' ↔ (∃ name : String, m.1 = unitsOf name) ∧
      ∀ field : Field, Settles (if m.1 = unitsOf field.key then [m.2] else [])
        (d.get? field) (d'.get? field) := by
  constructor
  · rintro ⟨name, hname, h⟩
    refine ⟨⟨name, hname⟩, ?_⟩
    simp only [hname, Field.key_eq_iff]
    split at h
    · rename_i hnone
      simp [hnone, h, settles_nil]
    · rename_i field hsome
      simp only [hsome, Option.some.injEq]
      exact set_iff.1 h
  · rintro ⟨⟨name, hname⟩, h⟩
    refine ⟨name, hname, ?_⟩
    simp only [hname, Field.key_eq_iff] at h
    split
    · rename_i hnone
      simp only [hnone, reduceCtorEq, if_false, settles_nil] at h
      exact Draft.ext_get? h
    · rename_i field hsome
      simp only [hsome, Option.some.injEq] at h
      exact set_iff.2 h

/-- The members of an object settle each field on its own, by the values under its key. -/
theorem takesAll_iff {d d' : Draft} {ms : List (List ℕ × Data)} :
    TakesAll d ms d' ↔ Shaped (.object ms) ∧
      ∀ field : Field, Settles (field.given (.object ms)) (d.get? field) (d'.get? field) := by
  induction ms generalizing d with
  | nil =>
    constructor
    · rintro ⟨⟩
      exact ⟨fun _ hm => absurd hm List.not_mem_nil, fun _ => settles_nil.2 rfl⟩
    · rintro ⟨-, h⟩
      obtain rfl := Draft.ext_get? fun field => settles_nil.1 (h field)
      exact .nil
  | cons m ms ih =>
    have hgiven (field : Field) : field.given (.object (m :: ms)) =
        (if m.1 = unitsOf field.key then [m.2] else []) ++ field.given (.object ms) := by
      by_cases h : m.1 = unitsOf field.key <;> simp [Field.given, h]
    constructor
    · rintro ⟨⟩
      rename_i d₁ h hmore
      obtain ⟨hname, hown⟩ := takes_iff.1 h
      obtain ⟨hshaped, hrest⟩ := ih.1 hmore
      refine ⟨List.forall_mem_cons.2 ⟨hname, hshaped⟩, fun field => ?_⟩
      rw [hgiven]
      exact settles_append.2 ⟨_, hown field, hrest field⟩
    · rintro ⟨hshaped, h⟩
      obtain ⟨hname, hshaped⟩ := List.forall_mem_cons.1 hshaped
      obtain ⟨d₁, hd₁⟩ := Draft.exists_get? fun field => settles_append.1 (hgiven field ▸ h field)
      exact .cons (takes_iff.2 ⟨hname, fun field => (hd₁ field).1⟩)
        (ih.2 ⟨hshaped, fun field => (hd₁ field).2⟩)

theorem takesList_nil_iff {d d' : Draft} {fields : List Field} :
    TakesList d fields [] d' ↔ ∀ field : Field, Settles [] (d.get? field) (d'.get? field) := by
  constructor
  · rintro ⟨⟩
    exact fun _ => settles_nil.2 rfl
  · intro h
    obtain rfl := Draft.ext_get? fun field => settles_nil.1 (h field)
    exact .nil

/-- The elements of a list settle each field on its own, by the value in its place. -/
theorem takesList_iff {d d' : Draft} {fields : List Field} {ds : List Data}
    (hnew : ∀ field ∈ fields, d.get? field = none) (hnodup : fields.Nodup) :
    TakesList d fields ds d' ↔ ds.length ≤ fields.length ∧ ∀ field : Field,
      Settles (((fields.zip ds).filter fun p => p.1 = field).map Prod.snd)
        (d.get? field) (d'.get? field) := by
  induction fields generalizing d ds with
  | nil =>
    cases ds with
    | nil => simp [takesList_nil_iff]
    | cons x ds =>
      constructor
      · rintro ⟨⟩
      · rintro ⟨hlen, -⟩
        exact absurd hlen (by simp)
  | cons field fields ih =>
    obtain ⟨hfield, hnodup⟩ := List.nodup_cons.1 hnodup
    cases ds with
    | nil => simp [takesList_nil_iff]
    | cons x ds =>
      have hgiven (other : Field) :
          ((((field :: fields).zip (x :: ds)).filter fun p => p.1 = other).map Prod.snd) =
            (if field = other then [x] else []) ++
              ((fields.zip ds).filter fun p => p.1 = other).map Prod.snd := by
        by_cases h : field = other <;> simp [h]
      have hstill (texts : List String) :
          ∀ other ∈ fields, (d.set field texts).get? other = none := by
        intro other hother
        have hne : other ≠ field := fun h => hfield (h ▸ hother)
        rw [Draft.get?_set, if_neg hne]
        exact hnew other (List.mem_cons_of_mem _ hother)
      constructor
      · rintro ⟨⟩
        rename_i texts h
        obtain ⟨hlen, hrest⟩ := (ih (hstill texts) hnodup).1 h
        refine ⟨Nat.succ_le_succ hlen, fun other => ?_⟩
        rw [hgiven]
        have hown := set_iff.1 ⟨hnew field List.mem_cons_self, texts, rfl, rfl⟩ other
        exact settles_append.2 ⟨_, hown, hrest other⟩
      · rintro ⟨hlen, h⟩
        obtain ⟨d₁, hd₁⟩ := Draft.exists_get? fun other => settles_append.1 (hgiven other ▸ h other)
        obtain ⟨-, texts, rfl, rfl⟩ := set_iff.2 fun other => (hd₁ other).1
        exact .cons ((ih (hstill texts) hnodup).2
          ⟨Nat.le_of_succ_le_succ hlen, fun other => (hd₁ other).2⟩)

/-! ### Texts -/

/-- What data make of the fields when none was read before. -/
def Reads : Data → Draft → Prop
  | .object ms, d => TakesAll {} ms d
  | .list ds, d => TakesList {} Field.all ds d
  | _, _ => False

theorem reads_iff {x : Data} {d : Draft} :
    Reads x d ↔ Shaped x ∧ ∀ field : Field, Settles (field.given x) none (d.get? field) := by
  have hnew (field : Field) : ({} : Draft).get? field = none := by cases field <;> rfl
  cases x with
  | object ms =>
    have hobject : TakesAll {} ms d ↔ _ := takesAll_iff
    simp only [hnew] at hobject
    exact hobject
  | list ds =>
    have hlist : TakesList {} Field.all ds d ↔ _ :=
      takesList_iff (fun field _ => hnew field) (by decide)
    simp only [hnew] at hlist
    exact hlist
  | null | boolean _ | number _ | string _ => simp [Reads, Shaped]

/-- Data are read as some draft with a given configuration just when they hold it. -/
theorem holds_iff {x : Data} {c : Config} :
    Holds x c ↔ ∃ d : Draft, Reads x d ∧ c = d.config := by
  constructor
  · rintro ⟨hshaped, hfields⟩
    have hfield (field : Field) : ∃ value, Settles (field.given x) none value ∧
        value.getD (({} : Config).get field) = c.get field := by
      obtain ⟨hnone, hdefault⟩ | hone := hfields field
      · exact ⟨none, .inl ⟨hnone, rfl⟩, hdefault.symm⟩
      · exact ⟨some (c.get field), .inr ⟨rfl, _, hone, rfl⟩, rfl⟩
    obtain ⟨d, hd⟩ := Draft.exists_get? hfield
    refine ⟨d, reads_iff.2 ⟨hshaped, fun field => (hd field).1⟩, ext_get fun field => ?_⟩
    rw [Draft.get_config, (hd field).2]
  · rintro ⟨d, hreads, rfl⟩
    obtain ⟨hshaped, hsettles⟩ := reads_iff.1 hreads
    refine ⟨hshaped, fun field => ?_⟩
    rw [Draft.get_config]
    obtain ⟨hnone, hget⟩ | ⟨-, texts, hone, hget⟩ := hsettles field
    · exact .inl ⟨hnone, by rw [hget]; rfl⟩
    · exact .inr (by rw [hget]; exact hone)

/-- A value that holds a configuration is read as that whatever stands behind it; then it shows
whether that is all blank. -/
theorem readJson_value {b v r : List Char} {x : Data} {d : Draft} (hb : IsBlank b)
    (hv : Spells (.value x) v) (hreads : Reads x d) : readJson (b ++ (v ++ r)) =
      match skipBlank r with
      | [] => .ok d.config
      | rest => .error (.seeing .trailingCharacters rest) := by
  cases x with
  | list ds =>
    obtain ⟨t, ht, rfl⟩ := spells_list_iff_items.1 hv
    have hread : readSequence {} true Field.all (t ++ r) = .ok (d, r) :=
      readSequence_eq_ok.2 ⟨ds, t, ht, hreads, rfl⟩
    rw [List.cons_append, readJson, skipBlank_append hb, skipBlank_cons (by decide)]
    cases hr : skipBlank r <;> simp only [hread, hr]
  | object ms =>
    obtain ⟨t, ht, rfl⟩ := spells_object_iff_items.1 hv
    have hread : readMembers {} true (t ++ r) = .ok (d, r) :=
      readMembers_eq_ok.2 ⟨ms, t, ht, hreads, rfl⟩
    rw [List.cons_append, readJson, skipBlank_append hb, skipBlank_cons (by decide)]
    cases hr : skipBlank r <;> simp only [hread, hr]
  | null | boolean _ | number _ | string _ => exact absurd hreads not_false

theorem readJson_eq_ok {s : List Char} {c : Config} :
    readJson s = .ok c ↔ ∃ x d, IsText s x ∧ Reads x d ∧ c = d.config := by
  constructor
  · intro h
    unfold readJson at h
    simp only at h
    split at h
    · exact absurd h (by simp)
    · rename_i d rest hwhole
      split at h
      · rename_i hrest
        obtain rfl := Except.ok.inj h
        have hrest := skipBlank_eq_nil.1 hrest
        split at hwhole
        · rename_i tail hs
          obtain ⟨-, b, hb, rfl⟩ := skipBlank_eq_cons.1 hs
          obtain ⟨ds, t, ht, htakes, rfl⟩ := readSequence_eq_ok.1 hwhole
          refine ⟨.list ds, d, ?_, htakes, rfl⟩
          have hvalue := spells_list_iff_items.2 ⟨t, ht, rfl⟩
          simpa [IsText] using Spells.element hb hvalue hrest
        · rename_i tail hs
          obtain ⟨-, b, hb, rfl⟩ := skipBlank_eq_cons.1 hs
          obtain ⟨ms, t, ht, htakes, rfl⟩ := readMembers_eq_ok.1 hwhole
          refine ⟨.object ms, d, ?_, htakes, rfl⟩
          have hvalue := spells_object_iff_items.2 ⟨t, ht, rfl⟩
          simpa [IsText] using Spells.element hb hvalue hrest
        · exact absurd hwhole (by simp)
      · exact absurd h (by simp)
  · rintro ⟨x, d, htext, hreads, rfl⟩
    cases htext with
    | element hb hv hb' =>
      rw [List.append_assoc, readJson_value hb hv hreads, skipBlank_eq_nil.2 hb']

/-- The configuration of a whole text is the one that what it stands for holds. -/
theorem readJson_iff {s : List Char} {c : Config} :
    readJson s = .ok c ↔ ∃ x, IsText s x ∧ Holds x c := by
  rw [readJson_eq_ok]
  constructor
  · rintro ⟨x, d, htext, hreads, hc⟩
    exact ⟨x, htext, holds_iff.2 ⟨d, hreads, hc⟩⟩
  · rintro ⟨x, htext, hholds⟩
    obtain ⟨d, hreads, hc⟩ := holds_iff.1 hholds
    exact ⟨x, d, htext, hreads, hc⟩

theorem load_of_bytes {fs : FileSystem} {base : String} {bytes : ByteArray}
    (h : fs.node (Path.join base fileName) = .ok (.file bytes)) :
    load fs base = ofBytes bytes := by
  have hexists : fs.pathExists (Path.join base fileName) = true := by
    rw [FileSystem.pathExists, h]
    rfl
  have hread : fs.read (Path.join base fileName) = .ok bytes := by
    rw [FileSystem.read, h]
  rw [load, if_pos hexists, hread]

theorem ofBytes_toUTF8 (text : String) :
    ofBytes text.toUTF8 = (readJson text.toList).mapError (.malformed text.toList) := by
  simp only [ofBytes, FileSystem.fromUTF8?_eq_some.2 rfl]
  cases readJson text.toList <;> rfl

theorem ofBytes_eq_ok {bytes : ByteArray} {c : Config} : ofBytes bytes = .ok c ↔
    ∃ text : String, bytes = text.toUTF8 ∧ readJson text.toList = .ok c := by
  have htext (text : String) : ofBytes text.toUTF8 = .ok c ↔ readJson text.toList = .ok c := by
    rw [ofBytes_toUTF8]
    cases readJson text.toList <;> simp [Except.mapError]
  constructor
  · intro h
    cases hbytes : String.fromUTF8? bytes with
    | none =>
      rw [ofBytes, hbytes] at h
      exact absurd h (by simp)
    | some text =>
      obtain rfl := FileSystem.fromUTF8?_eq_some.1 hbytes
      exact ⟨text, rfl, (htext text).1 h⟩
  · rintro ⟨text, rfl, hread⟩
    exact (htext text).2 hread

theorem load_of_file {fs : FileSystem} {base text : String}
    (h : fs.node (Path.join base fileName) = .ok (.file text.toUTF8)) :
    load fs base = (readJson text.toList).mapError (.malformed text.toList) :=
  (load_of_bytes h).trans (ofBytes_toUTF8 text)

/-- A text in the place of the configuration file is loaded just when it is JSON that holds a
configuration, and as that; any other text is malformed. Two texts whose data give each field the
same values are loaded alike, whatever else there is in them. -/
theorem load_eq_ok_iff {fs : FileSystem} {base text : String}
    (h : fs.node (Path.join base fileName) = .ok (.file text.toUTF8)) :
    (∀ c, load fs base = .ok c ↔ ∃ x, IsText text.toList x ∧ Holds x c) ∧
    ((¬ ∃ c x, IsText text.toList x ∧ Holds x c) →
      ∃ fault, load fs base = .error (.malformed text.toList fault)) ∧
    ∀ (other : FileSystem) (dir text' : String) (x x' : Data) (c : Config),
      other.node (Path.join dir fileName) = .ok (.file text'.toUTF8) →
      IsText text.toList x → IsText text'.toList x' → Shaped x' →
      (∀ field : Field, field.given x = field.given x') →
      load fs base = .ok c → load other dir = .ok c := by
  have hload {fs : FileSystem} {base text : String}
      (h : fs.node (Path.join base fileName) = .ok (.file text.toUTF8)) (c : Config) :
      load fs base = .ok c ↔ ∃ x, IsText text.toList x ∧ Holds x c := by
    rw [load_of_file h, ← readJson_iff]
    cases readJson text.toList <;> simp [Except.mapError]
  refine ⟨hload h, fun hnone => ?_, ?_⟩
  · rw [load_of_file h]
    cases hread : readJson text.toList with
    | error fault => exact ⟨fault, rfl⟩
    | ok c =>
      obtain ⟨x, hx⟩ := readJson_iff.1 hread
      exact absurd ⟨c, x, hx⟩ hnone
  · intro other dir text' x x' c h' hx hx' hshaped hgiven hc
    obtain ⟨y, hy, hholds⟩ := (hload h c).1 hc
    obtain rfl := hx.unique hy
    exact (hload h' c).2 ⟨x', hx', hholds.congr hshaped hgiven⟩

/-- A project that has a configuration file and nothing else. -/
def projectOf (text : String) : FileSystem := treeOf [(fileName, .file text.toUTF8)]

theorem load_eq_ok_iff_sample :
    (projectOf "\x7b\"x\":null,\"roots\":[\"\\/a\"]\x7d").node (Path.join "/p" fileName) =
        .ok (.file "\x7b\"x\":null,\"roots\":[\"\\/a\"]\x7d".toUTF8) ∧
      load (projectOf "\x7b\"x\":null,\"roots\":[\"\\/a\"]\x7d") "/p" = .ok { roots := ["/a"] } ∧
      load (projectOf "[[\"/a\"]]") "/p" = .ok { roots := ["/a"] } := by
  have hnode (text : String) : (projectOf text).node (Path.join "/p" fileName) =
      .ok (.file text.toUTF8) := rfl
  have value {d : Data} {s : List Char} (h : Spells (.value d) s) : IsText s d := by
    simpa [IsText] using Spells.element isBlank_nil h isBlank_nil
  have single {d : Data} {s : List Char} (h : Spells (.value d) s) :
      Spells (.value (.list [d])) ('[' :: (s ++ [']'])) := .list (.lastElement (value h))
  have member {key : String} {d : Data} {s : List Char} (h : Spells (.value d) s) :
      Spells (.member (unitsOf key) d) (StringLiteral.write key.toList ++ ':' :: s) := by
    simpa [unitsOf] using
      Spells.member isBlank_nil (isString_write key.toList) isBlank_nil (value h)
  have hescaped : IsString "\"\\/a\"".toList (unitsOf "/a") := by
    have ha : IsPiece ['a'] (codeUnits 'a') := .plain (by decide) (by decide) (by decide)
    exact ⟨_, .cons (.short (c := '/') (by decide)) (.cons ha .nil), rfl⟩
  have hobject : IsText "\x7b\"x\":null,\"roots\":[\"\\/a\"]\x7d".toList
      (.object [(unitsOf "x", .null), (unitsOf "roots", .texts ["/a"])]) :=
    value (.object (.nextMember (member .null) (.lastMember (member (single (.string hescaped))))))
  have hlist : IsText "[[\"/a\"]]".toList (.list [.texts ["/a"]]) :=
    value (single (single (.string (isString_write "/a".toList))))
  have hholds : Holds (.object [(unitsOf "x", .null), (unitsOf "roots", .texts ["/a"])])
      { roots := ["/a"] } := by
    refine ⟨by simp [Shaped], fun field => ?_⟩
    cases field
    · right
      rfl
    · left
      exact ⟨rfl, rfl⟩
    · left
      exact ⟨rfl, rfl⟩
  have hload := ((load_eq_ok_iff (hnode _)).1 _).2 ⟨_, hobject, hholds⟩
  have hgiven (field : Field) : field.given (.object [(unitsOf "x", .null),
      (unitsOf "roots", .texts ["/a"])]) = field.given (.list [.texts ["/a"]]) := by
    cases field <;> rfl
  exact ⟨hnode _, hload, (load_eq_ok_iff (hnode _)).2.2 _ _ _ _ _ _ (hnode _) hobject hlist
    (show 1 ≤ 3 by decide) hgiven hload⟩

end ImportScan.Config
