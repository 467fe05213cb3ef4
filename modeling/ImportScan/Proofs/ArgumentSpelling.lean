import ImportScan.CommandLine.Parse
import Mathlib.Data.List.Basic
import Mathlib.Data.Option.Basic

/-!
The ways to put a command line. A command line is made of parts, roots and settings and flags, and
each part can be spelled in several ways (`Spelling`); whatever spellings are chosen and however the
parts are interleaved, parsing gives the options that the parts ask for.
-/

namespace ImportScan.CommandLine

/-- What a command line is made of. -/
inductive Part where
  | root (text : String)
  | setting (s : Setting) (value : String)
  | flag (w : Switch)
  deriving DecidableEq

namespace Part

/-- The root that a part is. -/
def root? : Part → Option String
  | root text => some text
  | _ => none

/-- The value that a part gives a setting. -/
def value? (s : Setting) : Part → Option String
  | setting other value => if other = s then some value else none
  | _ => none

/-- Roots and the project root are not empty, and help and version are not asked for. -/
def Allowed : Part → Prop
  | root text => text ≠ ""
  | setting s value => s = .root → value ≠ ""
  | flag w => w = .failOnEmpty ∨ w = .verbose

end Part

/-- The parts add to what was asked for before just what is asked for after them: roots, excluded
names and extensions in order, and a project root, a form or a flag only where there was none. -/
structure Adds (before : Options) (parts : List Part) (after : Options) : Prop where
  allowed : ∀ part ∈ parts, part.Allowed
  roots : after.roots = before.roots ++ parts.filterMap Part.root?
  root : after.root.toList = before.root.toList ++ parts.filterMap (Part.value? .root)
  excludes : after.excludes = before.excludes ++ parts.filterMap (Part.value? .exclude)
  exts : after.exts = before.exts ++ parts.filterMap (Part.value? .ext)
  format : after.format.toList = before.format.toList ++ parts.filterMap (Part.value? .format)
  failOnEmpty : after.failOnEmpty.toNat =
    before.failOnEmpty.toNat + parts.count (.flag .failOnEmpty)
  verbose : after.verbose.toNat = before.verbose.toNat + parts.count (.flag .verbose)

/-- Texts that are not taken for options: they do not start with a dash, or are a dash alone. -/
def IsPlain (text : String) : Prop := text.toList.head? ≠ some '-' ∨ text = "-"

/-- The letters of some switches. -/
def HasLetters (ws : List Switch) (letters : List Char) : Prop :=
  List.Forall₂ (fun w c => Switch.letter? w = some c) ws letters

/-- The arguments that parts can be spelled with. A setting's value stands in an argument of its
own, or behind an equals sign, or right behind the letter; switches that have letters can share one
argument, also with a setting in the end. -/
inductive Spelling : List Part → List String → Prop where
  | root {text : String} (plain : IsPlain text) : Spelling [.root text] [text]
  | flag (w : Switch) : Spelling [.flag w] ["--" ++ w.name]
  | letters {ws : List Switch} {letters : List Char} (h : HasLetters ws letters)
      (nonempty : ws ≠ []) : Spelling (ws.map .flag) [String.ofList ('-' :: letters)]
  | longApart (s : Setting) {value : String} (plain : IsPlain value) :
      Spelling [.setting s value] ["--" ++ s.name, value]
  | longJoined (s : Setting) (value : String) :
      Spelling [.setting s value] ["--" ++ s.name ++ "=" ++ value]
  | shortApart {ws : List Switch} {letters : List Char} {s : Setting} {c : Char} {value : String}
      (h : HasLetters ws letters) (letter : s.letter? = some c) (plain : IsPlain value) :
      Spelling (ws.map .flag ++ [.setting s value]) [String.ofList ('-' :: (letters ++ [c])), value]
  | shortJoined {ws : List Switch} {letters : List Char} {s : Setting} {c : Char} (value : String)
      (h : HasLetters ws letters) (letter : s.letter? = some c) :
      Spelling (ws.map .flag ++ [.setting s value])
        [String.ofList ('-' :: (letters ++ c :: '=' :: value.toList))]
  | shortAttached {ws : List Switch} {letters : List Char} {s : Setting} {c : Char}
      {value : String} (h : HasLetters ws letters) (letter : s.letter? = some c)
      (nonempty : value ≠ "") (noEquals : value.toList.head? ≠ some '=') :
      Spelling (ws.map .flag ++ [.setting s value])
        [String.ofList ('-' :: (letters ++ c :: value.toList))]

/-- A whole command line: spellings one after another, and in the end, behind two dashes, roots of
any look. -/
inductive Spells : List Part → List String → Prop where
  | nil : Spells [] []
  | next {parts more : List Part} {arguments rest : List String} (h : Spelling parts arguments)
      (hrest : Spells more rest) : Spells (parts ++ more) (arguments ++ rest)
  | endOfOptions (roots : List String) : Spells (roots.map .root) ("--" :: roots)

/-! ### Arguments -/

theorem ofArgument_of_isPlain {text : String} (h : IsPlain text) :
    Token.ofArgument text = .plain := by
  rcases h with h | rfl
  · unfold Token.ofArgument
    split
    · rename_i heq
      exact absurd (by rw [heq]; rfl) h
    · rename_i heq
      exact absurd (by rw [heq]; rfl) h
    · rename_i heq
      exact absurd (by rw [heq]; rfl) h
    · rfl
  · rfl

theorem ofArgument_long (s : Setting) : Token.ofArgument ("--" ++ s.name) = .long s.name none := by
  cases s <;> decide

theorem ofArgument_flag (w : Switch) : Token.ofArgument ("--" ++ w.name) = .long w.name none := by
  cases w <;> decide

theorem ofArgument_joined (s : Setting) (value : String) :
    Token.ofArgument ("--" ++ s.name ++ "=" ++ value) = .long s.name (some value) := by
  cases s <;> simp [Token.ofArgument, Token.ofLong, Setting.name]

theorem ofArgument_short {c : Char} (rest : List Char) (h : c ≠ '-') :
    Token.ofArgument (String.ofList ('-' :: c :: rest)) = .short (c :: rest) := by
  rw [Token.ofArgument, String.toList_ofList]
  split
  · rename_i heq
    simp_all
  · rename_i heq
    simp_all
  · rename_i heq
    simp_all
  · rename_i hshort
    exact absurd rfl (hshort _ _)

theorem ofName?_setting (s : Setting) : Known.ofName? s.name = some (.setting s) := by
  cases s <;> decide

theorem ofName?_switch (w : Switch) : Known.ofName? w.name = some (.switch w) := by
  cases w <;> decide

theorem ofLetter?_setting {s : Setting} {c : Char} (h : s.letter? = some c) :
    Known.ofLetter? c = some (.setting s) ∧ c ≠ '-' := by
  cases s <;> simp only [Setting.letter?, Option.some.injEq, reduceCtorEq] at h <;>
    subst h <;> decide

theorem ofLetter?_switch {w : Switch} {c : Char} (h : w.letter? = some c) :
    Known.ofLetter? c = some (.switch w) ∧ c ≠ '-' := by
  cases w <;> simp only [Switch.letter?, Option.some.injEq, reduceCtorEq] at h <;>
    subst h <;> decide

/-- Letters behind one dash, and what follows them. -/
theorem ofArgument_letters {ws : List Switch} {letters tail : List Char} (h : HasLetters ws letters)
    (hne : letters ++ tail ≠ []) (hdash : tail.head? ≠ some '-') :
    Token.ofArgument (String.ofList ('-' :: (letters ++ tail))) = .short (letters ++ tail) := by
  cases h with
  | nil =>
    obtain ⟨c, rest, rfl⟩ := List.exists_cons_of_ne_nil hne
    exact ofArgument_short rest fun hc => hdash (by rw [hc]; rfl)
  | cons hletter _ => exact ofArgument_short _ (ofLetter?_switch hletter).2

/-! ### Taking in parts -/

namespace Options

/-- Takes in one part. -/
def take (o : Options) : Part → Except Stop Options
  | .root text => o.addRoots [text]
  | .setting s value => o.set s value
  | .flag w => o.turnOn w

/-- Parts that can be taken in one after another, and the options in the end. -/
inductive Takes : Options → List Part → Options → Prop where
  | nil {o : Options} : Takes o [] o
  | cons {o o₁ o' : Options} {part : Part} {parts : List Part} (h : o.take part = .ok o₁)
      (rest : Takes o₁ parts o') : Takes o (part :: parts) o'

theorem Takes.append {o o' : Options} {parts more : List Part} (h : Takes o (parts ++ more) o') :
    ∃ o₁, Takes o parts o₁ ∧ Takes o₁ more o' := by
  induction parts generalizing o with
  | nil => exact ⟨o, .nil, h⟩
  | cons part parts ih =>
    cases h with
    | cons hpart hrest =>
      obtain ⟨o₁, hparts, hmore⟩ := ih hrest
      exact ⟨o₁, .cons hpart hparts, hmore⟩

theorem Takes.single {o o' : Options} {part : Part} (h : Takes o [part] o') :
    o.take part = .ok o' := by
  cases h with
  | cons hpart hrest =>
    cases hrest
    exact hpart

/-- Where nothing may be there and something is added, nothing was there before. -/
theorem eq_none_of_toList {value : String} {before after : Option String} {more : List String}
    (h : after.toList = before.toList ++ value :: more) :
    before = none ∧ after = some value ∧ more = [] := by
  cases before <;> cases after <;> simp_all

theorem addRoots_append {o o₁ o' : Options} {values : List String} {text : String}
    (h : o.addRoots values = .ok o₁) (htext : o₁.addRoots [text] = .ok o') :
    o.addRoots (values ++ [text]) = .ok o' := by
  unfold addRoots at h htext ⊢
  split_ifs at h htext with hvalues hempty
  obtain rfl := Except.ok.inj h
  obtain rfl := Except.ok.inj htext
  rw [if_neg (by simp_all), List.append_assoc]

/-- The first of the parts can be taken in, and leaves the others to be added. -/
theorem exists_take {o o' : Options} {part : Part} {parts : List Part}
    (h : Adds o (part :: parts) o') : ∃ o₁, o.take part = .ok o₁ ∧ Adds o₁ parts o' := by
  obtain ⟨hallowed, hroots, hroot, hexcludes, hexts, hformat, hempty, hverbose⟩ := h
  obtain ⟨hpart, hothers⟩ := List.forall_mem_cons.1 hallowed
  rw [List.count_cons] at hempty hverbose
  cases part with
  | root text =>
    have htake : o.take (.root text) = .ok { o with roots := o.roots ++ [text] } := by
      simp [take, addRoots, Ne.symm hpart]
    refine ⟨_, htake, hothers, ?_, hroot, hexcludes, hexts, hformat, hempty, hverbose⟩
    rw [hroots, List.append_assoc]
    rfl
  | setting s value =>
    cases s with
    | root =>
      obtain ⟨hnone, hsome, hmore⟩ := eq_none_of_toList hroot
      have htake : o.take (.setting .root value) = .ok { o with root := some value } := by
        simp [take, set, hnone, hpart rfl]
      refine ⟨_, htake, hothers, hroots, ?_, hexcludes, hexts, hformat, hempty, hverbose⟩
      rw [hsome, hmore]
      rfl
    | exclude =>
      refine ⟨_, rfl, hothers, hroots, hroot, ?_, hexts, hformat, hempty, hverbose⟩
      rw [hexcludes, List.append_assoc]
      rfl
    | ext =>
      refine ⟨_, rfl, hothers, hroots, hroot, hexcludes, ?_, hformat, hempty, hverbose⟩
      rw [hexts, List.append_assoc]
      rfl
    | format =>
      obtain ⟨hnone, hsome, hmore⟩ := eq_none_of_toList hformat
      have htake : o.take (.setting .format value) = .ok { o with format := some value } := by
        simp [take, set, hnone]
      refine ⟨_, htake, hothers, hroots, hroot, hexcludes, hexts, ?_, hempty, hverbose⟩
      rw [hsome, hmore]
      rfl
  | flag w =>
    have once {before after : Bool} {n : ℕ} (h : after.toNat = before.toNat + (n + 1)) :
        before = false ∧ after.toNat = true.toNat + n := by
      cases before <;> cases after <;> simp at h ⊢
      all_goals omega
    rcases hpart with rfl | rfl
    · obtain ⟨hoff, hon⟩ := once hempty
      have htake : o.take (.flag .failOnEmpty) = .ok { o with failOnEmpty := true } := by
        simp [take, turnOn, hoff]
      exact ⟨_, htake, hothers, hroots, hroot, hexcludes, hexts, hformat, hon, hverbose⟩
    · obtain ⟨hoff, hon⟩ := once hverbose
      have htake : o.take (.flag .verbose) = .ok { o with verbose := true } := by
        simp [take, turnOn, hoff]
      exact ⟨_, htake, hothers, hroots, hroot, hexcludes, hexts, hformat, hempty, hon⟩

/-- Where nothing is added, all is as before. -/
theorem eq_of_adds_nil {o o' : Options} (h : Adds o [] o') : o' = o := by
  have hoption {x y : Option String} (h : x.toList = y.toList ++ []) : x = y := by
    cases x <;> cases y <;> simp_all
  have hbool {x y : Bool} (h : x.toNat = y.toNat + 0) : x = y := by
    cases x <;> cases y <;> simp_all
  obtain ⟨-, hroots, hroot, hexcludes, hexts, hformat, hempty, hverbose⟩ := h
  rw [List.filterMap_nil, List.append_nil] at hroots hexcludes hexts
  have hroot := hoption hroot
  have hformat := hoption hformat
  have hempty := hbool hempty
  have hverbose := hbool hverbose
  cases o
  cases o'
  simp_all

theorem takes_of_adds {o o' : Options} {parts : List Part} (h : Adds o parts o') :
    Takes o parts o' := by
  induction parts generalizing o with
  | nil => exact eq_of_adds_nil h ▸ .nil
  | cons part parts ih =>
    obtain ⟨o₁, htake, hrest⟩ := exists_take h
    exact .cons htake (ih hrest)

end Options

/-! ### Reading arguments -/

namespace Progress

variable {p : Progress} {o o' : Options}

theorem addPlain_root {text : String} (hp : p.settled = .ok o)
    (h : o.addRoots [text] = .ok o') : ∃ q, p.addPlain text = .ok q ∧ q.settled = .ok o' := by
  obtain ⟨options, pending⟩ := p
  cases pending with
  | nothing =>
    obtain rfl := Except.ok.inj hp
    exact ⟨⟨options, .roots [text]⟩, rfl, h⟩
  | setting s value =>
    cases value with
    | none => exact absurd hp (by simp [settled])
    | some value => exact ⟨⟨o, .roots [text]⟩, by simp [addPlain, hp, Except.map], h⟩
  | roots values =>
    exact ⟨⟨options, .roots (values ++ [text])⟩, rfl, Options.addRoots_append hp h⟩

theorem addSetting_apart {s : Setting} {value : String} (hp : p.settled = .ok o)
    (h : o.set s value = .ok o') :
    ∃ q r, p.addSetting s none = .ok q ∧ q.addPlain value = .ok r ∧ r.settled = .ok o' :=
  ⟨⟨o, .setting s none⟩, ⟨o, .setting s (some value)⟩, by simp [addSetting, hp], rfl, h⟩

theorem addSetting_attached {s : Setting} {value : String} (hp : p.settled = .ok o)
    (h : o.set s value = .ok o') :
    ∃ q, p.addSetting s (some value) = .ok q ∧ q.settled = .ok o' :=
  ⟨⟨o', .nothing⟩, by simp [addSetting, hp, h, Except.map], rfl⟩

theorem addSwitch_ok {w : Switch} (hp : p.settled = .ok o) (h : o.turnOn w = .ok o') :
    ∃ q, p.addSwitch w = .ok q ∧ q.settled = .ok o' :=
  ⟨⟨o', .nothing⟩, by simp [addSwitch, hp, h, Except.map], rfl⟩

/-- Letters of switches are taken in one after another, whatever follows in the argument. -/
theorem addShort_letters {ws : List Switch} {letters : List Char} (hletters : HasLetters ws letters)
    (hp : p.settled = .ok o) (h : Options.Takes o (ws.map .flag) o') :
    ∃ q : Progress, q.settled = .ok o' ∧
      ∀ rest, p.addShort (letters ++ rest) = q.addShort rest := by
  induction hletters generalizing p o with
  | nil =>
    cases h
    exact ⟨p, hp, fun _ => rfl⟩
  | cons hletter _ ih =>
    cases h with
    | cons hflag hrest =>
      obtain ⟨q, hq, hqo⟩ := addSwitch_ok hp hflag
      obtain ⟨r, hr, hshort⟩ := ih hqo hrest
      refine ⟨r, hr, fun rest => ?_⟩
      rw [List.cons_append, addShort]
      simp only [(ofLetter?_switch hletter).1, hq]
      exact hshort rest

theorem attached?_toList {value : String} (nonempty : value ≠ "")
    (noEquals : value.toList.head? ≠ some '=') : attached? value.toList = some value := by
  unfold attached?
  split
  · rename_i heq
    exact absurd (String.toList_eq_nil_iff.1 heq) nonempty
  · rename_i heq
    exact absurd (by rw [heq]; rfl) noEquals
  · rw [String.ofList_toList]

/-- A setting's letter with its value in the same argument, behind the letters of switches. -/
theorem read_attached {ws : List Switch} {letters tail : List Char} {s : Setting} {c : Char}
    {value : String} (hletters : HasLetters ws letters) (letter : s.letter? = some c)
    (htail : attached? tail = some value) (hp : p.settled = .ok o)
    (ho : Options.Takes o (ws.map .flag ++ [.setting s value]) o') :
    ∃ q : Progress, q.settled = .ok o' ∧
      ∀ rest, p.read (String.ofList ('-' :: (letters ++ c :: tail)) :: rest) = q.read rest := by
  obtain ⟨hsetting, hdash⟩ := ofLetter?_setting letter
  obtain ⟨o₁, hflags, hvalue⟩ := ho.append
  obtain ⟨p₁, hp₁, hshort⟩ := addShort_letters hletters hp hflags
  obtain ⟨q, hq, hqo⟩ := addSetting_attached hp₁ hvalue.single
  refine ⟨q, hqo, fun rest => ?_⟩
  rw [read, ofArgument_letters hletters (by simp) (by simpa using hdash)]
  simp only [hshort]
  simp only [addShort, hsetting, htail, hq]

/-- One spelling is taken in, whatever arguments follow. -/
theorem read_spelling {parts : List Part} {arguments : List String} (h : Spelling parts arguments)
    (hp : p.settled = .ok o) (ho : Options.Takes o parts o') :
    ∃ q : Progress, q.settled = .ok o' ∧ ∀ rest, p.read (arguments ++ rest) = q.read rest := by
  cases h with
  | root plain =>
    obtain ⟨q, hq, hqo⟩ := addPlain_root hp ho.single
    refine ⟨q, hqo, fun rest => ?_⟩
    rw [List.singleton_append, read, ofArgument_of_isPlain plain]
    simp only [hq]
  | flag w =>
    obtain ⟨q, hq, hqo⟩ := addSwitch_ok hp ho.single
    refine ⟨q, hqo, fun rest => ?_⟩
    rw [List.singleton_append, read, ofArgument_flag]
    simp only [addLong, ofName?_switch, hq]
  | @letters ws letters hletters nonempty =>
    have hne : letters ++ [] ≠ [] := by
      cases hletters with
      | nil => exact absurd rfl nonempty
      | cons _ _ => simp
    obtain ⟨q, hqo, hshort⟩ := addShort_letters hletters hp ho
    refine ⟨q, hqo, fun rest => ?_⟩
    have hread := hshort []
    have htoken := ofArgument_letters hletters hne (by simp)
    rw [List.append_nil] at hread htoken
    rw [List.singleton_append, read, htoken]
    simp only [hread, addShort]
  | longApart s plain =>
    obtain ⟨q, r, hq, hr, hro⟩ := addSetting_apart hp ho.single
    refine ⟨r, hro, fun rest => ?_⟩
    rw [List.cons_append, List.singleton_append, read, ofArgument_long]
    simp only [addLong, ofName?_setting, hq]
    rw [read, ofArgument_of_isPlain plain]
    simp only [hr]
  | longJoined s value =>
    obtain ⟨q, hq, hqo⟩ := addSetting_attached hp ho.single
    refine ⟨q, hqo, fun rest => ?_⟩
    rw [List.singleton_append, read, ofArgument_joined]
    simp only [addLong, ofName?_setting, hq]
  | shortApart hletters letter plain =>
    obtain ⟨hsetting, hdash⟩ := ofLetter?_setting letter
    obtain ⟨o₁, hflags, hvalue⟩ := ho.append
    obtain ⟨p₁, hp₁, hshort⟩ := addShort_letters hletters hp hflags
    obtain ⟨q, r, hq, hr, hro⟩ := addSetting_apart hp₁ hvalue.single
    refine ⟨r, hro, fun rest => ?_⟩
    rw [List.cons_append, List.singleton_append, read,
      ofArgument_letters hletters (by simp) (by simpa using hdash)]
    simp only [hshort]
    simp only [addShort, hsetting, attached?, hq]
    rw [read, ofArgument_of_isPlain plain]
    simp only [hr]
  | shortJoined value hletters letter =>
    exact read_attached hletters letter (by simp [attached?]) hp ho
  | shortAttached hletters letter nonempty noEquals =>
    exact read_attached hletters letter (attached?_toList nonempty noEquals) hp ho

theorem addRoot_eq_addPlain (hp : p.settled = .ok o) (text : String) :
    p.addRoot text = p.addPlain text := by
  obtain ⟨options, pending⟩ := p
  cases pending with
  | nothing | roots values => rfl
  | setting s value =>
    cases value with
    | none => exact absurd hp (by simp [settled])
    | some value => rfl

/-- Behind the end of the options, roots of any look are taken in. -/
theorem addRoots_behind {roots : List String} (hp : p.settled = .ok o)
    (ho : Options.Takes o (roots.map .root) o') :
    (roots.foldlM addRoot p).bind settled = .ok o' := by
  induction roots generalizing p o with
  | nil =>
    cases ho
    exact hp
  | cons root roots ih =>
    cases ho with
    | cons hroot hrest =>
      obtain ⟨q, hq, hqo⟩ := addPlain_root hp hroot
      rw [List.foldlM_cons, addRoot_eq_addPlain hp, hq]
      exact ih hqo hrest

/-- A whole command line is taken in part by part. -/
theorem read_spells {parts : List Part} {arguments : List String} (h : Spells parts arguments)
    (hp : p.settled = .ok o) (ho : Options.Takes o parts o') : p.read arguments = .ok o' := by
  induction h generalizing p o with
  | nil =>
    cases ho
    rw [read, hp]
  | next h _ ih =>
    obtain ⟨o₁, hparts, hmore⟩ := ho.append
    obtain ⟨q, hqo, hread⟩ := read_spelling h hp hparts
    rw [hread]
    exact ih hqo hmore
  | endOfOptions roots =>
    rw [read]
    exact addRoots_behind hp ho

end Progress

/-- However the parts of a command line are interleaved and spelled, parsing gives the options that
they add up to; the form is the list where none is asked for. -/
theorem parse_of_spells {parts : List Part} {arguments : List String} {o : Options}
    (h : Spells parts arguments) (ho : Adds {} parts o) :
    parse arguments = .ok o ∧
      o.formatName = (parts.filterMap (Part.value? .format)).headD "list" := by
  refine ⟨Progress.read_spells h rfl (Options.takes_of_adds ho), ?_⟩
  have hformat : o.format.toList = parts.filterMap (Part.value? .format) := ho.format
  rw [← hformat, Options.formatName]
  cases o.format <;> rfl

theorem parse_of_spells_sample :
    Spells [.root "a", .flag .verbose, .setting .format "json", .setting .exclude "=b", .root "-c"]
        ["a", "-vf", "json", "-e==b", "--", "-c"] ∧
      Adds {} [.root "a", .flag .verbose, .setting .format "json", .setting .exclude "=b",
          .root "-c"]
        { roots := ["a", "-c"], excludes := ["=b"], format := some "json", verbose := true } ∧
      parse ["a", "-vf", "json", "-e==b", "--", "-c"] = .ok
        { roots := ["a", "-c"], excludes := ["=b"], format := some "json", verbose := true } := by
  have hspells : Spells [.root "a", .flag .verbose, .setting .format "json",
      .setting .exclude "=b", .root "-c"] ["a", "-vf", "json", "-e==b", "--", "-c"] := by
    have hv : HasLetters [.verbose] ['v'] := .cons rfl .nil
    have hroot : Spelling [.root "a"] ["a"] := .root (.inl (by decide))
    have hformat : Spelling ([.verbose].map .flag ++ [.setting .format "json"]) ["-vf", "json"] :=
      .shortApart hv rfl (.inl (by decide))
    have hexclude : Spelling ([].map .flag ++ [.setting .exclude "=b"]) ["-e==b"] :=
      .shortJoined "=b" .nil rfl
    exact .next hroot (.next hformat (.next hexclude (.endOfOptions ["-c"])))
  have hadds : Adds {} [.root "a", .flag .verbose, .setting .format "json",
      .setting .exclude "=b", .root "-c"]
      { roots := ["a", "-c"], excludes := ["=b"], format := some "json", verbose := true } := by
    refine ⟨?_, by decide, by decide, by decide, by decide, by decide, by decide, by decide⟩
    simp [Part.Allowed]
  exact ⟨hspells, hadds, (parse_of_spells hspells hadds).1⟩

end ImportScan.CommandLine
