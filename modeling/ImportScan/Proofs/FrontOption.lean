import ImportScan.Proofs.ArgumentSpelling

/-!
Options in front of a command line. An option that no later argument looks at, unless it gives the
same option again, can be put in front of a command line that does without it: the others are read
as before (`Progress.read_given`), and a usage error stays one (`Progress.read_usage`).
-/

namespace ImportScan.CommandLine

/-! ### Results with the option and without -/

/-- A result of reading, and the result with an option given from the start: `given` gives the
option, `clear` says that it was not given, `start` that it had not been given before. The second
result is the first with the option given, or it is a usage error, and then the first is not clear
of the option. -/
inductive Follows {α : Type} (given : α → α) (clear : α → Prop) (start : Prop) :
    Except Stop α → Except Stop α → Prop
  | same {a : α} : (clear a → start) → Follows given clear start (.ok a) (.ok (given a))
  | stopped (stop : Stop) : Follows given clear start (.error stop) (.error stop)
  | refused {x : Except Stop α} (error : UsageError) : (∀ a, x = .ok a → ¬clear a) →
      Follows given clear start x (.error (.usage error))

namespace Follows

variable {α β : Type} {given : α → α} {clear : α → Prop} {given' : β → β} {clear' : β → Prop}
  {start : Prop} {x y : Except Stop α} {a : α}

theorem of_ok (h : Follows given clear start (.ok a) y) (hclear : clear a) :
    start ∧ y = .ok (given a) := by
  cases h with
  | same hstart => exact ⟨hstart hclear, rfl⟩
  | refused error hnot => exact absurd hclear (hnot a rfl)

theorem of_usage {error : UsageError} (h : Follows given clear start (.error (.usage error)) y) :
    ∃ error', y = .error (.usage error') := by
  cases h with
  | stopped => exact ⟨error, rfl⟩
  | refused error' _ => exact ⟨error', rfl⟩

theorem mono {start' : Prop} (h : Follows given clear start x y) (hstart : start → start') :
    Follows given clear start' x y := by
  cases h with
  | same hback => exact .same fun hclear => hstart (hback hclear)
  | stopped stop => exact .stopped stop
  | refused error hnot => exact .refused error hnot

/-- What is done after results that follow each other gives such results again. -/
theorem bind {f : α → Except Stop β} (h : Follows given clear start x y)
    (hnext : ∀ a, Follows given' clear' (clear a) (f a) (f (given a))) :
    Follows given' clear' start (x.bind f) (y.bind f) := by
  cases h with
  | @same a hstart =>
    exact (hnext a).mono hstart
  | stopped stop => exact .stopped stop
  | refused error hnot =>
    -- a clear end goes back to a clear start, and there was none
    refine .refused error fun b hb hclear => ?_
    cases x with
    | error stop => cases hb
    | ok a =>
      have h := hnext a
      rw [show f a = .ok b from hb] at h
      exact hnot a rfl (h.of_ok hclear).1

theorem map {f : α → β} (h : Follows given clear start x y)
    (hgiven : ∀ a, f (given a) = given' (f a)) (hclear : ∀ a, clear' (f a) → clear a) :
    Follows given' clear' start (x.map f) (y.map f) := by
  have hbind (z : Except Stop α) : z.map f = z.bind fun a => .ok (f a) := by cases z <;> rfl
  rw [hbind, hbind]
  refine h.bind fun a => ?_
  rw [hgiven]
  exact .same (hclear a)

end Follows

/-- Taking in arguments does not depend on an option, unless they give it again. -/
structure Overlooks (given : Options → Options) (clear : Options → Prop) : Prop where
  set : ∀ (o : Options) (s : Setting) (value : String),
    Follows given clear (clear o) (o.set s value) ((given o).set s value)
  addRoots : ∀ (o : Options) (values : List String),
    Follows given clear (clear o) (o.addRoots values) ((given o).addRoots values)
  turnOn : ∀ (o : Options) (w : Switch),
    Follows given clear (clear o) (o.turnOn w) ((given o).turnOn w)

/-! ### Reading with the option and without -/

namespace Progress

/-- The same progress with other options. -/
def mapOptions (f : Options → Options) (p : Progress) : Progress :=
  { p with options := f p.options }

/-- A step of reading does not depend on an option either. -/
def StepOverlooks (given : Options → Options) (clear : Options → Prop)
    (step : Progress → Except Stop Progress) : Prop :=
  ∀ p : Progress, Follows (mapOptions given) (fun q => clear q.options) (clear p.options)
    (step p) (step (p.mapOptions given))

variable {given : Options → Options} {clear : Options → Prop} {o : Options}

theorem settled_follows (hgiven : Overlooks given clear) (p : Progress) :
    Follows given clear (clear p.options) p.settled (p.mapOptions given).settled := by
  obtain ⟨options, pending⟩ := p
  rcases pending with _ | ⟨s, _ | value⟩ | values
  · exact .same id
  · exact .stopped _
  · exact hgiven.set options s value
  · exact hgiven.addRoots options values

/-- A run of roots begins when all before it is settled. -/
theorem startRoots_follows (hgiven : Overlooks given clear) (p : Progress) (argument : String) :
    Follows (mapOptions given) (fun q => clear q.options) (clear p.options)
      (p.settled.map fun options => ⟨options, .roots [argument]⟩)
      ((p.mapOptions given).settled.map fun options => ⟨options, .roots [argument]⟩) :=
  (settled_follows hgiven p).map (fun _ => rfl) fun _ => id

theorem addPlain_overlooks (hgiven : Overlooks given clear) (argument : String) :
    StepOverlooks given clear fun p => p.addPlain argument := by
  rintro ⟨options, pending⟩
  rcases pending with _ | ⟨s, _ | value⟩ | values
  · exact startRoots_follows hgiven ⟨options, .nothing⟩ argument
  · exact .same id
  · exact startRoots_follows hgiven ⟨options, .setting s (some value)⟩ argument
  · exact .same id

theorem addRoot_overlooks (hgiven : Overlooks given clear) (argument : String) :
    StepOverlooks given clear fun p => p.addRoot argument := by
  rintro ⟨options, pending⟩
  cases pending with
  | nothing => exact startRoots_follows hgiven ⟨options, .nothing⟩ argument
  | setting s value => exact startRoots_follows hgiven ⟨options, .setting s value⟩ argument
  | roots values => exact .same id

theorem addSetting_eq_bind (p : Progress) (s : Setting) (value : Option String) :
    p.addSetting s value = p.settled.bind fun options =>
      match value with
      | none => .ok ⟨options, .setting s none⟩
      | some value => (options.set s value).map fun options => ⟨options, .nothing⟩ := by
  unfold addSetting
  cases p.settled <;> cases value <;> rfl

theorem addSwitch_eq_bind (p : Progress) (w : Switch) :
    p.addSwitch w = p.settled.bind fun options =>
      (options.turnOn w).map fun options => ⟨options, .nothing⟩ := by
  rw [addSwitch]
  cases p.settled <;> rfl

theorem addSetting_overlooks (hgiven : Overlooks given clear) (s : Setting)
    (value : Option String) : StepOverlooks given clear fun p => p.addSetting s value := by
  intro p
  dsimp only
  rw [addSetting_eq_bind, addSetting_eq_bind]
  refine (settled_follows hgiven p).bind fun options => ?_
  cases value with
  | none => exact .same id
  | some value => exact (hgiven.set options s value).map (fun _ => rfl) fun _ => id

theorem addSwitch_overlooks (hgiven : Overlooks given clear) (w : Switch) :
    StepOverlooks given clear fun p => p.addSwitch w := by
  intro p
  dsimp only
  rw [addSwitch_eq_bind, addSwitch_eq_bind]
  refine (settled_follows hgiven p).bind fun options => ?_
  exact (hgiven.turnOn options w).map (fun _ => rfl) fun _ => id

theorem addLong_overlooks (hgiven : Overlooks given clear) (name : String)
    (value : Option String) : StepOverlooks given clear fun p => p.addLong name value := by
  intro p
  dsimp only [addLong]
  cases Known.ofName? name with
  | none => exact .stopped _
  | some known =>
    rcases known, value with ⟨s | w, _ | value⟩
    · exact addSetting_overlooks hgiven s none p
    · exact addSetting_overlooks hgiven s (some value) p
    · exact addSwitch_overlooks hgiven w p
    · exact .stopped _

theorem addShort_switch {w : Switch} {c : Char} (h : Known.ofLetter? c = some (.switch w))
    (p : Progress) (rest : List Char) :
    p.addShort (c :: rest) = (p.addSwitch w).bind fun q => q.addShort rest := by
  rw [addShort]
  simp only [h]
  cases p.addSwitch w <;> rfl

/-- Letters are taken in one by one, and no step of that looks at the option. -/
theorem addShort_overlooks (hgiven : Overlooks given clear) (letters : List Char) :
    StepOverlooks given clear fun p => p.addShort letters := by
  induction letters with
  | nil => exact fun p => .same id
  | cons c rest ih =>
    intro p
    dsimp only
    rcases hletter : Known.ofLetter? c with _ | s | w
    · rw [addShort, addShort, hletter]
      exact .stopped _
    · rw [addShort, addShort, hletter]
      exact addSetting_overlooks hgiven s _ p
    · rw [addShort_switch hletter, addShort_switch hletter]
      exact (addSwitch_overlooks hgiven w p).bind ih

theorem foldlM_addRoot_overlooks (hgiven : Overlooks given clear) (arguments : List String) :
    StepOverlooks given clear fun p => arguments.foldlM addRoot p := by
  induction arguments with
  | nil => exact fun p => .same id
  | cons argument rest ih =>
    intro p
    dsimp only
    rw [List.foldlM_cons, List.foldlM_cons]
    exact (addRoot_overlooks hgiven argument p).bind ih

/-- The step that reading takes for an argument in front of the end of the options. -/
def step? (argument : String) : Token → Option (Progress → Except Stop Progress)
  | .endOfOptions => none
  | .long name value => some fun p => p.addLong name value
  | .short letters => some fun p => p.addShort letters
  | .plain => some fun p => p.addPlain argument

theorem step?_overlooks (hgiven : Overlooks given clear) {argument : String} {token : Token}
    {step : Progress → Except Stop Progress} (h : step? argument token = some step) :
    StepOverlooks given clear step := by
  cases token with
  | endOfOptions => cases h
  | long name value => exact Option.some.inj h ▸ addLong_overlooks hgiven name value
  | short letters => exact Option.some.inj h ▸ addShort_overlooks hgiven letters
  | plain => exact Option.some.inj h ▸ addPlain_overlooks hgiven argument

theorem read_cons (p : Progress) (argument : String) (rest : List String) :
    p.read (argument :: rest) = match step? argument (Token.ofArgument argument) with
      | none => (rest.foldlM addRoot p).bind settled
      | some step => (step p).bind fun q => q.read rest := by
  rw [read]
  cases Token.ofArgument argument with
  | endOfOptions => rfl
  | long name value => dsimp only [step?]; cases p.addLong name value <;> rfl
  | short letters => dsimp only [step?]; cases p.addShort letters <;> rfl
  | plain => dsimp only [step?]; cases p.addPlain argument <;> rfl

/-- Reading arguments does not depend on the option, unless they give it again. -/
theorem read_follows (hgiven : Overlooks given clear) (arguments : List String) (p : Progress) :
    Follows given clear (clear p.options) (p.read arguments)
      ((p.mapOptions given).read arguments) := by
  induction arguments generalizing p with
  | nil => exact settled_follows hgiven p
  | cons argument rest ih =>
    rw [read_cons, read_cons]
    cases hstep : step? argument (Token.ofArgument argument) with
    | none => exact (foldlM_addRoot_overlooks hgiven rest p).bind (settled_follows hgiven)
    | some step => exact (step?_overlooks hgiven hstep p).bind ih

/-- Arguments that leave an option clear are read in the same way when it is given. -/
theorem read_given (hgiven : Overlooks given clear) (hclear : clear o) (arguments : List String)
    (p : Progress) (h : p.read arguments = .ok o) :
    clear p.options ∧ (p.mapOptions given).read arguments = .ok (given o) :=
  (h ▸ read_follows hgiven arguments p).of_ok hclear

/-- Arguments that cannot be used cannot be used when an option is given either. -/
theorem read_usage (hgiven : Overlooks given clear) {error : UsageError} {arguments : List String}
    {p : Progress} (h : p.read arguments = .error (.usage error)) :
    ∃ error', (p.mapOptions given).read arguments = .error (.usage error') :=
  (h ▸ read_follows hgiven arguments p).of_usage

end Progress

/-! ### The verbose flag -/

/-- The same options, with the verbose flag. -/
def Options.loud (o : Options) : Options := { o with verbose := true }

/-- No other option depends on the verbose flag, and given again it would not be off. -/
theorem overlooks_loud : Overlooks Options.loud fun o => o.verbose = false where
  set o s value := by
    cases s with
    | root =>
      dsimp only [Options.set, Options.loud]
      split_ifs
      · exact .stopped _
      · exact .stopped _
      · exact .same id
    | exclude => exact .same id
    | ext => exact .same id
    | format =>
      dsimp only [Options.set, Options.loud]
      split_ifs
      · exact .stopped _
      · exact .same id
  addRoots o values := by
    rw [Options.addRoots, Options.addRoots]
    split_ifs
    · exact .stopped _
    · exact .same id
  turnOn o w := by
    cases w with
    | failOnEmpty =>
      dsimp only [Options.turnOn, Options.loud]
      split_ifs
      · exact .stopped _
      · exact .same id
    | verbose =>
      refine .refused _ fun o' h hquiet => ?_
      rw [Options.turnOn] at h
      split_ifs at h
      obtain rfl := Except.ok.inj h
      cases hquiet
    | help => exact .stopped _
    | version => exact .stopped _

/-- The flag in front of a command line that has none adds itself and changes nothing else. -/
theorem parse_verbose {arguments : List String} {o : Options} (h : parse arguments = .ok o)
    (hquiet : o.verbose = false) : parse ("--verbose" :: arguments) = .ok o.loud := by
  have htoken : Token.ofArgument "--verbose" = .long "verbose" none := ofArgument_flag .verbose
  have hflag : Progress.addLong {} "verbose" none = .ok (Progress.mapOptions Options.loud {}) := by
    decide
  rw [parse, Progress.read]
  simp only [htoken, hflag]
  exact (Progress.read_given overlooks_loud hquiet arguments {} h).2

end ImportScan.CommandLine
