import ImportScan.Proofs.Tree

/-!
How a path is followed. Each segment asks for one `Move`; a resolved path ends on a trail of entries
that really stand in one another (`Rooted`), and a name joined to the path of a directory leads to
the directory's entry of that name (`resolve_join`).
-/

namespace ImportScan

/-- A trail in which each entry is one of the directory before it. -/
inductive Trail.Rooted (root : Node) : Trail → Prop
  | nil : Rooted root []
  | cons {name : String} {node : Node} {entries : List (String × Node)} {trail : Trail} :
      trail.node root = .dir entries → entries.lookup name = some node → Rooted root trail →
      Rooted root ((name, node) :: trail)

theorem Trail.Rooted.tail {root : Node} {trail : Trail} (h : trail.Rooted root) :
    Trail.Rooted root trail.tail := by
  cases h with
  | nil => exact .nil
  | cons _ _ ht => exact ht

theorem Trail.Rooted.wellFormed {root : Node} {trail : Trail} (h : trail.Rooted root)
    (hroot : root.WellFormed) : (trail.node root).WellFormed := by
  induction h with
  | nil => exact hroot
  | cons hdir hlook _ ih =>
    rw [hdir] at ih
    exact ih.entry (Listing.mem_of_lookup hlook)

theorem Trail.Rooted.dir_root {root : Node} {trail : Trail} (h : trail.Rooted root)
    (hdir : ∃ entries, trail.node root = .dir entries) : ∃ entries, root = .dir entries := by
  induction h with
  | nil => exact hdir
  | cons hd _ _ ih => exact ih ⟨_, hd⟩

/-- A trail none of whose entries is a link. -/
def Trail.Linkless (trail : Trail) : Prop := ∀ entry ∈ trail, ∀ target, entry.2 ≠ .link target

namespace Trail.Linkless

theorem nil : Trail.Linkless [] := fun _ h => absurd h List.not_mem_nil

theorem cons {trail : Trail} {name : String} {node : Node} (h : trail.Linkless)
    (hnode : ∀ target, node ≠ .link target) : Trail.Linkless ((name, node) :: trail) :=
  List.forall_mem_cons.2 ⟨hnode, h⟩

theorem tail {trail : Trail} (h : trail.Linkless) : Trail.Linkless trail.tail :=
  fun entry hentry => h entry (List.mem_of_mem_tail hentry)

end Trail.Linkless

namespace FileSystem

/-! ### One segment -/

/-- What a segment asks for at the end of a trail. -/
inductive Move where
  | stay
  | up
  | enter (node : Node)
  | jump (target : String)
  | refuse (cause : OsError)

/-- The entry that a move enters, or the link that it follows. -/
def Move.found? : Move → Option Node
  | .enter node => some node
  | .jump target => some (.link target)
  | _ => none

/-- The move for a segment at the end of a trail. -/
def move (root : Node) (trail : Trail) (name : String) : Move :=
  match trail.node root with
  | .dir entries =>
    if name = "" ∨ name = "." then .stay
    else if name = ".." then .up
    else if maxNameBytes < name.utf8ByteSize then .refuse .nameTooLong
    else
      match entries.lookup name with
      | none => .refuse .notFound
      | some (.link target) => .jump target
      | some node => .enter node
  | _ => .refuse .notDirectory

section

variable {root : Node} {followLast : Bool} {onLink : Trail → List String → Except OsError Trail}
  {trail result : Trail} {name : String} {rest segments : List String}

theorem step_nil : step root followLast onLink trail [] = .ok trail := rfl

/-- Following segments is making one move after another. -/
theorem step_cons : step root followLast onLink trail (name :: rest) =
    match move root trail name with
    | .stay => step root followLast onLink trail rest
    | .up => step root followLast onLink trail.tail rest
    | .enter node => step root followLast onLink ((name, node) :: trail) rest
    | .jump target =>
      if rest.isEmpty && !followLast then .ok ((name, .link target) :: trail)
      else onLink (if Path.isAbsolute target then [] else trail) (Path.segments target ++ rest)
    | .refuse cause => .error cause := by
  rw [step, move]
  rcases trail.node root with content | entries | target
  · rfl
  · dsimp only
    by_cases hstay : name = "" ∨ name = "."
    · rw [if_pos hstay, if_pos hstay]
    · rw [if_neg hstay, if_neg hstay]
      by_cases hup : name = ".."
      · rw [if_pos hup, if_pos hup]
      · rw [if_neg hup, if_neg hup]
        by_cases hlong : maxNameBytes < name.utf8ByteSize
        · rw [if_pos hlong, if_pos hlong]
        · rw [if_neg hlong, if_neg hlong]
          rcases entries.lookup name with _ | ⟨content⟩ | ⟨inner⟩ | ⟨target⟩ <;> rfl
  · rfl

/-- Only what a directory holds is entered or, if it is a link, followed. -/
theorem move_found {node : Node} (h : (move root trail name).found? = some node) :
    ∃ entries, trail.node root = .dir entries ∧ entries.lookup name = some node := by
  rw [move] at h
  rcases hd : trail.node root with content | entries | target
  · simp [hd, Move.found?] at h
  · refine ⟨entries, rfl, ?_⟩
    simp only [hd] at h
    split_ifs at h
    · simp [Move.found?] at h
    · simp [Move.found?] at h
    · simp [Move.found?] at h
    · rcases hlook : entries.lookup name with _ | content | inner | target
      · simp [hlook, Move.found?] at h
      · simpa [hlook, Move.found?] using h
      · simpa [hlook, Move.found?] using h
      · simpa [hlook, Move.found?] using h
  · simp [hd, Move.found?] at h

/-- A link is not entered but followed. -/
theorem move_ne_enter_link (root : Node) (trail : Trail) (name target : String) :
    move root trail name ≠ .enter (.link target) := by
  rw [move]
  rcases trail.node root with content | entries | other
  · exact Move.noConfusion
  · dsimp only
    split_ifs
    · exact Move.noConfusion
    · exact Move.noConfusion
    · exact Move.noConfusion
    · rcases entries.lookup name with _ | content | inner | other <;> simp
  · exact Move.noConfusion

/-- Only from a directory does any segment lead on. -/
theorem move_of_not_dir (h : ∀ entries, trail.node root ≠ .dir entries) :
    move root trail name = .refuse .notDirectory := by
  rw [move]
  rcases hd : trail.node root with content | entries | target
  · rfl
  · exact absurd hd (h entries)
  · rfl

/-- Staying in place is for directories alone. -/
theorem move_empty (root : Node) (trail : Trail) :
    move root trail "" = .stay ∨ ∃ cause, move root trail "" = .refuse cause := by
  rw [move]
  rcases trail.node root with content | entries | target
  · exact Or.inr ⟨_, rfl⟩
  · exact Or.inl (if_pos (Or.inl rfl))
  · exact Or.inr ⟨_, rfl⟩

theorem move_of_isEntryName {entries : List (String × Node)} (hd : trail.node root = .dir entries)
    (h : Path.IsEntryName name) : move root trail name =
      match entries.lookup name with
      | none => .refuse .notFound
      | some (.link target) => .jump target
      | some node => .enter node := by
  have hstay : ¬(name = "" ∨ name = ".") := by
    rintro (h0 | h0)
    · exact h.nonempty h0
    · exact h.not_here h0
  rw [move, hd]
  dsimp only
  rw [if_neg hstay, if_neg h.not_up, if_neg (Nat.not_lt.2 h.short)]

/-! ### Following segments -/

/-- What holds at the root, and keeps holding on the way up and on entering what a directory holds,
holds where following ends. A link is entered only as the last segment, if that is not followed. -/
theorem step_keeps {P : Trail → Prop} (hroot : P []) (hup : ∀ trail, P trail → P trail.tail)
    (hentry : ∀ trail name node, P trail → (move root trail name).found? = some node →
      (followLast = true → ∀ target, node ≠ .link target) → P ((name, node) :: trail))
    (hlink : ∀ trail segments result, P trail → onLink trail segments = .ok result → P result)
    (ht : P trail) (h : step root followLast onLink trail segments = .ok result) : P result := by
  induction segments generalizing trail with
  | nil =>
    rw [step_nil, Except.ok.injEq] at h
    exact h ▸ ht
  | cons name rest ih =>
    rw [step_cons] at h
    cases hm : move root trail name with
    | stay => rw [hm] at h; exact ih ht h
    | up => rw [hm] at h; exact ih (hup _ ht) h
    | enter node =>
      rw [hm] at h
      refine ih (hentry _ _ _ ht (congrArg Move.found? hm) fun _ target hnode => ?_) h
      exact move_ne_enter_link root trail name target (hnode ▸ hm)
    | jump target =>
      simp only [hm] at h
      split at h
      · rename_i hlast
        rw [Except.ok.injEq] at h
        refine h ▸ hentry _ _ _ ht (congrArg Move.found? hm) fun hfollow => ?_
        rw [hfollow, Bool.not_true, Bool.and_false] at hlast
        exact absurd hlast Bool.false_ne_true
      · refine hlink _ _ _ ?_ h
        split
        · exact hroot
        · exact ht
    | refuse cause => simp [hm] at h

theorem follow_keeps {P : Trail → Prop} {links : ℕ} (hroot : P [])
    (hup : ∀ trail, P trail → P trail.tail)
    (hentry : ∀ trail name node, P trail → (move root trail name).found? = some node →
      (followLast = true → ∀ target, node ≠ .link target) → P ((name, node) :: trail))
    (ht : P trail) (h : follow root followLast links trail segments = .ok result) : P result := by
  induction links generalizing trail segments result with
  | zero => exact step_keeps hroot hup hentry (by simp) ht h
  | succ links ih => exact step_keeps hroot hup hentry (fun _ _ _ ht h => ih ht h) ht h

theorem rooted_follow {links : ℕ} (ht : trail.Rooted root)
    (h : follow root followLast links trail segments = .ok result) : result.Rooted root := by
  refine follow_keeps .nil (fun _ => Trail.Rooted.tail) (fun _ _ _ ht hfound _ => ?_) ht h
  obtain ⟨entries, hd, hl⟩ := move_found hfound
  exact .cons hd hl ht

/-- Where links are followed to the last, no link is left on the way. -/
theorem linkless_follow {links : ℕ} (ht : trail.Linkless)
    (h : follow root true links trail segments = .ok result) : result.Linkless :=
  follow_keeps .nil (fun _ => Trail.Linkless.tail) (fun _ _ _ ht _ hnode => ht.cons (hnode rfl))
    ht h

/-- Following goes nowhere from what is no directory. -/
theorem dir_of_follow {links : ℕ} (hne : segments ≠ [])
    (h : follow root followLast links trail segments = .ok result) :
    ∃ entries, trail.node root = .dir entries := by
  by_contra hdir
  obtain ⟨name, rest, rfl⟩ := List.exists_cons_of_ne_nil hne
  have hmove : move root trail name = .refuse .notDirectory :=
    move_of_not_dir (not_exists.1 hdir)
  cases links with
  | zero => simp [follow, step_cons, hmove] at h
  | succ links => simp [follow, step_cons, hmove] at h

/-- What was followed to its end can be followed further. -/
theorem step_append {onLink' : Trail → List String → Except OsError Trail} {more : List String}
    {outcome : Except OsError Trail} (hmore : more ≠ [])
    (hend : step root followLast onLink' result more = outcome)
    (hlink : ∀ trail segments, onLink trail segments = .ok result →
      onLink' trail (segments ++ more) = outcome)
    (h : step root true onLink trail segments = .ok result) :
    step root followLast onLink' trail (segments ++ more) = outcome := by
  induction segments generalizing trail with
  | nil =>
    rw [step_nil, Except.ok.injEq] at h
    rw [List.nil_append, h, hend]
  | cons name rest ih =>
    rw [step_cons] at h
    rw [List.cons_append, step_cons]
    cases hm : move root trail name with
    | stay => rw [hm] at h; exact ih h
    | up => rw [hm] at h; exact ih h
    | enter node => rw [hm] at h; exact ih h
    | jump target =>
      simp only [hm, Bool.not_true, Bool.and_false, Bool.false_eq_true, if_false] at h ⊢
      have hne : (rest ++ more).isEmpty = false := by simp [hmore]
      rw [hne, Bool.false_and, if_neg (by simp), ← List.append_assoc]
      exact hlink _ _ h
    | refuse cause => simp [hm] at h

/-- An empty segment at the end only asks for a directory. -/
theorem step_trailing (hlink : ∀ trail segments, onLink trail (segments ++ [""]) = .ok result →
      onLink trail segments = .ok result)
    (h : step root true onLink trail (segments ++ [""]) = .ok result) :
    step root true onLink trail segments = .ok result := by
  induction segments generalizing trail with
  | nil =>
    rw [List.nil_append, step_cons] at h
    rcases move_empty root trail with hm | ⟨cause, hm⟩
    · rw [hm] at h; exact h
    · simp [hm] at h
  | cons name rest ih =>
    rw [List.cons_append, step_cons] at h
    rw [step_cons]
    cases hm : move root trail name with
    | stay => rw [hm] at h; exact ih h
    | up => rw [hm] at h; exact ih h
    | enter node => rw [hm] at h; exact ih h
    | jump target =>
      simp only [hm, Bool.not_true, Bool.and_false, Bool.false_eq_true, if_false] at h ⊢
      rw [← List.append_assoc] at h
      exact hlink _ _ h
    | refuse cause => simp [hm] at h

theorem follow_append {links : ℕ} {more : List String} {outcome : Except OsError Trail}
    (hmore : more ≠ []) (hend : ∀ links, follow root followLast links result more = outcome)
    (h : follow root true links trail segments = .ok result) :
    follow root followLast links trail (segments ++ more) = outcome := by
  induction links generalizing trail segments with
  | zero => exact step_append hmore (hend 0) (by simp) h
  | succ links ih => exact step_append hmore (hend (links + 1)) (fun t s h => ih h) h

theorem follow_trailing {links : ℕ}
    (h : follow root true links trail (segments ++ [""]) = .ok result) :
    follow root true links trail segments = .ok result := by
  induction links generalizing trail segments with
  | zero => exact step_trailing (by simp) h
  | succ links ih => exact step_trailing (fun t s h => ih h) h

/-! ### Ways without links -/

/-- However many links may be followed, following makes one move after another. -/
theorem follow_eq_step (root : Node) (followLast : Bool) (links : ℕ) : ∃ onLink,
    follow root followLast links = step root followLast onLink := by
  cases links with
  | zero => exact ⟨_, rfl⟩
  | succ links => exact ⟨_, rfl⟩

theorem follow_nil (root : Node) (followLast : Bool) (links : ℕ) (trail : Trail) :
    follow root followLast links trail [] = .ok trail := by
  obtain ⟨onLink, hstep⟩ := follow_eq_step root followLast links
  rw [hstep, step_nil]

/-- In a directory an empty segment or `.` leads nowhere else. -/
theorem follow_stay {links : ℕ} {entries : List (String × Node)}
    (hd : trail.node root = .dir entries) (hname : name = "" ∨ name = ".") :
    follow root followLast links trail (name :: rest) =
      follow root followLast links trail rest := by
  obtain ⟨onLink, hstep⟩ := follow_eq_step root followLast links
  have hmove : move root trail name = .stay := by
    rw [move, hd]
    exact if_pos hname
  rw [hstep, step_cons, hmove]

/-- Only below a directory is there anything. -/
theorem dir_of_at? {node : Node} {names : List String} {entries : List (String × Node)}
    (h : node.at? names = some (.dir entries)) : ∃ inner, node = .dir inner := by
  cases names with
  | nil => exact ⟨entries, Option.some.inj h⟩
  | cons name names =>
    obtain ⟨inner, hentry, -⟩ := Option.bind_eq_some_iff.1 h
    cases node with
    | dir inner => exact ⟨inner, rfl⟩
    | file content => cases hentry
    | link target => cases hentry

/-- Names that lead down to a directory over directories alone are entered one by one, and use up no
links. -/
theorem follow_names {names : List String} {entries : List (String × Node)}
    (hwf : (trail.node root).WellFormed) (h : (trail.node root).at? names = some (.dir entries)) :
    (∀ name ∈ names, Path.IsEntryName name) ∧ ∃ result : Trail, result.node root = .dir entries ∧
      ∀ followLast links more, follow root followLast links trail (names ++ more) =
        follow root followLast links result more := by
  induction names generalizing trail with
  | nil => exact ⟨by simp, trail, Option.some.inj h, fun _ _ _ => rfl⟩
  | cons name names ih =>
    obtain ⟨inner, hd⟩ := dir_of_at? h
    obtain ⟨node, hentry, hat⟩ := Option.bind_eq_some_iff.1 h
    rw [hd] at hwf hentry
    have hmem := Listing.mem_of_lookup hentry
    obtain ⟨below, rfl⟩ := dir_of_at? hat
    have hinner : (Trail.node root ((name, .dir below) :: trail)).WellFormed := hwf.entry hmem
    obtain ⟨hnames, result, hresult, hmore⟩ := ih hinner hat
    refine ⟨List.forall_mem_cons.2 ⟨hwf.isEntryName hmem, hnames⟩, result, hresult, ?_⟩
    intro followLast links more
    have hmove : move root trail name = .enter (.dir below) := by
      rw [move_of_isEntryName hd (hwf.isEntryName hmem), show inner.lookup name = _ from hentry]
    rw [← hmore, List.cons_append]
    obtain ⟨onLink, hstep⟩ := follow_eq_step root followLast links
    rw [hstep, step_cons, hmove]

/-! ### Links not followed -/

theorem component?_of_jump {target : String} (h : move root trail name = .jump target) :
    Path.component? name = some (.name name) := by
  rw [move] at h
  rcases hd : trail.node root with content | entries | other
  · simp [hd] at h
  · simp only [hd] at h
    split_ifs at h with hstay hup
    obtain ⟨hempty, hhere⟩ := not_or.1 hstay
    exact Path.component?_of_name hempty hhere hup
  · simp [hd] at h

/-- Where a link is not followed, it is the last segment that has led into it. -/
theorem last_of_step (hroot : ∀ target, root ≠ .link target)
    (hlink : ∀ trail segments, trail.Linkless → onLink trail segments = .ok result →
      ∃ name, segments.getLast? = some name ∧ Path.component? name = some (.name name))
    (ht : trail.Linkless) (hresult : ∃ target, result.node root = .link target)
    (h : step root false onLink trail segments = .ok result) :
    ∃ name, segments.getLast? = some name ∧ Path.component? name = some (.name name) := by
  induction segments generalizing trail with
  | nil =>
    obtain rfl := Except.ok.inj h
    obtain ⟨target, hend⟩ := hresult
    cases trail with
    | nil => exact absurd hend (hroot target)
    | cons entry trail => exact absurd hend (ht entry List.mem_cons_self target)
  | cons name rest ih =>
    have hrest (h : ∃ last, rest.getLast? = some last ∧
        Path.component? last = some (.name last)) : ∃ last,
        (name :: rest).getLast? = some last ∧ Path.component? last = some (.name last) := by
      obtain ⟨last, hlast, hcomponent⟩ := h
      exact ⟨last, by rw [List.getLast?_cons, hlast, Option.getD_some], hcomponent⟩
    rw [step_cons] at h
    cases hm : move root trail name with
    | stay => rw [hm] at h; exact hrest (ih ht h)
    | up => rw [hm] at h; exact hrest (ih ht.tail h)
    | enter node =>
      rw [hm] at h
      refine hrest (ih (ht.cons fun target hnode => ?_) h)
      exact move_ne_enter_link root trail name target (hnode ▸ hm)
    | jump target =>
      simp only [hm, Bool.not_false, Bool.and_true] at h
      cases rest with
      | nil => exact ⟨name, rfl, component?_of_jump hm⟩
      | cons next rest =>
        -- the segments still to come are put behind the link's own, so the last one stays the last
        rw [List.isEmpty_cons, if_neg Bool.false_ne_true] at h
        have hgo : Trail.Linkless (if Path.isAbsolute target then [] else trail) := by
          split_ifs
          · exact .nil
          · exact ht
        obtain ⟨last, hlast, hcomponent⟩ := hlink _ _ hgo h
        rw [List.getLast?_append_of_ne_nil _ (List.cons_ne_nil _ _)] at hlast
        exact hrest ⟨last, hlast, hcomponent⟩
    | refuse cause => simp [hm] at h

theorem last_of_follow {links : ℕ} (hroot : ∀ target, root ≠ .link target) (ht : trail.Linkless)
    (hresult : ∃ target, result.node root = .link target)
    (h : follow root false links trail segments = .ok result) :
    ∃ name, segments.getLast? = some name ∧ Path.component? name = some (.name name) := by
  induction links generalizing trail segments with
  | zero => exact last_of_step hroot (by simp) ht hresult h
  | succ links ih => exact last_of_step hroot (fun _ _ ht h => ih ht h) ht hresult h

/-! ### Links left over -/

/-- Following goes the same way with another way of following links, if that differs only where
there are too many of them. -/
theorem step_mono {onLink' : Trail → List String → Except OsError Trail}
    (hlink : ∀ trail segments, onLink trail segments ≠ .error .tooManyLinks →
      onLink' trail segments = onLink trail segments)
    (h : step root followLast onLink trail segments ≠ .error .tooManyLinks) :
    step root followLast onLink' trail segments = step root followLast onLink trail segments := by
  induction segments generalizing trail with
  | nil => rfl
  | cons name rest ih =>
    rw [step_cons] at h
    rw [step_cons, step_cons]
    cases hm : move root trail name with
    | stay => rw [hm] at h; exact ih h
    | up => rw [hm] at h; exact ih h
    | enter node => rw [hm] at h; exact ih h
    | jump target =>
      simp only [hm] at h ⊢
      split
      · rfl
      · rename_i hgo
        rw [if_neg hgo] at h
        exact hlink _ _ h
    | refuse cause => rfl

/-- More links to spare change nothing where there are not too many. -/
theorem follow_mono {links more : ℕ} (hle : links ≤ more)
    (h : follow root followLast links trail segments ≠ .error .tooManyLinks) :
    follow root followLast more trail segments = follow root followLast links trail segments := by
  have hsucc (links : ℕ) : ∀ trail segments,
      follow root followLast links trail segments ≠ .error .tooManyLinks →
      follow root followLast (links + 1) trail segments =
        follow root followLast links trail segments := by
    induction links with
    | zero => exact fun _ _ h => step_mono (fun _ _ hlink => absurd rfl hlink) h
    | succ links ih => exact fun _ _ h => step_mono ih h
  induction hle with
  | refl => rfl
  | @step more _ ih => rw [hsucc more _ _ (ih.symm ▸ h), ih]

/-- What was followed to its end is followed further with the links that are left. -/
theorem step_split {links : ℕ}
    (hself : ∀ more, step root true onLink result more = follow root true links result more)
    (hlink : ∀ trail segments, onLink trail segments = .ok result → ∃ left ≤ links, ∀ more,
      onLink trail (segments ++ more) = follow root true left result more)
    (h : step root true onLink trail segments = .ok result) : ∃ left ≤ links, ∀ more,
      step root true onLink trail (segments ++ more) = follow root true left result more := by
  induction segments generalizing trail with
  | nil =>
    obtain rfl : trail = result := Except.ok.inj h
    exact ⟨links, Nat.le_refl _, hself⟩
  | cons name rest ih =>
    rw [step_cons] at h
    simp only [List.cons_append, step_cons]
    cases hm : move root trail name with
    | stay => rw [hm] at h; exact ih h
    | up => rw [hm] at h; exact ih h
    | enter node => rw [hm] at h; exact ih h
    | jump target =>
      simp only [hm, Bool.not_true, Bool.and_false, Bool.false_eq_true, if_false] at h ⊢
      simp only [← List.append_assoc]
      exact hlink _ _ h
    | refuse cause => simp [hm] at h

theorem follow_split {links : ℕ} (h : follow root true links trail segments = .ok result) :
    ∃ left ≤ links, ∀ more,
      follow root true links trail (segments ++ more) = follow root true left result more := by
  induction links generalizing trail segments with
  | zero => exact step_split (fun _ => rfl) (by simp) h
  | succ links ih =>
    refine step_split (fun _ => rfl) (fun t s h => ?_) h
    obtain ⟨left, hle, hmore⟩ := ih h
    exact ⟨left, Nat.le_succ_of_le hle, hmore⟩

end

/-! ### Paths -/

section

variable {fs : FileSystem} {path name : String} {followLast : Bool} {trail : Trail}

/-- Where following a path starts. -/
def start (fs : FileSystem) (path : String) : Except OsError Trail :=
  if Path.isAbsolute path then .ok [] else fs.cwdTrail

/-- What can be said against a path before it is followed. -/
def objection? (path : String) : Option OsError :=
  if path.toList.contains '\x00' then some .nulInPath
  else if maxPathBytes ≤ path.utf8ByteSize then some .nameTooLong
  else if path.isEmpty then some .notFound
  else none

theorem resolve_eq : fs.resolve path followLast =
    match objection? path with
    | some cause => .error cause
    | none => fs.start path >>= fun trail =>
        follow fs.root followLast maxLinks trail (Path.segments path) := by
  rw [resolve, objection?, start]
  split_ifs <;> rfl

theorem resolve_eq_ok : fs.resolve path followLast = .ok trail ↔ objection? path = none ∧
    ∃ first, fs.start path = .ok first ∧
      follow fs.root followLast maxLinks first (Path.segments path) = .ok trail := by
  rw [resolve_eq]
  cases objection? path with
  | some cause => simp
  | none =>
    cases fs.start path with
    | error cause => simp [bind, Except.bind]
    | ok first => simp [bind, Except.bind]

/-- Where following a path starts has been found by following from the root. -/
theorem follow_of_start (h : fs.start path = .ok trail) :
    ∃ segments, follow fs.root true maxLinks [] segments = .ok trail := by
  rw [start] at h
  split at h
  · exact ⟨[], h⟩
  · exact ⟨fs.cwd, h⟩

theorem rooted_start (h : fs.start path = .ok trail) : trail.Rooted fs.root := by
  obtain ⟨segments, hfollow⟩ := follow_of_start h
  exact rooted_follow .nil hfollow

theorem linkless_start (h : fs.start path = .ok trail) : trail.Linkless := by
  obtain ⟨segments, hfollow⟩ := follow_of_start h
  exact linkless_follow .nil hfollow

theorem rooted_resolve (h : fs.resolve path followLast = .ok trail) : trail.Rooted fs.root := by
  obtain ⟨-, first, hfirst, hfollow⟩ := resolve_eq_ok.1 h
  exact rooted_follow (rooted_start hfirst) hfollow

theorem node_eq_ok {node : Node} : fs.node path = .ok node ↔
    ∃ trail, fs.resolve path true = .ok trail ∧ trail.node fs.root = node := by
  rw [FileSystem.node]
  cases fs.resolve path true with
  | error cause => simp [Except.map]
  | ok trail => simp [Except.map]

/-- What a path stands for is never a link. -/
theorem node_ne_link (fs : FileSystem) (path target : String) :
    fs.node path ≠ .ok (.link target) := by
  intro h
  obtain ⟨trail, htrail, hnode⟩ := node_eq_ok.1 h
  obtain ⟨-, first, hfirst, hfollow⟩ := resolve_eq_ok.1 htrail
  have hlinkless := linkless_follow (linkless_start hfirst) hfollow
  cases trail with
  | nil =>
    obtain ⟨entries, hroot⟩ := (rooted_start hfirst).dir_root
      (dir_of_follow (Path.segments_ne_nil path) hfollow)
    exact Node.noConfusion (hroot.symm.trans hnode)
  | cons entry rest => exact hlinkless entry List.mem_cons_self target hnode

theorem entries?_eq_some {entries : List (String × Node)} : fs.entries? path = some entries ↔
    ∃ trail, fs.resolve path true = .ok trail ∧ trail.node fs.root = .dir entries := by
  rw [entries?, ← node_eq_ok]
  rcases fs.node path with cause | ⟨content⟩ | ⟨inner⟩ | ⟨target⟩ <;> simp

/-- A path that names a link has the link's name for its last segment. -/
theorem last_of_isLink (h : fs.isLink path = true) :
    ∃ name, (Path.segments path).getLast? = some name ∧
      Path.component? name = some (.name name) := by
  have hlink : ∃ trail target, fs.resolve path false = .ok trail ∧
      trail.node fs.root = .link target := by
    rw [isLink] at h
    cases hresolve : fs.resolve path false with
    | error cause => simp [hresolve, Except.map] at h
    | ok trail =>
      rcases hend : trail.node fs.root with content | entries | target
      · simp [hresolve, Except.map, hend] at h
      · simp [hresolve, Except.map, hend] at h
      · exact ⟨trail, target, rfl, hend⟩
  obtain ⟨trail, target, hresolve, hend⟩ := hlink
  obtain ⟨-, first, hfirst, hfollow⟩ := resolve_eq_ok.1 hresolve
  obtain ⟨entries, hroot⟩ := (rooted_start hfirst).dir_root
    (dir_of_follow (Path.segments_ne_nil path) hfollow)
  refine last_of_follow (fun other => ?_) (linkless_start hfirst) ⟨target, hend⟩ hfollow
  rw [hroot]
  exact Node.noConfusion

/-! ### Names joined to the path of a directory -/

theorem objection?_eq_none : objection? path = none ↔
    '\x00' ∉ path.toList ∧ path.utf8ByteSize < maxPathBytes ∧ path ≠ "" := by
  rw [objection?]
  split_ifs with hnul hlong hempty
  · simpa using fun h => absurd (List.contains_iff_mem.1 hnul) h
  · simp only [false_iff, not_and]
    exact fun _ hlt => absurd hlt (Nat.not_lt.2 hlong)
  · simp only [false_iff, not_and, not_not]
    exact fun _ _ => String.isEmpty_iff.1 hempty
  · simp only [true_iff]
    refine ⟨fun h => hnul (List.contains_iff_mem.2 h), Nat.not_le.1 hlong, fun h => hempty ?_⟩
    exact String.isEmpty_iff.2 h

/-- All that can be said against a relative path joined to a good one is that it has a NUL character
itself, or that both together are too long. -/
theorem objection?_join_relative {other : String} (hnul : '\x00' ∉ path.toList) (hpath : path ≠ "")
    (habs : Path.isAbsolute other = false) :
    objection? (Path.join path other) =
      if '\x00' ∈ other.toList then some .nulInPath
      else if maxPathBytes ≤ (Path.join path other).utf8ByteSize then some .nameTooLong
      else none := by
  have hchars : (Path.join path other).toList = (Path.lead path).toList ++ other.toList := by
    rw [Path.join_eq_lead habs, String.toList_append]
  have hlead : '\x00' ∉ (Path.lead path).toList := by
    rw [Path.lead]
    split_ifs
    · exact hnul
    · simpa using hnul
  have hempty : ¬(Path.join path other).isEmpty = true := by
    rw [String.isEmpty_iff, ← String.toList_eq_nil_iff, hchars, Path.lead]
    split_ifs <;> simp [hpath]
  simp only [objection?, hchars, List.contains_iff_mem, List.mem_append, hlead, false_or,
    if_neg hempty]

theorem objection?_join (h : objection? path = none) (hn : Path.IsEntryName name) :
    objection? (Path.join path name) =
      if maxPathBytes ≤ (Path.join path name).utf8ByteSize then some .nameTooLong else none := by
  obtain ⟨hnul, -, hpath⟩ := objection?_eq_none.1 h
  rw [objection?_join_relative hnul hpath (Path.isAbsolute_of_no_slash hn.no_slash),
    if_neg hn.no_nul]

theorem start_join {other : String} (h : Path.isAbsolute other = false) :
    fs.start (Path.join path other) = fs.start path := by
  rw [start, start, Path.isAbsolute_join h]

/-- The stem of a path leads to the same directory as the path. -/
theorem follow_stem (h : fs.resolve path true = .ok trail) : ∃ first, fs.start path = .ok first ∧
    follow fs.root true maxLinks first (Path.stem path) = .ok trail := by
  obtain ⟨-, first, hfirst, hfollow⟩ := resolve_eq_ok.1 h
  refine ⟨first, hfirst, ?_⟩
  rcases Path.segments_eq_stem path with hs | hs
  · rwa [hs] at hfollow
  · rw [hs] at hfollow
    exact follow_trailing hfollow

theorem follow_name {root : Node} {entries : List (String × Node)} {node : Node} {links : ℕ}
    (hd : trail.node root = .dir entries) (hn : Path.IsEntryName name)
    (hl : entries.lookup name = some node)
    (hnode : followLast = true → ∀ target, node ≠ .link target) :
    follow root followLast links trail [name] = .ok ((name, node) :: trail) := by
  have hstep (onLink) : step root followLast onLink trail [name] = .ok ((name, node) :: trail) := by
    rw [step_cons, move_of_isEntryName hd hn, hl]
    rcases node with content | inner | target
    · rfl
    · rfl
    · cases followLast with
      | false => rfl
      | true => exact absurd rfl (hnode rfl target)
  cases links with
  | zero => exact hstep _
  | succ links => exact hstep _

/-- A name joined to the path of a directory leads to the directory's entry of that name, unless
the path gets too long. -/
theorem resolve_join {entries : List (String × Node)} {node : Node} (followLast : Bool)
    (h : fs.resolve path true = .ok trail) (hd : trail.node fs.root = .dir entries)
    (hn : Path.IsEntryName name) (hl : entries.lookup name = some node)
    (hnode : followLast = true → ∀ target, node ≠ .link target) :
    fs.resolve (Path.join path name) followLast =
      if maxPathBytes ≤ (Path.join path name).utf8ByteSize then .error .nameTooLong
      else .ok ((name, node) :: trail) := by
  have hgood := (resolve_eq_ok.1 h).1
  obtain ⟨first, hfirst, hfollow⟩ := follow_stem h
  rw [resolve_eq, objection?_join hgood hn]
  split_ifs with hlong
  · rfl
  · dsimp only
    rw [start_join (Path.isAbsolute_of_no_slash hn.no_slash), hfirst,
      Path.segments_join hn.no_slash]
    exact follow_append (by simp) (fun links => follow_name hd hn hl hnode) hfollow

/-- What the path of an entry stands for, when the entry is no link. -/
theorem node_join {entries : List (String × Node)} {node : Node}
    (h : fs.resolve path true = .ok trail) (hd : trail.node fs.root = .dir entries)
    (hn : Path.IsEntryName name) (hl : entries.lookup name = some node)
    (hnode : ∀ target, node ≠ .link target) :
    fs.node (Path.join path name) =
      if maxPathBytes ≤ (Path.join path name).utf8ByteSize then .error .nameTooLong
      else .ok node := by
  rw [FileSystem.node, resolve_join true h hd hn hl fun _ => hnode]
  split_ifs <;> rfl

/-! ### Paths below a root -/

/-- A path below a root goes on from where the root leads, with the links that are left. -/
theorem resolve_below {names : List String} (h : fs.resolve path true = .ok trail)
    (hnames : ∀ name ∈ names, Path.IsEntryName name) (hne : names ≠ [])
    (hshort : (Path.below path names).utf8ByteSize < maxPathBytes) :
    ∃ left ≤ maxLinks,
      fs.resolve (Path.below path names) true = follow fs.root true left trail names := by
  obtain ⟨hnul, -, hpath⟩ := objection?_eq_none.1 (resolve_eq_ok.1 h).1
  obtain ⟨first, hfirst, hfollow⟩ := follow_stem h
  obtain ⟨left, hle, hmore⟩ := follow_split hfollow
  have hgood : objection? (Path.below path names) = none := objection?_eq_none.2
    ⟨Path.no_nul_below hnames hnul, hshort, Path.below_ne_empty hnames hpath⟩
  have hstart : fs.start (Path.below path names) = .ok first := by
    rw [← hfirst, start, start, Path.isAbsolute_below hnames]
  refine ⟨left, hle, ?_⟩
  rw [resolve_eq, hgood, hstart, Path.segments_below hnames hne]
  exact hmore names

/-- Where two roots lead to the same place, so do the paths below them, as long as none is too long
or leads through too many links. -/
theorem node_below_congr {other : String} {names : List String}
    (h : fs.resolve path true = .ok trail) (hother : fs.resolve other true = .ok trail)
    (hnames : ∀ name ∈ names, Path.IsEntryName name) (hne : names ≠ [])
    (hshort : (Path.below path names).utf8ByteSize < maxPathBytes)
    (hshort' : (Path.below other names).utf8ByteSize < maxPathBytes)
    (hlinks : fs.node (Path.below path names) ≠ .error .tooManyLinks)
    (hlinks' : fs.node (Path.below other names) ≠ .error .tooManyLinks) :
    fs.node (Path.below path names) = fs.node (Path.below other names) := by
  obtain ⟨left, -, hleft⟩ := resolve_below h hnames hne hshort
  obtain ⟨left', -, hleft'⟩ := resolve_below hother hnames hne hshort'
  rw [node, hleft] at hlinks ⊢
  rw [node, hleft'] at hlinks' ⊢
  have hfollow : follow fs.root true left trail names = follow fs.root true left' trail names := by
    rcases Nat.le_total left left' with hle | hle
    · exact (follow_mono hle fun herror => hlinks (by rw [herror]; rfl)).symm
    · exact follow_mono hle fun herror => hlinks' (by rw [herror]; rfl)
  rw [hfollow]

end

end FileSystem

end ImportScan
