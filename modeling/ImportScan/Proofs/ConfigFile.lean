import ImportScan.Proofs.ConfigText
import ImportScan.Proofs.Utf8

/-!
What loading makes of the configuration file. The path is looked up twice, first for whether it
leads anywhere and then for the bytes behind it. As no path ends in a link, both find the same, and
each thing that can be found has its own outcome (`Loads`): the default stands for an absent file
only, and a file that is there counts by its bytes alone.
-/

namespace ImportScan.Config

/-- What is loaded for what the path of the configuration file leads to: the default where that is
nothing, an error of reading for a directory and for bytes that are no text, and for a text what is
made of it. -/
inductive Loads : Except OsError Node → Except LoadError Config → Prop
  | absent (cause : OsError) : Loads (.error cause) (.ok {})
  | directory (entries : List (String × Node)) :
      Loads (.ok (.dir entries)) (.error (.unreadable .isDirectory))
  | notText {bytes : ByteArray} : (∀ text : String, bytes ≠ text.toUTF8) →
      Loads (.ok (.file bytes)) (.error .notText)
  | text {bytes : ByteArray} {text : String} : bytes = text.toUTF8 →
      Loads (.ok (.file bytes)) ((readJson text.toList).mapError (.malformed text.toList))

variable {fs : FileSystem} {base : String} {bytes : ByteArray} {found : Except OsError Node}
  {result other : Except LoadError Config}

theorem loads_ofBytes (bytes : ByteArray) : Loads (.ok (.file bytes)) (ofBytes bytes) := by
  by_cases htext : ∃ text : String, bytes = text.toUTF8
  · obtain ⟨text, rfl⟩ := htext
    exact ofBytes_toUTF8 text ▸ .text rfl
  · have hnone : String.fromUTF8? bytes = none := by
      refine Option.eq_none_iff_forall_ne_some.2 fun text h => htext ⟨text, ?_⟩
      exact FileSystem.fromUTF8?_eq_some.1 h
    rw [ofBytes, hnone]
    exact .notText (not_exists.1 htext)

theorem load_loads (fs : FileSystem) (base : String) :
    Loads (fs.node (Path.join base fileName)) (load fs base) := by
  cases hnode : fs.node (Path.join base fileName) with
  | error cause =>
    have habsent : load fs base = .ok {} := by
      rw [load, FileSystem.pathExists, hnode]
      rfl
    exact habsent ▸ .absent cause
  | ok node =>
    cases node with
    | file bytes => exact load_of_bytes hnode ▸ loads_ofBytes bytes
    | link target => exact absurd hnode (fs.node_ne_link _ target)
    | dir entries =>
      have hdir : load fs base = .error (.unreadable .isDirectory) := by
        rw [load, FileSystem.pathExists, FileSystem.read, hnode]
        rfl
      exact hdir ▸ .directory entries

/-- Nothing but what the path leads to has a say in what is loaded. -/
theorem Loads.unique (h : Loads found result) (h' : Loads found other) : result = other := by
  cases h with
  | absent cause => cases h' with | absent => rfl
  | directory entries => cases h' with | directory => rfl
  | notText hbytes =>
    cases h' with
    | notText => rfl
    | text htext => exact absurd htext (hbytes _)
  | text htext =>
    cases h' with
    | notText hbytes => exact absurd htext (hbytes _)
    | text htext' => rw [toUTF8_inj.1 (htext.symm.trans htext')]

/-- The only file that is there and cannot be read is a directory. -/
theorem Loads.of_unreadable {cause : OsError} (h : Loads found result)
    (hresult : result = .error (.unreadable cause)) :
    cause = .isDirectory ∧ ∃ entries, found = .ok (.dir entries) := by
  cases h with
  | absent => cases hresult
  | directory entries => cases hresult; exact ⟨rfl, entries, rfl⟩
  | notText => cases hresult
  | @text bytes text htext =>
    cases hread : readJson text.toList with
    | ok c => rw [hread] at hresult; cases hresult
    | error fault => rw [hread] at hresult; cases hresult

/-- The default comes into it only where there is no file; any other configuration is in a text. -/
theorem Loads.of_ok {c : Config} (h : Loads found result) (hresult : result = .ok c) :
    (c = {} ∧ ∃ cause, found = .error cause) ∨
      ∃ text : String, found = .ok (.file text.toUTF8) ∧ readJson text.toList = .ok c := by
  cases h with
  | absent cause => cases hresult; exact Or.inl ⟨rfl, cause, rfl⟩
  | directory => cases hresult
  | notText => cases hresult
  | @text bytes text htext =>
    subst htext
    cases hread : readJson text.toList with
    | ok c' => rw [hread] at hresult; cases hresult; exact Or.inr ⟨text, rfl, hread⟩
    | error fault => rw [hread] at hresult; cases hresult

theorem load_of_empty (h : fs.node (Path.join base fileName) = .ok (.file ByteArray.empty)) :
    ∃ fault, load fs base = .error (.malformed [] fault) := by
  have htext : ByteArray.empty = "".toUTF8 := by decide
  rw [htext] at h
  exact ⟨_, load_of_file h⟩

/-- What is loaded is decided by what the path of the configuration file leads to, links followed:
the default where it leads nowhere, whatever the reason; an error for a directory and for bytes that
are no text; and what parsing gives for a text. So an error never says that the file was not found,
a file that is there, even an empty one, never gives way to the default, and the same bytes are
loaded alike wherever they are found. -/
theorem load_decided (fs : FileSystem) (base : String) :
    Loads (fs.node (Path.join base fileName)) (load fs base) ∧
      (∀ cause, FileSystem.objection? (Path.join base fileName) = some cause →
        load fs base = .ok {}) ∧
      (∀ cause, load fs base = .error (.unreadable cause) → cause = .isDirectory) ∧
      (∀ c, load fs base = .ok c →
        (c = {} ∧ ∃ cause, fs.node (Path.join base fileName) = .error cause) ∨
        ∃ text : String, fs.node (Path.join base fileName) = .ok (.file text.toUTF8) ∧
          readJson text.toList = .ok c) ∧
      (fs.node (Path.join base fileName) = .ok (.file ByteArray.empty) →
        ∃ fault, load fs base = .error (.malformed [] fault)) ∧
      ∀ (other : FileSystem) (dir : String),
        other.node (Path.join dir fileName) = fs.node (Path.join base fileName) →
          load other dir = load fs base := by
  have hload := load_loads fs base
  refine ⟨hload, ?_, fun cause h => (hload.of_unreadable h).1, fun c h => hload.of_ok h,
    load_of_empty, ?_⟩
  · intro cause hcause
    have hnode : fs.node (Path.join base fileName) = .error cause := by
      rw [FileSystem.node, FileSystem.resolve_eq, hcause]
      rfl
    exact (hnode ▸ hload).unique (.absent cause)
  · intro other dir hsame
    exact (hsame ▸ load_loads other dir).unique hload

/-- A link that leads back to itself and a base with a NUL character lead nowhere; an empty file
behind a link is a file. -/
theorem load_decided_sample :
    let looping := treeOf [(fileName, .link fileName)]
    let linked := treeOf [("rc", .file ByteArray.empty), (fileName, .link "rc")]
    looping.node (Path.join "/p" fileName) = .error .tooManyLinks ∧
      load looping "/p" = .ok {} ∧ load linked "/p\x00" = .ok {} ∧
      linked.node (Path.join "/p" fileName) = .ok (.file ByteArray.empty) ∧
      (∃ fault, load linked "/p" = .error (.malformed [] fault)) ∧
      load (treeOf [(fileName, .file ByteArray.empty)]) "/p" = load linked "/p" := by
  intro looping linked
  have hloop : looping.node (Path.join "/p" fileName) = .error .tooManyLinks := rfl
  have hempty : linked.node (Path.join "/p" fileName) = .ok (.file ByteArray.empty) := rfl
  have hother : (treeOf [(fileName, .file ByteArray.empty)]).node (Path.join "/p" fileName) =
      .ok (.file ByteArray.empty) := rfl
  obtain ⟨-, -, -, -, hmalformed, hsame⟩ := load_decided linked "/p"
  refine ⟨hloop, ?_, ?_, hempty, hmalformed hempty, hsame _ "/p" (hother.trans hempty.symm)⟩
  · exact (hloop ▸ (load_decided looping "/p").1).unique (.absent _)
  · exact (load_decided linked "/p\x00").2.1 .nulInPath (by decide)

end ImportScan.Config
