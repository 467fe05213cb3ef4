import ImportScan.Proofs.Delivery
import ImportScan.Proofs.ScanReport
import ImportScan.Proofs.Utf8

/-!
What the list form of a report tells its reader. A name is never empty and has no newline in it, so
the lines of the list are the names of the report, and put back into a collector they give these
names again.
-/

namespace ImportScan

/-! ### Newlines in bytes -/

theorem newline_mem_of_mem_utf8Bytes {text : String} (h : 10 ∈ utf8Bytes text) :
    '\n' ∈ text.toList := by
  rw [utf8Bytes_eq, Array.mem_toList_iff, mem_toUTF8] at h
  obtain ⟨c, hc, h10⟩ := h
  have hnewline : c = '\n' :=
    Char.toNat_inj.1 (toNat_of_mem_utf8EncodeChar h10 (by decide))
  exact hnewline ▸ hc

/-! ### Lines -/

/-- Texts in bytes, each with a newline behind it. -/
def listing (names : List String) : List UInt8 := names.flatMap fun name => utf8Bytes name ++ [10]

/-- The pieces of some bytes that end in a newline, each without it. -/
def linesOf (bytes : List UInt8) : List (List UInt8) := (bytes.splitOn 10).dropLast

/-- The lines as texts, if all of them are. -/
def readLines (bytes : List UInt8) : Option (List String) :=
  (linesOf bytes).mapM fun line => String.fromUTF8? ⟨line.toArray⟩

variable {names : List String} {name : String}

theorem splitOn_listing (h : ∀ name ∈ names, '\n' ∉ name.toList) :
    (listing names).splitOn 10 = names.map utf8Bytes ++ [[]] := by
  induction names with
  | nil => rfl
  | cons name names ih =>
    obtain ⟨hname, hnames⟩ := List.forall_mem_cons.1 h
    have hline : 10 ∉ utf8Bytes name := fun h10 => hname (newline_mem_of_mem_utf8Bytes h10)
    have hcons : listing (name :: names) = utf8Bytes name ++ 10 :: listing names := by
      rw [listing, List.flatMap_cons, List.append_assoc]
      rfl
    rw [hcons, List.splitOn_append_cons_self_of_not_mem hline, ih hnames]
    rfl

/-- Texts without newlines are read back from their listing. -/
theorem readLines_listing (h : ∀ name ∈ names, '\n' ∉ name.toList) :
    readLines (listing names) = some names := by
  have hread (name : String) : String.fromUTF8? ⟨(utf8Bytes name).toArray⟩ = some name := by
    rw [FileSystem.fromUTF8?_eq_some, utf8Bytes_eq]
  rw [readLines, linesOf, splitOn_listing h, List.dropLast_concat, List.mapM_map]
  simp only [Function.comp_def, hread]
  exact (List.mapM_pure (m := Option) (f := id)).trans (congrArg some names.map_id)

theorem listing_eq_nil : listing names = [] ↔ names = [] := by
  cases names <;> simp [listing]

/-- The list form of a report with a newline behind it is the listing of the names. -/
theorem utf8Bytes_intercalate (h : names ≠ []) :
    utf8Bytes ("\n".intercalate names ++ "\n") = listing names := by
  induction names with
  | nil => exact absurd rfl h
  | cons name names ih =>
    rw [listing, List.flatMap_cons]
    rcases eq_or_ne names [] with rfl | hne
    · rw [String.intercalate_singleton, utf8Bytes_append, utf8Bytes_newline, List.flatMap_nil,
        List.append_nil]
    · rw [String.intercalate_cons_of_ne_nil hne, String.append_assoc, utf8Bytes_append, ih hne,
        utf8Bytes_append, utf8Bytes_newline]
      rfl

theorem intercalate_eq_empty (h : ∀ name ∈ names, name ≠ "") :
    "\n".intercalate names = "" ↔ names = [] := by
  rcases names with _ | ⟨name, names⟩
  · simp
  · refine iff_of_false ?_ (List.cons_ne_nil _ _)
    rcases eq_or_ne names [] with rfl | hne
    · rw [String.intercalate_singleton]
      exact h name List.mem_cons_self
    · rw [String.intercalate_cons_of_ne_nil hne]
      simp

/-- A sink that takes everything gets the listing of the names, unless one of them is empty. -/
theorem Report.deliver_list {r : Report} {sink : Sink} (h : ∀ name ∈ r.modules, name ≠ "")
    (hsink : sink.limit = none) :
    (r.deliver .list sink).1.taken = sink.taken ++ listing r.modules := by
  have htext : r.format .list = "\n".intercalate r.modules := rfl
  rw [(r.deliver_eq .list sink).1, htext, Sink.accepts, hsink]
  congr 1
  split_ifs with hempty
  · rw [(intercalate_eq_empty h).1 hempty]
    rfl
  · exact utf8Bytes_intercalate fun hnil => hempty ((intercalate_eq_empty h).2 hnil)

/-! ### Module names -/

/-- A module name is not empty, does not point into the project and has no newline in it. -/
theorem isName_of_isModuleName (h : isModuleName name = true) :
    name ≠ "" ∧ (∀ mark ∈ ['.', '/', '\\'], name.toList.head? ≠ some mark) ∧
      '\n' ∉ name.toList := by
  obtain ⟨⟨c, hhead, hmark⟩, hparts⟩ := isModuleName_iff.1 h
  refine ⟨?_, ?_, fun hnewline => absurd (hparts '\n' hnewline) (by decide)⟩
  · rintro rfl
    exact absurd hhead (by simp)
  · intro mark hmem hhead'
    exact hmark (Option.some.inj (hhead.symm.trans hhead') ▸ hmem)

/-! ### The list of a scan -/

namespace Config

variable {c : Config} {fs : FileSystem} {base : String}

theorem isModuleName_of_mem_scan {name : String} (h : name ∈ (c.scan fs base).modules) :
    isModuleName name = true := by
  obtain ⟨path, text, -, -, hname⟩ := ((scan_isOf c fs base).names name).1 h
  exact isModuleName_of_mem_moduleNames hname

/-- The names of a report, put into a new collector in any order, come out as they were. -/
theorem sorted_extend {lines : List String} (h : lines.Perm (c.scan fs base).modules) :
    (({} : Collector).extend lines).sorted = (c.scan fs base).modules := by
  refine Report.modules_ext (({} : Collector).extend lines).names.ascending
    (scan_isOf c fs base).ascending ?_
  intro name
  rw [Collector.sorted, NameSet.mem_toList, Collector.mem_extend,
    or_iff_right NameSet.not_mem_empty, h.mem_iff]
  exact and_iff_left_of_imp isModuleName_of_mem_scan

/-- A sink that takes everything gets the names of a scan, each with a newline behind it. Its lines
are these names again, module names in ascending order without repetition, and a collector given
the lines in any order sorts them into the same list. -/
theorem list_lines (c : Config) (fs : FileSystem) (base : String) {sink : Sink}
    (h : sink.limit = none) :
    let report := c.scan fs base
    let names := report.modules
    (report.deliver .list sink).1.taken = sink.taken ++ listing names ∧
      (listing names = [] ↔ names = []) ∧
      readLines (listing names) = some names ∧
      (∀ name ∈ names, name ≠ "" ∧ ∀ mark ∈ ['.', '/', '\\'], name.toList.head? ≠ some mark) ∧
      names.Nodup ∧ names.Pairwise (· < ·) ∧
      ∀ lines : List String, lines.Perm names → (({} : Collector).extend lines).sorted = names := by
  intro report names
  have hnames : ∀ name ∈ names, name ≠ "" ∧
      (∀ mark ∈ ['.', '/', '\\'], name.toList.head? ≠ some mark) ∧ '\n' ∉ name.toList :=
    fun name hname => isName_of_isModuleName (isModuleName_of_mem_scan hname)
  have hascending : names.Pairwise (· < ·) := (scan_isOf c fs base).ascending
  refine ⟨report.deliver_list (fun name hname => (hnames name hname).1) h, listing_eq_nil,
    readLines_listing fun name hname => (hnames name hname).2.2,
    fun name hname => ⟨(hnames name hname).1, (hnames name hname).2.1⟩, ?_, hascending,
    fun lines hlines => sorted_extend hlines⟩
  exact List.nodup_iff_pairwise_ne.2 <|
    hascending.imp fun {a b} (hlt : a < b) (heq : a = b) => String.lt_irrefl b (heq ▸ hlt)

theorem list_lines_sample :
    let project := [("b.js", .file "from 'zlib' import '@a/b'".toUTF8),
      ("a.js", .file "require('axios')from 'zlib'".toUTF8)]
    let report := ({ roots := ["/p"] } : Config).scan (treeOf project) "/"
    (report.deliver .list { piece := fun _ => 0 }).1.taken = utf8Bytes "@a/b\naxios\nzlib\n" ∧
      readLines (utf8Bytes "@a/b\naxios\nzlib\n") = some ["@a/b", "axios", "zlib"] ∧
      (({} : Collector).extend ["zlib", "@a/b", "axios"]).sorted = ["@a/b", "axios", "zlib"] := by
  intro project report
  have hmodules : report.modules = ["@a/b", "axios", "zlib"] := by decide +kernel
  have hlisting : listing report.modules = utf8Bytes "@a/b\naxios\nzlib\n" := by
    rw [hmodules, ← utf8Bytes_intercalate (List.cons_ne_nil _ _)]
    rfl
  have hsink : ({ piece := fun _ => 0 } : Sink).limit = none := rfl
  obtain ⟨htaken, -, hread, -, -, -, hsorted⟩ :=
    list_lines { roots := ["/p"] } (treeOf project) "/" hsink
  rw [hlisting] at htaken hread
  have hperm : ["zlib", "@a/b", "axios"].Perm report.modules := by
    rw [hmodules]
    decide
  exact ⟨htaken, hread.trans (congrArg some hmodules), (hsorted _ hperm).trans hmodules⟩

end Config

end ImportScan
