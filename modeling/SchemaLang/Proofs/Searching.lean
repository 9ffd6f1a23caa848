import Mathlib.Data.List.Forall2
import SchemaLang.Session

/-!
# Where imports are looked up

A path that begins with one slash is looked up below the include directories, in their order, and
nowhere else.  A second slash makes what follows the first an absolute name, which stands for itself
in whatever directory it is looked up.  The first file that can be read is the import, and only this
one is added to the texts of a session (`search_rooted`).
-/

namespace SchemaLang

/-! ## Names below a directory -/

namespace FileName

/-- The name leads on from the directory by a relative name. -/
def LiesBelow (dir name : String) : Prop := ∃ rest, isAbsolute rest = false ∧ name = join dir rest

/-- What leads on from a directory begins with it. -/
theorem LiesBelow.begins {dir name : String} (h : LiesBelow dir name) :
    dir.toList <+: name.toList := by
  obtain ⟨rest, hrelative, rfl⟩ := h
  rcases join_relative hrelative with hjoin | hjoin
  · rw [hjoin, String.toList_append]
    exact List.prefix_append _ _
  · rw [hjoin, String.toList_append, String.toList_append, List.append_assoc]
    exact List.prefix_append _ _

end FileName

/-! ## The first readable file -/

namespace Files

variable (files : Files)

/-- The file is the first of the names that can be read, and holds what is read there. -/
def FirstReadable (names : List String) (found : SourceFile) : Prop :=
  ∃ before after, names = before ++ found.name :: after ∧
    (∀ name ∈ before, ∃ e, files.readText name = .error e) ∧
    files.readText found.name = .ok found.text

/-- The file of a name, if it can be read. -/
theorem toOption_readText_eq_none {name : String} :
    ((files.readText name).toOption.map fun text => (⟨name, text⟩ : SourceFile)) = none ↔
      ∃ e, files.readText name = .error e := by
  cases files.readText name with
  | ok text => simp [Except.toOption]
  | error e => simp [Except.toOption]

theorem toOption_readText_eq_some {name : String} {found : SourceFile} :
    ((files.readText name).toOption.map fun text => (⟨name, text⟩ : SourceFile)) = some found ↔
      name = found.name ∧ files.readText name = .ok found.text := by
  obtain ⟨foundName, foundText⟩ := found
  cases files.readText name with
  | ok text => simp [Except.toOption]
  | error e => simp [Except.toOption]

end Files

namespace ImportSearch

variable (search : ImportSearch) (files : Files)

theorem find?_eq_some_iff {path : String} {found : SourceFile} :
    search.find? files path = some found ↔
      files.FirstReadable (search.candidates path) found := by
  rw [find?, List.findSome?_eq_some_iff]
  constructor
  · rintro ⟨before, name, after, hnames, hfound, hbefore⟩
    obtain ⟨rfl, htext⟩ := files.toOption_readText_eq_some.1 hfound
    exact ⟨before, after, hnames,
      fun name hname => files.toOption_readText_eq_none.1 (hbefore name hname), htext⟩
  · rintro ⟨before, after, hnames, hbefore, htext⟩
    exact ⟨before, found.name, after, hnames, files.toOption_readText_eq_some.2 ⟨rfl, htext⟩,
      fun name hname => files.toOption_readText_eq_none.2 (hbefore name hname)⟩

/-! ## Rooted paths -/

/-- The slash that a rooted path begins with is taken off, and nothing else. -/
theorem candidates_rooted (rest : String) :
    search.candidates ("/" ++ rest) = search.includeDirs.map fun dir => FileName.join dir rest := by
  have hpath : ("/" ++ rest).toList = '/' :: rest.toList := by
    rw [String.toList_append]
    rfl
  rw [candidates, hpath]
  simp only [String.ofList_toList]

theorem liesBelow_candidates {rest : String} (h : FileName.isAbsolute rest = false) :
    List.Forall₂ FileName.LiesBelow search.includeDirs (search.candidates ("/" ++ rest)) := by
  rw [candidates_rooted, List.forall₂_map_right_iff, List.forall₂_same]
  exact fun dir _ => ⟨rest, h, rfl⟩

theorem eq_of_mem_candidates {rest : String} (h : FileName.isAbsolute rest) {name : String}
    (hname : name ∈ search.candidates ("/" ++ rest)) : name = rest := by
  rw [candidates_rooted, List.mem_map] at hname
  obtain ⟨dir, -, rfl⟩ := hname
  exact FileName.join_absolute h

end ImportSearch

/-! ## The texts of a session -/

namespace Session

theorem texts_foldl_report {β : Type} (f : β → Report) (xs : List β) (s : Session) :
    (xs.foldl (fun s x => s.report (f x)) s).texts = s.texts := by
  induction xs generalizing s with
  | nil => rfl
  | cons x xs ih =>
    rw [List.foldl_cons, ih]
    rfl

theorem texts_reportUnresolved (texts : ModuleTexts) (schema : Schema) (s : Session) :
    (s.reportUnresolved texts schema).texts = s.texts := texts_foldl_report _ _ _

theorem texts_reportError (texts : ModuleTexts) (e : SchemaError) (s : Session) :
    (s.reportError texts e).texts = s.texts := by
  unfold reportError
  generalize (e.module?.bind fun module => texts.lookup module) = file
  dsimp only
  cases file with
  | none =>
    split
    · split <;> rfl
    · rfl
  | some file =>
    split
    · split <;> rfl
    · rfl

/-- A check adds the imports that were asked for and found to the texts, and nothing else. -/
theorem texts_checkModule (files : Files) (baseDir : Option String) (file : SourceFile) (m : Module)
    (s : Session) :
    let search : ImportSearch := ⟨baseDir, s.includeDirs⟩
    let requested := (resolve (some (search.source files file.text.utf8ByteSize)) m).requested
    (s.checkModule files baseDir file m).texts =
      s.texts ++ requested.toList.filterMap (search.find? files) := by
  intro search requested
  have htail : (moduleTexts files search file requested.toList).tail.map Prod.snd =
      requested.toList.filterMap (search.find? files) := by
    simp [moduleTexts, List.map_filterMap, Option.map_map, Function.comp_def]
  unfold checkModule
  dsimp only
  rw [← htail]
  split
  · rw [texts_reportUnresolved]
  · rw [texts_reportError]

end Session

/-! ## All together -/

/-- A path that begins with a slash is looked up in the include directories, in their order and
whatever the base directory is.  Unless a second slash follows, every file that is tried lies below
the include directory that it is tried in; if one follows, every file that is tried is what follows
the first slash, in no directory.  The first of them that can be read is the import, and a check
adds those files to the texts that were asked for and found. -/
theorem search_rooted (s : Session) (files : Files) (baseDir : Option String) (rest : String) :
    let search : ImportSearch := ⟨baseDir, s.includeDirs⟩
    let names := search.candidates ("/" ++ rest)
    (∀ other, ImportSearch.candidates ⟨other, s.includeDirs⟩ ("/" ++ rest) = names) ∧
      (FileName.isAbsolute rest = false → List.Forall₂ FileName.LiesBelow s.includeDirs names) ∧
      (FileName.isAbsolute rest → ∀ name ∈ names, name = rest) ∧
      (∀ found, search.find? files ("/" ++ rest) = some found ↔ files.FirstReadable names found) ∧
      ∀ (file : SourceFile) (m : Module),
        let requested := (resolve (some (search.source files file.text.utf8ByteSize)) m).requested
        (s.checkModule files baseDir file m).texts =
          s.texts ++ requested.toList.filterMap (search.find? files) := by
  intro search names
  refine ⟨fun other => ?_, search.liesBelow_candidates, fun h _ => search.eq_of_mem_candidates h,
    fun _ => search.find?_eq_some_iff files, fun file m => s.texts_checkModule files baseDir file m⟩
  show ImportSearch.candidates ⟨other, s.includeDirs⟩ _ = search.candidates _
  rw [ImportSearch.candidates_rooted, ImportSearch.candidates_rooted]

/-- The second include directory has the file, and the base directory is not tried. -/
theorem search_rooted_second :
    let s : Session := { Session.fresh with includeDirs := ["a", "b/"] }
    let files := Files.ofList [("x", .ok "0".toUTF8), ("b/x", .ok "1".toUTF8)]
    let names := ImportSearch.candidates ⟨some "", s.includeDirs⟩ "/x"
    names = ["a/x", "b/x"] ∧ List.Forall₂ FileName.LiesBelow s.includeDirs names ∧
      files.FirstReadable names ⟨"b/x", "1"⟩ := by
  intro s files names
  obtain ⟨-, hbelow, -, hfirst, -⟩ := search_rooted s files (some "") "x"
  exact ⟨by decide, hbelow (by decide), (hfirst _).1 (by decide +kernel)⟩

/-- With a second slash, the file at the top of the file system is tried. -/
theorem search_twice_rooted :
    ∃ name ∈ ImportSearch.candidates ⟨none, ["inc"]⟩ "//x",
      ∀ dir ∈ ["inc"], ¬FileName.LiesBelow dir name := by
  refine ⟨"/x", by decide, fun dir hdir hbelow => ?_⟩
  obtain rfl := List.mem_singleton.1 hdir
  exact absurd hbelow.begins (by decide)

end SchemaLang
