import SchemaLang.Session.Request
import SchemaLang.Proofs.Outcome

/-!
# What makes a session fail

A session has failed once one of its requests met an error, and nothing else makes it fail or takes
the failure back.  `failed_perform_iff` says so of a single request, `failed_run_iff` of any number
of them, and `checked_failed_iff` what the answers to checks and prints have to do with it.
-/

namespace SchemaLang

namespace Session

/-! ## Errors -/

/-- The session after requests that are carried out one after another, each with the files that
there are at the time. -/
def run (s : Session) (steps : List (Files × Request)) : Session :=
  steps.foldl (fun s step => (s.perform step.1 step.2).2) s

/-- There is no module in a loaded text: no text has this number, or it does not parse. -/
def Unparsed (s : Session) (id : TextId) : Prop :=
  ∀ file ∈ s.texts[id]?, ∃ e, Module.parse file.text = .error e

/-- What the module in a text is resolved to when it is checked. -/
def resolution (files : Files) (baseDir : Option String) (s : Session) (file : SourceFile)
    (m : Module) : Resolution :=
  resolve (some ((⟨baseDir, s.includeDirs⟩ : ImportSearch).source files file.text.utf8ByteSize)) m

/-- A request meets an error: a text cannot be read, there is no module to check or to print, the
module cannot be resolved, or a name in it is unresolved where this is not allowed. -/
inductive MeetsError (files : Files) (s : Session) : Request → Prop
  | bytes {name : String} {bytes : ByteArray} {e : ReadFailure}
      (unread : textOfBytes bytes = .error e) : MeetsError files s (.loadBytes name bytes)
  | file {name : String} {e : ReadFailure} (unread : files.readText name = .error e) :
      MeetsError files s (.loadFile name)
  | check {id : TextId} {baseDir : Option String} (unparsed : s.Unparsed id) :
      MeetsError files s (.check id baseDir)
  | print {id : TextId} (unparsed : s.Unparsed id) : MeetsError files s (.print id)
  | resolve {id : TextId} {baseDir : Option String} {file : SourceFile} {m : Module}
      {e : SchemaError} (text : s.texts[id]? = some file) (parsed : Module.parse file.text = .ok m)
      (failure : (s.resolution files baseDir file m).result = .error e) :
      MeetsError files s (.check id baseDir)
  | unresolved {id : TextId} {baseDir : Option String} {file : SourceFile} {m : Module}
      {schema : Schema} (text : s.texts[id]? = some file)
      (parsed : Module.parse file.text = .ok m)
      (linked : (s.resolution files baseDir file m).result = .ok schema)
      (denied : s.denyUnresolved) (named : schema.unresolved ≠ []) :
      MeetsError files s (.check id baseDir)

/-- Some step met an error, in the session that the steps before it had led to. -/
def MetError (s : Session) (steps : List (Files × Request)) : Prop :=
  ∃ before step after, steps = before ++ step :: after ∧ (s.run before).MeetsError step.1 step.2

/-! ## Reports -/

theorem failed_report (s : Session) (r : Report) :
    (s.report r).failed = (s.failed || r.severity.isFailure) := by
  rw [failed, report, Array.any_push]
  rfl

/-- Reports of one severity. -/
theorem failed_foldl_report {β : Type} {severity : Severity} {f : β → Report}
    (hf : ∀ x, (f x).severity = severity) (xs : List β) : ∀ s : Session,
      (xs.foldl (fun s x => s.report (f x)) s).failed =
        (s.failed || !xs.isEmpty && severity.isFailure) := by
  induction xs with
  | nil => exact fun s => (Bool.or_false s.failed).symm
  | cons x xs ih =>
    intro s
    rw [List.foldl_cons, ih, failed_report, hf, List.isEmpty_cons]
    cases severity.isFailure <;> simp

theorem severity_diagnostic_parse (e : ParseError) : e.diagnostic.severity = .error := by
  cases e <;> rfl

/-- What is wrong with a schema is reported as an error. -/
theorem severity_diagnostic (e : SchemaError) : e.diagnostic.severity = .error := by
  cases e with
  | parse e => exact severity_diagnostic_parse e
  | importing e => rfl
  | linking e =>
    obtain ⟨module, span, cause⟩ := e
    cases cause <;> rfl

theorem failed_reportIn (s : Session) (file : SourceFile) {d : Diagnostic}
    (hd : d.severity = .error) : (s.reportIn file d).failed := by
  rw [reportIn, failed_report, Report.ofDiagnostic, hd, Severity.isFailure, Bool.or_true]

theorem failed_reportError (texts : ModuleTexts) (e : SchemaError) (s : Session) :
    (s.reportError texts e).failed := by
  unfold reportError
  dsimp only
  split
  · split
    · exact failed_reportIn _ _ (severity_diagnostic_parse _)
    · split
      · exact failed_reportIn _ _ (severity_diagnostic _)
      · rw [failed_report, Report.ofMessage, Severity.isFailure, Bool.or_true]
  · split
    · exact failed_reportIn _ _ (severity_diagnostic _)
    · rw [failed_report, Report.ofMessage, Severity.isFailure, Bool.or_true]

theorem severity_unresolvedReport (texts : ModuleTexts) (severity : Severity) (module : String)
    (p : Path) : (unresolvedReport texts severity module p).severity = severity := by
  unfold unresolvedReport
  dsimp only
  split <;> rfl

theorem failed_reportUnresolved (texts : ModuleTexts) (schema : Schema) (s : Session) :
    (s.reportUnresolved texts schema).failed =
      (s.failed || !schema.unresolved.isEmpty && s.denyUnresolved) := by
  have hsorted : (schema.unresolved.mergeSort unresolvedBefore).isEmpty =
      schema.unresolved.isEmpty := by
    rw [Bool.eq_iff_iff, List.isEmpty_iff_length_eq_zero, List.isEmpty_iff_length_eq_zero,
      List.length_mergeSort]
  have hseverity : (if s.denyUnresolved then Severity.error else .warning).isFailure =
      s.denyUnresolved := by
    cases s.denyUnresolved <;> rfl
  rw [reportUnresolved, failed_foldl_report (fun x => severity_unresolvedReport _ _ _ _), hsorted,
    hseverity]

/-! ## One request -/

theorem failed_parse_iff (id : TextId) (s : Session) :
    (s.parse id).2.failed ↔ s.failed ∨ s.Unparsed id := by
  unfold parse Unparsed
  cases s.texts[id]? with
  | none => simp [failed_report, Report.ofMessage, Severity.isFailure]
  | some file =>
    dsimp only
    cases hparse : Module.parse file.text with
    | error e => simp [failed_reportIn s file (severity_diagnostic_parse e), hparse]
    | ok m => simp [hparse]

/-- A check of a module, once it is parsed. -/
theorem failed_checkModule_iff (files : Files) (baseDir : Option String) (file : SourceFile)
    (m : Module) (s : Session) : (s.checkModule files baseDir file m).failed ↔
      s.failed ∨ (∃ e, (s.resolution files baseDir file m).result = .error e) ∨
        ∃ schema, (s.resolution files baseDir file m).result = .ok schema ∧ s.denyUnresolved ∧
          schema.unresolved ≠ [] := by
  unfold checkModule resolution
  dsimp only
  cases (resolve _ m).result with
  | error e => simp [failed_reportError]
  | ok schema =>
    have hsame (texts : Array SourceFile) : failed { s with texts := texts } = s.failed := rfl
    simp [failed_reportUnresolved, hsame, and_comm]

theorem failed_loadRead_iff (name : String) (text : Except ReadFailure String) (s : Session) :
    (s.loadRead name text).2.failed ↔ s.failed ∨ ∃ e, text = .error e := by
  cases text with
  | ok text => exact ⟨.inl, fun h => h.elim id nofun⟩
  | error e => simp [loadRead, failed_report, Report.ofMessage, Severity.isFailure]

theorem failed_check_iff (files : Files) (baseDir : Option String) (id : TextId) (s : Session) :
    (s.check files baseDir id).failed ↔ s.failed ∨ s.MeetsError files (.check id baseDir) := by
  have hparse := failed_parse_iff id s
  unfold check
  cases htext : s.texts[id]? with
  | none =>
    have hunparsed : s.Unparsed id := by simp [Unparsed, htext]
    have herror : s.MeetsError files (.check id baseDir) := .check hunparsed
    rw [iff_true_intro hunparsed, or_true] at hparse
    simpa [parse, htext, herror] using hparse
  | some file =>
    cases hm : Module.parse file.text with
    | error e =>
      have hunparsed : s.Unparsed id := by simp [Unparsed, htext, hm]
      have herror : s.MeetsError files (.check id baseDir) := .check hunparsed
      rw [iff_true_intro hunparsed, or_true] at hparse
      simpa [parse, htext, hm, herror] using hparse
    | ok m =>
      have hchecked := failed_checkModule_iff files baseDir file m s
      simp only [parse, htext, hm, hchecked]
      refine or_congr_right ⟨?_, fun h => ?_⟩
      · rintro (⟨e, failure⟩ | ⟨schema, linked, denied, named⟩)
        · exact .resolve htext hm failure
        · exact .unresolved htext hm linked denied named
      · cases h with
        | check unparsed =>
          obtain ⟨e, he⟩ := unparsed file htext
          cases he.symm.trans hm
        | resolve text parsed failure =>
          obtain rfl := Option.some.inj (htext.symm.trans text)
          obtain rfl := Except.ok.inj (hm.symm.trans parsed)
          exact .inl ⟨_, failure⟩
        | unresolved text parsed linked denied named =>
          obtain rfl := Option.some.inj (htext.symm.trans text)
          obtain rfl := Except.ok.inj (hm.symm.trans parsed)
          exact .inr ⟨_, linked, denied, named⟩

/-- The session has failed after a request if it had before or the request meets an error. -/
theorem failed_perform_iff (files : Files) (s : Session) (request : Request) :
    (s.perform files request).2.failed ↔ s.failed ∨ s.MeetsError files request := by
  cases request with
  | load | includeDir | denyUnresolved =>
    exact ⟨.inl, fun h => h.elim id nofun⟩
  | loadBytes name bytes =>
    refine (failed_loadRead_iff name (textOfBytes bytes) s).trans (or_congr_right ⟨?_, ?_⟩)
    · exact fun ⟨_, h⟩ => .bytes h
    · rintro ⟨h⟩
      exact ⟨_, h⟩
  | loadFile name =>
    refine (failed_loadRead_iff name (files.readText name) s).trans (or_congr_right ⟨?_, ?_⟩)
    · exact fun ⟨_, h⟩ => .file h
    · rintro ⟨⟩
      exact ⟨_, ‹_›⟩
  | print id =>
    refine (failed_parse_iff id s).trans (or_congr_right ⟨.print, ?_⟩)
    rintro ⟨⟩
    assumption
  | check id baseDir => exact failed_check_iff files baseDir id s

/-! ## Any number of requests -/

theorem metError_cons_iff {s : Session} {step : Files × Request}
    {steps : List (Files × Request)} : s.MetError (step :: steps) ↔
      s.MeetsError step.1 step.2 ∨ (s.perform step.1 step.2).2.MetError steps := by
  constructor
  · rintro ⟨before, step', after, h, herror⟩
    cases before with
    | nil =>
      obtain ⟨rfl, -⟩ := List.cons.inj h
      exact .inl herror
    | cons first before =>
      obtain ⟨rfl, rfl⟩ := List.cons.inj h
      exact .inr ⟨before, step', after, rfl, herror⟩
  · rintro (herror | ⟨before, step', after, rfl, herror⟩)
    · exact ⟨[], step, steps, rfl, herror⟩
    · exact ⟨step :: before, step', after, rfl, herror⟩

/-- The session has failed after requests if it had before or one of them met an error. -/
theorem failed_run_iff (steps : List (Files × Request)) : ∀ s : Session,
    (s.run steps).failed ↔ s.failed ∨ s.MetError steps := by
  induction steps with
  | nil =>
    refine fun s => ⟨.inl, fun h => h.elim id ?_⟩
    rintro ⟨before, step, after, h, -⟩
    exact absurd h (by simp)
  | cons step steps ih =>
    intro s
    rw [run, List.foldl_cons, ← run, ih, failed_perform_iff, metError_cons_iff, or_assoc]

/-! ## Answers -/

theorem printed_eq_none_iff (id : TextId) (s : Session) : (s.print id).1 = none ↔ s.Unparsed id := by
  unfold print parse Unparsed
  cases s.texts[id]? with
  | none => simp
  | some file => cases hparse : Module.parse file.text <;> simp [hparse]

/-- A check answers that the session has failed exactly if a step so far met an error, its own step
included, and so will all later checks.  A print answers with nothing exactly if it finds no module,
whatever has failed before.  A step that meets no error does not make the session fail, and none
takes a failure back. -/
theorem checked_failed_iff :
    (∀ steps files id baseDir, ∃ failed,
      ((fresh.run steps).perform files (.check id baseDir)).1 = .checked failed ∧
        (failed = true ↔ fresh.MetError (steps ++ [(files, .check id baseDir)]))) ∧
      (∀ (s : Session) files id baseDir later files' id' baseDir',
        (s.perform files (.check id baseDir)).1 = .checked true →
          (((s.perform files (.check id baseDir)).2.run later).perform files'
            (.check id' baseDir')).1 = .checked true) ∧
      (∀ (s : Session) files id, ∃ text, (s.perform files (.print id)).1 = .printed text ∧
        (text = none ↔ s.Unparsed id)) ∧
      ∀ files (s : Session) request,
        (s.perform files request).2.failed = true ↔ s.failed ∨ s.MeetsError files request := by
  refine ⟨fun steps files id baseDir => ⟨_, rfl, ?_⟩, ?_, fun s files id => ⟨_, rfl, ?_⟩, ?_⟩
  · have hrun := failed_run_iff (steps ++ [(files, .check id baseDir)]) fresh
    rw [run, List.foldl_append] at hrun
    exact hrun.trans (or_iff_right (by simp [failed, fresh]))
  · intro s files id baseDir later files' id' baseDir' h
    have hfailed : (s.check files baseDir id).failed := Answer.checked.inj h
    have hlater := (failed_run_iff later _).2 (.inl hfailed)
    exact congrArg Answer.checked ((failed_check_iff files' baseDir' id' _).2 (.inl hlater))
  · exact printed_eq_none_iff id s
  · exact failed_perform_iff

/-- A text that cannot be printed makes the check of another one fail. -/
example : ((fresh.run [(.ofList [], .load ⟨"a", "@1;"⟩), (.ofList [], .load ⟨"b", "@"⟩),
    (.ofList [], .print 1)]).check (.ofList []) none 0).failed := by
  decide +kernel

end Session

end SchemaLang
