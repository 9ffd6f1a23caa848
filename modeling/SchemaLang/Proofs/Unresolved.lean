import Mathlib.Data.List.Forall2
import Mathlib.Data.Prod.Lex
import SchemaLang.Proofs.Failing

/-!
# Unresolved names

A linked module is a tree of parts, and a name that linking left unbound is a mark on one of them:
on a type, on a reference or on a value.  `Part.children` names the parts of each part once, without
regard to what is looked for in them; `Schema.unresolved_complete` compares the list of unresolved
names with the marks at all addresses of the trees, so that a part which the listing forgot, or
visited twice, would be found out.
-/

namespace SchemaLang

/-! ## Parts -/

/-- A part of a linked module that a name may be marked on, or that has such parts. -/
inductive Part where
  | type (t : SchemaType)
  | reference (r : Reference)
  | value (v : Value)
  | application (a : LinkedApplication)
  | field (f : LinkedField)
  | enumerant (e : LinkedEnumerant)
  | param (p : LinkedParam)
  | method (m : LinkedMethod)
  | decl (d : LinkedDecl)
  | member (m : LinkedMember)
  | module (m : LinkedModule)

namespace Part

/-- The name that linking left unbound at this part. -/
def mark? : Part → Option Path
  | .type (.unresolved p) => some p
  | .reference (.unresolved p) => some p
  | .value (.unresolvedConst p) => some p
  | _ => none

/-- The parts that a part is directly made of. -/
def children : Part → List Part
  | .type (.list element) => [.type element]
  | .value (.list items) => items.map .value
  | .value (.struct fields) => fields.map fun field => .value field.2
  | .type _ | .reference _ | .value _ => []
  | .application a => .reference a.target :: a.value.toList.map .value
  | .field f => .type f.type :: (f.default.toList.map .value ++ f.annotations.map .application)
  | .enumerant e => e.annotations.map .application
  | .param p => .type p.type :: (p.default.toList.map .value ++ p.annotations.map .application)
  | .method m =>
    m.annotations.map .application ++ (m.params.map .param ++ (m.results.getD []).map .param)
  | .decl (.const d) => .type d.type :: .value d.value :: d.annotations.map .application
  | .decl (.struct head members) =>
    head.annotations.map .application ++ members.map .member
  | .decl (.enum d) => d.annotations.map .application ++ d.enumerants.map .enumerant
  | .decl (.interface head _ methods nested _) =>
    head.annotations.map .application ++ methods.map .method ++ nested.map .decl
  | .decl (.annotationDecl d) => .type d.type :: d.annotations.map .application
  | .decl (.pathAlias _ target) => [.reference target]
  | .decl (.importAlias _ _ target) => [.reference target]
  | .member (.field f) => [.field f]
  | .member (.union head _ members) =>
    head.annotations.map .application ++ members.map .member
  | .member (.anonymousUnion annotations members) =>
    annotations.map .application ++ members.map .member
  | .member (.group head members) => head.annotations.map .application ++ members.map .member
  | .member (.decl d) => [.decl d]
  | .module m => m.annotations.map .application ++ m.decls.map .decl

/-- The part at an address, which says of each step inwards which child it leads to. -/
def at? : Part → List Nat → Option Part
  | p, [] => some p
  | p, i :: address => p.children[i]?.bind fun child => child.at? address

/-- The name that was left unbound at an address. -/
def markAt? (p : Part) (address : List Nat) : Option Path := (p.at? address).bind mark?

end Part

/-- The name that was left unbound at an address in a module. -/
def Schema.markAt? (s : Schema) (module : ModuleId) (address : List Nat) : Option Path :=
  s.modules[module]?.bind fun m => (Part.module m).markAt? address

/-! ## Lists of marks -/

/-- The list has one name for each mark of a part, in the order of the addresses. -/
def Part.Lists (p : Part) (paths : List Path) : Prop :=
  ∃ addresses : List (List Nat), addresses.Pairwise (· < ·) ∧
    (∀ a, a ∈ addresses ↔ (p.markAt? a).isSome) ∧
      List.Forall₂ (fun a path => p.markAt? a = some path) addresses paths

/-- The list has the names that are marked in parts side by side, one part after another. -/
def AllList (ps : List Part) (paths : List Path) : Prop :=
  ∃ lists, List.Forall₂ Part.Lists ps lists ∧ lists.flatten = paths

/-- A mark in one of several parts, which are numbered from `start` on. -/
def markFrom? (start : Nat) (ps : List Part) (i : Nat) (address : List Nat) : Option Path :=
  if start ≤ i then ps[i - start]?.bind fun p => p.markAt? address else none

theorem markFrom?_self (start : Nat) (p : Part) (ps : List Part) (address : List Nat) :
    markFrom? start (p :: ps) start address = p.markAt? address := by
  simp [markFrom?]

theorem markFrom?_cons {start i : Nat} (h : i ≠ start) (p : Part) (ps : List Part)
    (address : List Nat) :
    markFrom? start (p :: ps) i address = markFrom? (start + 1) ps i address := by
  unfold markFrom?
  rcases Nat.lt_or_ge i start with hlt | hle
  · rw [if_neg (by omega), if_neg (by omega)]
  · have hi : i - start = i - (start + 1) + 1 := by omega
    rw [if_pos hle, if_pos (by omega), hi, List.getElem?_cons_succ]

theorem le_of_markFrom? {start i : Nat} {ps : List Part} {address : List Nat}
    (h : (markFrom? start ps i address).isSome) : start ≤ i := by
  unfold markFrom? at h
  by_contra hlt
  simp [hlt] at h

/-- The marks in parts side by side are those of the first and then those of the others. -/
theorem exists_sites {ps : List Part} {lists : List (List Path)}
    (h : List.Forall₂ Part.Lists ps lists) : ∀ start, ∃ sites : List (Nat × List Nat),
      sites.Pairwise (Prod.Lex (· < ·) (· < ·)) ∧
        (∀ i a, (i, a) ∈ sites ↔ (markFrom? start ps i a).isSome) ∧
          List.Forall₂
            (fun site entry => site.1 = entry.1 ∧
              markFrom? start ps site.1 site.2 = some entry.2)
            sites ((lists.zipIdx start).flatMap fun (paths, i) => paths.map (Prod.mk i)) := by
  induction h with
  | nil => exact fun start => ⟨[], .nil, fun i a => by simp [markFrom?], .nil⟩
  | @cons p paths ps lists head _ ih =>
    intro start
    obtain ⟨first, hsorted, hmem, hpaths⟩ := head
    obtain ⟨later, hsorted', hmem', hpaths'⟩ := ih (start + 1)
    have hlater : ∀ site ∈ later, start < site.1 := fun site hsite =>
      le_of_markFrom? ((hmem' _ _).1 hsite)
    refine ⟨first.map (Prod.mk start) ++ later, ?_, fun i a => ?_, ?_⟩
    · refine List.pairwise_append.2 ⟨?_, hsorted', ?_⟩
      · exact hsorted.map _ fun _ _ => .right start
      · rintro _ hx y hy
        obtain ⟨a, -, rfl⟩ := List.mem_map.1 hx
        exact .left _ _ (hlater y hy)
    · rw [List.mem_append]
      by_cases hi : i = start
      · subst hi
        have hnot : (i, a) ∉ later := fun hsite => absurd (hlater _ hsite) (Nat.lt_irrefl i)
        rw [markFrom?_self, ← hmem, or_iff_left hnot]
        simp
      · rw [markFrom?_cons hi, ← hmem', or_iff_right]
        simp [Ne.symm hi]
    · rw [List.zipIdx_cons, List.flatMap_cons]
      refine List.rel_append ?_ ?_
      · rw [List.forall₂_map_left_iff, List.forall₂_map_right_iff]
        exact hpaths.imp fun a path h => ⟨rfl, (markFrom?_self _ _ _ _).trans h⟩
      · refine ((List.forall₂_and_left _ _).2 ⟨hlater, hpaths'⟩).imp ?_
        rintro site entry ⟨hlt, hentry, hmark⟩
        exact ⟨hentry, (markFrom?_cons hlt.ne' _ _ _).trans hmark⟩

theorem flatten_numbered (lists : List (List Path)) : ∀ start,
    ((lists.zipIdx start).flatMap fun (paths, i) => paths.map (Prod.mk i)).map Prod.snd =
      lists.flatten := by
  induction lists with
  | nil => exact fun start => rfl
  | cons paths lists ih =>
    intro start
    rw [List.zipIdx_cons, List.flatMap_cons, List.map_append, ih, List.map_map,
      List.flatten_cons]
    exact congrArg (· ++ lists.flatten) (List.map_id paths)

/-! ## One part -/

namespace Part

theorem markAt?_cons (p : Part) (i : Nat) (address : List Nat) :
    p.markAt? (i :: address) = markFrom? 0 p.children i address := by
  rw [markAt?, at?, markFrom?, if_pos (Nat.zero_le i), Nat.sub_zero, Option.bind_assoc]
  rfl

/-- A part that is not marked itself has the marks of its children. -/
theorem lists_of_children {p : Part} {paths : List Path} (hmark : p.mark? = none)
    (h : AllList p.children paths) : p.Lists paths := by
  obtain ⟨lists, hlists, rfl⟩ := h
  obtain ⟨sites, hsorted, hmem, hpaths⟩ := exists_sites hlists 0
  refine ⟨sites.map fun site => site.1 :: site.2, ?_, fun a => ?_, ?_⟩
  · refine hsorted.map _ ?_
    rintro _ _ (⟨_, _, h⟩ | ⟨_, h⟩)
    · exact List.Lex.rel h
    · exact List.Lex.cons h
  · cases a with
    | nil => simp [markAt?, at?, hmark]
    | cons i address =>
      rw [markAt?_cons, ← hmem]
      constructor
      · intro h
        obtain ⟨site, hsite, e⟩ := List.mem_map.1 h
        cases e
        exact hsite
      · exact fun h => List.mem_map.2 ⟨_, h, rfl⟩
  · rw [← flatten_numbered lists 0, List.forall₂_map_left_iff, List.forall₂_map_right_iff]
    exact hpaths.imp fun site entry h => (markAt?_cons _ _ _).trans h.2

/-- A part without children is marked itself or not at all. -/
theorem lists_leaf {p : Part} (h : p.children = []) : p.Lists p.mark?.toList := by
  cases hmark : p.mark? with
  | none => exact lists_of_children hmark ⟨[], h ▸ .nil, rfl⟩
  | some path =>
    refine ⟨[[]], List.pairwise_singleton _ _, fun a => ?_, .cons ?_ .nil⟩
    · cases a with
      | nil => simp [markAt?, at?, hmark]
      | cons i address => simp [markAt?, at?, h]
    · simp [markAt?, at?, hmark]

end Part

/-! ## Parts side by side -/

theorem allList_nil : AllList [] [] := ⟨[], .nil, rfl⟩

theorem AllList.cons {p : Part} {ps : List Part} {xs ys : List Path} (head : p.Lists xs)
    (tail : AllList ps ys) : AllList (p :: ps) (xs ++ ys) := by
  obtain ⟨lists, htail, rfl⟩ := tail
  exact ⟨xs :: lists, .cons head htail, rfl⟩

theorem AllList.append {ps qs : List Part} {xs ys : List Path} (hp : AllList ps xs)
    (hq : AllList qs ys) : AllList (ps ++ qs) (xs ++ ys) := by
  obtain ⟨lists, hlists, rfl⟩ := hp
  obtain ⟨lists', hlists', rfl⟩ := hq
  exact ⟨lists ++ lists', List.rel_append hlists hlists', List.flatten_append⟩

theorem Part.Lists.single {p : Part} {paths : List Path} (h : p.Lists paths) :
    AllList [p] paths := by
  simpa using AllList.cons h allList_nil

theorem allList_flatMap {α : Type} {part : α → Part} {paths : α → List Path} {xs : List α}
    (h : ∀ x ∈ xs, (part x).Lists (paths x)) : AllList (xs.map part) (xs.flatMap paths) := by
  refine ⟨xs.map paths, ?_, List.flatMap_def.symm⟩
  rw [List.forall₂_map_left_iff, List.forall₂_map_right_iff, List.forall₂_same]
  exact h

/-! ## Types, references and values -/

theorem SchemaType.lists (t : SchemaType) : (Part.type t).Lists t.unresolvedPaths := by
  induction t with
  | builtin | decl | unresolved => exact Part.lists_leaf rfl
  | list element ih => exact Part.lists_of_children rfl ih.single

theorem Reference.lists (r : Reference) : (Part.reference r).Lists r.unresolvedPaths := by
  cases r <;> exact Part.lists_leaf rfl

mutual

theorem Value.lists : ∀ v : Value, (Part.value v).Lists v.unresolvedPaths
  | .list items => Part.lists_of_children rfl (allList_items items)
  | .struct fields => Part.lists_of_children rfl (allList_fields fields)
  | .void | .bool _ | .int _ | .float _ | .text _ | .data _ | .enumerant .. | .const _
  | .unresolvedConst _ | .deferred _ => Part.lists_leaf rfl

theorem allList_items : ∀ vs : List Value, AllList (vs.map .value) (unresolvedInItems vs)
  | [] => allList_nil
  | v :: vs => .cons v.lists (allList_items vs)

theorem allList_fields : ∀ fields : List (String × Value),
    AllList (fields.map fun field => .value field.2) (unresolvedInFields fields)
  | [] => allList_nil
  | (_, v) :: fields => .cons v.lists (allList_fields fields)

end

theorem allList_value? (v : Option Value) :
    AllList (v.toList.map .value) (unresolvedInValue? v) := by
  cases v with
  | none => exact allList_nil
  | some v => exact v.lists.single

theorem LinkedApplication.lists (a : LinkedApplication) :
    (Part.application a).Lists (a.target.unresolvedPaths ++ unresolvedInValue? a.value) :=
  Part.lists_of_children rfl (.cons a.target.lists (allList_value? a.value))

theorem allList_applications (as : List LinkedApplication) :
    AllList (as.map .application) (unresolvedInApplications as) :=
  allList_flatMap fun a _ => a.lists

/-! ## Declarations -/

/-- What fields and parameters have in common: a type, a default and annotations. -/
theorem allList_typed (t : SchemaType) (default : Option Value) (as : List LinkedApplication) :
    AllList (.type t :: (default.toList.map .value ++ as.map .application))
      (t.unresolvedPaths ++ unresolvedInValue? default ++ unresolvedInApplications as) := by
  rw [List.append_assoc]
  exact .cons t.lists ((allList_value? default).append (allList_applications as))

theorem LinkedParam.lists (p : LinkedParam) : (Part.param p).Lists p.unresolvedPaths :=
  Part.lists_of_children rfl (allList_typed p.type p.default p.annotations)

theorem LinkedMethod.lists (m : LinkedMethod) : (Part.method m).Lists m.unresolvedPaths := by
  have hparams : AllList ((m.params ++ m.results.getD []).map .param)
      ((m.params ++ m.results.getD []).flatMap LinkedParam.unresolvedPaths) :=
    allList_flatMap fun p _ => p.lists
  rw [List.map_append] at hparams
  exact Part.lists_of_children rfl ((allList_applications m.annotations).append hparams)

theorem allList_methods (ms : List LinkedMethod) :
    AllList (ms.map .method) (ms.flatMap LinkedMethod.unresolvedPaths) :=
  allList_flatMap fun m _ => m.lists

theorem LinkedEnumerant.lists (e : LinkedEnumerant) :
    (Part.enumerant e).Lists (unresolvedInApplications e.annotations) :=
  Part.lists_of_children rfl (allList_applications e.annotations)

theorem LinkedField.lists (f : LinkedField) : (Part.field f).Lists
    (f.type.unresolvedPaths ++ unresolvedInValue? f.default ++
      unresolvedInApplications f.annotations) :=
  Part.lists_of_children rfl (allList_typed f.type f.default f.annotations)

mutual

theorem LinkedDecl.lists : ∀ d : LinkedDecl, (Part.decl d).Lists d.unresolvedPaths
  | .const d => by
    have h := AllList.cons d.type.lists (.cons d.value.lists (allList_applications d.annotations))
    rw [← List.append_assoc] at h
    exact Part.lists_of_children rfl h
  | .struct head ms =>
    Part.lists_of_children rfl ((allList_applications head.annotations).append (allList_members ms))
  | .enum d =>
    Part.lists_of_children rfl ((allList_applications d.annotations).append
      (allList_flatMap fun e _ => e.lists))
  | .interface head _ methods nested _ =>
    Part.lists_of_children rfl (((allList_applications head.annotations).append
      (allList_methods methods)).append (allList_decls nested))
  | .annotationDecl d =>
    Part.lists_of_children rfl (.cons d.type.lists (allList_applications d.annotations))
  | .pathAlias _ target => Part.lists_of_children rfl target.lists.single
  | .importAlias _ _ target => Part.lists_of_children rfl target.lists.single

theorem LinkedMember.lists : ∀ m : LinkedMember, (Part.member m).Lists m.unresolvedPaths
  | .field f => Part.lists_of_children rfl f.lists.single
  | .union head _ ms =>
    Part.lists_of_children rfl ((allList_applications head.annotations).append (allList_members ms))
  | .anonymousUnion annotations ms =>
    Part.lists_of_children rfl ((allList_applications annotations).append (allList_members ms))
  | .group head ms =>
    Part.lists_of_children rfl ((allList_applications head.annotations).append (allList_members ms))
  | .decl d => Part.lists_of_children rfl d.lists.single

theorem allList_members : ∀ ms : List LinkedMember,
    AllList (ms.map .member) (unresolvedInMembers ms)
  | [] => allList_nil
  | m :: ms => .cons m.lists (allList_members ms)

theorem allList_decls : ∀ ds : List LinkedDecl, AllList (ds.map .decl) (unresolvedInDecls ds)
  | [] => allList_nil
  | d :: ds => .cons d.lists (allList_decls ds)

end

theorem LinkedModule.lists (m : LinkedModule) : (Part.module m).Lists m.unresolvedPaths :=
  Part.lists_of_children rfl
    ((allList_applications m.annotations).append (allList_decls m.decls))

/-! ## Schemas -/

/-- The unresolved names of a schema are its marks, module by module. -/
theorem Schema.exists_sites (s : Schema) : ∃ sites : List (ModuleId × List Nat),
    sites.Pairwise (Prod.Lex (· < ·) (· < ·)) ∧
      (∀ module address, (module, address) ∈ sites ↔ (s.markAt? module address).isSome) ∧
        List.Forall₂
          (fun site entry => site.1 = entry.1 ∧ s.markAt? site.1 site.2 = some entry.2)
          sites s.unresolved := by
  have hlists : List.Forall₂ Part.Lists (s.modules.map .module)
      (s.modules.map LinkedModule.unresolvedPaths) := by
    rw [List.forall₂_map_left_iff, List.forall₂_map_right_iff, List.forall₂_same]
    exact fun m _ => m.lists
  have hmark : markFrom? 0 (s.modules.map .module) = s.markAt? := by
    funext module address
    rw [markFrom?, if_pos (Nat.zero_le _), List.getElem?_map, Option.bind_map]
    rfl
  have hunresolved : s.unresolved = ((s.modules.map LinkedModule.unresolvedPaths).zipIdx 0).flatMap
      fun (paths, i) => paths.map (Prod.mk i) := by
    rw [List.zipIdx_map, List.flatMap_map]
    rfl
  have hsites := SchemaLang.exists_sites hlists 0
  rw [hmark, ← hunresolved] at hsites
  exact hsites

theorem Schema.unresolved_eq_nil_iff (s : Schema) :
    s.unresolved = [] ↔ ∀ module address, s.markAt? module address = none := by
  obtain ⟨sites, -, hmem, hentries⟩ := s.exists_sites
  rw [← List.length_eq_zero_iff, ← hentries.length_eq, List.length_eq_zero_iff]
  constructor
  · rintro rfl module address
    exact Option.not_isSome_iff_eq_none.1 fun h => nomatch (hmem module address).2 h
  · intro h
    refine List.eq_nil_iff_forall_not_mem.2 fun ⟨module, address⟩ hsite => ?_
    have hmark := (hmem module address).1 hsite
    rw [h] at hmark
    cases hmark

/-- A check that can resolve its module meets an error only in a name that is not let pass. -/
theorem Session.meetsError_check_iff {s : Session} {files : Files} {id : TextId}
    {baseDir : Option String} {file : SourceFile} {m : Module} {schema : Schema}
    (text : s.texts[id]? = some file) (parsed : Module.parse file.text = .ok m)
    (linked : (s.resolution files baseDir file m).result = .ok schema) :
    s.MeetsError files (.check id baseDir) ↔ s.denyUnresolved ∧ schema.unresolved ≠ [] := by
  constructor
  · intro h
    cases h with
    | check unparsed =>
      obtain ⟨e, he⟩ := unparsed file text
      cases he.symm.trans parsed
    | resolve text' parsed' failure =>
      obtain rfl := Option.some.inj (text.symm.trans text')
      obtain rfl := Except.ok.inj (parsed.symm.trans parsed')
      cases linked.symm.trans failure
    | unresolved text' parsed' linked' denied named =>
      obtain rfl := Option.some.inj (text.symm.trans text')
      obtain rfl := Except.ok.inj (parsed.symm.trans parsed')
      obtain rfl := Except.ok.inj (linked.symm.trans linked')
      exact ⟨denied, named⟩
  · rintro ⟨denied, named⟩
    exact .unresolved text parsed linked denied named

/-- The list of unresolved names has one entry for each place where linking left a name unbound,
module by module and in a module in the order of the addresses, and nothing else.  So where nothing
has failed before and no unresolved name is let pass, the check of a module that can be resolved
succeeds exactly if there is no such place in its schema. -/
theorem Schema.unresolved_complete :
    (∀ s : Schema, ∃ sites : List (ModuleId × List Nat),
      sites.Pairwise (Prod.Lex (· < ·) (· < ·)) ∧
        (∀ module address, (module, address) ∈ sites ↔ (s.markAt? module address).isSome) ∧
          List.Forall₂
            (fun site entry => site.1 = entry.1 ∧ s.markAt? site.1 site.2 = some entry.2)
            sites s.unresolved) ∧
      ∀ (s : Session) (files : Files) (id : TextId) (baseDir : Option String) (file : SourceFile)
        (m : Module) (schema : Schema), ¬ s.failed → s.denyUnresolved → s.texts[id]? = some file →
          Module.parse file.text = .ok m →
            (s.resolution files baseDir file m).result = .ok schema →
              ((s.perform files (.check id baseDir)).1 = .checked false ↔
                ∀ module address, schema.markAt? module address = none) := by
  refine ⟨exists_sites, fun s files id baseDir file m schema hfailed hdeny htext hm hschema => ?_⟩
  have hcheck := (Session.failed_check_iff files baseDir id s).trans
    (or_iff_right hfailed)
  rw [Session.meetsError_check_iff htext hm hschema, and_iff_right hdeny] at hcheck
  have hanswer : (s.perform files (.check id baseDir)).1 = .checked false ↔
      ¬ (s.check files baseDir id).failed := by
    simp [Session.perform]
  rw [hanswer, hcheck, not_not, unresolved_eq_nil_iff]

/-- A name is declared nowhere that stands in a method's result, in a list. -/
def missingText : String :=
  "@1; interface I \x7b interface J \x7b m @0 () -> (a :List(Missing)); \x7d \x7d"

/-- The name in the result is found, and the check fails. -/
theorem Schema.unresolved_complete_result :
    ∃ (s : Session) (m : Module) (schema : Schema), ¬ s.failed ∧ s.denyUnresolved ∧
      s.texts[0]? = some ⟨"a", missingText⟩ ∧ Module.parse missingText = .ok m ∧
        (s.resolution (.ofList []) none ⟨"a", missingText⟩ m).result = .ok schema ∧
          (schema.markAt? 0 [0, 0, 0, 0, 0, 0]).map Path.text = some "Missing" ∧
            (s.perform (.ofList []) (.check 0 none)).1 = .checked true := by
  let s : Session := ⟨#[⟨"a", missingText⟩], [], true, #[]⟩
  have hmark : ((Module.parse missingText).toOption.bind fun m =>
      (s.resolution (.ofList []) none ⟨"a", missingText⟩ m).result.toOption.map fun schema =>
        (schema.markAt? 0 [0, 0, 0, 0, 0, 0]).map Path.text) = some (some "Missing") := by
    decide +kernel
  obtain ⟨m, hm, hmark⟩ := Option.bind_eq_some_iff.1 hmark
  obtain ⟨schema, hschema, hmark⟩ := exists_ok_of_toOption hmark
  have hparse := ok_of_toOption hm
  have hfailed : ¬ s.failed := by simp [s, Session.failed]
  have hanswer := Schema.unresolved_complete.2 s (.ofList []) 0 none _ m schema hfailed rfl rfl
    hparse hschema
  refine ⟨s, m, schema, hfailed, rfl, rfl, hparse, hschema, hmark, ?_⟩
  rw [Session.perform, Answer.checked.injEq, ← Bool.not_eq_false]
  intro hchecked
  rw [hanswer.1 (congrArg Answer.checked hchecked) 0 [0, 0, 0, 0, 0, 0]] at hmark
  cases hmark

end SchemaLang
