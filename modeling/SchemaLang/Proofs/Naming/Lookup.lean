import SchemaLang.Schema.Query

/-!
# Dotted names and lookup

The dotted name of a declaration is made of the names around it, and a lookup goes through these
names from the outermost on.  It only finds what has the name: `Schema.Nested.nameOf_lookupIn`.  It
finds a declaration by its own dotted name if this one, and each one around it, is the first of its
name where it stands: `Schema.Nested.lookupIn_nameOf_iff`.
-/

namespace SchemaLang

/-! ## Parts of a name -/

theorem partsBetween_eq_splitOn (separator : Char) (cs : List Char) :
    partsBetween separator cs = cs.splitOn separator := by
  induction cs with
  | nil => rfl
  | cons c cs ih =>
    rw [partsBetween, ih, List.splitOn_cons_eq_if_modifyHead]
    by_cases hc : c = separator
    · rw [if_pos hc, if_pos (beq_iff_eq.2 hc)]
    · rw [if_neg hc, if_neg (mt beq_iff_eq.1 hc)]
      cases hparts : cs.splitOn separator with
      | nil => exact absurd hparts (List.splitOn_ne_nil _ _)
      | cons part parts => rfl

/-- The names between the dots of a dotted name. -/
def dottedNames (name : String) : List String := (partsBetween '.' name.toList).map String.ofList

theorem intercalate_dottedNames (name : String) : ".".intercalate (dottedNames name) = name := by
  have hchars : (dottedNames name).map String.toList = name.toList.splitOn '.' := by
    simp [dottedNames, partsBetween_eq_splitOn]
  rw [← String.toList_inj, String.toList_intercalate, hchars]
  exact List.intercalate_splitOn '.'

/-- Names without dots are the parts of the dotted name that they make. -/
theorem dottedNames_intercalate {names : List String} (hnames : names ≠ [])
    (hdots : ∀ name ∈ names, '.' ∉ name.toList) : dottedNames (".".intercalate names) = names := by
  have hsplit : (".".toList.intercalate (names.map String.toList)).splitOn '.' =
      names.map String.toList := by
    refine List.splitOn_intercalate '.' (fun cs hcs => ?_) (mt List.map_eq_nil_iff.1 hnames)
    obtain ⟨name, hname, rfl⟩ := List.mem_map.1 hcs
    exact hdots name hname
  rw [dottedNames, partsBetween_eq_splitOn, String.toList_intercalate, hsplit, List.map_map]
  simp

/-- Where a declaration stands, and its name. -/
def DeclInfo.place (info : DeclInfo) : ModuleId × Option DeclId × String :=
  (info.module, info.parent, info.name)

namespace Schema

variable {s : Schema}

/-! ## Names from the outermost on -/

/-- Declarations are numbered after those that they are nested in, which are of the same module. -/
def Nested (s : Schema) : Prop :=
  ∀ d (info : DeclInfo), s.decls[d]? = some info → ∀ p ∈ info.parent,
    p < d ∧ ∃ around : DeclInfo, s.decls[p]? = some around ∧ around.module = info.module

/-- No name of a declaration has a dot. -/
def Dotless (s : Schema) : Prop :=
  ∀ (d : DeclId) (info : DeclInfo), s.decls[d]? = some info → '.' ∉ info.name.toList

/-- The names of a declaration and of all around it, the outermost first. -/
def namesOf (s : Schema) (d : DeclId) : List String := lineage s.decls (d + 1) d

section Nested

variable (hs : s.Nested)
include hs

/-- Any bound that is more than the id of a declaration is enough. -/
theorem Nested.lineage_eq (d : Nat) : ∀ bound > d, lineage s.decls bound d = s.namesOf d := by
  induction d using Nat.strongRecOn with
  | ind d ih =>
    intro bound hbound
    obtain ⟨bound, rfl⟩ : ∃ n, bound = n + 1 := ⟨bound - 1, by omega⟩
    rw [namesOf, lineage, lineage]
    cases hd : s.decls[d]? with
    | none => rfl
    | some info =>
      dsimp only
      cases hparent : info.parent with
      | none => rfl
      | some p =>
        obtain ⟨hp, -⟩ := hs d info hd p hparent
        have hpbound := Nat.lt_of_lt_of_le hp (Nat.le_of_lt_succ hbound)
        rw [Option.map_some, Option.map_some, ih p hp bound hpbound, ih p hp d hp]

theorem Nested.namesOf_eq {d : DeclId} {info : DeclInfo} (hd : s.decls[d]? = some info) :
    s.namesOf d = (info.parent.map s.namesOf).getD [] ++ [info.name] := by
  rw [namesOf, lineage, hd]
  dsimp only
  cases hparent : info.parent with
  | none => rfl
  | some p => rw [Option.map_some, hs.lineage_eq p d (hs d info hd p hparent).1, Option.map_some]

end Nested

theorem namesOf_ne_nil {d : DeclId} {info : DeclInfo} (hd : s.decls[d]? = some info) :
    s.namesOf d ≠ [] := by
  rw [namesOf, lineage, hd]
  simp

/-! ## Lookup -/

theorem declNamed?_spec {module : ModuleId} {parent : Option DeclId} {name : String} {d : DeclId}
    (h : s.declNamed? module parent name = some d) : ∃ info, s.decls[d]? = some info ∧
      info.module = module ∧ info.parent = parent ∧ info.name = name := by
  obtain ⟨hd, hinfo, -⟩ := Array.findIdx?_eq_some_iff_getElem.1 h
  have hinfo : (s.decls[d].module = module ∧ s.decls[d].parent = parent) ∧
      s.decls[d].name = name := by simpa using hinfo
  exact ⟨s.decls[d], Array.getElem?_eq_getElem hd, hinfo.1.1, hinfo.1.2, hinfo.2⟩

/-- Going through names ends at a declaration with these names. -/
theorem Nested.namesOf_descend (hs : s.Nested) {module : ModuleId} {d : DeclId}
    (names : List String) : ∀ parent : Option DeclId,
      (∀ p ∈ parent, ∃ info, s.decls[p]? = some info ∧ info.module = module) →
        s.descend module parent names = some d →
          (∃ info, s.decls[d]? = some info ∧ info.module = module) ∧
            s.namesOf d = (parent.map s.namesOf).getD [] ++ names := by
  induction names with
  | nil =>
    intro parent hparent h
    obtain rfl : parent = some d := h
    exact ⟨hparent d rfl, (List.append_nil _).symm⟩
  | cons name names ih =>
    intro parent hparent h
    obtain ⟨p, hp, h⟩ := Option.bind_eq_some_iff.1 h
    obtain ⟨info, hinfo, hmodule, hparent', hname⟩ := declNamed?_spec hp
    obtain ⟨hmem, hnames⟩ := ih (some p) (fun q hq => Option.some.inj hq ▸ ⟨info, hinfo, hmodule⟩) h
    refine ⟨hmem, ?_⟩
    rw [hnames, Option.map_some, Option.getD_some, hs.namesOf_eq hinfo, hparent', hname,
      List.append_assoc, List.singleton_append]

/-- What a lookup finds is in the module and has the name. -/
theorem Nested.nameOf_lookupIn (hs : s.Nested) {module : ModuleId} {name : String} {d : DeclId}
    (h : s.lookupIn module name = some d) :
    ∃ info, s.decls[d]? = some info ∧ info.module = module ∧ s.nameOf d = name := by
  obtain ⟨⟨info, hinfo, hmodule⟩, hnames⟩ := hs.namesOf_descend (dottedNames name) none nofun h
  refine ⟨info, hinfo, hmodule, ?_⟩
  have hname : s.nameOf d = ".".intercalate (s.namesOf d) := rfl
  rw [hname, hnames]
  exact intercalate_dottedNames name

/-! ## Looking a declaration up by its own name -/

/-- The declaration `a` is `d` or stands around it. -/
inductive Encloses (s : Schema) (a : DeclId) : DeclId → Prop
  | self : s.Encloses a a
  | inside {d p : DeclId} {info : DeclInfo} (found : s.decls[d]? = some info)
      (parent : info.parent = some p) (outer : s.Encloses a p) : s.Encloses a d

/-- No declaration before this one has the same name in the same place. -/
def FirstNamed (s : Schema) (d : DeclId) : Prop :=
  ∀ info, s.decls[d]? = some info → s.declNamed? info.module info.parent info.name = some d

theorem descend_concat {module : ModuleId} (name : String) (names : List String) :
    names ≠ [] → ∀ parent : Option DeclId, s.descend module parent (names ++ [name]) =
      (s.descend module parent names).bind fun p => s.declNamed? module (some p) name := by
  induction names with
  | nil => exact fun h => absurd rfl h
  | cons first names ih =>
    intro _ parent
    show (s.declNamed? module parent first).bind
        (fun p => s.descend module (some p) (names ++ [name])) =
      ((s.declNamed? module parent first).bind fun p => s.descend module (some p) names).bind _
    rw [Option.bind_assoc]
    refine congrArg _ (funext fun p => ?_)
    cases names with
    | nil => exact Option.bind_fun_some _
    | cons => exact ih nofun (some p)

/-- Going through the names of a declaration leads to it if no declaration around it, and not
itself, comes after another of its name in the same place. -/
theorem Nested.descend_namesOf_iff (hs : s.Nested) (d : DeclId) :
    ∀ info, s.decls[d]? = some info →
      (s.descend info.module none (s.namesOf d) = some d ↔
        ∀ a, s.Encloses a d → s.FirstNamed a) := by
  induction d using Nat.strongRecOn with
  | ind d ih =>
    intro info hd
    have hfirst : s.FirstNamed d ↔
        s.declNamed? info.module info.parent info.name = some d :=
      ⟨fun h => h info hd, fun h info' hd' => Option.some.inj (hd.symm.trans hd') ▸ h⟩
    rw [hs.namesOf_eq hd]
    cases hparent : info.parent with
    | none =>
      have hself : ∀ a, s.Encloses a d → a = d := by
        intro a ha
        cases ha with
        | self => rfl
        | inside found parent =>
          obtain rfl := Option.some.inj (found.symm.trans hd)
          exact absurd (parent.symm.trans hparent) nofun
      have hdescend : s.descend info.module none [info.name] =
          s.declNamed? info.module none info.name := Option.bind_fun_some _
      rw [hparent] at hfirst
      show s.descend info.module none [info.name] = some d ↔ _
      rw [hdescend, ← hfirst]
      exact ⟨fun h a ha => hself a ha ▸ h, fun h => h d .self⟩
    | some p =>
      obtain ⟨hp, around, haround, hmodule⟩ := hs d info hd p hparent
      rw [Option.map_some, Option.getD_some, descend_concat _ _ (namesOf_ne_nil haround), ← hmodule]
      rw [hparent, ← hmodule] at hfirst
      constructor
      · intro h a ha
        obtain ⟨p', hp', hname⟩ := Option.bind_eq_some_iff.1 h
        obtain ⟨info', hd', -, hparent', -⟩ := declNamed?_spec hname
        obtain rfl := Option.some.inj (hd.symm.trans hd')
        obtain rfl : p = p' := Option.some.inj (hparent.symm.trans hparent')
        cases ha with
        | self => exact hfirst.2 hname
        | inside found parent outer =>
          obtain rfl := Option.some.inj (found.symm.trans hd)
          obtain rfl := Option.some.inj (parent.symm.trans hparent)
          exact (ih _ hp around haround).1 hp' a outer
      · intro h
        have hp' := (ih p hp around haround).2 fun a ha => h a (.inside hd hparent ha)
        rw [hp', Option.bind_some]
        exact hfirst.1 (h d .self)

/-- If no name has a dot, a declaration is found by its own dotted name if it, and each one around
it, is the first of its name in its place. -/
theorem Nested.lookupIn_nameOf_iff (hs : s.Nested) (hdots : s.Dotless) {d : DeclId}
    {info : DeclInfo} (hd : s.decls[d]? = some info) :
    s.lookupIn info.module (s.nameOf d) = some d ↔ ∀ a, s.Encloses a d → s.FirstNamed a := by
  have hnames (d : DeclId) : ∀ name ∈ s.namesOf d, '.' ∉ name.toList := by
    induction d using Nat.strongRecOn with
    | ind d ih =>
      cases hd : s.decls[d]? with
      | none =>
        rw [namesOf, lineage, hd]
        exact nofun
      | some info =>
        rw [hs.namesOf_eq hd]
        refine List.forall_mem_append.2 ⟨?_, List.forall_mem_singleton.2 (hdots d info hd)⟩
        cases hparent : info.parent with
        | none => exact nofun
        | some p => exact ih p (hs d info hd p hparent).1
  have hlookup : s.lookupIn info.module (s.nameOf d) =
      s.descend info.module none (dottedNames (".".intercalate (s.namesOf d))) := rfl
  rw [hlookup, dottedNames_intercalate (namesOf_ne_nil hd) (hnames d)]
  exact hs.descend_namesOf_iff d info hd

/-! ## All declarations -/

theorem declNamed?_eq_some_iff {d : DeclId} {info : DeclInfo} (hd : s.decls[d]? = some info) :
    s.declNamed? info.module info.parent info.name = some d ↔
      ∀ j < d, ∀ other : DeclInfo, s.decls[j]? = some other → other.place ≠ info.place := by
  have hplace (other : DeclInfo) : (other.module = info.module && other.parent = info.parent &&
      other.name = info.name) = true ↔ other.place = info.place := by
    simp [DeclInfo.place, and_assoc]
  obtain ⟨hsize, rfl⟩ := Array.getElem?_eq_some_iff.1 hd
  rw [declNamed?, Array.findIdx?_eq_some_iff_getElem]
  constructor
  · rintro ⟨_, _, hbefore⟩ j hj other hother
    obtain ⟨hjsize, rfl⟩ := Array.getElem?_eq_some_iff.1 hother
    exact mt (hplace _).2 (hbefore j hj)
  · intro h
    refine ⟨hsize, (hplace _).2 rfl, fun j hj => mt (hplace _).1 ?_⟩
    exact h j hj _ (Array.getElem?_eq_getElem _)

/-- Every declaration is found by its own dotted name if no two have the same name in the same
place. -/
theorem Nested.forall_lookupIn_nameOf_iff (hs : s.Nested) (hdots : s.Dotless) :
    (∀ (d : DeclId) (info : DeclInfo), s.decls[d]? = some info →
      s.lookupIn info.module (s.nameOf d) = some d) ↔
        (s.decls.toList.map DeclInfo.place).Nodup := by
  rw [List.Nodup, List.pairwise_map, List.pairwise_iff_getElem]
  constructor
  · intro h i j hi hj hij
    have hd : s.decls[j]? = some s.decls.toList[j] := by
      rw [← Array.getElem?_toList, List.getElem?_eq_getElem hj]
    have hfirst := (hs.lookupIn_nameOf_iff hdots hd).1 (h j _ hd) j .self _ hd
    refine (declNamed?_eq_some_iff hd).1 hfirst i hij _ ?_
    rw [← Array.getElem?_toList, List.getElem?_eq_getElem hi]
  · intro h d info hd
    refine (hs.lookupIn_nameOf_iff hdots hd).2 fun a _ info' ha => ?_
    refine (declNamed?_eq_some_iff ha).2 fun j hj other hother => ?_
    rw [← Array.getElem?_toList] at ha hother
    obtain ⟨hasize, rfl⟩ := List.getElem?_eq_some_iff.1 ha
    obtain ⟨hjsize, rfl⟩ := List.getElem?_eq_some_iff.1 hother
    exact h j a hjsize hasize hj

end Schema

end SchemaLang
