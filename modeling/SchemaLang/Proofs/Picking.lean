import Mathlib.Data.List.Flatten
import SchemaLang.Proofs.Constants.Resolution

/-!
# Names that literals pick

A struct literal picks the fields that it sets by their names, and a name written for an enum picks
an enumerant.  No check makes the names of fields, those of enumerants or the keys of a literal
distinct, so what is picked is the first of its name, and the keys are kept as they are written:
`resolve_picks`.
-/

namespace SchemaLang

/-! ## The first of a name -/

/-- The first of the named things that has the name; it is the only one unless the name comes again
after it. -/
structure IsFirst {α : Type} (named : List (String × α)) (name : String) (x : α) : Prop where
  split : ∃ before after, named = before ++ (name, x) :: after ∧ name ∉ before.map Prod.fst ∧
    ((named.map Prod.fst).count name = 1 ↔ name ∉ after.map Prod.fst)

theorem isFirst_iff_lookup {α : Type} {named : List (String × α)} {name : String} {x : α} :
    IsFirst named name x ↔ named.lookup name = some x := by
  rw [List.lookup_eq_some_iff]
  constructor
  · rintro ⟨before, after, rfl, hbefore, -⟩
    refine ⟨before, after, rfl, fun p hp => bne_iff_ne.2 ?_⟩
    rintro rfl
    exact hbefore (List.mem_map_of_mem hp)
  · rintro ⟨before, after, rfl, hbefore⟩
    have hnot : name ∉ before.map Prod.fst := fun hname => by
      obtain ⟨p, hp, rfl⟩ := List.mem_map.1 hname
      exact bne_iff_ne.1 (hbefore p hp) rfl
    refine ⟨before, after, rfl, hnot, ?_⟩
    rw [List.map_append, List.map_cons, List.count_append, List.count_eq_zero_of_not_mem hnot,
      List.count_cons_self, Nat.zero_add, Nat.add_eq_right, List.count_eq_zero]

/-! ## Bodies -/

section Bodies

variable (module : ModuleId)

mutual

/-- Every body is that of a node. -/
theorem LinkedDecl.bodies_sublist : ∀ (d : LinkedDecl) (parent : Option DeclId),
    (d.bodies.map Prod.fst).Sublist ((d.nodes module parent).map fun n => n.content.id)
  | .struct head ms, _ => (memberBodies_sublist ms _).cons_cons head.id
  | .interface _ _ _ nested _, _ => (declBodies_sublist nested _).cons _
  | .const _, _ | .enum _, _ | .annotationDecl _, _ | .pathAlias _ _, _ | .importAlias _ _ _, _ =>
    List.nil_sublist _

theorem declBodies_sublist : ∀ (ds : List LinkedDecl) (parent : Option DeclId),
    ((declBodies ds).map Prod.fst).Sublist
      ((declNodes module parent ds).map fun n => n.content.id)
  | [], _ => .slnil
  | d :: ds, parent => by
    rw [declBodies, declNodes, List.map_append, List.map_append]
    exact (d.bodies_sublist parent).append (declBodies_sublist ds parent)

theorem LinkedMember.bodies_sublist : ∀ (m : LinkedMember) (parent : Option DeclId),
    (m.bodies.map Prod.fst).Sublist ((m.nodes module parent).map fun n => n.content.id)
  | .field _, _ => .slnil
  | .union head _ ms, _ | .group head ms, _ => (memberBodies_sublist ms _).cons_cons head.id
  | .anonymousUnion _ ms, parent => memberBodies_sublist ms parent
  | .decl d, parent => d.bodies_sublist parent

theorem memberBodies_sublist : ∀ (ms : List LinkedMember) (parent : Option DeclId),
    ((memberBodies ms).map Prod.fst).Sublist
      ((memberNodes module parent ms).map fun n => n.content.id)
  | [], _ => .slnil
  | m :: ms, parent => by
    rw [memberBodies, memberNodes, List.map_append, List.map_append]
    exact (m.bodies_sublist parent).append (memberBodies_sublist ms parent)

end

end Bodies

namespace Schema

variable {s : Schema}

theorem bodies_sublist (s : Schema) :
    (s.bodies.map Prod.fst).Sublist (s.nodes.map fun n => n.content.id) := by
  rw [bodies, nodes, ← List.zipIdx_map_fst 0 s.modules, List.flatMap_map, List.map_flatMap,
    List.map_flatMap, List.zipIdx_map_fst]
  refine List.Sublist.flatMap_right _ fun x _ => ?_
  rw [List.map_flatMap, List.map_flatMap]
  exact List.Sublist.flatMap_right _ fun d _ => d.bodies_sublist x.2 none

/-- A declaration has one body. -/
theorem body_unique (hs : (s.nodes.map fun n => n.content.id).Nodup) {id : DeclId}
    {ms ms' : List LinkedMember} (h : (id, ms) ∈ s.bodies) (h' : (id, ms') ∈ s.bodies) :
    ms = ms' :=
  congrArg Prod.snd (List.inj_on_of_nodup_map (hs.sublist s.bodies_sublist) h h' rfl)

end Schema

/-! ## Literals in literals -/

/-- A value, the literal that it is written as, and the type that it is written for. -/
structure Evaluated where
  type : SchemaType
  literal : Literal
  value : Value

namespace Schema

variable {s : Schema}

/-- A value stands in a list or in a struct, and so do the literals of the two. -/
inductive Inside (s : Schema) : Evaluated → Evaluated → Prop
  | item {element : SchemaType} {span : Span} {items : List Literal} {values : List Value}
      {k : Nat} {literal : Literal} {v : Value} (item : items[k]? = some literal)
      (value : values[k]? = some v) :
      Inside s ⟨element, literal, v⟩ ⟨.list element, .list span items, .list values⟩
  | field {id : DeclId} {ms : List LinkedMember} {span : Span} {inits : List (Ident × Literal)}
      {fields : List (String × Value)} {k : Nat} {i : Ident} {literal : Literal} {v : Value}
      {t : SchemaType} (declared : (id, ms) ∈ s.bodies) (init : inits[k]? = some (i, literal))
      (field : fields[k]? = some (i.name, v)) (slot : IsFirst (memberSlots ms) i.name t) :
      Inside s ⟨t, literal, v⟩ ⟨.decl id, .struct span inits, .struct fields⟩

theorem ItemsFit.forall₂ {element : SchemaType} : ∀ {items : List Literal} {values : List Value},
    s.ItemsFit element items values → List.Forall₂ (s.Fits element) items values
  | [], _, h => by
    cases h
    exact .nil
  | _ :: _, _, h => by
    cases h with
    | cons head tail => exact .cons head tail.forall₂

/-- A key is that of the literal, and its value is for the first slot of its name. -/
def InitFits (s : Schema) (slots : List (String × SchemaType)) (init : Ident × Literal)
    (field : String × Value) : Prop :=
  field.1 = init.1.name ∧
    ∃ t, slots.lookup init.1.name = some t ∧ s.Fits t init.2 field.2

theorem InitsFit.forall₂ {slots : List (String × SchemaType)} :
    ∀ {inits : List (Ident × Literal)} {fields : List (String × Value)},
      s.InitsFit slots inits fields → List.Forall₂ (s.InitFits slots) inits fields
  | [], _, h => by
    cases h
    exact .nil
  | _ :: _, _, h => by
    cases h with
    | cons slot head tail => exact .cons ⟨rfl, _, slot, head⟩ tail.forall₂

theorem keys_eq {slots : List (String × SchemaType)} {inits : List (Ident × Literal)}
    {fields : List (String × Value)} (h : List.Forall₂ (s.InitFits slots) inits fields) :
    fields.map Prod.fst = inits.map fun init => init.1.name := by
  induction h with
  | nil => rfl
  | cons hfield _ ih => rw [List.map_cons, List.map_cons, hfield.1, ih]

theorem Fits.inside (hs : (s.nodes.map fun n => n.content.id).Nodup) {e e' : Evaluated}
    (h : s.Fits e.type e.literal e.value) (hinside : s.Inside e' e) :
    s.Fits e'.type e'.literal e'.value := by
  cases hinside with
  | item hitem hvalue =>
    cases h with
    | list fit =>
      obtain ⟨hk, rfl⟩ := List.getElem?_eq_some_iff.1 hitem
      obtain ⟨hk', rfl⟩ := List.getElem?_eq_some_iff.1 hvalue
      exact fit.forall₂.get hk hk'
  | field declared hinit hfield slot =>
    cases h with
    | struct declared' fit =>
      obtain rfl := body_unique hs declared declared'
      obtain ⟨hk, hinit⟩ := List.getElem?_eq_some_iff.1 hinit
      obtain ⟨hk', hfield⟩ := List.getElem?_eq_some_iff.1 hfield
      obtain ⟨-, t', ht', hfits⟩ := fit.forall₂.get hk hk'
      rw [List.get_eq_getElem, hinit] at ht' hfits
      rw [List.get_eq_getElem, hfield] at hfits
      obtain rfl := Option.some.inj ((isFirst_iff_lookup.1 slot).symm.trans ht')
      exact hfits

/-! ## What is picked -/

/-- The keys of a struct are those of its literal, in their order, and each of them picks the first
of the slots of its name in the body of the type; a name for an enum picks the first of the
enumerants that have it. -/
structure PicksFirst (s : Schema) (e : Evaluated) : Prop where
  keys : ∀ fields, e.value = .struct fields → ∃ id ms span inits,
    e.type = .decl id ∧ (∀ ms', (id, ms') ∈ s.bodies ↔ ms' = ms) ∧
      e.literal = .struct span inits ∧ fields.map Prod.fst = inits.map (fun init => init.1.name) ∧
        List.Forall₂ (fun init field => ∃ t, IsFirst (memberSlots ms) field.1 t ∧
          s.Fits t init.2 field.2) inits fields
  enumerant : ∀ id ordinal, e.value = .enumerant id ordinal → ∃ d span i,
    e.type = .decl id ∧ s.node? id = some (.enum d) ∧ e.literal = .name ⟨span, [i]⟩ ∧
      IsFirst (d.enumerants.map fun e => (e.name, e.ordinal)) i.name ordinal

theorem Fits.picksFirst (hs : (s.nodes.map fun n => n.content.id).Nodup) {e : Evaluated}
    (h : s.Fits e.type e.literal e.value) : s.PicksFirst e := by
  obtain ⟨t, literal, v⟩ := e
  constructor
  · rintro fields rfl
    cases h with
    | struct declared fit =>
      refine ⟨_, _, _, _, rfl, fun ms' => ⟨fun h => body_unique hs h declared, ?_⟩, rfl,
        keys_eq fit.forall₂, fit.forall₂.imp ?_⟩
      · rintro rfl
        exact declared
      · rintro init field ⟨hname, t, hslot, hfits⟩
        exact ⟨t, hname ▸ isFirst_iff_lookup.2 hslot, hfits⟩
  · rintro id ordinal rfl
    cases h with
    | enumerant declared listed =>
      obtain ⟨n, hn, hcontent⟩ := declared
      have hnode := indexed_of_nodup hs n hn
      rw [hcontent] at hnode
      exact ⟨_, _, _, rfl, hnode, rfl, isFirst_iff_lookup.2 listed⟩

end Schema

/-- In a schema that comes of resolving, names in values pick what comes first.  Each module is that
of its path and its values are those of the literals there, so every value that is stored fits its
type as that of a literal; and at whatever depth a value stands in another, its keys are those that
are written, and each key and each name for an enum picks the first that has the name, which is the
only one where the body or the enum has it once. -/
theorem resolve_picks {source : Option ImportSource} {root : Module} {schema : Schema}
    (h : (resolve source root).result = .ok schema) :
    (∀ m' ∈ schema.modules, ∃ m, moduleAt? (source.map ImportSource.read) root m'.path = some m ∧
      m.Typed schema m') ∧
    (∀ x ∈ schema.stored, ∃ literal, schema.Fits x.1 literal x.2) ∧
    ∀ e e' : Evaluated, schema.Fits e.type e.literal e.value →
      Relation.ReflTransGen schema.Inside e' e →
        schema.Fits e'.type e'.literal e'.value ∧ schema.PicksFirst e' := by
  have hids := nodup_ids h
  refine ⟨typed_of_resolve h, fits_of_resolve h, fun e e' hfits hinside => ?_⟩
  have hfits' : schema.Fits e'.type e'.literal e'.value := by
    induction hinside using Relation.ReflTransGen.head_induction_on with
    | refl => exact hfits
    | head hstep _ ih => exact ih.inside hids hstep
  exact ⟨hfits', hfits'.picksFirst hids⟩

/-! ## Names that come again -/

/-- The keys of a struct. -/
def Value.keys? : Value → Option (List String)
  | .struct fields => some (fields.map Prod.fst)
  | _ => none

/-- The enum of an enumerant, and its ordinal. -/
def Value.enumerant? : Value → Option (DeclId × Nat)
  | .enumerant id ordinal => some (id, ordinal)
  | _ => none

/-- The names that an enum lists. -/
def LinkedNode.enumerantNames : LinkedNode → List String
  | .enum d => d.enumerants.map LinkedEnumerant.name
  | _ => []

/-- An enum with two enumerants of one name, a struct with two fields of one name, a literal that
sets the field of the struct twice, and the name of the enumerants as a value. -/
def repeatedText : String :=
  "@0x1; enum E \x7b x @0; x @1; \x7d struct S \x7b a @0 :Int8; a @1 :Text; \x7d " ++
    "const c :S = (a = 1, a = 2); const d :E = x;"

/-- The struct that is stored has its key twice. -/
theorem resolve_picks_first :
    ∃ root schema x literal, Module.parse repeatedText = .ok root ∧
      (resolve none root).result = .ok schema ∧ x ∈ schema.stored ∧
        x.2.keys? = some ["a", "a"] ∧ schema.Fits x.1 literal x.2 ∧
          schema.PicksFirst ⟨x.1, literal, x.2⟩ := by
  have hfacts : ((Module.parse repeatedText).toOption.bind fun root =>
      (resolve none root).result.toOption.map fun schema =>
        decide (∃ x ∈ schema.stored, x.2.keys? = some ["a", "a"])) = some true := by
    decide +kernel
  obtain ⟨root, hroot, hfacts⟩ := Option.bind_eq_some_iff.1 hfacts
  obtain ⟨schema, hresult, hfacts⟩ := exists_ok_of_toOption hfacts
  obtain ⟨x, hx, hkeys⟩ := of_decide_eq_true hfacts
  obtain ⟨-, hstored, hpicks⟩ := resolve_picks hresult
  obtain ⟨literal, hfits⟩ := hstored x hx
  exact ⟨root, schema, x, literal, ok_of_toOption hroot, hresult, hx, hkeys, hfits,
    (hpicks _ ⟨x.1, literal, x.2⟩ hfits .refl).2⟩

/-- Nothing is rejected in a text where a key of a struct comes twice, names two fields, and where
the name of a value is that of two enumerants. -/
theorem resolve_repeated :
    ∃ root schema, Module.parse repeatedText = .ok root ∧
      (resolve none root).result = .ok schema ∧
        (∃ x ∈ schema.stored, x.1 = .decl 1 ∧ x.2.keys? = some ["a", "a"]) ∧
          (∃ body ∈ schema.bodies, body.1 = 1 ∧ (memberSlots body.2).map Prod.fst = ["a", "a"]) ∧
            (∃ x ∈ schema.stored, x.1 = .decl 0 ∧ x.2.enumerant? = some (0, 0)) ∧
              ∃ n ∈ schema.nodes, n.content.id = 0 ∧ n.content.enumerantNames = ["x", "x"] := by
  have hfacts : ((Module.parse repeatedText).toOption.bind fun root =>
      (resolve none root).result.toOption.map fun schema => decide (
        (∃ x ∈ schema.stored, x.1 = .decl 1 ∧ x.2.keys? = some ["a", "a"]) ∧
          (∃ body ∈ schema.bodies, body.1 = 1 ∧ (memberSlots body.2).map Prod.fst = ["a", "a"]) ∧
            (∃ x ∈ schema.stored, x.1 = .decl 0 ∧ x.2.enumerant? = some (0, 0)) ∧
              ∃ n ∈ schema.nodes, n.content.id = 0 ∧ n.content.enumerantNames = ["x", "x"])) =
      some true := by
    decide +kernel
  obtain ⟨root, hroot, hfacts⟩ := Option.bind_eq_some_iff.1 hfacts
  obtain ⟨schema, hresult, hfacts⟩ := exists_ok_of_toOption hfacts
  exact ⟨root, schema, ok_of_toOption hroot, hresult, of_decide_eq_true hfacts⟩

end SchemaLang
