import SchemaLang.Proofs.Numerals
import SchemaLang.Proofs.Resolution
import SchemaLang.Proofs.Typing.Entries

/-!
# Well typed schemas

Evaluating a literal gives a value that fits its type, if it gives one: `fits_eval`.  So every value
in a schema that comes of resolving fits the type that it was written for: `resolve_typed`.
-/

namespace SchemaLang

/-! ## What evaluation relies on -/

/-- What can be found in the entries is what the schema says. -/
structure Loaded.Describes (l : Loaded) (s : Schema) : Prop where
  const : ∀ id, l.hasKind id .const → s.places.const id
  enum : ∀ id enumerants, l.content? id = some (.enum enumerants) →
    ∃ d : LinkedEnum, (∃ n ∈ s.nodes, n.content = .enum d) ∧ d.id = id ∧
      d.enumerants.map (fun e => (e.name, e.ordinal)) = enumerants
  entry : ∀ id e, l.entries[id]? = some e → l.EntryTyped s.nodes s.bodies id e

theorem Loaded.describes_of_link {l : Loaded} {is : List ImportPath} (hl : l.WellPlaced is)
    {s : Schema} (h : l.link = .ok s) : l.Describes s := by
  constructor
  case const => exact (covers_places hl h).const
  case entry => exact fun id e => entry_typed hl h
  case enum =>
    intro id enumerants hcontent
    obtain ⟨n, hn, hid, -, hinside⟩ := exists_node hl h hcontent
    obtain ⟨d, hd, henumerants⟩ := LinkedNode.eq_enum_of_inside hinside
    rw [hd] at hid
    exact ⟨d, ⟨n, hn, hd⟩, hid, henumerants⟩

/-! ## Numbers -/

/-- The number is of the sort of the type: an integer for an integer type, a float for a float
type. -/
def Number.IsOf : Number → NumericType → Prop
  | .int _, .int _ => True
  | .float _, .float _ => True
  | _, _ => False

theorem isOf_decodeInteger {t : NumericType} {b : Base} {text : List Char} {n : Number}
    (h : t.decodeInteger b text = .ok n) : n.IsOf t := by
  cases t with
  | int t =>
    obtain ⟨k, -, rfl⟩ := map_eq_ok.1 h
    trivial
  | float t => cases h

theorem isOf_decodeDecimal {t : NumericType} {text : List Char} {n : Number}
    (h : t.decodeDecimal text = .ok n) : n.IsOf t := by
  cases t with
  | int t =>
    simp only [NumericType.decodeDecimal] at h
    split at h
    · cases h
    · obtain ⟨k, -, rfl⟩ := map_eq_ok.1 h
      trivial
  | float t =>
    obtain ⟨x, -, rfl⟩ := map_eq_ok.1 h
    trivial

theorem isOf_decode {t : NumericType} {text : List Char} {n : Number}
    (h : t.decode text = .ok n) : n.IsOf t := by
  obtain ⟨shape, -, h⟩ := bind_eq_ok.1 h
  split at h
  · exact isOf_decodeInteger h
  · exact isOf_decodeInteger h
  · exact isOf_decodeDecimal h
  · exact isOf_decodeDecimal h

namespace Loaded

variable {l : Loaded} {s : Schema} {scope : ScopeId}

/-! ## Literals that hold no others -/

theorem fits_numeralValue {b : Builtin} {literal : Literal} {span : Span} {text : String}
    {v : Value} (hliteral : literal.numeral? = some text)
    (h : l.numeralValue scope b literal span text = .ok v) : s.Fits (.builtin b) literal v := by
  unfold numeralValue at h
  split at h
  · cases h
  · next t hb =>
    obtain rfl : b = .numeric t := by
      cases b with
      | numeric t' => exact congrArg Builtin.numeric (Option.some.inj hb)
      | void | bool | text | data | anyPointer => cases hb
    split at h
    · next n hn =>
      obtain rfl := Except.ok.inj h
      cases t with
      | int t => exact .int hliteral hn (holds_of_decode hn)
      | float t => exact (isOf_decode hn).elim
    · next x hx =>
      obtain rfl := Except.ok.inj h
      cases t with
      | int t => exact (isOf_decode hx).elim
      | float t =>
        obtain ⟨hfinite, hbounded⟩ := isFinite_of_decode hx
        exact .float hliteral hx hfinite hbounded
    · cases h

theorem fits_builtinValue {b : Builtin} {literal : Literal} {v : Value}
    (h : l.builtinValue scope b literal = .ok v) : s.Fits (.builtin b) literal v := by
  unfold builtinValue at h
  split at h
  case h_1 =>
    obtain rfl := Except.ok.inj h
    exact .void
  case h_2 =>
    obtain rfl := Except.ok.inj h
    exact .bool
  case h_3 =>
    obtain rfl := Except.ok.inj h
    exact .text
  case h_4 =>
    obtain rfl := Except.ok.inj h
    exact .data
  case h_5 => exact fits_numeralValue rfl h
  case h_6 => exact fits_numeralValue rfl h
  case h_7 => cases h

theorem fits_constValue (hl : l.Describes s) {t : SchemaType} (ht : t.IsResolved) {p : Path}
    {v : Value} (h : l.constValue scope p = .ok v) : s.Fits t (.name p) v := by
  obtain ⟨b, -, h⟩ := bind_eq_ok.1 h
  cases b with
  | decl id =>
    dsimp only at h
    split at h
    · next hconst =>
      obtain rfl := Except.ok.inj h
      exact .const ht (hl.const id hconst)
    · cases h
  | module | builtin => cases h
  | unresolved =>
    obtain rfl := Except.ok.inj h
    exact .unresolvedConst ht

theorem fits_enumerantValue (hl : l.Describes s) {id : DeclId} {enumerants : List (String × Nat)}
    (hid : l.content? id = some (.enum enumerants)) {p : Path} {i : Ident}
    (hp : p.segments = [i]) {v : Value}
    (h : l.enumerantValue scope id enumerants p i = .ok v) : s.Fits (.decl id) (.name p) v := by
  unfold enumerantValue at h
  dsimp only at h
  split at h
  · next ordinal hlookup =>
    obtain rfl := Except.ok.inj h
    obtain ⟨d, hd, rfl, rfl⟩ := hl.enum id enumerants hid
    obtain ⟨span, segments⟩ := p
    obtain rfl : segments = [i] := hp
    exact .enumerant hd hlookup
  · obtain ⟨b, -, h⟩ := bind_eq_ok.1 h
    split at h
    · split at h
      · next hconst =>
        obtain rfl := Except.ok.inj h
        exact .const trivial (hl.const _ hconst)
      · cases h
    · cases h

theorem fits_nameValue (hl : l.Describes s) {t : SchemaType} (ht : t.IsResolved) {p : Path}
    {v : Value} (h : l.nameValue scope t p = .ok v) : s.Fits t (.name p) v := by
  unfold nameValue at h
  split at h
  · split at h
    · next hcontent hp => exact fits_enumerantValue hl hcontent hp h
    · exact fits_constValue hl ht h
  · exact fits_constValue hl ht h

/-! ## All literals -/

/-- A field of a struct literal has the type of the first slot of its name. -/
theorem slot_of_fieldNamed (hl : l.Describes s) {id : DeclId} {fields : List FieldEntry}
    (hfields : (l.content? id).bind EntryContent.fields? = some fields) :
    ∃ ms, (id, ms) ∈ s.bodies ∧ ∀ (i : Ident) field t,
      l.fieldNamed scope id fields i = .ok field → l.fieldType field.content = .ok t →
        (memberSlots ms).lookup i.name = some t := by
  obtain ⟨content, hcontent, hfields⟩ := Option.bind_eq_some_iff.1 hfields
  obtain ⟨e, he, rfl⟩ := Option.map_eq_some_iff.1 hcontent
  obtain ⟨ms, hms, hslots⟩ := (hl.entry id e he).fields fields hfields
  refine ⟨ms, hms, fun i field t hfield ht => ?_⟩
  unfold fieldNamed at hfield
  split at hfield
  · next hfind =>
    obtain rfl := Except.ok.inj hfield
    exact lookup_slot hslots hfind ht
  · cases hfield

mutual

/-- The value of a literal fits the type that it is evaluated for. -/
theorem fits_eval (hl : l.Describes s) : ∀ (literal : Literal) {t : SchemaType} {v : Value},
    l.eval scope t literal = .ok v → s.Fits t literal v
  | .name p, t, v, h => by
    cases t with
    | unresolved =>
      rw [eval] at h
      obtain rfl := Except.ok.inj h
      exact .deferred
    | builtin | decl | list =>
      rw [eval] at h
      · refine fits_nameValue hl ?_ h
        trivial
      · nofun
  | .list span items, t, v, h => by
    cases t with
    | unresolved =>
      rw [eval] at h
      obtain rfl := Except.ok.inj h
      exact .deferred
    | list element =>
      rw [eval] at h
      obtain ⟨values, hvalues, rfl⟩ := map_eq_ok.1 h
      exact .list (fits_evalItems hl items hvalues)
    | builtin | decl => cases h
  | .struct span inits, t, v, h => by
    cases t with
    | unresolved =>
      rw [eval] at h
      obtain rfl := Except.ok.inj h
      exact .deferred
    | decl id =>
      rw [eval] at h
      split at h
      · next fields hfields =>
        obtain ⟨values, hvalues, rfl⟩ := map_eq_ok.1 h
        obtain ⟨ms, hms, hslot⟩ := slot_of_fieldNamed hl hfields
        exact .struct hms (fits_evalFields hl hslot inits hvalues)
      · cases h
    | builtin | list => cases h
  | .void _, t, v, h | .bool _ _, t, v, h | .int _ _, t, v, h | .float _ _, t, v, h
  | .text _ _, t, v, h => by
    cases t with
    | unresolved =>
      obtain rfl := Except.ok.inj h
      exact .deferred
    | builtin b => exact fits_builtinValue h
    | decl | list => cases h

theorem fits_evalItems (hl : l.Describes s) : ∀ (items : List Literal) {element : SchemaType}
    {values : List Value}, l.evalItems scope element items = .ok values →
      s.ItemsFit element items values
  | [], _, _, h => by
    obtain rfl := Except.ok.inj h
    exact .nil
  | item :: items, _, _, h => by
    rw [evalItems] at h
    obtain ⟨v, hv, h⟩ := bind_eq_ok.1 h
    obtain ⟨values, hvalues, h⟩ := bind_eq_ok.1 h
    obtain rfl := Except.ok.inj h
    exact .cons (fits_eval hl item hv) (fits_evalItems hl items hvalues)

theorem fits_evalFields (hl : l.Describes s) {id : DeclId} {fields : List FieldEntry}
    {slots : List (String × SchemaType)}
    (hslot : ∀ (i : Ident) field t, l.fieldNamed scope id fields i = .ok field →
      l.fieldType field.content = .ok t → slots.lookup i.name = some t) :
    ∀ (inits : List (Ident × Literal)) {values : List (String × Value)},
      l.evalFields scope id fields inits = .ok values → s.InitsFit slots inits values
  | [], _, h => by
    obtain rfl := Except.ok.inj h
    exact .nil
  | (i, literal) :: inits, _, h => by
    rw [evalFields] at h
    obtain ⟨field, hfield, h⟩ := bind_eq_ok.1 h
    obtain ⟨t, ht, h⟩ := bind_eq_ok.1 h
    obtain ⟨v, hv, h⟩ := bind_eq_ok.1 h
    obtain ⟨values, hvalues, h⟩ := bind_eq_ok.1 h
    obtain rfl := Except.ok.inj h
    exact .cons (hslot i field t hfield ht) (fits_eval hl literal hv)
      (fits_evalFields hl hslot inits hvalues)

end

/-! ## Annotations -/

theorem fits_defaultValue (hl : l.Describes s) {t : SchemaType} {default : Option Literal}
    {v : Option Value} (h : l.defaultValue scope t default = .ok v) :
    Option.Rel (s.Fits t) default v := by
  cases default with
  | none =>
    obtain rfl := Except.ok.inj h
    exact .none
  | some literal =>
    obtain ⟨v, hv, rfl⟩ := map_eq_ok.1 h
    exact .some (fits_eval hl literal hv)

theorem typed_linkApplication (hl : l.Describes s) {target : Target} {a : Application}
    {a' : LinkedApplication} (h : l.linkApplication scope target a = .ok a') : a.Typed s a' := by
  obtain ⟨b, -, h⟩ := bind_eq_ok.1 h
  cases b with
  | decl id =>
    dsimp only at h
    split at h
    · next module parent home name targets type he =>
      split at h
      · obtain ⟨v, hv, h⟩ := bind_eq_ok.1 h
        obtain rfl := Except.ok.inj h
        obtain ⟨d, hd, rfl, htype⟩ := (hl.entry id _ he).annotationType targets type rfl
        refine .bound hd ?_
        cases hvalue : a.value with
        | none =>
          rw [hvalue] at hv
          obtain rfl := Except.ok.inj hv
          exact .none
        | some literal =>
          rw [hvalue] at hv
          obtain ⟨t, ht, hv⟩ := bind_eq_ok.1 hv
          obtain rfl := Except.ok.inj (htype.symm.trans ht)
          obtain ⟨v', hv', rfl⟩ := map_eq_ok.1 hv
          exact .some (fits_eval hl literal hv')
      · cases h
    · cases h
  | unresolved =>
    obtain rfl := Except.ok.inj h
    exact .unresolved
  | module | builtin => cases h

theorem typed_linkApplications (hl : l.Describes s) {target : Target} {as : List Application}
    {as' : List LinkedApplication} (h : l.linkApplications scope target as = .ok as') :
    Applied s as as' :=
  forall₂_of_mapM h fun _ _ _ ha => typed_linkApplication hl ha

/-! ## Parts of declarations -/

theorem typed_linkField (hl : l.Describes s) {f : Field} {f' : LinkedField}
    (h : l.linkField scope f = .ok f') : f.Typed s f' := by
  obtain ⟨t, -, h⟩ := bind_eq_ok.1 h
  obtain ⟨v, hv, h⟩ := bind_eq_ok.1 h
  obtain ⟨as, has, h⟩ := bind_eq_ok.1 h
  obtain rfl := Except.ok.inj h
  exact ⟨fits_defaultValue hl hv, typed_linkApplications hl has⟩

theorem typed_linkParam (hl : l.Describes s) {x : Param} {x' : LinkedParam}
    (h : l.linkParam scope x = .ok x') : x.Typed s x' := by
  obtain ⟨t, -, h⟩ := bind_eq_ok.1 h
  obtain ⟨v, hv, h⟩ := bind_eq_ok.1 h
  obtain ⟨as, has, h⟩ := bind_eq_ok.1 h
  obtain rfl := Except.ok.inj h
  exact ⟨fits_defaultValue hl hv, typed_linkApplications hl has⟩

theorem typed_linkParams (hl : l.Describes s) {xs : List Param} {xs' : List LinkedParam}
    (h : xs.mapM (l.linkParam scope) = .ok xs') : List.Forall₂ (Param.Typed s) xs xs' :=
  forall₂_of_mapM h fun _ _ _ hx => typed_linkParam hl hx

theorem typed_linkMethod (hl : l.Describes s) {m : Method} {m' : LinkedMethod}
    (h : l.linkMethod scope m = .ok m') : m.Typed s m' := by
  obtain ⟨results, hresults, h⟩ := bind_eq_ok.1 h
  obtain ⟨params, hparams, h⟩ := bind_eq_ok.1 h
  obtain ⟨as, has, h⟩ := bind_eq_ok.1 h
  obtain rfl := Except.ok.inj h
  refine ⟨typed_linkParams hl hparams, ?_, typed_linkApplications hl has⟩
  cases hm : m.results with
  | none =>
    rw [hm] at hresults
    obtain rfl := Except.ok.inj hresults
    exact .none
  | some xs =>
    rw [hm] at hresults
    obtain ⟨xs', hxs, rfl⟩ := map_eq_ok.1 hresults
    exact .some (typed_linkParams hl hxs)

theorem typed_linkConst (hl : l.Describes s) {id : DeclId} {d : Const} {d' : LinkedConst}
    (h : l.linkConst scope id d = .ok d') : d.Typed s d' := by
  obtain ⟨t, -, h⟩ := bind_eq_ok.1 h
  obtain ⟨v, hv, h⟩ := bind_eq_ok.1 h
  obtain ⟨as, has, h⟩ := bind_eq_ok.1 h
  obtain rfl := Except.ok.inj h
  exact ⟨fits_eval hl d.value hv, typed_linkApplications hl has⟩

theorem typed_linkEnum (hl : l.Describes s) {id : DeclId} {d : Enum} {d' : LinkedEnum}
    (h : l.linkEnum scope id d = .ok d') : d.Typed s d' := by
  obtain ⟨es, hes, h⟩ := bind_eq_ok.1 h
  obtain ⟨as, has, h⟩ := bind_eq_ok.1 h
  obtain rfl := Except.ok.inj h
  refine ⟨typed_linkApplications hl has, forall₂_of_mapM hes fun e _ e' he => ?_⟩
  obtain ⟨as, has, he⟩ := bind_eq_ok.1 he
  obtain rfl := Except.ok.inj he
  exact typed_linkApplications hl has

theorem typed_linkAnnotationDecl (hl : l.Describes s) {id : DeclId} {d : AnnotationDecl}
    {d' : LinkedAnnotationDecl} (h : l.linkAnnotationDecl scope id d = .ok d') :
    d.Typed s d' := by
  obtain ⟨t, -, h⟩ := bind_eq_ok.1 h
  obtain ⟨as, has, h⟩ := bind_eq_ok.1 h
  obtain rfl := Except.ok.inj h
  exact ⟨typed_linkApplications hl has⟩

theorem typed_linkHead (hl : l.Describes s) {target : Target} {id : DeclId} {head : Head}
    {head' : LinkedHead} (h : l.linkHead scope target id head = .ok head') :
    Applied s head.annotations head'.annotations := by
  obtain ⟨as, has, h⟩ := bind_eq_ok.1 h
  obtain rfl := Except.ok.inj h
  exact typed_linkApplications hl has

/-! ## Declarations and members -/

mutual

theorem typed_linkDecl (hl : l.Describes s) : ∀ (d : PlacedDecl) {d' : LinkedDecl}
    {scope : ScopeId}, l.linkDecl scope d = .ok d' → d.tree.Typed s d'
  | .const id d, _, scope, h => by
    obtain ⟨d', hd, rfl⟩ := map_eq_ok.1 h
    exact typed_linkConst hl hd
  | .struct id body head ms, _, scope, h => by
    rw [linkDecl] at h
    obtain ⟨head', hhead, h⟩ := bind_eq_ok.1 h
    obtain ⟨ms', hms, h⟩ := bind_eq_ok.1 h
    obtain rfl := Except.ok.inj h
    exact ⟨typed_linkHead hl hhead, typed_linkMembers hl ms hms⟩
  | .enum id d, _, scope, h => by
    obtain ⟨d', hd, rfl⟩ := map_eq_ok.1 h
    exact typed_linkEnum hl hd
  | .interface id body head bases ms, _, scope, h => by
    rw [linkDecl] at h
    obtain ⟨bases', -, h⟩ := bind_eq_ok.1 h
    obtain ⟨head', hhead, h⟩ := bind_eq_ok.1 h
    obtain ⟨⟨methods, nested⟩, hms, h⟩ := bind_eq_ok.1 h
    obtain ⟨effective, -, h⟩ := bind_eq_ok.1 h
    obtain rfl := Except.ok.inj h
    exact ⟨typed_linkHead hl hhead, typed_linkInterfaceMembers hl ms hms⟩
  | .annotationDecl id d, _, scope, h => by
    obtain ⟨d', hd, rfl⟩ := map_eq_ok.1 h
    exact typed_linkAnnotationDecl hl hd
  | .pathAlias a, _, scope, h => by
    obtain ⟨name, target, rfl⟩ := linkAlias_ok h
    trivial
  | .importAlias a, _, scope, h => by
    obtain ⟨name, module, target, rfl⟩ := linkImportAlias_ok h
    trivial

theorem typed_linkMember (hl : l.Describes s) : ∀ (m : PlacedMember) {m' : LinkedMember}
    {scope : ScopeId}, l.linkMember scope m = .ok m' → m.tree.Typed s m'
  | .field f, _, scope, h => by
    obtain ⟨f', hf, rfl⟩ := map_eq_ok.1 h
    exact typed_linkField hl hf
  | .union id body head ordinal ms, _, scope, h => by
    rw [linkMember] at h
    obtain ⟨head', hhead, h⟩ := bind_eq_ok.1 h
    obtain ⟨ms', hms, h⟩ := bind_eq_ok.1 h
    obtain rfl := Except.ok.inj h
    exact ⟨typed_linkHead hl hhead, typed_linkMembers hl ms hms⟩
  | .anonymousUnion body span annotations ms, _, scope, h => by
    rw [linkMember] at h
    obtain ⟨as, has, h⟩ := bind_eq_ok.1 h
    obtain ⟨ms', hms, h⟩ := bind_eq_ok.1 h
    obtain rfl := Except.ok.inj h
    exact ⟨typed_linkApplications hl has, typed_linkMembers hl ms hms⟩
  | .group id body head ms, _, scope, h => by
    rw [linkMember] at h
    obtain ⟨head', hhead, h⟩ := bind_eq_ok.1 h
    obtain ⟨ms', hms, h⟩ := bind_eq_ok.1 h
    obtain rfl := Except.ok.inj h
    exact ⟨typed_linkHead hl hhead, typed_linkMembers hl ms hms⟩
  | .decl d, _, scope, h => by
    rw [linkMember] at h
    obtain ⟨d', hd, rfl⟩ := map_eq_ok.1 h
    exact typed_linkDecl hl d hd

theorem typed_linkMembers (hl : l.Describes s) : ∀ (ms : List PlacedMember)
    {ms' : List LinkedMember} {scope : ScopeId}, l.linkMembers scope ms = .ok ms' →
      membersTyped s (memberTrees ms) ms'
  | [], _, scope, h => by
    rw [linkMembers] at h
    obtain rfl := Except.ok.inj h
    trivial
  | m :: ms, _, scope, h => by
    rw [linkMembers] at h
    obtain ⟨m', hm, h⟩ := bind_eq_ok.1 h
    obtain ⟨ms', hms, h⟩ := bind_eq_ok.1 h
    obtain rfl := Except.ok.inj h
    exact ⟨typed_linkMember hl m hm, typed_linkMembers hl ms hms⟩

theorem typed_linkInterfaceMembers (hl : l.Describes s) : ∀ (ms : List PlacedInterfaceMember)
    {items : List LinkedMethod × List LinkedDecl} {scope : ScopeId},
    l.linkInterfaceMembers scope ms = .ok items →
      interfaceMembersTyped s (interfaceMemberTrees ms) items.1 items.2
  | [], _, scope, h => by
    rw [linkInterfaceMembers] at h
    obtain rfl := Except.ok.inj h
    trivial
  | .method m :: ms, _, scope, h => by
    rw [linkInterfaceMembers, linkInterfaceMember] at h
    obtain ⟨item, hm, h⟩ := bind_eq_ok.1 h
    obtain ⟨items, hms, h⟩ := bind_eq_ok.1 h
    obtain ⟨m', hm', rfl⟩ := map_eq_ok.1 hm
    obtain rfl := Except.ok.inj h
    exact ⟨typed_linkMethod hl hm', typed_linkInterfaceMembers hl ms hms⟩
  | .decl d :: ms, _, scope, h => by
    rw [linkInterfaceMembers, linkInterfaceMember] at h
    obtain ⟨item, hd, h⟩ := bind_eq_ok.1 h
    obtain ⟨items, hms, h⟩ := bind_eq_ok.1 h
    obtain ⟨d', hd', rfl⟩ := map_eq_ok.1 hd
    obtain rfl := Except.ok.inj h
    exact ⟨typed_linkDecl hl d hd', typed_linkInterfaceMembers hl ms hms⟩

end

/-! ## Modules -/

theorem typed_linkModule (hl : l.Describes s) {x : LoadedModule} {path : String} {m : Module}
    (hx : x.Holds path m) {m' : LinkedModule} (h : l.linkModule x = .ok m') : m.Typed s m' := by
  obtain ⟨as, has, h⟩ := bind_eq_ok.1 h
  obtain ⟨ds, hds, h⟩ := bind_eq_ok.1 h
  obtain rfl := Except.ok.inj h
  constructor
  · rw [← hx.annotations]
    exact typed_linkApplications hl has
  · rw [← hx.decls, List.forall₂_map_left_iff]
    exact forall₂_of_mapM hds fun d _ _ hd => typed_linkDecl hl d hd

end Loaded

variable {source : Option ImportSource} {root : Module}

/-- Each module of a schema that comes of resolving is that of its path, and typed. -/
theorem typed_of_resolve {schema : Schema} (h : (resolve source root).result = .ok schema) :
    ∀ m' ∈ schema.modules, ∃ m, moduleAt? (source.map ImportSource.read) root m'.path = some m ∧
      m.Typed schema m' := by
  obtain ⟨s, hload, hlink⟩ := resolve_ok h
  obtain ⟨more, hentered, hat⟩ := hload.modules
  have hdescribes := Loaded.describes_of_link hentered.wellPlaced hlink
  intro m' hm'
  have hlinked : List.Forall₂ (fun x m => s.loaded.linkModule x = .ok m) s.loaded.modules.toList
      schema.modules := forall₂_of_mapM (Loaded.link_ok hlink).1 fun _ _ _ hx => hx
  obtain ⟨k, hk, rfl⟩ := List.getElem_of_mem hm'
  have hk' : k < s.loaded.modules.toList.length := Nat.lt_of_lt_of_eq hk hlinked.length_eq.symm
  have hx := hlinked.get hk' hk
  have hk'' := Nat.lt_of_lt_of_eq hk' hentered.holds.length_eq.symm
  have hholds := hentered.holds.get hk'' hk'
  refine ⟨_, ?_, Loaded.typed_linkModule hdescribes hholds hx⟩
  have hpath : schema.modules[k].path = (((Load.rootPath, root) :: more)[k]).1 :=
    (Loaded.linkModule_path hx).trans hholds.path
  rw [hpath]
  exact hat _ (List.getElem_mem hk'')

/-- In a schema that comes of resolving, every value fits the type that it was written for: each
module is that of its path, and the values in it are typed. -/
theorem resolve_typed {schema : Schema} (h : (resolve source root).result = .ok schema) :
    ∀ m' ∈ schema.modules, ∃ m, moduleAt? (source.map ImportSource.read) root m'.path = some m ∧
      m.Typed schema m' :=
  typed_of_resolve h

/-- A module whose defaults are a number, a list of enumerants, a struct and a constant. -/
def defaultsText : String :=
  "@1; const c :Int8 = -3; enum E \x7b a @0; \x7d struct S \x7b x @0 :Float32 = 1.5; " ++
    "es @1 :List(E) = [a]; s @2 :S = (x = 2); i @3 :Int8 = c; \x7d"

/-- The defaults are of the types of their fields. -/
theorem resolve_typed_defaults :
    ∃ root schema, Module.parse defaultsText = .ok root ∧
      (resolve none root).result = .ok schema ∧
      ∀ m' ∈ schema.modules, ∃ m, moduleAt? none root m'.path = some m ∧ m.Typed schema m' := by
  have hsize : ((Module.parse defaultsText).toOption.bind fun m =>
      (resolve none m).result.toOption.map fun s => s.decls.size) = some 3 := by
    decide +kernel
  obtain ⟨root, hroot, hsize⟩ := Option.bind_eq_some_iff.1 hsize
  obtain ⟨schema, hresult, -⟩ := exists_ok_of_toOption hsize
  exact ⟨root, schema, ok_of_toOption hroot, hresult, resolve_typed hresult⟩

end SchemaLang
