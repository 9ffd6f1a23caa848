import SchemaLang.Proofs.Constants.Replacing
import SchemaLang.Proofs.Typing.Fits

/-!
# Values that a schema stores

`Schema.stored` lists the values in a schema that are of a type: those of its constants, the
defaults of its fields and parameters, and what its annotations are applied to, each with its type.
In a schema whose modules are typed each of them fits its type: `Module.Typed.fits_stored`.
-/

namespace SchemaLang

/-! ## Stored values -/

/-- The type of the values of an annotation. -/
def Schema.annotationType? (s : Schema) (id : DeclId) : Option SchemaType :=
  match s.node? id with
  | some (.annotationDecl d) => some d.type
  | _ => none

section Stored

variable (s : Schema)

/-- The value of an annotation that is bound, with the type of its declaration. -/
def LinkedApplication.stored (a : LinkedApplication) : List (SchemaType × Value) :=
  match a.target, a.value with
  | .decl id, some v => (s.annotationType? id).toList.map (·, v)
  | _, _ => []

/-- The values of annotations. -/
def storedIn (as : List LinkedApplication) : List (SchemaType × Value) := as.flatMap (·.stored s)

/-- The values in a field. -/
def LinkedField.stored (f : LinkedField) : List (SchemaType × Value) :=
  f.default.toList.map (f.type, ·) ++ storedIn s f.annotations

/-- The values in a parameter. -/
def LinkedParam.stored (x : LinkedParam) : List (SchemaType × Value) :=
  x.default.toList.map (x.type, ·) ++ storedIn s x.annotations

/-- The values in a method. -/
def LinkedMethod.stored (m : LinkedMethod) : List (SchemaType × Value) :=
  (m.params ++ m.results.getD []).flatMap (·.stored s) ++ storedIn s m.annotations

mutual

/-- The values in a declaration. -/
def LinkedDecl.stored : LinkedDecl → List (SchemaType × Value)
  | .const d => (d.type, d.value) :: storedIn s d.annotations
  | .struct head ms => storedIn s head.annotations ++ storedInMembers ms
  | .enum d => storedIn s d.annotations ++ d.enumerants.flatMap fun e => storedIn s e.annotations
  | .interface head _ methods nested _ =>
    storedIn s head.annotations ++ (methods.flatMap (·.stored s) ++ storedInDecls nested)
  | .annotationDecl d => storedIn s d.annotations
  | .pathAlias _ _ | .importAlias _ _ _ => []

/-- The values in declarations. -/
def storedInDecls : List LinkedDecl → List (SchemaType × Value)
  | [] => []
  | d :: ds => d.stored ++ storedInDecls ds

/-- The values in a member. -/
def LinkedMember.stored : LinkedMember → List (SchemaType × Value)
  | .field f => f.stored s
  | .union head _ ms => storedIn s head.annotations ++ storedInMembers ms
  | .anonymousUnion annotations ms => storedIn s annotations ++ storedInMembers ms
  | .group head ms => storedIn s head.annotations ++ storedInMembers ms
  | .decl d => d.stored

/-- The values in the members of a body. -/
def storedInMembers : List LinkedMember → List (SchemaType × Value)
  | [] => []
  | m :: ms => m.stored ++ storedInMembers ms

end

/-- The values in a module. -/
def LinkedModule.stored (m : LinkedModule) : List (SchemaType × Value) :=
  storedIn s m.annotations ++ m.decls.flatMap (·.stored s)

/-- The values of a type that are in a schema, each with its type. -/
def Schema.stored : List (SchemaType × Value) := s.modules.flatMap (·.stored s)

end Stored

/-! ## Values that fit -/

/-- A value that a literal may have for its type. -/
def Schema.FitsStored (s : Schema) (x : SchemaType × Value) : Prop :=
  ∃ literal, s.Fits x.1 literal x.2

/-- A node is found by its id. -/
def Schema.Indexed (s : Schema) : Prop := ∀ n ∈ s.nodes, s.node? n.content.id = some n.content

section Typed

variable {s : Schema}

theorem fits_default {t : SchemaType} {literal : Option Literal} {value : Option Value}
    (h : Option.Rel (s.Fits t) literal value) :
    ∀ x ∈ value.toList.map (t, ·), s.FitsStored x := by
  cases h with
  | none => exact nofun
  | some hfit => exact List.forall_mem_singleton.2 ⟨_, hfit⟩

/-- The value of an annotation is for the type of the declaration that it is bound to. -/
theorem stored_bound (hs : s.Indexed) {d : LinkedAnnotationDecl}
    (hd : ∃ n ∈ s.nodes, n.content = .annotationDecl d) (name : Path) (value : Option Value) :
    (LinkedApplication.mk name (.decl d.id) value).stored s = value.toList.map (d.type, ·) := by
  obtain ⟨n, hn, hcontent⟩ := hd
  have hnode : s.node? d.id = some (.annotationDecl d) := by
    have hnode := hs n hn
    rwa [hcontent] at hnode
  have htype : s.annotationType? d.id = some d.type := by rw [Schema.annotationType?, hnode]
  cases value with
  | none => rfl
  | some v =>
    rw [LinkedApplication.stored]
    dsimp only
    rw [htype]
    rfl

theorem fits_storedIn (hs : s.Indexed) {as : List Application} {as' : List LinkedApplication}
    (h : Applied s as as') : ∀ x ∈ storedIn s as', s.FitsStored x := by
  induction h with
  | nil => exact nofun
  | cons ha _ ih =>
    refine List.forall_mem_append.2 ⟨?_, ih⟩
    cases ha with
    | unresolved => exact nofun
    | bound declared fit =>
      dsimp only
      rw [stored_bound hs declared]
      exact fits_default fit

theorem Field.Typed.fits_stored (hs : s.Indexed) {f : Field} {f' : LinkedField}
    (h : f.Typed s f') : ∀ x ∈ f'.stored s, s.FitsStored x :=
  List.forall_mem_append.2 ⟨fits_default h.default, fits_storedIn hs h.annotations⟩

theorem Param.Typed.fits_stored (hs : s.Indexed) {x : Param} {x' : LinkedParam}
    (h : x.Typed s x') : ∀ y ∈ x'.stored s, s.FitsStored y :=
  List.forall_mem_append.2 ⟨fits_default h.default, fits_storedIn hs h.annotations⟩

theorem fits_storedInParams (hs : s.Indexed) {xs : List Param} {xs' : List LinkedParam}
    (h : List.Forall₂ (Param.Typed s) xs xs') :
    ∀ y ∈ xs'.flatMap (·.stored s), s.FitsStored y := by
  induction h with
  | nil => exact nofun
  | cons hx _ ih => exact List.forall_mem_append.2 ⟨hx.fits_stored hs, ih⟩

theorem Method.Typed.fits_stored (hs : s.Indexed) {m : Method} {m' : LinkedMethod}
    (h : m.Typed s m') : ∀ y ∈ m'.stored s, s.FitsStored y := by
  refine List.forall_mem_append.2 ⟨?_, fits_storedIn hs h.annotations⟩
  rw [List.flatMap_append]
  refine List.forall_mem_append.2 ⟨fits_storedInParams hs h.params, ?_⟩
  have hresults := h.results
  generalize m.results = rs, m'.results = rs' at hresults
  cases hresults with
  | none => exact nofun
  | some hresults => exact fits_storedInParams hs hresults

theorem Enum.Typed.fits_stored (hs : s.Indexed) {d : Enum} {d' : LinkedEnum}
    (h : d.Typed s d') : ∀ x ∈ (LinkedDecl.enum d').stored s, s.FitsStored x := by
  refine List.forall_mem_append.2 ⟨fits_storedIn hs h.annotations, ?_⟩
  have henumerants := h.enumerants
  generalize d.enumerants = es, d'.enumerants = es' at henumerants
  induction henumerants with
  | nil => exact nofun
  | cons he _ ih => exact List.forall_mem_append.2 ⟨fits_storedIn hs he, ih⟩

mutual

theorem Decl.Typed.fits_stored (hs : s.Indexed) : ∀ (d : Decl) (d' : LinkedDecl),
    d.Typed s d' → ∀ x ∈ d'.stored s, s.FitsStored x
  | .const d, .const _, h =>
    List.forall_mem_cons.2 ⟨⟨d.value, h.value⟩, fits_storedIn hs h.annotations⟩
  | .struct _ ms, .struct _ ms', h =>
    List.forall_mem_append.2 ⟨fits_storedIn hs h.1, fits_storedInMembers hs ms ms' h.2⟩
  | .enum _, .enum _, h => Enum.Typed.fits_stored hs h
  | .interface _ _ ms, .interface _ _ methods nested _, h =>
    List.forall_mem_append.2 ⟨fits_storedIn hs h.1, fits_storedInInterface hs ms methods nested h.2⟩
  | .annotationDecl _, .annotationDecl _, h => fits_storedIn hs h.annotations
  | .pathAlias _, .pathAlias _ _, _ | .importAlias _, .importAlias _ _ _, _ => nofun

theorem Member.Typed.fits_stored (hs : s.Indexed) : ∀ (m : Member) (m' : LinkedMember),
    m.Typed s m' → ∀ x ∈ m'.stored s, s.FitsStored x
  | .field _, .field _, h => Field.Typed.fits_stored hs h
  | .union _ _ ms, .union _ _ ms', h =>
    List.forall_mem_append.2 ⟨fits_storedIn hs h.1, fits_storedInMembers hs ms ms' h.2⟩
  | .anonymousUnion _ _ ms, .anonymousUnion _ ms', h =>
    List.forall_mem_append.2 ⟨fits_storedIn hs h.1, fits_storedInMembers hs ms ms' h.2⟩
  | .group _ ms, .group _ ms', h =>
    List.forall_mem_append.2 ⟨fits_storedIn hs h.1, fits_storedInMembers hs ms ms' h.2⟩
  | .decl d, .decl d', h => Decl.Typed.fits_stored hs d d' h

theorem fits_storedInMembers (hs : s.Indexed) : ∀ (ms : List Member) (ms' : List LinkedMember),
    membersTyped s ms ms' → ∀ x ∈ storedInMembers s ms', s.FitsStored x
  | [], [], _ => nofun
  | m :: ms, m' :: ms', h =>
    List.forall_mem_append.2
      ⟨Member.Typed.fits_stored hs m m' h.1, fits_storedInMembers hs ms ms' h.2⟩

theorem fits_storedInInterface (hs : s.Indexed) : ∀ (ms : List InterfaceMember)
    (methods : List LinkedMethod) (nested : List LinkedDecl),
    interfaceMembersTyped s ms methods nested →
      ∀ x ∈ methods.flatMap (·.stored s) ++ storedInDecls s nested, s.FitsStored x
  | [], [], [], _ => nofun
  | .method m :: ms, m' :: methods, nested, h => by
    rw [List.flatMap_cons, List.append_assoc]
    exact List.forall_mem_append.2
      ⟨Method.Typed.fits_stored hs h.1, fits_storedInInterface hs ms methods nested h.2⟩
  | .decl d :: ms, methods, d' :: nested, h => by
    obtain ⟨hmethods, hnested⟩ :=
      List.forall_mem_append.1 (fits_storedInInterface hs ms methods nested h.2)
    exact List.forall_mem_append.2
      ⟨hmethods, List.forall_mem_append.2 ⟨Decl.Typed.fits_stored hs d d' h.1, hnested⟩⟩

end

/-- The values in a typed module fit their types. -/
theorem Module.Typed.fits_stored (hs : s.Indexed) {m : Module} {m' : LinkedModule}
    (h : m.Typed s m') : ∀ x ∈ m'.stored s, s.FitsStored x := by
  refine List.forall_mem_append.2 ⟨fits_storedIn hs h.annotations, ?_⟩
  have hdecls := h.decls
  generalize m.decls = ds, m'.decls = ds' at hdecls
  induction hdecls with
  | nil => exact nofun
  | cons hd _ ih => exact List.forall_mem_append.2 ⟨Decl.Typed.fits_stored hs _ _ hd, ih⟩

end Typed

/-! ## The values of constants -/

section Constants

variable {s : Schema} {c : LinkedConst} (module : ModuleId)

mutual

theorem stored_of_mem_nodes : ∀ (d : LinkedDecl) (parent : Option DeclId),
    ∀ n ∈ d.nodes module parent, n.content = .const c → (c.type, c.value) ∈ d.stored s
  | .const d, _ => by
    refine List.forall_mem_singleton.2 fun hc => ?_
    obtain rfl := LinkedNode.const.inj hc
    exact List.mem_cons_self
  | .struct _ ms, _ =>
    List.forall_mem_cons.2 ⟨nofun, fun n hn hc =>
      List.mem_append_right _ (stored_of_mem_memberNodes ms _ n hn hc)⟩
  | .enum _, _ | .annotationDecl _, _ => List.forall_mem_singleton.2 nofun
  | .interface _ _ _ nested _, _ =>
    List.forall_mem_cons.2 ⟨nofun, fun n hn hc => List.mem_append_right _
      (List.mem_append_right _ (stored_of_mem_declNodes nested _ n hn hc))⟩
  | .pathAlias _ _, _ | .importAlias _ _ _, _ => nofun

theorem stored_of_mem_declNodes : ∀ (ds : List LinkedDecl) (parent : Option DeclId),
    ∀ n ∈ declNodes module parent ds, n.content = .const c →
      (c.type, c.value) ∈ storedInDecls s ds
  | [], _ => nofun
  | d :: ds, parent =>
    List.forall_mem_append.2
      ⟨fun n hn hc => List.mem_append_left _ (stored_of_mem_nodes d parent n hn hc),
        fun n hn hc => List.mem_append_right _ (stored_of_mem_declNodes ds parent n hn hc)⟩

theorem stored_of_mem_memberNode : ∀ (m : LinkedMember) (parent : Option DeclId),
    ∀ n ∈ m.nodes module parent, n.content = .const c → (c.type, c.value) ∈ m.stored s
  | .field _, _ => nofun
  | .union _ _ ms, _ | .group _ ms, _ =>
    List.forall_mem_cons.2 ⟨nofun, fun n hn hc =>
      List.mem_append_right _ (stored_of_mem_memberNodes ms _ n hn hc)⟩
  | .anonymousUnion _ ms, parent => fun n hn hc =>
    List.mem_append_right _ (stored_of_mem_memberNodes ms parent n hn hc)
  | .decl d, parent => stored_of_mem_nodes d parent

theorem stored_of_mem_memberNodes : ∀ (ms : List LinkedMember) (parent : Option DeclId),
    ∀ n ∈ memberNodes module parent ms, n.content = .const c →
      (c.type, c.value) ∈ storedInMembers s ms
  | [], _ => nofun
  | m :: ms, parent =>
    List.forall_mem_append.2
      ⟨fun n hn hc => List.mem_append_left _ (stored_of_mem_memberNode m parent n hn hc),
        fun n hn hc => List.mem_append_right _ (stored_of_mem_memberNodes ms parent n hn hc)⟩

end

end Constants

/-- The value of a constant is stored for its own type. -/
theorem Schema.stored_of_constant? {s : Schema} {id : DeclId} {c : LinkedConst}
    (h : s.constant? id = some c) : (c.type, c.value) ∈ s.stored := by
  unfold constant? at h
  split at h
  · next c' hnode =>
    obtain rfl := Option.some.inj h
    obtain ⟨n, hn, hc⟩ := Option.map_eq_some_iff.1 hnode
    obtain ⟨⟨m, i⟩, hm, hn⟩ := List.mem_flatMap.1 (List.mem_of_find?_eq_some hn)
    obtain ⟨d, hd, hn⟩ := List.mem_flatMap.1 hn
    refine List.mem_flatMap.2 ⟨m, List.fst_mem_of_mem_zipIdx hm, List.mem_append_right _ ?_⟩
    exact List.mem_flatMap.2 ⟨d, hd, stored_of_mem_nodes i d none n hn hc⟩
  · cases h

end SchemaLang
