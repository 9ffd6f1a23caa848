import SchemaLang.Proofs.Constants.Replacing
import SchemaLang.Proofs.Loading.Run
import SchemaLang.Proofs.Typing.Fits

/-!
# Values of the shape of their types

`Schema.Matches` says that a value has the shape of a type, given which constants may stand at a
place of which type.  What comes of a value whose constants are replaced has the shape of its type
if and only if what comes of each of its constants has the shape of the type of its place:
`Schema.matches_iterate_iff`.  It does if each constant that is met is of the type of its place:
`Schema.Agrees.matches_iterate`.
-/

namespace SchemaLang

namespace Schema

/-- The value has the shape of the type, where a constant may stand at a place of a type that it is
allowed at.  What was left unresolved or deferred may stand at every place. -/
inductive Matches (s : Schema) (allowed : DeclId → SchemaType → Prop) : SchemaType → Value → Prop
  | const {t : SchemaType} {id : DeclId} (isAllowed : allowed id t) :
      Matches s allowed t (.const id)
  | unresolvedConst {t : SchemaType} {path : Path} : Matches s allowed t (.unresolvedConst path)
  | deferred {t : SchemaType} {literal : Literal} : Matches s allowed t (.deferred literal)
  | void : Matches s allowed (.builtin .void) .void
  | bool {b : Bool} : Matches s allowed (.builtin .bool) (.bool b)
  | text {t : String} : Matches s allowed (.builtin .text) (.text t)
  | data {bytes : List UInt8} : Matches s allowed (.builtin .data) (.data bytes)
  | int {t : IntType} {n : Int} (holds : t.Holds n) :
      Matches s allowed (.builtin (.numeric (.int t))) (.int n)
  | float {t : FloatType} {x : Binary64} (finite : x.IsFinite) (bounded : x.units ≤ t.max.units) :
      Matches s allowed (.builtin (.numeric (.float t))) (.float x)
  | enumerant {d : LinkedEnum} {ordinal : Nat} (declared : ∃ n ∈ s.nodes, n.content = .enum d)
      (listed : ∃ e ∈ d.enumerants, e.ordinal = ordinal) :
      Matches s allowed (.decl d.id) (.enumerant d.id ordinal)
  | list {element : SchemaType} {items : List Value}
      (fit : ∀ v ∈ items, Matches s allowed element v) :
      Matches s allowed (.list element) (.list items)
  | struct {id : DeclId} {ms : List LinkedMember} {fields : List (String × Value)}
      (declared : (id, ms) ∈ s.bodies)
      (slots : ∀ f ∈ fields, ((memberSlots ms).lookup f.1).isSome)
      (fit : ∀ f ∈ fields, ∀ t, (memberSlots ms).lookup f.1 = some t → Matches s allowed t f.2) :
      Matches s allowed (.decl id) (.struct fields)

variable {s : Schema} {allowed allowed' : DeclId → SchemaType → Prop} {t : SchemaType} {v : Value}

/-! ## Values of literals -/

mutual

/-- The value of a literal has the shape of its type but for constants. -/
theorem Fits.matches {t : SchemaType} {literal : Literal} {v : Value} :
    s.Fits t literal v → s.Matches (fun id _ => s.places.const id) t v
  | .deferred => .deferred
  | .const _ isConst => .const isConst
  | .unresolvedConst _ => .unresolvedConst
  | .void => .void
  | .bool => .bool
  | .text => .text
  | .data => .data
  | .int _ _ holds => .int holds
  | .float _ _ finite bounded => .float finite bounded
  | .enumerant declared listed => by
    obtain ⟨e, he, heq⟩ := List.mem_map.1 (mem_of_lookup listed)
    exact .enumerant declared ⟨e, he, congrArg Prod.snd heq⟩
  | .list fit => .list (ItemsFit.matches fit)
  | .struct declared fit =>
    .struct declared (fun f hf => (InitsFit.matches fit f hf).1)
      fun f hf => (InitsFit.matches fit f hf).2

theorem ItemsFit.matches {element : SchemaType} {items : List Literal} {values : List Value} :
    s.ItemsFit element items values →
      ∀ v ∈ values, s.Matches (fun id _ => s.places.const id) element v
  | .nil => nofun
  | .cons head tail => List.forall_mem_cons.2 ⟨Fits.matches head, ItemsFit.matches tail⟩

theorem InitsFit.matches {slots : List (String × SchemaType)} {inits : List (Ident × Literal)}
    {fields : List (String × Value)} : s.InitsFit slots inits fields →
      ∀ f ∈ fields, (slots.lookup f.1).isSome ∧ ∀ t, slots.lookup f.1 = some t →
        s.Matches (fun id _ => s.places.const id) t f.2
  | .nil => nofun
  | .cons slot head tail => by
    refine List.forall_mem_cons.2 ⟨⟨Option.isSome_of_eq_some slot, fun t ht => ?_⟩,
      InitsFit.matches tail⟩
    exact Option.some.inj (slot.symm.trans ht) ▸ Fits.matches head

end

/-! ## Values with others in the place of their constants -/

theorem Matches.subst {σ : DeclId → Value} (h : s.Matches allowed t v) :
    (∀ id ∈ v.consts, ∀ t, allowed id t → s.Matches allowed' t (σ id)) →
      s.Matches allowed' t (v.subst σ) := by
  induction h with
  | const isAllowed => exact fun hσ => hσ _ List.mem_cons_self _ isAllowed
  | unresolvedConst => exact fun _ => .unresolvedConst
  | deferred => exact fun _ => .deferred
  | void => exact fun _ => .void
  | bool => exact fun _ => .bool
  | text => exact fun _ => .text
  | data => exact fun _ => .data
  | int holds => exact fun _ => .int holds
  | float finite bounded => exact fun _ => .float finite bounded
  | enumerant declared listed => exact fun _ => .enumerant declared listed
  | list _ ih =>
    intro hσ
    rw [Value.consts_list, List.forall_mem_flatMap] at hσ
    rw [Value.subst_list]
    exact .list (List.forall_mem_map.2 fun v hv => ih v hv (hσ v hv))
  | struct declared slots _ ih =>
    intro hσ
    rw [Value.consts_struct, List.forall_mem_flatMap] at hσ
    rw [Value.subst_struct]
    exact .struct declared (List.forall_mem_map.2 slots)
      (List.forall_mem_map.2 fun f hf t ht => ih f hf t ht (hσ f hf))

/-- What is put in the place of a constant has the shape of the type of that place. -/
theorem Matches.of_subst {σ : DeclId → Value} (v : Value) :
    ∀ {t : SchemaType}, s.Matches allowed t (v.subst σ) →
      s.Matches (fun id t => s.Matches allowed t (σ id)) t v := by
  induction v using Value.induction with
  | const id => exact fun h => .const h
  | list items ih =>
    intro t h
    rw [Value.subst_list] at h
    cases h with
    | list fit => exact .list fun v hv => ih v hv (List.forall_mem_map.1 fit v hv)
  | struct fields ih =>
    intro t h
    rw [Value.subst_struct] at h
    cases h with
    | struct declared slots fit =>
      exact .struct declared (List.forall_mem_map.1 slots)
        fun f hf t ht => ih f hf (List.forall_mem_map.1 fit f hf t ht)
  | _ =>
    intro t h
    cases h
    constructor <;> assumption

theorem Matches.mono (h : s.Matches allowed t v)
    (hallowed : ∀ id ∈ v.consts, ∀ t, allowed id t → allowed' id t) : s.Matches allowed' t v := by
  have hsubst : s.Matches allowed' t (v.subst .const) :=
    h.subst fun id hid t ht => .const (hallowed id hid t ht)
  rwa [subst_const] at hsubst

/-- A value without constants has its shape whichever are allowed. -/
theorem Matches.of_consts_eq_nil (h : s.Matches allowed t v) (hv : v.consts = []) :
    s.Matches allowed' t v := by
  refine h.mono ?_
  rw [hv]
  exact nofun

/-! ## Values whose constants are replaced -/

/-- After some rounds of replacing, a value has the shape of a type if and only if each of its
constants then has the shape of the type of its place. -/
theorem matches_iterate_iff {n : Nat} : s.Matches allowed t (s.replace^[n] v) ↔
    s.Matches (fun id t => s.Matches allowed t (s.replace^[n] (.const id))) t v := by
  rw [replace_iterate]
  exact ⟨Matches.of_subst v, fun h => h.subst fun _ _ _ hid => hid⟩

/-- The constant was declared with this type. -/
def HasType (s : Schema) (id : DeclId) (t : SchemaType) : Prop :=
  ∃ c, s.constant? id = some c ∧ c.type = t

/-- Each constant in the value, or in the value of a constant that it leads to, was declared with
the type of the place that it stands at. -/
structure Agrees (s : Schema) (t : SchemaType) (v : Value) : Prop where
  here : s.Matches s.HasType t v
  beyond : ∀ id, s.LeadsTo v id → ∀ c, s.constant? id = some c → s.Matches s.HasType c.type c.value

theorem LeadsTo.of_replace {id : DeclId} (h : s.LeadsTo (s.replace v) id) : s.LeadsTo v id := by
  obtain ⟨b, hb, hpath⟩ := h
  rw [replace, consts_subst] at hb
  obtain ⟨a, ha, hab⟩ := List.mem_flatMap.1 hb
  exact ⟨a, ha, hpath.head hab⟩

/-- A round of replacing keeps all types. -/
theorem Agrees.replace (h : s.Agrees t v) : s.Agrees t (s.replace v) := by
  refine ⟨h.here.subst fun id hid t ht => ?_, fun id hid => h.beyond id hid.of_replace⟩
  obtain ⟨c, hc, rfl⟩ := ht
  rw [constValue, hc]
  exact h.beyond id ⟨id, hid, .refl⟩ c hc

theorem Agrees.iterate (h : s.Agrees t v) (n : Nat) : s.Agrees t (s.replace^[n] v) := by
  induction n with
  | zero => exact h
  | succ n ih =>
    rw [Function.iterate_succ_apply']
    exact ih.replace

/-- If all constants that are met have the types of their places, what comes of the value has the
shape of its type. -/
theorem Agrees.matches_iterate (h : s.Agrees t v) {n : Nat} (hn : (s.replace^[n] v).consts = []) :
    s.Matches allowed t (s.replace^[n] v) :=
  (h.iterate n).here.of_consts_eq_nil hn

end Schema

end SchemaLang
