import Mathlib.Data.Fintype.Card
import Mathlib.Data.Set.Finite.Basic
import Mathlib.Logic.Relation
import SchemaLang.Proofs.Linking.Places

/-!
# Replacing constants by their values

`Schema.replace` puts the value of its declaration in the place of each constant in a value.  Doing
so again and again comes to a value without constants if and only if no constant that is met on the
way leads back to itself: `Schema.stops_iff`.
-/

namespace SchemaLang

/-! ## Values from their parts -/

/-- What holds of a list or struct as soon as it holds of all that stands in it, and of all other
values, holds of every value. -/
theorem Value.induction {P : Value → Prop} (void : P .void) (bool : ∀ b, P (.bool b))
    (int : ∀ n, P (.int n)) (float : ∀ x, P (.float x)) (text : ∀ t, P (.text t))
    (data : ∀ bytes, P (.data bytes)) (enumerant : ∀ id ordinal, P (.enumerant id ordinal))
    (list : ∀ items, (∀ v ∈ items, P v) → P (.list items))
    (struct : ∀ fields, (∀ f ∈ fields, P f.2) → P (.struct fields)) (const : ∀ id, P (.const id))
    (unresolvedConst : ∀ path, P (.unresolvedConst path))
    (deferred : ∀ literal, P (.deferred literal)) (v : Value) : P v :=
  @Value.rec P (fun items => ∀ v ∈ items, P v) (fun fields => ∀ f ∈ fields, P f.2) (fun f => P f.2)
    void bool int float text data enumerant list struct const unresolvedConst deferred
    nofun (fun _ _ hv hvs => List.forall_mem_cons.2 ⟨hv, hvs⟩)
    nofun (fun _ _ hf hfields => List.forall_mem_cons.2 ⟨hf, hfields⟩) (fun _ _ hv => hv) v

/-! ## Constants in a value -/

mutual

/-- The constants in a value, at its top or inside lists and structs. -/
def Value.consts : Value → List DeclId
  | .const id => [id]
  | .list items => itemConsts items
  | .struct fields => fieldConsts fields
  | _ => []

/-- The constants in the items of a list. -/
def itemConsts : List Value → List DeclId
  | [] => []
  | v :: vs => v.consts ++ itemConsts vs

/-- The constants in the fields of a struct. -/
def fieldConsts : List (String × Value) → List DeclId
  | [] => []
  | (_, v) :: fields => v.consts ++ fieldConsts fields

end

@[simp] theorem Value.consts_list (items : List Value) :
    (Value.list items).consts = items.flatMap Value.consts := by
  rw [consts]
  induction items with
  | nil => rfl
  | cons v vs ih => rw [itemConsts, ih, List.flatMap_cons]

@[simp] theorem Value.consts_struct (fields : List (String × Value)) :
    (Value.struct fields).consts = fields.flatMap fun f => f.2.consts := by
  rw [consts]
  induction fields with
  | nil => rfl
  | cons f fields ih => rw [fieldConsts, ih, List.flatMap_cons]

section Subst

variable (σ : DeclId → Value)

mutual

/-- The value with others in the place of its constants. -/
def Value.subst : Value → Value
  | .const id => σ id
  | .list items => .list (substItems items)
  | .struct fields => .struct (substFields fields)
  | v => v

/-- The items of a list with values in the place of their constants. -/
def substItems : List Value → List Value
  | [] => []
  | v :: vs => v.subst :: substItems vs

/-- The fields of a struct with values in the place of their constants. -/
def substFields : List (String × Value) → List (String × Value)
  | [] => []
  | (name, v) :: fields => (name, v.subst) :: substFields fields

end

@[simp] theorem Value.subst_list (items : List Value) :
    (Value.list items).subst σ = .list (items.map (Value.subst σ)) := by
  refine congrArg Value.list ?_
  induction items with
  | nil => rfl
  | cons v vs ih => rw [substItems, ih, List.map_cons]

@[simp] theorem Value.subst_struct (fields : List (String × Value)) :
    (Value.struct fields).subst σ = .struct (fields.map fun f => (f.1, f.2.subst σ)) := by
  refine congrArg Value.struct ?_
  induction fields with
  | nil => rfl
  | cons f fields ih => rw [substFields, ih, List.map_cons]

theorem consts_subst (v : Value) :
    (v.subst σ).consts = v.consts.flatMap fun id => (σ id).consts := by
  induction v using Value.induction with
  | const id => exact (List.flatMap_singleton _ _).symm
  | list items ih =>
    simp only [Value.subst_list, Value.consts_list, List.flatMap_map, List.flatMap_assoc]
    exact List.flatMap_congr ih
  | struct fields ih =>
    simp only [Value.subst_struct, Value.consts_struct, List.flatMap_map, List.flatMap_assoc]
    exact List.flatMap_congr ih
  | _ => rfl

theorem subst_subst (τ : DeclId → Value) (v : Value) :
    (v.subst σ).subst τ = v.subst fun id => (σ id).subst τ := by
  induction v using Value.induction with
  | list items ih =>
    simp only [Value.subst_list, List.map_map]
    exact congrArg Value.list (List.map_congr_left ih)
  | struct fields ih =>
    simp only [Value.subst_struct, List.map_map]
    exact congrArg Value.struct (List.map_congr_left fun f hf => congrArg (f.1, ·) (ih f hf))
  | _ => rfl

variable {σ}

/-- Only what is put in the place of the constants of the value matters. -/
theorem subst_congr {τ : DeclId → Value} (v : Value) :
    (∀ id ∈ v.consts, σ id = τ id) → v.subst σ = v.subst τ := by
  induction v using Value.induction with
  | const id => exact fun h => h id List.mem_cons_self
  | list items ih =>
    intro h
    simp only [Value.consts_list, List.forall_mem_flatMap] at h
    simp only [Value.subst_list]
    exact congrArg Value.list (List.map_congr_left fun v hv => ih v hv (h v hv))
  | struct fields ih =>
    intro h
    simp only [Value.consts_struct, List.forall_mem_flatMap] at h
    simp only [Value.subst_struct]
    exact congrArg Value.struct
      (List.map_congr_left fun f hf => congrArg (f.1, ·) (ih f hf (h f hf)))
  | _ => exact fun _ => rfl

theorem subst_const (v : Value) : v.subst .const = v := by
  induction v using Value.induction with
  | list items ih =>
    rw [Value.subst_list, List.map_congr_left ih, List.map_id']
  | struct fields ih =>
    have hfields : fields.map (fun f => (f.1, f.2.subst .const)) = fields.map id :=
      List.map_congr_left fun f hf => congrArg (f.1, ·) (ih f hf)
    rw [Value.subst_struct, hfields, List.map_id]
  | _ => rfl

end Subst

/-! ## Replacing -/

namespace Schema

/-- The named declaration with an id. -/
def node? (s : Schema) (id : DeclId) : Option LinkedNode :=
  (s.nodes.find? fun n => n.content.id = id).map Node.content

/-- The constant with an id. -/
def constant? (s : Schema) (id : DeclId) : Option LinkedConst :=
  match s.node? id with
  | some (.const c) => some c
  | _ => none

/-- What is put in the place of a constant: its value. -/
def constValue (s : Schema) (id : DeclId) : Value :=
  ((s.constant? id).map LinkedConst.value).getD (.const id)

/-- The value with those of its constants in their place. -/
def replace (s : Schema) (v : Value) : Value := v.subst s.constValue

/-- Replacing constants again and again comes to a value without constants. -/
def Stops (s : Schema) (v : Value) : Prop := ∃ n, (s.replace^[n] v).consts = []

/-- The constant `b` stands in the value of the constant `a`. -/
def Mentions (s : Schema) (a b : DeclId) : Prop := b ∈ (s.constValue a).consts

/-- The constant is one of those in the value, or in the value of one that the value leads to. -/
def LeadsTo (s : Schema) (v : Value) (id : DeclId) : Prop :=
  ∃ a ∈ v.consts, Relation.ReflTransGen s.Mentions a id

/-- The value leads to no constant that leads back to itself. -/
def Acyclic (s : Schema) (v : Value) : Prop :=
  ∀ id, s.LeadsTo v id → ¬Relation.TransGen s.Mentions id id

variable {s : Schema} {v : Value}

theorem replace_iterate (s : Schema) (n : Nat) :
    ∀ v, s.replace^[n] v = v.subst fun id => s.replace^[n] (.const id) := by
  induction n with
  | zero => exact fun v => (subst_const v).symm
  | succ n ih =>
    intro v
    simp only [Function.iterate_succ_apply']
    rw [ih, replace, subst_subst]
    rfl

theorem replace_eq_self (h : v.consts = []) : s.replace v = v := by
  have hconst : v.subst s.constValue = v.subst .const := by
    refine subst_congr v ?_
    rw [h]
    exact nofun
  exact hconst.trans (subst_const v)

/-- After a value without constants nothing changes. -/
theorem replace_iterate_of_le {n m : Nat} (h : (s.replace^[n] v).consts = []) (hnm : n ≤ m) :
    s.replace^[m] v = s.replace^[n] v := by
  induction m, hnm using Nat.le_induction with
  | base => rfl
  | succ m _ ih => rw [Function.iterate_succ_apply', ih, replace_eq_self h]

/-- Each constant of a value is replaced apart from the others. -/
theorem consts_iterate_eq_nil_iff {n : Nat} :
    (s.replace^[n] v).consts = [] ↔ ∀ id ∈ v.consts, (s.replace^[n] (.const id)).consts = [] := by
  rw [replace_iterate, consts_subst, List.flatMap_eq_nil_iff]

theorem consts_iterate_const_eq_nil_iff {n : Nat} {a : DeclId} :
    (s.replace^[n + 1] (.const a)).consts = [] ↔
      ∀ b, s.Mentions a b → (s.replace^[n] (.const b)).consts = [] := by
  rw [Function.iterate_succ_apply]
  exact consts_iterate_eq_nil_iff

/-- Replacing in a value stops if it does for each of its constants. -/
theorem stops_iff_forall : s.Stops v ↔ ∀ id ∈ v.consts, s.Stops (.const id) := by
  constructor
  · rintro ⟨n, hn⟩ id hid
    exact ⟨n, consts_iterate_eq_nil_iff.1 hn id hid⟩
  · intro h
    have hbound : ∃ n, ∀ id ∈ v.consts, (s.replace^[n] (.const id)).consts = [] := by
      generalize v.consts = ids at h
      induction ids with
      | nil => exact ⟨0, nofun⟩
      | cons id ids ih =>
        obtain ⟨⟨n, hn⟩, hids⟩ := List.forall_mem_cons.1 h
        obtain ⟨m, hm⟩ := ih hids
        refine ⟨max n m, List.forall_mem_cons.2 ⟨?_, fun id hid => ?_⟩⟩
        · rw [replace_iterate_of_le hn (Nat.le_max_left n m), hn]
        · rw [replace_iterate_of_le (hm id hid) (Nat.le_max_right n m), hm id hid]
    obtain ⟨n, hn⟩ := hbound
    exact ⟨n, consts_iterate_eq_nil_iff.2 hn⟩

theorem stops_const_iff {a : DeclId} :
    s.Stops (.const a) ↔ ∀ b, s.Mentions a b → s.Stops (.const b) := by
  have hvalue : s.Stops (.const a) ↔ s.Stops (s.constValue a) := by
    constructor
    · rintro ⟨_ | n, hn⟩
      · cases hn
      · exact ⟨n, hn⟩
    · exact fun ⟨n, hn⟩ => ⟨n + 1, hn⟩
  exact hvalue.trans stops_iff_forall

/-! ## Cycles -/

/-- A constant that stops leads in fewer steps to those in its value, so not to itself. -/
theorem consts_iterate_of_transGen {a b : DeclId} (hab : Relation.TransGen s.Mentions a b) :
    ∀ n, (s.replace^[n] (.const a)).consts = [] →
      ∃ m < n, (s.replace^[m] (.const b)).consts = [] := by
  induction hab with
  | single hab =>
    rintro (_ | n) hn
    · cases hn
    · exact ⟨n, n.lt_succ_self, consts_iterate_const_eq_nil_iff.1 hn _ hab⟩
  | tail _ hbc ih =>
    intro n hn
    obtain ⟨_ | m, hm, hb⟩ := ih n hn
    · cases hb
    · exact ⟨m, by omega, consts_iterate_const_eq_nil_iff.1 hb _ hbc⟩

theorem not_transGen_of_stops {a : DeclId} (h : s.Stops (.const a)) :
    ¬Relation.TransGen s.Mentions a a := by
  obtain ⟨n, hn⟩ := h
  induction n using Nat.strongRecOn with
  | ind n ih =>
    intro hcycle
    obtain ⟨m, hm, ha⟩ := consts_iterate_of_transGen hcycle n hn
    exact ih m hm ha hcycle

theorem Stops.of_leadsTo (h : s.Stops v) {id : DeclId} (hid : s.LeadsTo v id) :
    s.Stops (.const id) := by
  obtain ⟨a, ha, hpath⟩ := hid
  induction hpath with
  | refl => exact stops_iff_forall.1 h a ha
  | tail _ hbc ih => exact stops_const_iff.1 ih _ hbc

/-- A constant that is not in its own value is declared. -/
theorem mem_nodes_of_not_mentions {a : DeclId} (h : ¬s.Mentions a a) :
    a ∈ s.nodes.map fun n => n.content.id := by
  by_contra hmem
  refine h ?_
  have hnone : s.nodes.find? (fun n => n.content.id = a) = none :=
    List.find?_eq_none.2 fun n hn hid => hmem (List.mem_map.2 ⟨n, hn, of_decide_eq_true hid⟩)
  have hvalue : s.constValue a = .const a := by
    rw [constValue, constant?, node?, hnone]
    rfl
  rw [Mentions, hvalue]
  exact List.mem_cons_self

/-- Where no constant leads back to itself, replacing stops: there are finitely many. -/
theorem stops_of_acyclic {a : DeclId}
    (h : ∀ id, Relation.ReflTransGen s.Mentions a id → ¬Relation.TransGen s.Mentions id id) :
    s.Stops (.const a) := by
  let reached : Set DeclId := {id | Relation.ReflTransGen s.Mentions a id}
  have hfinite : Finite reached := by
    have hids := List.finite_toSet (s.nodes.map fun n => n.content.id)
    refine Set.Finite.to_subtype (hids.subset fun id hid => ?_)
    exact mem_nodes_of_not_mentions fun hself => h id hid (.single hself)
  let after : reached → reached → Prop := fun y x => Relation.TransGen s.Mentions x y
  have htrans : IsTrans reached after := ⟨fun _ _ _ hxy hyz => hyz.trans hxy⟩
  have hirrefl : Std.Irrefl after := ⟨fun x => h x x.2⟩
  have hwf : WellFounded after := Finite.wellFounded_of_trans_of_irrefl after
  have hall : ∀ x : reached, s.Stops (.const x) := by
    intro x
    induction x using hwf.induction with
    | _ x ih => exact stops_const_iff.2 fun b hb => ih ⟨b, x.2.tail hb⟩ (.single hb)
  exact hall ⟨a, .refl⟩

/-- Replacing constants stops if and only if no constant that is met leads back to itself. -/
theorem stops_iff : s.Stops v ↔ s.Acyclic v := by
  constructor
  · exact fun h id hid => not_transGen_of_stops (h.of_leadsTo hid)
  · exact fun h => stops_iff_forall.2 fun a ha => stops_of_acyclic fun id hid => h id ⟨a, ha, hid⟩

end Schema

end SchemaLang
