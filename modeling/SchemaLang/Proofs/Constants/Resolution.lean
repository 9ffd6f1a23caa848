import SchemaLang.Proofs.Constants.Matching
import SchemaLang.Proofs.Constants.Stored
import SchemaLang.Proofs.Typing.Resolution

/-!
# Constants in what was resolved

Resolving binds the name of a constant wherever a value may stand, but looks neither at the type of
the constant nor at what its value leads to.  So a value has the shape of its type but for constants
of any type, and replacing these stops only where no constant leads back to itself:
`resolve_constants`.
-/

namespace SchemaLang

/-! ## Values of a schema -/

namespace Schema

variable {s : Schema}

theorem indexed_of_nodup (h : (s.nodes.map fun n => n.content.id).Nodup) : s.Indexed := by
  intro n hn
  cases hfind : s.nodes.find? fun n' => n'.content.id = n.content.id with
  | none => exact absurd (decide_eq_true rfl) (List.find?_eq_none.1 hfind n hn)
  | some n' =>
    have hid : n'.content.id = n.content.id := by simpa using List.find?_some hfind
    have hn' := List.mem_of_find?_eq_some hfind
    rw [node?, hfind, List.inj_on_of_nodup_map h hn' hn hid]
    rfl

theorem isSome_constant? (hs : s.Indexed) {id : DeclId} (h : s.places.const id) :
    (s.constant? id).isSome := by
  obtain ⟨n, hn, rfl, hkind⟩ := h
  rw [constant?, hs n hn]
  cases hcontent : n.content with
  | const c => rfl
  | _ =>
    rw [hcontent] at hkind
    cases hkind

/-- The value has the shape of the type, and no constant stands in it. -/
def HasShape (s : Schema) : SchemaType → Value → Prop := s.Matches fun _ _ => False

/-- What comes of a value for a type when its constants are replaced by their values.  The value has
the shape of its type but for constants, which are all declared.  Replacing stops if and only if no
constant that the value leads to leads back to itself.  What it then comes to has the shape of the
type if and only if what each constant in the value comes to has that of the type of its place, as
when all constants were declared with the types of the places that they stand at. -/
structure Settles (s : Schema) (t : SchemaType) (v : Value) : Prop where
  shape : s.Matches (fun id _ => (s.constant? id).isSome) t v
  stops_iff : s.Stops v ↔ s.Acyclic v
  result_iff : ∀ n, (s.replace^[n] v).consts = [] → (s.HasShape t (s.replace^[n] v) ↔
    s.Matches (fun id t => s.HasShape t (s.replace^[n] (.const id))) t v)
  result : s.Agrees t v → ∀ n, (s.replace^[n] v).consts = [] → s.HasShape t (s.replace^[n] v)

theorem Fits.settles (hs : s.Indexed) {t : SchemaType} {literal : Literal} {v : Value}
    (h : s.Fits t literal v) : s.Settles t v where
  shape := h.matches.mono fun _ _ _ => isSome_constant? hs
  stops_iff := Schema.stops_iff
  result_iff _ _ := matches_iterate_iff
  result hagrees _ hn := hagrees.matches_iterate hn

end Schema

/-! ## All values -/

/-- Every value that is stored in a schema that comes of resolving is that of a literal. -/
theorem fits_of_resolve {source : Option ImportSource} {root : Module} {schema : Schema}
    (h : (resolve source root).result = .ok schema) : ∀ x ∈ schema.stored, schema.FitsStored x := by
  intro x hx
  obtain ⟨m', hm', hx⟩ := List.mem_flatMap.1 hx
  obtain ⟨m, -, htyped⟩ := typed_of_resolve h m' hm'
  exact htyped.fits_stored (Schema.indexed_of_nodup (nodup_ids h)) x hx

/-- In a schema that comes of resolving, every value is one that settles for the type that it is
stored for.  The values of the constants are among them, each for the type of its constant. -/
theorem resolve_constants {source : Option ImportSource} {root : Module} {schema : Schema}
    (h : (resolve source root).result = .ok schema) :
    (∀ x ∈ schema.stored, schema.Settles x.1 x.2) ∧
      ∀ id c, schema.constant? id = some c → (c.type, c.value) ∈ schema.stored := by
  refine ⟨fun x hx => ?_, fun id c => Schema.stored_of_constant?⟩
  obtain ⟨literal, hfits⟩ := fits_of_resolve h x hx
  exact hfits.settles (Schema.indexed_of_nodup (nodup_ids h))

/-- The constants that stand for a whole value, each with the type of that value. -/
def Schema.storedConstants (s : Schema) : List (SchemaType × DeclId) :=
  s.stored.filterMap fun
    | (t, .const id) => some (t, id)
    | _ => none

theorem Schema.mem_storedConstants {s : Schema} {t : SchemaType} {id : DeclId}
    (h : (t, id) ∈ s.storedConstants) : (t, .const id) ∈ s.stored := by
  obtain ⟨⟨t', v⟩, hx, heq⟩ := List.mem_filterMap.1 h
  cases v with
  | const id' =>
    cases heq
    exact hx
  | _ => cases heq

/-- A constant that stands for another one of its type. -/
def aliasText : String := "@0x1; const a :Bool = b; const b :Bool = true;"

theorem resolve_constants_alias :
    ∃ root schema, Module.parse aliasText = .ok root ∧ (resolve none root).result = .ok schema ∧
      (.builtin .bool, .const 1) ∈ schema.stored ∧ schema.Acyclic (.const 1) ∧
      schema.Agrees (.builtin .bool) (.const 1) ∧
      schema.HasShape (.builtin .bool) (schema.replace (.const 1)) := by
  have hfacts : ((Module.parse aliasText).toOption.bind fun root =>
      (resolve none root).result.toOption.map fun schema =>
        (schema.storedConstants, (schema.constant? 1).map LinkedConst.type,
          (schema.constValue 1).consts)) =
      some ([(.builtin .bool, 1)], some (.builtin .bool), []) := by
    decide +kernel
  obtain ⟨root, hroot, hfacts⟩ := Option.bind_eq_some_iff.1 hfacts
  obtain ⟨schema, hresult, hfacts⟩ := exists_ok_of_toOption hfacts
  obtain ⟨hstored, hfacts⟩ := Prod.mk.inj hfacts
  obtain ⟨htype, hconsts⟩ := Prod.mk.inj hfacts
  obtain ⟨c, hc, htype⟩ := Option.map_eq_some_iff.1 htype
  have hstored : (.builtin .bool, .const 1) ∈ schema.stored :=
    Schema.mem_storedConstants (hstored ▸ List.mem_cons_self)
  obtain ⟨hsettles, hconstants⟩ := resolve_constants hresult
  obtain ⟨-, hstops, -, hresult'⟩ := hsettles _ hstored
  have hagrees : schema.Agrees (.builtin .bool) (.const 1) := by
    refine ⟨.const ⟨c, hc, htype⟩, fun id hid c' hc' => ?_⟩
    obtain ⟨a, ha, hpath⟩ := hid
    obtain rfl : a = 1 := List.mem_singleton.1 ha
    rcases hpath.cases_head with rfl | ⟨b, hb, -⟩
    · obtain rfl := Option.some.inj (hc.symm.trans hc')
      rw [Schema.constValue, hc] at hconsts
      exact (hsettles _ (hconstants 1 c hc)).shape.of_consts_eq_nil hconsts
    · rw [Schema.Mentions, hconsts] at hb
      cases hb
  exact ⟨root, schema, ok_of_toOption hroot, hresult, hstored, hstops.1 ⟨1, hconsts⟩, hagrees,
    hresult' hagrees 1 hconsts⟩

/-- A text that stands for a number, and two constants that stand for each other. -/
def uncheckedText : String :=
  "@0x1; const a :Text = b; const b :Int8 = 1; const c :Int8 = d; const d :Int8 = c;"

/-- Neither is an error: what the first constant comes to is not a text, and that of the third one
is never reached. -/
theorem resolve_constants_unchecked :
    ∃ root schema t, Module.parse uncheckedText = .ok root ∧
      (resolve none root).result = .ok schema ∧
      (.builtin .text, .const 1) ∈ schema.stored ∧ (schema.replace (.const 1)).consts = [] ∧
      ¬schema.HasShape (.builtin .text) (schema.replace (.const 1)) ∧
      (t, .const 3) ∈ schema.stored ∧ ¬schema.Stops (.const 3) := by
  have hfacts : ((Module.parse uncheckedText).toOption.bind fun root =>
      (resolve none root).result.toOption.map fun schema =>
        (schema.storedConstants, [2, 3].map fun id => (schema.constValue id).consts,
          match schema.constValue 1 with
          | .int n => n
          | _ => 0)) =
      some ([(.builtin .text, 1), (.builtin (.numeric (.int ⟨true, .w8⟩)), 3),
        (.builtin (.numeric (.int ⟨true, .w8⟩)), 2)], [[3], [2]], 1) := by
    decide +kernel
  obtain ⟨root, hroot, hfacts⟩ := Option.bind_eq_some_iff.1 hfacts
  obtain ⟨schema, hresult, hfacts⟩ := exists_ok_of_toOption hfacts
  obtain ⟨hstored, hfacts⟩ := Prod.mk.inj hfacts
  obtain ⟨hconsts, hnumber⟩ := Prod.mk.inj hfacts
  obtain ⟨htwo, hthree⟩ : (schema.constValue 2).consts = [3] ∧
      (schema.constValue 3).consts = [2] := by simpa using hconsts
  have hvalue : schema.replace (.const 1) = .int 1 := by
    show schema.constValue 1 = .int 1
    split at hnumber
    · next n hn => rw [hn, hnumber]
    · cases hnumber
  refine ⟨root, schema, _, ok_of_toOption hroot, hresult,
    Schema.mem_storedConstants (hstored ▸ List.mem_cons_self), ?_, fun hshape => ?_,
    Schema.mem_storedConstants (hstored ▸ List.mem_cons_of_mem _ List.mem_cons_self),
    fun hstops => ?_⟩
  · rw [hvalue]
    rfl
  · rw [hvalue] at hshape
    cases hshape
  · have hcycle : Relation.TransGen schema.Mentions 3 3 :=
      .tail (.single (b := 2) (by simp [Schema.Mentions, hthree])) (by simp [Schema.Mentions, htwo])
    exact Schema.stops_iff.1 hstops 3 ⟨3, List.mem_cons_self, .refl⟩ hcycle

end SchemaLang
