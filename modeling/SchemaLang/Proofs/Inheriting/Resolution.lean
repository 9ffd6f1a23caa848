import SchemaLang.Proofs.Clashing.Resolution
import SchemaLang.Proofs.Inheriting.Memo
import SchemaLang.Proofs.Inheriting.Visiting

/-!
# The methods of an interface

In what was loaded no interface declares two methods with the same ordinal, so remembering methods
and leaving out repetitions as they come gives what `Loaded.effectiveMethods` does, whatever is
asked for first.  `LoadsRoot.effectiveMethods_unfold` describes it by the unfolding: an error if the
interface leads to a cycle, and otherwise all methods of the unfolding without repetitions.
-/

namespace SchemaLang

open Relation

/-! ## Entries of interfaces -/

/-- The methods in an entry use the ordinals of one of the numbering spaces. -/
def Entry.MethodsIn (spaces : List (List Ordinal)) (e : Entry) : Prop :=
  ∀ body bases methods, e.content = .interface body bases methods →
    ∃ space ∈ spaces, methods.map Prod.snd = space.map Ordinal.value

theorem Entry.MethodsIn.mono {spaces spaces' : List (List Ordinal)} {e : Entry}
    (h : e.MethodsIn spaces) (hsub : spaces ⊆ spaces') : e.MethodsIn spaces' := by
  intro body bases methods hcontent
  obtain ⟨space, hspace, hmethods⟩ := h body bases methods hcontent
  exact ⟨space, hsub hspace, hmethods⟩

theorem ordinals_interfaceMembers : ∀ ms : List PlacedInterfaceMember,
    (ms.filterMap (·.method?)).map Method.ordinal =
      (interfaceMemberTrees ms).filterMap InterfaceMember.ordinal?
  | [] => rfl
  | .method m :: ms => congrArg (m.ordinal :: ·) (ordinals_interfaceMembers ms)
  | .decl _ :: ms => ordinals_interfaceMembers ms

section Entries

variable (module : ModuleId)

mutual

theorem methodsIn_entries_decl : ∀ (d : PlacedDecl) (parent : Option DeclId) (home : ScopeId),
    ∀ e ∈ d.entries module parent home, e.MethodsIn d.tree.spaceOrdinals
  | .const _ _, _, _ | .enum _ _, _, _ | .annotationDecl _ _, _, _ =>
    List.forall_mem_singleton.2 nofun
  | .pathAlias _, _, _ | .importAlias _, _, _ => fun _ h => absurd h List.not_mem_nil
  | .struct id body head ms, _, _ => by
    refine List.forall_mem_cons.2 ⟨nofun, fun e he => ?_⟩
    exact (methodsIn_memberEntries ms (some id) body e he).mono (List.subset_cons_self _ _)
  | .interface id body head bases ms, _, _ => by
    refine List.forall_mem_cons.2 ⟨fun body' bases' methods h => ?_, fun e he => ?_⟩
    · obtain ⟨-, -, rfl⟩ := EntryContent.interface.inj h
      refine ⟨_, List.mem_cons_self, ?_⟩
      rw [← ordinals_interfaceMembers, List.map_map, List.map_map]
      rfl
    · exact (methodsIn_interfaceMemberEntries ms (some id) body e he).mono
        (List.subset_cons_self _ _)

theorem methodsIn_entries_member : ∀ (m : PlacedMember) (parent : Option DeclId) (home : ScopeId),
    ∀ e ∈ m.entries module parent home, e.MethodsIn m.tree.spaceOrdinals
  | .field _, _, _ => fun _ h => absurd h List.not_mem_nil
  | .union id body _ _ ms, _, _ | .group id body _ ms, _, _ =>
    List.forall_mem_cons.2 ⟨nofun, methodsIn_memberEntries ms (some id) body⟩
  | .anonymousUnion body _ _ ms, parent, _ => methodsIn_memberEntries ms parent body
  | .decl d, parent, home => methodsIn_entries_decl d parent home

theorem methodsIn_memberEntries : ∀ (ms : List PlacedMember) (parent : Option DeclId)
    (home : ScopeId), ∀ e ∈ memberEntries module parent home ms,
      e.MethodsIn (memberSpaceOrdinals (memberTrees ms))
  | [], _, _ => fun _ h => absurd h List.not_mem_nil
  | m :: ms, parent, home => by
    refine List.forall_mem_append.2 ⟨fun e he => ?_, fun e he => ?_⟩
    · exact (methodsIn_entries_member m parent home e he).mono (List.subset_append_left _ _)
    · exact (methodsIn_memberEntries ms parent home e he).mono (List.subset_append_right _ _)

theorem methodsIn_interfaceMemberEntries : ∀ (ms : List PlacedInterfaceMember)
    (parent : Option DeclId) (home : ScopeId), ∀ e ∈ interfaceMemberEntries module parent home ms,
      e.MethodsIn (interfaceMemberSpaceOrdinals (interfaceMemberTrees ms))
  | [], _, _ => fun _ h => absurd h List.not_mem_nil
  | .method _ :: ms, parent, home => methodsIn_interfaceMemberEntries ms parent home
  | .decl d :: ms, parent, home => by
    refine List.forall_mem_append.2 ⟨fun e he => ?_, fun e he => ?_⟩
    · exact (methodsIn_entries_decl d parent home e he).mono (List.subset_append_left _ _)
    · exact (methodsIn_interfaceMemberEntries ms parent home e he).mono
        (List.subset_append_right _ _)

end

end Entries

variable {read : Option (String → Option String)} {root : Module} {s : LoadState}

/-- In what was loaded, the methods of each interface have different ordinals. -/
theorem LoadsRoot.distinctMethods (h : LoadsRoot read root (.ok ()) s) :
    s.loaded.DistinctMethods := by
  intro id
  obtain ⟨is, hplaced⟩ := h.tabled.wellPlaced
  unfold Loaded.ownMethods
  split
  · next body bases methods hcontent =>
    obtain ⟨e, he, hcontent⟩ := Option.map_eq_some_iff.1 hcontent
    have hmem : e ∈ s.loaded.entries.toList := Array.mem_toList_iff.2 (Array.mem_of_getElem? he)
    rw [hplaced.entries] at hmem
    obtain ⟨⟨x, i⟩, hx, hmem⟩ := List.mem_flatMap.1 hmem
    obtain ⟨d, hd, hmem⟩ := List.mem_flatMap.1 hmem
    obtain ⟨m, hholds, hdistinct⟩ := h.distinct x (List.fst_mem_of_mem_zipIdx hx)
    obtain ⟨space, hspace, hmethods⟩ :=
      methodsIn_entries_decl i d none x.scope e hmem body bases methods hcontent
    rw [List.map_map]
    show (methods.map Prod.snd).Nodup
    rw [hmethods]
    refine hdistinct.ordinals space ?_
    rw [Module.spaceOrdinals, ← hholds.decls, List.flatMap_map]
    exact List.mem_flatMap.2 ⟨d, hd, hspace⟩
  · exact List.nodup_nil

/-! ## Methods -/

namespace Loaded

variable {l : Loaded} (hdistinct : l.DistinctMethods) {id : DeclId}

include hdistinct

theorem DistinctMethods.methodsOf_eq (ids : List DeclId) :
    l.methodsOf ids = (keepNew (fun i => i) [] ids).flatMap l.ownMethods := by
  refine keepNew_flatMap hdistinct.nodup_keys (fun i x hx j y hy hkey => ?_) [] ids
  rw [← interface_of_mem_ownMethods hx, ← interface_of_mem_ownMethods hy]
  exact congrArg Prod.fst hkey

/-- The methods of an interface are those of its unfolding. -/
theorem DistinctMethods.effectiveMethods_eq {bound : Nat} (hbound : l.entries.size < bound)
    (id : DeclId) : l.effectiveMethods id = l.methodsOf <$> l.unfolding bound [] id := by
  rw [effectiveMethods, ancestry_eq hbound]
  cases l.unfolding bound [] id with
  | error e => rfl
  | ok ids => rw [ok_map, ok_bind, ok_map, hdistinct.methodsOf_eq, pure_eq_ok]

theorem DistinctMethods.mem_methodsOf {ids : List DeclId}
    (hids : l.Unfolds (fun id => [id]) id ids) {m : MethodRef} :
    m ∈ l.methodsOf ids ↔ ∃ b, ReflTransGen l.Extends id b ∧ m ∈ l.ownMethods b := by
  rw [hdistinct.methodsOf_eq, List.mem_flatMap]
  refine exists_congr fun b => and_congr_left fun _ => ?_
  rw [mem_keepNew, or_iff_right List.not_mem_nil, hids.mem_iff]
  constructor
  · rintro ⟨c, hreach, hb⟩
    exact List.mem_singleton.1 hb ▸ hreach
  · exact fun hreach => ⟨b, hreach, List.mem_singleton_self b⟩

/-- An interface's own methods come first. -/
theorem DistinctMethods.prefix_methodsOf {ids : List DeclId}
    (hids : l.Unfolds (fun id => [id]) id ids) : l.ownMethods id <+: l.methodsOf ids := by
  obtain ⟨inherited, -, -⟩ := hids
  rw [List.singleton_append, hdistinct.methodsOf_cons]
  exact prefix_keepNew _ _

/-- The methods of an interface are a cyclic error if it leads to a cycle. -/
theorem DistinctMethods.effectiveMethods_cyclic_iff (hresolve : l.BasesResolve id) :
    (∃ c, l.effectiveMethods id = l.cyclic c) ↔ l.LeadsToCycle id := by
  have hbound : (l.above []).card < l.entries.size + 1 := Nat.lt_succ_of_le (card_above_le [])
  rw [hdistinct.effectiveMethods_eq (Nat.lt_succ_self _)]
  rcases unfolding_or_cyclic _ [] id hresolve (List.forall_mem_nil _) hbound with
    ⟨ids, hids⟩ | ⟨hcycle, c, hc⟩
  · have hunfolds := unfolds_of_unfolding _ [] id hbound ids hids
    refine iff_of_false ?_ hunfolds.not_leadsToCycle
    rintro ⟨c, hc⟩
    obtain ⟨e, he⟩ := exists_cyclic (l := l) c
    rw [hids, he] at hc
    cases hc
  · refine iff_of_true ⟨c, ?_⟩ hcycle
    rw [hc, map_cyclic]

end Loaded

/-- Methods that are collected base by base and remembered are those of `effectiveMethods`, for any
interfaces that are asked for one after the other; nothing unfinished is remembered, and no
interface is left on the stack.  If all that an interface inherits from has interfaces as bases,
there is an error exactly if it leads to a cycle.  If it does not, it has one unfolding, its own
methods and then those of each base in turn, and its methods are those of the unfolding, each where
it comes first: its own methods at the beginning, and no method of an interface that it leads to
missing or twice. -/
theorem LoadsRoot.effectiveMethods_unfold (h : LoadsRoot read root (.ok ()) s) :
    (∀ bound, s.loaded.entries.size < bound → ∀ ids, ∃ memo,
      s.loaded.collectEach bound ids ⟨[], []⟩ =
        some (ids.map s.loaded.effectiveMethods, ⟨memo, []⟩) ∧ s.loaded.Remembers memo) ∧
    ∀ id, s.loaded.BasesResolve id →
      ((∃ c, s.loaded.effectiveMethods id = s.loaded.cyclic c) ↔ s.loaded.LeadsToCycle id) ∧
      (¬s.loaded.LeadsToCycle id → ∃ unfolded methods,
        s.loaded.Unfolds s.loaded.ownMethods id unfolded ∧
        (∀ other, s.loaded.Unfolds s.loaded.ownMethods id other → other = unfolded) ∧
        s.loaded.effectiveMethods id = .ok methods ∧
        methods = keepNew MethodRef.key [] unfolded ∧
        s.loaded.ownMethods id <+: methods ∧ (methods.map MethodRef.key).Nodup ∧
        ∀ m, m ∈ methods ↔
          ∃ b, ReflTransGen s.loaded.Extends id b ∧ m ∈ s.loaded.ownMethods b) := by
  have hdistinct := h.distinctMethods
  refine ⟨fun bound hbound ids => ?_, fun id hresolve =>
    ⟨hdistinct.effectiveMethods_cyclic_iff hresolve, fun hcycle => ?_⟩⟩
  · obtain ⟨memo, hrun, hmemo⟩ :=
      Loaded.collectEach_eq hdistinct hbound ids [] Loaded.remembers_nil
    refine ⟨memo, hrun.trans ?_, hmemo⟩
    rw [List.map_congr_left fun id _ => (hdistinct.effectiveMethods_eq hbound id).symm]
  · have hbound : (s.loaded.above []).card < s.loaded.entries.size + 1 :=
      Nat.lt_succ_of_le (Loaded.card_above_le [])
    obtain ⟨ids, hids⟩ := (Loaded.unfolding_or_cyclic _ [] id hresolve (List.forall_mem_nil _)
      hbound).resolve_right fun hcyclic => hcycle hcyclic.1
    have hunfolds := Loaded.unfolds_of_unfolding _ [] id hbound ids hids
    have hmethods : s.loaded.effectiveMethods id = .ok (s.loaded.methodsOf ids) := by
      rw [hdistinct.effectiveMethods_eq (Nat.lt_succ_self _), hids, ok_map]
    exact ⟨_, _, hunfolds.flatMap _, fun other hother => hother.unique (hunfolds.flatMap _),
      hmethods, rfl, hdistinct.prefix_methodsOf hunfolds, nodup_keepNew List.nodup_nil,
      fun m => hdistinct.mem_methodsOf hunfolds⟩

/-- Interfaces in a diamond, and one that is its own base. -/
def inheritingText : String :=
  "@0x1; interface A \x7b a @0 (); \x7d interface B extends(A) \x7b b @0 (); \x7d " ++
    "interface C extends(A) \x7b c @0 (); \x7d interface D extends(B, C) \x7b d @0 (); \x7d " ++
    "interface E extends(E) \x7b e @0 (); \x7d"

/-- What the diamond has at its top comes once below it, and the interface that is its own base has
no methods, whichever is asked for first. -/
theorem effectiveMethods_diamond : ∃ root s, Module.parse inheritingText = .ok root ∧
    LoadsRoot none root (.ok ()) s ∧ s.loaded.BasesResolve 3 ∧ s.loaded.BasesResolve 4 ∧
    s.loaded.effectiveMethods 3 = .ok [⟨3, "d", 0⟩, ⟨1, "b", 0⟩, ⟨0, "a", 0⟩, ⟨2, "c", 0⟩] ∧
    (∃ c, s.loaded.effectiveMethods 4 = s.loaded.cyclic c) ∧
    ∃ memo, s.loaded.collectEach 6 [4, 3, 0, 3] ⟨[], []⟩ =
      some ([4, 3, 0, 3].map s.loaded.effectiveMethods, ⟨memo, []⟩) := by
  have hfacts : ((Module.parse inheritingText).toOption.bind fun root =>
      let (r, s) := (Load.root none root).perform ⟨.empty, #[]⟩
      r.toOption.map fun _ => (s.loaded.entries.size,
        (List.range 5).map fun id => (s.loaded.basesOf id).toOption,
        (s.loaded.effectiveMethods 3).toOption)) =
      some (5, [some [], some [0], some [0], some [1, 2], some [4]],
        some [⟨3, "d", 0⟩, ⟨1, "b", 0⟩, ⟨0, "a", 0⟩, ⟨2, "c", 0⟩]) := by
    decide +kernel
  obtain ⟨root, hroot, hfacts⟩ := Option.bind_eq_some_iff.1 hfacts
  generalize hperform : (Load.root none root).perform ⟨.empty, #[]⟩ = outcome at hfacts
  obtain ⟨r, s⟩ := outcome
  obtain ⟨⟨⟩, hr, hfacts⟩ := Option.map_eq_some_iff.1 hfacts
  obtain ⟨hsize, hfacts⟩ := Prod.mk.inj hfacts
  obtain ⟨hbases, hmethods⟩ := Prod.mk.inj hfacts
  have hload : LoadsRoot none root (.ok ()) s :=
    loadsRoot_of_perform (hperform.trans (by rw [ok_of_toOption hr])) (.inl rfl)
  have hrange : List.range 5 = [0, 1, 2, 3, 4] := rfl
  simp only [hrange, List.map_cons, List.map_nil, List.cons.injEq, and_true] at hbases
  obtain ⟨hA, hB, hC, hD, hE⟩ := hbases
  have hresolve (id : DeclId) : s.loaded.BasesResolve id
    | 0, _ => ⟨_, ok_of_toOption hA⟩
    | 1, _ => ⟨_, ok_of_toOption hB⟩
    | 2, _ => ⟨_, ok_of_toOption hC⟩
    | 3, _ => ⟨_, ok_of_toOption hD⟩
    | 4, _ => ⟨_, ok_of_toOption hE⟩
    | b + 5, _ => by
      refine ⟨[], ?_⟩
      rw [Loaded.basesOf, Array.getElem?_eq_none (by omega)]
  have hself : s.loaded.basesOf 4 = .ok [4] := ok_of_toOption hE
  obtain ⟨hcollect, hunfold⟩ := hload.effectiveMethods_unfold
  obtain ⟨memo, hrun, -⟩ := hcollect 6 (hsize ▸ Nat.lt_succ_self 5) [4, 3, 0, 3]
  have hcycle : s.loaded.LeadsToCycle 4 :=
    ⟨4, .refl, .single ⟨[4], hself, List.mem_singleton_self 4⟩⟩
  exact ⟨root, s, ok_of_toOption hroot, hload, hresolve 3, hresolve 4, ok_of_toOption hmethods,
    (hunfold 4 (hresolve 4)).1.2 hcycle, memo, hrun⟩

end SchemaLang
