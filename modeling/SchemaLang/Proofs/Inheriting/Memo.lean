import SchemaLang.Proofs.Inheriting.Unfolding
import SchemaLang.Proofs.Stateful

/-!
# Methods that are remembered

Here the methods of an interface are collected base by base, repetitions are left out as they come,
and what was collected for an interface is remembered for later requests: `Loaded.collect`.  The
interfaces whose methods are being collected are kept on a stack that all requests share.
`collect_eq` says that all this gives the methods of the unfolding.
-/

namespace SchemaLang

/-- The methods that were collected so far, and the interfaces for which they are being collected,
the last one first. -/
structure Inheritance where
  memo : List (DeclId × List MethodRef)
  stack : List DeclId

/-- A step of collecting methods. -/
abbrev Inheriting := Stateful Inheritance

/-- Collects for an interface and remembers the outcome, unless it fails. -/
def Inheriting.within (id : DeclId) (x : Inheriting (List MethodRef)) :
    Inheriting (List MethodRef) := fun s =>
  (x { s with stack := id :: s.stack }).map fun
    | (.ok methods, s) => (.ok methods, ⟨(id, methods) :: s.memo, s.stack.tail⟩)
    | (.error e, s) => (.error e, { s with stack := s.stack.tail })

/-- What tells methods apart: the interface that declares them, and their ordinal. -/
def MethodRef.key (m : MethodRef) : DeclId × Nat := (m.interface, m.ordinal)

namespace Loaded

variable (l : Loaded)

/-- The methods of an interface: those remembered, or else its own and, of those that are collected
for each of its bases, the ones that are not there yet. -/
def collect : (bound : Nat) → DeclId → Inheriting (List MethodRef)
  | bound, id => fun s =>
    match s.memo.lookup id with
    | some methods => Stateful.lift (.ok methods) s
    | none =>
      if id ∈ s.stack then Stateful.lift (l.cyclic id) s
      else match bound with
        | 0 => none
        | bound + 1 =>
          Inheriting.within id (do
            let bases ← Stateful.lift (l.basesOf id)
            bases.foldlM (fun methods base => do
              return keepNew MethodRef.key methods (← collect bound base)) (l.ownMethods id)) s

/-- Asks for the methods of one interface after another, also after a failure. -/
def collectEach (bound : Nat) :
    List DeclId → Inheritance → Option (List (Link (List MethodRef)) × Inheritance)
  | [], s => some ([], s)
  | id :: ids, s => do
    let (methods, s) ← l.collect bound id s
    let (rest, s) ← collectEach bound ids s
    return (methods :: rest, s)

/-! ## What is remembered -/

/-- No interface declares two methods with the same ordinal. -/
def DistinctMethods : Prop := ∀ id, ((l.ownMethods id).map MethodRef.ordinal).Nodup

/-- The methods of interfaces, without repetitions. -/
def methodsOf (ids : List DeclId) : List MethodRef :=
  keepNew MethodRef.key [] (ids.flatMap l.ownMethods)

/-- What is remembered for an interface are the methods of its unfolding. -/
def Remembers (memo : List (DeclId × List MethodRef)) : Prop :=
  ∀ id methods, memo.lookup id = some methods →
    ∃ ids, l.Unfolds (fun id => [id]) id ids ∧ methods = l.methodsOf ids

variable {l} {id : DeclId}

theorem interface_of_mem_ownMethods {m : MethodRef} (h : m ∈ l.ownMethods id) :
    m.interface = id := by
  unfold ownMethods at h
  split at h
  · obtain ⟨_, -, rfl⟩ := List.mem_map.1 h
    rfl
  · cases h

theorem DistinctMethods.nodup_keys (h : l.DistinctMethods) (id : DeclId) :
    ((l.ownMethods id).map MethodRef.key).Nodup := by
  refine List.Nodup.of_map Prod.snd ?_
  rw [List.map_map]
  exact h id

/-- Repetitions among an interface's own methods and those that it inherits are left out at once or
one base after the other. -/
theorem DistinctMethods.methodsOf_cons (h : l.DistinctMethods) (id : DeclId) (ids : List DeclId) :
    l.methodsOf (id :: ids) =
      keepNew MethodRef.key (l.ownMethods id) (ids.flatMap l.ownMethods) := by
  have hown : keepNew MethodRef.key [] (l.ownMethods id) = l.ownMethods id :=
    keepNew_eq_append (h.nodup_keys id) fun _ _ => List.not_mem_nil
  rw [methodsOf, List.flatMap_cons, keepNew_append, hown]

theorem keepNew_methodsOf (methods : List MethodRef) (ids : List DeclId) :
    keepNew MethodRef.key methods (l.methodsOf ids) =
      keepNew MethodRef.key methods (ids.flatMap l.ownMethods) :=
  keepNew_keepNew methods [] _

theorem remembers_nil : l.Remembers [] := fun _ _ h => absurd h nofun

theorem Remembers.cons {memo : List (DeclId × List MethodRef)} (h : l.Remembers memo)
    {ids : List DeclId} (hid : l.Unfolds (fun id => [id]) id ids) :
    l.Remembers ((id, l.methodsOf ids) :: memo) := by
  intro id' methods hlookup
  rw [List.lookup_cons] at hlookup
  split at hlookup
  · next hsame =>
    obtain rfl := eq_of_beq hsame
    exact ⟨ids, hid, (Option.some.inj hlookup).symm⟩
  · exact h id' methods hlookup

/-! ## Collecting -/

/-- A run, begun with the stack `below`, ends with the outcome `y` and with that stack, and it
remembers nothing wrong. -/
def Collects (l : Loaded) (below : List DeclId) (x : Inheriting (List MethodRef))
    (y : Link (List MethodRef)) : Prop :=
  ∀ memo, l.Remembers memo → ∃ memo', x ⟨memo, below⟩ = some (y, ⟨memo', below⟩) ∧
    l.Remembers memo'

/-- The methods of bases, collected one base after the other. -/
theorem collects_bases {below : List DeclId} {collected : DeclId → Inheriting (List MethodRef)}
    {unfolded : DeclId → Link (List DeclId)} (bs : List DeclId)
    (h : ∀ b ∈ bs, l.Collects below (collected b) (l.methodsOf <$> unfolded b)) :
    ∀ methods, l.Collects below
      (bs.foldlM (fun methods base => do
        return keepNew MethodRef.key methods (← collected base)) methods)
      ((fun idss => keepNew MethodRef.key methods (idss.flatten.flatMap l.ownMethods)) <$>
        bs.mapM unfolded) := by
  induction bs with
  | nil => exact fun methods memo hmemo => ⟨memo, rfl, hmemo⟩
  | cons b bs ih =>
    intro methods memo hmemo
    obtain ⟨hb, hbs⟩ := List.forall_mem_cons.1 h
    obtain ⟨memo', hrun, hmemo'⟩ := hb memo hmemo
    rw [List.foldlM_cons, List.mapM_cons]
    cases hids : unfolded b with
    | error e =>
      rw [hids] at hrun
      exact ⟨memo', Stateful.bind_error (Stateful.bind_error hrun), hmemo'⟩
    | ok ids =>
      rw [hids] at hrun
      obtain ⟨memo'', hrest, hmemo''⟩ :=
        ih hbs (keepNew MethodRef.key methods (l.methodsOf ids)) memo' hmemo'
      refine ⟨memo'', ?_, hmemo''⟩
      have hstep : (do return keepNew MethodRef.key methods (← collected b) : Inheriting _)
          ⟨memo, below⟩ =
            some (.ok (keepNew MethodRef.key methods (l.methodsOf ids)), ⟨memo', below⟩) :=
        Stateful.bind_ok hrun
      rw [Stateful.bind_ok hstep, hrest, ok_bind]
      cases bs.mapM unfolded with
      | error e => rfl
      | ok idss =>
        rw [keepNew_methodsOf, ok_map, ok_bind, pure_eq_ok, ok_map, List.flatten_cons,
          List.flatMap_append, keepNew_append]

/-- Collecting gives the methods of the unfolding, whatever was asked before. -/
theorem collects (hdistinct : l.DistinctMethods) (bound : Nat) : ∀ (below : List DeclId)
    (id : DeclId), l.Leading below id → (l.above below).card < bound →
      l.Collects below (l.collect bound id) (l.methodsOf <$> l.unfolding bound below id) := by
  induction bound with
  | zero => exact fun _ _ _ hbound => absurd hbound (Nat.not_lt_zero _)
  | succ bound ih =>
    intro below id hlead hbound memo hmemo
    rw [collect]
    dsimp only
    cases hlookup : memo.lookup id with
    | some methods =>
      obtain ⟨ids, hids, rfl⟩ := hmemo id methods hlookup
      rw [hids.unfolding hlead hbound]
      exact ⟨memo, rfl, hmemo⟩
    | none =>
      dsimp only
      by_cases hid : id ∈ below
      · rw [if_pos hid, unfolding, if_pos hid, map_cyclic]
        exact ⟨memo, rfl, hmemo⟩
      · have hunfold : l.unfolding (bound + 1) below id = (do
            let inherited ← (← l.basesOf id).mapM (l.unfolding bound (id :: below))
            return id :: inherited.flatten) := by
          rw [unfolding, if_neg hid]
        rw [if_neg hid, Inheriting.within]
        cases hbases : l.basesOf id with
        | error e =>
          rw [hunfold, hbases]
          exact ⟨memo, rfl, hmemo⟩
        | ok bs =>
          have hcollects := collects_bases bs (fun b hb =>
            have hstep : l.Extends id b := ⟨bs, hbases, hb⟩
            ih (id :: below) b (hlead.step hstep) (card_above_base hbound hid hstep))
          obtain ⟨memo', hrun, hmemo'⟩ := hcollects (l.ownMethods id) memo hmemo
          rw [Stateful.bind_ok (x := Stateful.lift (.ok bs)) rfl, hrun]
          cases hmap : bs.mapM (l.unfolding bound (id :: below)) with
          | error e =>
            rw [hunfold, hbases, ok_bind, hmap]
            exact ⟨memo', rfl, hmemo'⟩
          | ok idss =>
            rw [hbases, ok_bind, hmap, ok_bind, pure_eq_ok] at hunfold
            have hids := unfolds_of_unfolding _ below id hbound _ hunfold
            rw [hunfold, ok_map, ok_map, hdistinct.methodsOf_cons]
            refine ⟨_, rfl, ?_⟩
            rw [← hdistinct.methodsOf_cons]
            exact hmemo'.cons hids

/-- Interfaces may be asked for in any order, and as often as one likes: each gets the methods of
its unfolding, and the stack ends empty. -/
theorem collectEach_eq (hdistinct : l.DistinctMethods) {bound : Nat}
    (hbound : l.entries.size < bound) (ids : List DeclId) : ∀ memo, l.Remembers memo →
      ∃ memo', l.collectEach bound ids ⟨memo, []⟩ =
          some (ids.map fun id => l.methodsOf <$> l.unfolding bound [] id, ⟨memo', []⟩) ∧
        l.Remembers memo' := by
  induction ids with
  | nil => exact fun memo hmemo => ⟨memo, rfl, hmemo⟩
  | cons id ids ih =>
    intro memo hmemo
    obtain ⟨memo', hrun, hmemo'⟩ := collects hdistinct bound [] id (List.forall_mem_nil _)
      ((card_above_le []).trans_lt hbound) memo hmemo
    obtain ⟨memo'', hrest, hmemo''⟩ := ih memo' hmemo'
    refine ⟨memo'', ?_, hmemo''⟩
    rw [collectEach, hrun, Option.bind_eq_bind, Option.bind_some]
    dsimp only
    rw [hrest]
    rfl

end Loaded

end SchemaLang
