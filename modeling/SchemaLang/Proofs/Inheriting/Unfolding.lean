import Mathlib.Logic.Relation
import SchemaLang.Proofs.Inheriting.Kept
import SchemaLang.Proofs.Linking.Bounds

/-!
# Unfolding the bases of an interface

What an interface has in all is its own and then what each of its bases has in all, in the order in
which they are listed: `Loaded.Unfolds` says so without any bound and keeps every repetition.
`Loaded.unfolding` computes it for the interfaces themselves with the check for cycles; it succeeds
exactly where there is an unfolding (`unfolds_of_unfolding` and `Unfolds.unfolding`), and if all
bases are interfaces, it fails only where a cycle can be reached (`unfolding_or_cyclic`).
-/

namespace SchemaLang

theorem mapM_eq_ok {α β : Type} {f : α → Link β} {g : α → β} {as : List α}
    (h : ∀ a ∈ as, f a = .ok (g a)) : as.mapM f = .ok (as.map g) := by
  induction as with
  | nil => rfl
  | cons a as ih =>
    obtain ⟨ha, has⟩ := List.forall_mem_cons.1 h
    rw [List.mapM_cons, ha, ok_bind, ih has]
    rfl

/-- A step on each item of a list gives something for all of them, or it fails as it does on one. -/
theorem mapM_ok_or_error {α β : Type} [Inhabited β] (f : α → Link β) (as : List α) :
    (∃ g : α → β, (∀ a ∈ as, f a = .ok (g a)) ∧ as.mapM f = .ok (as.map g)) ∨
      ∃ a ∈ as, ∃ e, f a = .error e ∧ as.mapM f = .error e := by
  let g : α → β := fun a => (f a).toOption.getD default
  by_cases hall : ∀ a ∈ as, f a = .ok (g a)
  · exact .inl ⟨g, hall, mapM_eq_ok hall⟩
  · right
    induction as with
    | nil => exact absurd (List.forall_mem_nil _) hall
    | cons a as ih =>
      rw [List.mapM_cons]
      cases ha : f a with
      | error e => exact ⟨a, List.mem_cons_self, e, ha, rfl⟩
      | ok b =>
        have hg : f a = .ok (g a) := by
          show f a = .ok ((f a).toOption.getD default)
          rw [ha]
          rfl
        obtain ⟨a', ha', e, he, hfail⟩ := ih fun has => hall (List.forall_mem_cons.2 ⟨hg, has⟩)
        refine ⟨a', List.mem_cons_of_mem a ha', e, he, ?_⟩
        rw [ok_bind, hfail]
        rfl

namespace Loaded

open Relation

variable (l : Loaded)

/-! ## Interfaces and their bases -/

/-- An interface lists another one as its base. -/
def Extends (a b : DeclId) : Prop := ∃ bs, l.basesOf a = .ok bs ∧ b ∈ bs

/-- What an interface has in all: its own, and then what each of its bases has in all, in order. -/
inductive Unfolds {α : Type} (own : DeclId → List α) : DeclId → List α → Prop
  | intro {id : DeclId} {bs : List DeclId} (inherited : DeclId → List α)
      (bases : l.basesOf id = .ok bs) (each : ∀ b ∈ bs, Unfolds own b (inherited b)) :
      Unfolds own id (own id ++ bs.flatMap inherited)

/-- The interfaces that an interface is made up of, itself first, with repetitions.  `below` lists
the interfaces whose bases are being followed, at most `bound` more of which may be nested. -/
def unfolding : (bound : Nat) → (below : List DeclId) → DeclId → Link (List DeclId)
  | 0, _, _ => .ok []
  | bound + 1, below, id =>
    if id ∈ below then l.cyclic id
    else do
      let inherited ← (← l.basesOf id).mapM (unfolding bound (id :: below))
      return id :: inherited.flatten

variable {l} {α β : Type} {own : DeclId → List α} {id : DeclId} {xs : List α}

theorem exists_cyclic (id : DeclId) : ∃ e, ∀ α : Type, (l.cyclic id : Link α) = .error e := by
  unfold cyclic
  cases l.entries[id]? with
  | none => exact ⟨_, fun _ => rfl⟩
  | some e => exact ⟨_, fun _ => rfl⟩

theorem map_cyclic (f : α → β) (id : DeclId) : f <$> (l.cyclic id : Link α) = l.cyclic id := by
  obtain ⟨e, he⟩ := exists_cyclic (l := l) id
  rw [he, he, error_map]

/-- Only what is declared has bases. -/
theorem lt_size_of_extends {a b : DeclId} (h : l.Extends a b) : a < l.entries.size := by
  obtain ⟨bs, hbases, hb⟩ := h
  refine Decidable.byContradiction fun hsize => ?_
  rw [basesOf, Array.getElem?_eq_none (Nat.le_of_not_lt hsize)] at hbases
  obtain rfl := Except.ok.inj hbases
  exact absurd hb List.not_mem_nil

/-! ## Unfoldings -/

/-- There is one unfolding at most. -/
theorem Unfolds.unique {ys : List α} (h : l.Unfolds own id xs) (h' : l.Unfolds own id ys) :
    xs = ys := by
  induction h generalizing ys with
  | @intro id bs inherited bases each ih =>
    obtain ⟨inherited', bases', each'⟩ := h'
    obtain rfl := Except.ok.inj (bases.symm.trans bases')
    rw [List.flatMap_congr fun b hb => ih b hb (each' b hb)]

/-- An unfolding is made up of those of interfaces. -/
theorem Unfolds.flatMap {ids : List DeclId} (h : l.Unfolds (fun id => [id]) id ids)
    (own : DeclId → List α) : l.Unfolds own id (ids.flatMap own) := by
  induction h with
  | @intro id bs inherited bases each ih =>
    rw [List.singleton_append, List.flatMap_cons, List.flatMap_assoc]
    exact .intro (fun b => (inherited b).flatMap own) bases ih

/-- What is reached from an interface with an unfolding has one itself, which is part of it. -/
theorem Unfolds.of_reaches {b : DeclId} (h : l.Unfolds own id xs)
    (hreach : ReflTransGen l.Extends id b) : ∃ ys, l.Unfolds own b ys ∧ ys ⊆ xs := by
  induction hreach using ReflTransGen.head_induction_on generalizing xs with
  | refl => exact ⟨xs, h, List.Subset.refl xs⟩
  | head hstep _ ih =>
    obtain ⟨inherited, bases, each⟩ := h
    obtain ⟨bs, hbases, hb⟩ := hstep
    obtain rfl := Except.ok.inj (bases.symm.trans hbases)
    obtain ⟨ys, hys, hsub⟩ := ih (each _ hb)
    refine ⟨ys, hys, fun y hy => List.mem_append_right _ ?_⟩
    exact List.mem_flatMap_of_mem hb (hsub hy)

/-- An interface is made up of what the interfaces that it reaches have of their own. -/
theorem Unfolds.mem_iff {x : α} (h : l.Unfolds own id xs) :
    x ∈ xs ↔ ∃ b, ReflTransGen l.Extends id b ∧ x ∈ own b := by
  constructor
  · intro hx
    induction h with
    | @intro id bs inherited bases each ih =>
      rcases List.mem_append.1 hx with hx | hx
      · exact ⟨id, .refl, hx⟩
      · obtain ⟨b, hb, hx⟩ := List.mem_flatMap.1 hx
        obtain ⟨c, hreach, hx⟩ := ih b hb hx
        exact ⟨c, .head ⟨bs, bases, hb⟩ hreach, hx⟩
  · rintro ⟨b, hreach, hx⟩
    obtain ⟨ys, ⟨inherited, -, -⟩, hsub⟩ := h.of_reaches hreach
    exact hsub (List.mem_append_left _ hx)

/-- An interface with an unfolding is not its own base, even through others. -/
theorem Unfolds.not_cyclic (h : l.Unfolds own id xs) : ¬TransGen l.Extends id id := by
  induction h with
  | @intro id bs inherited bases each ih =>
    intro hcycle
    obtain ⟨b, ⟨bs', bases', hb⟩, hreach⟩ := TransGen.head'_iff.1 hcycle
    obtain rfl := Except.ok.inj (bases.symm.trans bases')
    exact ih b hb (TransGen.tail' hreach ⟨bs, bases, hb⟩)

/-! ## Computing unfoldings -/

/-- The interfaces whose bases are being followed lead to the one that is next. -/
def Leading (l : Loaded) (below : List DeclId) (id : DeclId) : Prop :=
  ∀ a ∈ below, TransGen l.Extends a id

theorem Leading.step {below : List DeclId} {b : DeclId} (h : l.Leading below id)
    (hb : l.Extends id b) : l.Leading (id :: below) b :=
  List.forall_mem_cons.2 ⟨.single hb, fun a ha => (h a ha).tail hb⟩

theorem Unfolds.not_mem_of_leading {below : List DeclId} (h : l.Unfolds own id xs)
    (hlead : l.Leading below id) : id ∉ below :=
  fun hmem => h.not_cyclic (hlead id hmem)

/-- One more interface below leaves a smaller bound for its bases. -/
theorem card_above_base {bound : Nat} {below : List DeclId} {b : DeclId}
    (hbound : (l.above below).card < bound + 1) (hnew : id ∉ below) (hb : l.Extends id b) :
    (l.above (id :: below)).card < bound := by
  have hless := card_above_lt (lt_size_of_extends hb) hnew
  omega

/-- The computed unfolding is one. -/
theorem unfolds_of_unfolding (bound : Nat) : ∀ (below : List DeclId) (id : DeclId),
    (l.above below).card < bound → ∀ ids, l.unfolding bound below id = .ok ids →
      l.Unfolds (fun id => [id]) id ids := by
  induction bound with
  | zero => exact fun _ _ hbound => absurd hbound (Nat.not_lt_zero _)
  | succ bound ih =>
    intro below id hbound ids h
    rw [unfolding] at h
    by_cases hid : id ∈ below
    · obtain ⟨e, he⟩ := exists_cyclic (l := l) id
      rw [if_pos hid, he] at h
      cases h
    · rw [if_neg hid] at h
      obtain ⟨bs, hbases, h⟩ := bind_eq_ok.1 h
      obtain ⟨idss, hidss, h⟩ := bind_eq_ok.1 h
      obtain rfl := Except.ok.inj h
      rcases mapM_ok_or_error (l.unfolding bound (id :: below)) bs with
        ⟨g, hg, hmap⟩ | ⟨b, hb, e, -, hmap⟩
      · obtain rfl := Except.ok.inj (hidss.symm.trans hmap)
        rw [← List.flatMap_def]
        exact .intro g hbases fun b hb =>
          ih _ b (card_above_base hbound hid ⟨bs, hbases, hb⟩) _ (hg b hb)
      · rw [hmap] at hidss
        cases hidss

/-- An unfolding is computed, if the bound is enough. -/
theorem Unfolds.unfolding {ids : List DeclId} (h : l.Unfolds (fun id => [id]) id ids) :
    ∀ {bound : Nat} {below : List DeclId}, l.Leading below id → (l.above below).card < bound →
      l.unfolding bound below id = .ok ids := by
  induction h with
  | @intro id bs inherited bases each ih =>
    intro bound below hlead hbound
    obtain ⟨bound, rfl⟩ : ∃ n, bound = n + 1 := ⟨bound - 1, by omega⟩
    have hnew := (Unfolds.intro inherited bases each).not_mem_of_leading hlead
    have hmap : bs.mapM (l.unfolding bound (id :: below)) = .ok (bs.map inherited) :=
      mapM_eq_ok fun b hb =>
        ih b hb (hlead.step ⟨bs, bases, hb⟩) (card_above_base hbound hnew ⟨bs, bases, hb⟩)
    rw [Loaded.unfolding, if_neg hnew, bases, ok_bind, hmap, ok_bind, List.flatMap_def]
    rfl

/-! ## Cycles -/

/-- An interface leads to one that is its own base, directly or through others. -/
def LeadsToCycle (l : Loaded) (id : DeclId) : Prop :=
  ∃ c, ReflTransGen l.Extends id c ∧ TransGen l.Extends c c

/-- All that an interface inherits from has bases that are interfaces. -/
def BasesResolve (l : Loaded) (id : DeclId) : Prop :=
  ∀ b, ReflTransGen l.Extends id b → ∃ bs, l.basesOf b = .ok bs

theorem Unfolds.not_leadsToCycle (h : l.Unfolds own id xs) : ¬l.LeadsToCycle id := by
  rintro ⟨c, hreach, hcycle⟩
  obtain ⟨ys, hc, -⟩ := h.of_reaches hreach
  exact hc.not_cyclic hcycle

/-- If the bases are interfaces, there is an unfolding or a cycle. -/
theorem unfolding_or_cyclic (bound : Nat) : ∀ (below : List DeclId) (id : DeclId),
    l.BasesResolve id → l.Leading below id → (l.above below).card < bound →
      (∃ ids, l.unfolding bound below id = .ok ids) ∨
        l.LeadsToCycle id ∧ ∃ c, l.unfolding bound below id = l.cyclic c := by
  induction bound with
  | zero => exact fun _ _ _ _ hbound => absurd hbound (Nat.not_lt_zero _)
  | succ bound ih =>
    intro below id hresolve hlead hbound
    rw [unfolding]
    by_cases hid : id ∈ below
    · rw [if_pos hid]
      exact .inr ⟨⟨id, .refl, hlead id hid⟩, id, rfl⟩
    · obtain ⟨bs, hbases⟩ := hresolve id .refl
      rw [if_neg hid, hbases, ok_bind]
      rcases mapM_ok_or_error (l.unfolding bound (id :: below)) bs with
        ⟨g, -, hmap⟩ | ⟨b, hb, e, he, hmap⟩
      · rw [hmap]
        exact .inl ⟨_, rfl⟩
      · have hstep : l.Extends id b := ⟨bs, hbases, hb⟩
        have hsub : l.BasesResolve b := fun c hc => hresolve c (.head hstep hc)
        rcases ih (id :: below) b hsub (hlead.step hstep) (card_above_base hbound hid hstep) with
          ⟨ids, hids⟩ | ⟨⟨c, hreach, hcycle⟩, c', hc'⟩
        · cases he.symm.trans hids
        · refine .inr ⟨⟨c, .head hstep hreach, hcycle⟩, c', ?_⟩
          obtain ⟨e', he'⟩ := exists_cyclic (l := l) c'
          rw [he', he] at hc'
          rw [hmap, he', Except.error.inj hc']
          rfl

end Loaded

end SchemaLang
