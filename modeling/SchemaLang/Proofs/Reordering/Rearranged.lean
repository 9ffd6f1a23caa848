import Mathlib.Algebra.Order.BigOperators.Group.List
import Mathlib.Algebra.Order.Group.Nat
import Mathlib.Data.List.Forall2
import Mathlib.Data.List.Nodup
import Mathlib.Data.List.Perm.Basic
import Mathlib.Data.Set.Function

/-!
# Rearranged lists

`Rearranged movable as bs` says that `bs` holds the elements of `as` in another order, in which
those that are not movable keep theirs.  Any such order comes of exchanging neighbours one of which
is movable: `Rearranged.swaps` and `Swaps.rearranged`.  `Paired R as bs` says that the elements of
two lists correspond, whatever their orders.
-/

namespace SchemaLang

variable {α β γ : Type}

/-! ## Keeping the order of some elements -/

/-- The lists hold the same elements, and those that are not movable in the same order. -/
structure Rearranged (movable : α → Bool) (as bs : List α) : Prop where
  perm : as.Perm bs
  fixed : as.filter (fun a => !movable a) = bs.filter fun a => !movable a

/-- The second list comes of the first by exchanging neighbours one of which is movable. -/
inductive Swaps (movable : α → Bool) : List α → List α → Prop
  | nil : Swaps movable [] []
  | cons {a : α} {as bs : List α} (rest : Swaps movable as bs) : Swaps movable (a :: as) (a :: bs)
  | swap {a b : α} {as : List α} (isMovable : movable a || movable b) :
      Swaps movable (a :: b :: as) (b :: a :: as)
  | trans {as bs cs : List α} (first : Swaps movable as bs) (second : Swaps movable bs cs) :
      Swaps movable as cs

section Movable

variable {movable : α → Bool} {as bs : List α}

theorem swaps_refl (as : List α) : Swaps movable as as := by
  induction as with
  | nil => exact .nil
  | cons a as ih => exact .cons ih

theorem Swaps.perm (h : Swaps movable as bs) : as.Perm bs := by
  induction h with
  | nil => exact .nil
  | cons _ ih => exact ih.cons _
  | swap => exact .swap _ _ _
  | trans _ _ ih ih' => exact ih.trans ih'

/-- What is read off the elements that are not movable stays the same. -/
theorem Swaps.flatMap_eq (h : Swaps movable as bs) {f : α → List β}
    (hf : ∀ a, movable a → f a = []) : as.flatMap f = bs.flatMap f := by
  induction h with
  | nil => rfl
  | cons _ ih => rw [List.flatMap_cons, List.flatMap_cons, ih]
  | @swap a b as isMovable =>
    simp only [List.flatMap_cons]
    rcases Bool.or_eq_true_iff.1 isMovable with ha | hb
    · rw [hf a ha, List.nil_append, List.nil_append]
    · rw [hf b hb, List.nil_append, List.nil_append]
  | trans _ _ ih ih' => exact ih.trans ih'

theorem Swaps.filterMap_eq (h : Swaps movable as bs) {f : α → Option β}
    (hf : ∀ a, movable a → f a = none) : as.filterMap f = bs.filterMap f := by
  rw [List.filterMap_eq_flatMap_toList, List.filterMap_eq_flatMap_toList]
  refine h.flatMap_eq fun a ha => ?_
  rw [hf a ha, Option.toList_none]

theorem Swaps.rearranged (h : Swaps movable as bs) : Rearranged movable as bs := by
  refine ⟨h.perm, ?_⟩
  rw [← List.filterMap_eq_filter]
  refine h.filterMap_eq fun a ha => ?_
  simp [Option.guard, ha]

/-- An element moves past others if it is movable or all of them are. -/
theorem swaps_insert {a : α} {before after : List α}
    (h : movable a ∨ ∀ b ∈ before, movable b) :
    Swaps movable (a :: (before ++ after)) (before ++ a :: after) := by
  induction before with
  | nil => exact swaps_refl _
  | cons b before ih =>
    have hswap : movable a || movable b := by
      rcases h with ha | hb
      · rw [ha, Bool.true_or]
      · rw [hb b List.mem_cons_self, Bool.or_true]
    have hrest : movable a ∨ ∀ c ∈ before, movable c :=
      h.imp_right fun hb c hc => hb c (List.mem_cons_of_mem _ hc)
    exact (Swaps.swap hswap).trans (.cons (ih hrest))

theorem Rearranged.swaps (h : Rearranged movable as bs) : Swaps movable as bs := by
  induction as generalizing bs with
  | nil =>
    obtain rfl := h.perm.nil_eq
    exact .nil
  | cons a as ih =>
    obtain ⟨hperm, hfixed⟩ := h
    -- The place of `a` among `bs`: the first of all that are equal to it.
    have hplace : ∃ before after, bs = before ++ a :: after ∧
        (movable a ∨ ∀ b ∈ before, movable b) := by
      by_cases ha : movable a
      · obtain ⟨before, after, hbs⟩ := List.append_of_mem (hperm.subset List.mem_cons_self)
        exact ⟨before, after, hbs, .inl ha⟩
      · rw [List.filter_cons_of_pos (by simpa using ha)] at hfixed
        obtain ⟨before, after, hbs, hbefore, -, -⟩ := List.filter_eq_cons_iff.1 hfixed.symm
        exact ⟨before, after, hbs, .inr fun b hb => by simpa using hbefore b hb⟩
    obtain ⟨before, after, rfl, hmove⟩ := hplace
    refine Swaps.trans (.cons (ih ⟨?_, ?_⟩)) (swaps_insert hmove)
    · exact (List.perm_cons a).1 (hperm.trans List.perm_middle)
    · by_cases ha : movable a
      · simpa [ha] using hfixed
      · have hbefore : before.filter (fun b => !movable b) = [] :=
          List.filter_eq_nil_iff.2 fun b hb => by simpa using hmove.resolve_left ha b hb
        simpa [ha, hbefore] using hfixed

end Movable

/-- Exchanging neighbours may as well come after each element is replaced by a related one. -/
theorem Swaps.lift {movable : α → Bool} {movable' : β → Bool} {R : α → β → Prop}
    (hR : ∀ a b, R a b → movable' b = movable a) {as as' : List α} (h : Swaps movable as as')
    {bs' : List β} (hbs : List.Forall₂ R as' bs') :
    ∃ bs, List.Forall₂ R as bs ∧ Swaps movable' bs bs' := by
  induction h generalizing bs' with
  | nil =>
    cases hbs
    exact ⟨[], .nil, .nil⟩
  | cons _ ih =>
    obtain _ | ⟨hab, hrest⟩ := hbs
    obtain ⟨bs, hbs, hswaps⟩ := ih hrest
    exact ⟨_, .cons hab hbs, .cons hswaps⟩
  | swap isMovable =>
    obtain _ | ⟨hb, hrest⟩ := hbs
    obtain _ | ⟨ha, hrest⟩ := hrest
    rw [← hR _ _ ha, ← hR _ _ hb] at isMovable
    exact ⟨_, .cons ha (.cons hb hrest), .swap isMovable⟩
  | trans _ _ ih ih' =>
    obtain ⟨cs, hcs, hsecond⟩ := ih' hbs
    obtain ⟨bs, hbs, hfirst⟩ := ih hcs
    exact ⟨bs, hbs, hfirst.trans hsecond⟩

/-- What is read off keeps its order as far as it comes of elements that do. -/
theorem Swaps.filterMap {movable : α → Bool} {movable' : β → Bool} {f : α → Option β}
    {as bs : List α} (h : Swaps movable as bs) (hf : ∀ a c, f a = some c → movable' c = movable a) :
    Swaps movable' (as.filterMap f) (bs.filterMap f) := by
  induction h with
  | nil => exact .nil
  | @cons a _ _ _ ih =>
    rw [List.filterMap_cons, List.filterMap_cons]
    cases f a with
    | none => exact ih
    | some c => exact .cons ih
  | @swap a b as isMovable =>
    simp only [List.filterMap_cons]
    cases ha : f a with
    | none => exact swaps_refl _
    | some c =>
      cases hb : f b with
      | none => exact swaps_refl _
      | some d =>
        rw [← hf a c ha, ← hf b d hb] at isMovable
        exact .swap isMovable
  | trans _ _ ih ih' => exact ih.trans ih'

/-! ## Elements that correspond -/

/-- The elements of the lists correspond, in whatever order they are. -/
def Paired (R : α → β → Prop) (as : List α) (bs : List β) : Prop :=
  ∃ cs, List.Forall₂ R as cs ∧ cs.Perm bs

section Paired

variable {R : α → β → Prop} {as as' : List α} {bs bs' : List β}

theorem paired_of_forall₂ (h : List.Forall₂ R as bs) : Paired R as bs := ⟨bs, h, .refl _⟩

theorem paired_nil : Paired R [] [] := paired_of_forall₂ .nil

theorem Paired.append (h : Paired R as bs) (h' : Paired R as' bs') :
    Paired R (as ++ as') (bs ++ bs') := by
  obtain ⟨cs, hcs, hbs⟩ := h
  obtain ⟨cs', hcs', hbs'⟩ := h'
  exact ⟨cs ++ cs', List.rel_append hcs hcs', hbs.append hbs'⟩

theorem Paired.cons {a : α} {b : β} (h : R a b) (hs : Paired R as bs) :
    Paired R (a :: as) (b :: bs) := (paired_of_forall₂ (.cons h .nil)).append hs

theorem Paired.perm_right (h : Paired R as bs) (hbs : bs.Perm bs') : Paired R as bs' := by
  obtain ⟨cs, hcs, hperm⟩ := h
  exact ⟨cs, hcs, hperm.trans hbs⟩

theorem Paired.length_eq (h : Paired R as bs) : as.length = bs.length := by
  obtain ⟨cs, hcs, hbs⟩ := h
  rw [hcs.length_eq, hbs.length_eq]

/-- Lists that correspond, with lists for their elements that correspond. -/
theorem Paired.flatMap {S : γ → γ → Prop} {f : α → List γ} {g : β → List γ} (h : Paired R as bs)
    (hf : ∀ a b, R a b → Paired S (f a) (g b)) : Paired S (as.flatMap f) (bs.flatMap g) := by
  obtain ⟨cs, hcs, hbs⟩ := h
  refine Paired.perm_right ?_ (hbs.flatMap_right g)
  clear hbs
  induction hcs with
  | nil => exact paired_nil
  | cons ha _ ih => exact (hf _ _ ha).append ih

theorem Paired.map_perm {f : α → γ} {g : β → γ} (h : Paired R as bs)
    (hf : ∀ a b, R a b → g b = f a) : (as.map f).Perm (bs.map g) := by
  obtain ⟨cs, hcs, hbs⟩ := h
  refine List.Perm.trans (.of_eq ?_) (hbs.map g)
  clear hbs
  induction hcs with
  | nil => rfl
  | cons ha _ ih => rw [List.map_cons, List.map_cons, hf _ _ ha, ih]

/-- Elements at which functions agree correspond. -/
theorem paired_of_map_perm {f : α → γ} {g : β → γ} (h : (as.map f).Perm (bs.map g)) :
    Paired (fun a b => g b = f a) as bs := by
  have hbs : List.Forall₂ (fun c b => g b = c) (bs.map g) bs :=
    List.forall₂_map_left_iff.2 (List.forall₂_same.2 fun _ _ => rfl)
  obtain ⟨cs, hcs, hperm⟩ := List.perm_comp_forall₂ h hbs
  exact ⟨cs, List.forall₂_map_left_iff.1 hcs, hperm⟩

theorem Paired.imp_mem {S : α → β → Prop} (h : Paired R as bs)
    (hS : ∀ a ∈ as, ∀ b ∈ bs, R a b → S a b) : Paired S as bs := by
  obtain ⟨cs, hcs, hbs⟩ := h
  obtain ⟨hlength, hzip⟩ := List.forall₂_iff_zip.1 hcs
  refine ⟨cs, List.forall₂_iff_zip.2 ⟨hlength, fun {a c} hac => ?_⟩, hbs⟩
  obtain ⟨ha, hc⟩ := List.of_mem_zip hac
  exact hS a ha c (hbs.subset hc) (hzip hac)

/-- What is read off elements that correspond. -/
theorem Paired.filterMap_perm {δ : Type} {f : α → Option γ} {f' : β → Option δ} {g : γ → δ}
    (h : Paired R as bs) (hf : ∀ a b, R a b → f' b = (f a).map g) :
    ((as.filterMap f).map g).Perm (bs.filterMap f') := by
  obtain ⟨cs, hcs, hbs⟩ := h
  refine List.Perm.trans (.of_eq ?_) (hbs.filterMap f')
  clear hbs
  induction hcs with
  | nil => rfl
  | @cons a c _ _ hac _ ih =>
    cases ha : f a with
    | none =>
      rw [List.filterMap_cons_none ha, List.filterMap_cons_none (by rw [hf a c hac, ha]; rfl), ih]
    | some x =>
      rw [List.filterMap_cons_some ha, List.filterMap_cons_some (by rw [hf a c hac, ha]; rfl), ← ih,
        List.map_cons]

theorem Paired.exists_right (h : Paired R as bs) {a : α} (ha : a ∈ as) : ∃ b ∈ bs, R a b := by
  obtain ⟨cs, hcs, hbs⟩ := h
  obtain ⟨i, hi, rfl⟩ := List.getElem_of_mem ha
  have hi' : i < cs.length := Nat.lt_of_lt_of_eq hi hcs.length_eq
  exact ⟨cs[i], hbs.subset (List.getElem_mem hi'), hcs.get hi hi'⟩

theorem Paired.exists_left (h : Paired R as bs) {b : β} (hb : b ∈ bs) : ∃ a ∈ as, R a b := by
  obtain ⟨cs, hcs, hbs⟩ := h
  obtain ⟨i, hi, rfl⟩ := List.getElem_of_mem (hbs.symm.subset hb)
  have hi' : i < as.length := Nat.lt_of_lt_of_eq hi hcs.length_eq.symm
  exact ⟨as[i], List.getElem_mem hi', hcs.get hi' hi⟩

end Paired

/-! ## Positions -/

/-- What two rows hold is related, and the second has the number that `f` gives. -/
def Rows (R : α → β → Prop) (f : Nat → Nat) (x : α × Nat) (y : β × Nat) : Prop :=
  R x.1 y.1 ∧ y.2 = f x.2

theorem Paired.of_rows {R : α → β → Prop} {f : Nat → Nat} {as : List α} {bs : List β}
    (h : Paired (Rows R f) as.zipIdx bs.zipIdx) : Paired R as bs := by
  obtain ⟨ys, hys, hperm⟩ := h
  refine ⟨ys.map Prod.fst, ?_, ?_⟩
  · rw [← List.zipIdx_map_fst 0 as, List.forall₂_map_left_iff, List.forall₂_map_right_iff]
    exact hys.imp fun _ _ hrows => hrows.1
  · have hfst := hperm.map Prod.fst
    rwa [List.zipIdx_map_fst] at hfst

section Among

variable {R : α → β → Prop} {f : Nat → Nat} {as : List α} {bs : List β} {kept more : List (β × Nat)}

/-- If the rows of one list correspond to some rows of another, and the function gives no position
of the others, then the lists correspond position by position. -/
theorem Paired.rel_getElem?_among (hf : Function.Injective f) (h : Paired (Rows R f) as.zipIdx kept)
    (hbs : (kept ++ more).Perm bs.zipIdx) (hmore : ∀ i, f i ∉ more.map Prod.snd) (i : Nat) :
    Option.Rel R as[i]? bs[f i]? := by
  cases ha : as[i]? with
  | some a =>
    obtain ⟨⟨b, j⟩, hb, hab, rfl⟩ :=
      h.exists_right (a := (a, i)) (List.mem_zipIdx_iff_getElem?.2 ha)
    have hrow := hbs.subset (List.mem_append_left _ hb)
    rw [List.mem_zipIdx_iff_getElem?.1 hrow]
    exact .some hab
  | none =>
    cases hb : bs[f i]? with
    | none => exact .none
    | some b =>
      have hrow := hbs.symm.subset (List.mem_zipIdx_iff_getElem?.2 hb : (b, f i) ∈ bs.zipIdx)
      rcases List.mem_append.1 hrow with hrow | hrow
      · obtain ⟨⟨a, j⟩, ha', -, hj⟩ := h.exists_left hrow
        obtain rfl := hf hj
        rw [List.mem_zipIdx_iff_getElem?.1 ha'] at ha
        cases ha
      · exact absurd (List.mem_map_of_mem hrow) (hmore i)

/-- The positions of the one list are then as many as those of the other without the others. -/
theorem Paired.bijOn_positions_among (hf : Function.Injective f)
    (h : Paired (Rows R f) as.zipIdx kept) (hbs : (kept ++ more).Perm bs.zipIdx)
    (hmore : ∀ i, f i ∉ more.map Prod.snd) :
    Set.BijOn f (Set.Iio as.length) {j | j < bs.length ∧ j ∉ more.map Prod.snd} := by
  refine ⟨fun i hi => ⟨?_, hmore i⟩, hf.injOn, fun j ⟨hj, hother⟩ => ?_⟩
  · obtain ⟨⟨b, j⟩, hb, -, rfl⟩ := h.exists_right (a := (as[i], i))
      (List.mem_zipIdx_iff_getElem?.2 (List.getElem?_eq_getElem hi))
    have hrow := hbs.subset (List.mem_append_left _ hb)
    exact (List.getElem?_eq_some_iff.1 (List.mem_zipIdx_iff_getElem?.1 hrow)).1
  · have hrow := hbs.symm.subset
      (List.mem_zipIdx_iff_getElem?.2 (List.getElem?_eq_getElem hj) : (bs[j], j) ∈ bs.zipIdx)
    rcases List.mem_append.1 hrow with hrow | hrow
    · obtain ⟨⟨a, i⟩, ha, -, hi⟩ := h.exists_left hrow
      exact ⟨i, (List.getElem?_eq_some_iff.1 (List.mem_zipIdx_iff_getElem?.1 ha)).1, hi.symm⟩
    · exact absurd (List.mem_map_of_mem hrow) hother

end Among

/-- Lists that correspond together with their positions correspond position by position. -/
theorem Paired.rel_getElem? {R : α → β → Prop} {f : Nat → Nat} {as : List α} {bs : List β}
    (hf : Function.Injective f)
    (h : Paired (Rows R f) as.zipIdx bs.zipIdx) (i : Nat) :
    Option.Rel R as[i]? bs[f i]? :=
  h.rel_getElem?_among hf (.of_eq (List.append_nil _)) (fun _ => List.not_mem_nil) i

theorem rel_getElem?_of_forall₂ {R : α → β → Prop} {as : List α} {bs : List β}
    (h : List.Forall₂ R as bs) : ∀ i : Nat, Option.Rel R as[i]? bs[i]? := by
  induction h with
  | nil => exact fun _ => .none
  | cons hab _ ih =>
    intro i
    cases i with
    | zero => exact .some hab
    | succ i => exact ih i

/-- Where no key is repeated, a key is looked up as what stands beside it. -/
theorem lookup_eq_some_iff_mem [BEq β] [LawfulBEq β] {ps : List (β × α)}
    (h : (ps.map Prod.fst).Nodup) {key : β} {a : α} :
    ps.lookup key = some a ↔ (key, a) ∈ ps := by
  rw [List.lookup_eq_some_iff]
  constructor
  · rintro ⟨before, after, rfl, -⟩
    exact List.mem_append_right _ List.mem_cons_self
  · intro hmem
    obtain ⟨before, after, rfl⟩ := List.append_of_mem hmem
    refine ⟨before, after, rfl, fun p hp => bne_iff_ne.2 ?_⟩
    rw [List.map_append, List.map_cons] at h
    rintro rfl
    exact List.disjoint_of_nodup_append h (List.mem_map_of_mem hp) List.mem_cons_self

theorem lookup_map_snd [BEq β] {f : α → γ} (ps : List (β × α)) (key : β) :
    (ps.map (Prod.map id f)).lookup key = (ps.lookup key).map f := by
  induction ps with
  | nil => rfl
  | cons p ps ih =>
    obtain ⟨k, a⟩ := p
    rw [List.map_cons, Prod.map_apply, id_eq, List.lookup_cons, List.lookup_cons, ih]
    cases key == k with
    | true => rfl
    | false => rfl

/-- The order of the pairs does not matter then. -/
theorem lookup_eq_of_perm [BEq β] [LawfulBEq β] {ps qs : List (β × α)}
    (h : (ps.map Prod.fst).Nodup) (hperm : ps.Perm qs) (key : β) :
    ps.lookup key = qs.lookup key := by
  apply Option.ext
  intro a
  rw [lookup_eq_some_iff_mem h, lookup_eq_some_iff_mem ((hperm.map Prod.fst).nodup h),
    hperm.mem_iff]

/-- Pairs that repeat neither a first nor a second number are part of an injective function, whose
other values are past any bound. -/
theorem exists_injective_past {ps : List (Nat × Nat)} (hfst : (ps.map Prod.fst).Nodup)
    (hsnd : (ps.map Prod.snd).Nodup) (bound : Nat) :
    ∃ f : Nat → Nat, Function.Injective f ∧ (∀ p ∈ ps, f p.1 = p.2) ∧
      ∀ n, f n ∈ ps.map Prod.snd ∨ bound ≤ f n := by
  -- A number that is in no pair goes past the bound and all second numbers.
  refine ⟨fun n => (ps.lookup n).getD (n + (bound + (ps.map Prod.snd).sum) + 1), fun m n hmn => ?_,
    fun p hp => ?_, fun n => ?_⟩
  · have hbound : ∀ p ∈ ps, p.2 ≤ (ps.map Prod.snd).sum := fun p hp =>
      List.le_sum_of_mem (List.mem_map_of_mem hp)
    dsimp only at hmn
    cases hm : ps.lookup m with
    | none =>
      cases hn : ps.lookup n with
      | none =>
        rw [hm, hn, Option.getD_none, Option.getD_none] at hmn
        omega
      | some b =>
        have hb := hbound _ ((lookup_eq_some_iff_mem hfst).1 hn)
        rw [hm, hn, Option.getD_none, Option.getD_some] at hmn
        dsimp only at hb
        omega
    | some a =>
      have hma := (lookup_eq_some_iff_mem hfst).1 hm
      cases hn : ps.lookup n with
      | none =>
        have ha := hbound _ hma
        rw [hm, hn, Option.getD_none, Option.getD_some] at hmn
        dsimp only at ha
        omega
      | some b =>
        have hnb := (lookup_eq_some_iff_mem hfst).1 hn
        rw [hm, hn, Option.getD_some, Option.getD_some] at hmn
        exact congrArg Prod.fst (List.inj_on_of_nodup_map hsnd hma hnb hmn)
  · have hlookup : ps.lookup p.1 = some p.2 := (lookup_eq_some_iff_mem hfst).2 hp
    dsimp only
    rw [hlookup, Option.getD_some]
  · dsimp only
    cases hn : ps.lookup n with
    | some a => exact .inl (List.mem_map_of_mem ((lookup_eq_some_iff_mem hfst).1 hn))
    | none =>
      rw [Option.getD_none]
      exact .inr (by omega)

/-- Pairs that repeat neither a first nor a second number are part of an injective function. -/
theorem exists_injective {ps : List (Nat × Nat)} (hfst : (ps.map Prod.fst).Nodup)
    (hsnd : (ps.map Prod.snd).Nodup) :
    ∃ f : Nat → Nat, Function.Injective f ∧ ∀ p ∈ ps, f p.1 = p.2 := by
  obtain ⟨f, hf, hpairs, -⟩ := exists_injective_past hfst hsnd 0
  exact ⟨f, hf, hpairs⟩

/-- Elements that correspond give a function on their positions. -/
theorem Paired.exists_positions {R : α → β → Prop} {as : List α} {bs : List β}
    (h : Paired R as bs) :
    ∃ f : Nat → Nat, Function.Injective f ∧ Paired (Rows R f) as.zipIdx bs.zipIdx := by
  obtain ⟨cs, hcs, hbs⟩ := h
  -- The elements of the second list with their positions, in the order of the first list.
  obtain ⟨ys, hys, hperm⟩ : ∃ ys, List.Forall₂ (fun c y => c = Prod.fst y) cs ys ∧
      ys.Perm bs.zipIdx := by
    refine List.perm_comp_forall₂ hbs ?_
    rw [← List.forall₂_map_right_iff, List.zipIdx_map_fst, List.forall₂_eq_eq_eq]
  have hR : List.Forall₂ (fun x y => R x.1 y.1) as.zipIdx ys := by
    rw [← List.forall₂_map_right_iff (f := Prod.fst), ← List.forall₂_map_left_iff (f := Prod.fst),
      List.zipIdx_map_fst]
    rw [← List.forall₂_map_right_iff, List.forall₂_eq_eq_eq] at hys
    rwa [← hys]
  obtain ⟨hlength, hzip⟩ := List.forall₂_iff_zip.1 hR
  have hfst : ((as.zipIdx.map Prod.snd).zip (ys.map Prod.snd)).map Prod.fst =
      as.zipIdx.map Prod.snd := List.map_fst_zip (by simp [← hlength])
  have hsnd : ((as.zipIdx.map Prod.snd).zip (ys.map Prod.snd)).map Prod.snd =
      ys.map Prod.snd := List.map_snd_zip (by simp [← hlength])
  obtain ⟨f, hf, hpairs⟩ := exists_injective
    (by rw [hfst, List.zipIdx_map_snd]; exact List.nodup_range')
    (by rw [hsnd, (hperm.map Prod.snd).nodup_iff, List.zipIdx_map_snd]; exact List.nodup_range')
  refine ⟨f, hf, ys, List.forall₂_iff_zip.2 ⟨hlength, fun {x y} hxy => ?_⟩, hperm⟩
  refine ⟨hzip hxy, (hpairs (x.2, y.2) ?_).symm⟩
  rw [List.zip_map]
  exact List.mem_map_of_mem (f := Prod.map Prod.snd Prod.snd) hxy

/-- Positions that correspond are as many in both lists. -/
theorem Paired.bijOn_positions {R : α → β → Prop} {f : Nat → Nat} {as : List α} {bs : List β}
    (hf : Function.Injective f)
    (h : Paired (Rows R f) as.zipIdx bs.zipIdx) :
    Set.BijOn f (Set.Iio as.length) (Set.Iio bs.length) := by
  have hbij := h.bijOn_positions_among hf (.of_eq (List.append_nil _)) fun _ => List.not_mem_nil
  simp only [List.map_nil, List.not_mem_nil, not_false_eq_true, and_true] at hbij
  exact hbij

end SchemaLang
