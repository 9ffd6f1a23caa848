import SchemaLang.Proofs.Outcome
import SchemaLang.Proofs.Reordering.Rearranged

/-!
# Steps that agree

`Agree R x y` says of two steps that may fail that either both fail, no matter with which errors, or
both succeed with results that are related by `R`.  Sequences of such steps agree when their parts
do, and a row of steps agrees with the same steps in another order: `agree_mapM_swaps`.
-/

namespace SchemaLang

variable {ε α β γ δ : Type}

/-- Both steps fail, or both succeed with related results. -/
inductive Agree (R : α → β → Prop) : Except ε α → Except ε β → Prop
  | ok {a : α} {b : β} (h : R a b) : Agree R (.ok a) (.ok b)
  | error {e e' : ε} : Agree R (.error e) (.error e')

variable {R : α → β → Prop} {S : γ → δ → Prop} {x : Except ε α} {y : Except ε β}

theorem Agree.mono {R' : α → β → Prop} (h : Agree R x y) (hR : ∀ a b, R a b → R' a b) :
    Agree R' x y := by
  cases h with
  | ok h => exact .ok (hR _ _ h)
  | error => exact .error

theorem Agree.bind {f : α → Except ε γ} {g : β → Except ε δ} (h : Agree R x y)
    (hf : ∀ a b, R a b → Agree S (f a) (g b)) : Agree S (x >>= f) (y >>= g) := by
  cases h with
  | ok h => exact hf _ _ h
  | error => exact .error

theorem Agree.map {f : α → γ} {g : β → δ} (h : Agree R x y)
    (hf : ∀ a b, R a b → S (f a) (g b)) : Agree S (f <$> x) (g <$> y) := by
  cases h with
  | ok h => exact .ok (hf _ _ h)
  | error => exact .error

theorem Agree.trans {T : β → γ → Prop} {z : Except ε γ} (h : Agree R x y) (h' : Agree T y z) :
    Agree (fun a c => ∃ b, R a b ∧ T b c) x z := by
  cases h with
  | error =>
    cases h'
    exact .error
  | ok hab =>
    cases h' with
    | ok hbc => exact .ok ⟨_, hab, hbc⟩

theorem Agree.exists_ok_iff (h : Agree R x y) : (∃ a, x = .ok a) ↔ ∃ b, y = .ok b := by
  cases h with
  | ok => exact ⟨fun _ => ⟨_, rfl⟩, fun _ => ⟨_, rfl⟩⟩
  | error => exact ⟨nofun, nofun⟩

theorem agree_mapM {f : α → Except ε γ} {g : β → Except ε δ} {as : List α} {bs : List β}
    (h : List.Forall₂ (fun a b => Agree S (f a) (g b)) as bs) :
    Agree (List.Forall₂ S) (as.mapM f) (bs.mapM g) := by
  induction h with
  | nil => exact .ok .nil
  | cons hab _ ih =>
    rw [List.mapM_cons, List.mapM_cons]
    exact hab.bind fun c d hcd => ih.bind fun cs ds hcds => .ok (.cons hcd hcds)

/-- A row of steps has the results of the same steps in another order, in that order. -/
theorem agree_mapM_swaps {movable : α → Bool} {movable' : γ → Bool} {f : α → Except ε γ}
    {as bs : List α} (h : Swaps movable as bs)
    (hf : ∀ a c, f a = .ok c → movable' c = movable a) :
    Agree (Swaps movable') (as.mapM f) (bs.mapM f) := by
  induction h with
  | nil => exact .ok .nil
  | @cons a as bs _ ih =>
    rw [List.mapM_cons, List.mapM_cons]
    cases f a with
    | error => exact .error
    | ok c => exact ih.bind fun cs ds hcds => .ok (.cons hcds)
  | @swap a b as isMovable =>
    simp only [List.mapM_cons]
    cases ha : f a with
    | error =>
      cases f b with
      | error => exact .error
      | ok => exact .error
    | ok c =>
      cases hb : f b with
      | error => exact .error
      | ok d =>
        rw [← hf a c ha, ← hf b d hb] at isMovable
        cases as.mapM f with
        | error => exact .error
        | ok cs => exact .ok (.swap isMovable)
  | trans _ _ ih ih' => exact (ih.trans ih').mono fun _ _ ⟨_, h, h'⟩ => h.trans h'

/-! ## Steps that agree up to a function -/

/-- Both steps fail, or the second gives what `f` makes of the result of the first. -/
abbrev AgreeBy (f : α → β) : Except ε α → Except ε β → Prop := Agree fun a b => b = f a

section AgreeBy

variable {f : α → β} {g : γ → δ} {x : Except ε α} {y : Except ε β}

theorem agreeBy_ok (f : α → β) (a : α) : AgreeBy f (.ok a : Except ε α) (.ok (f a)) := .ok rfl

theorem AgreeBy.bind {k : α → Except ε γ} {k' : β → Except ε δ} (h : AgreeBy f x y)
    (hk : ∀ a, AgreeBy g (k a) (k' (f a))) : AgreeBy g (x >>= k) (y >>= k') :=
  Agree.bind h fun a _ hb => hb ▸ hk a

theorem AgreeBy.map {k : α → γ} {k' : β → δ} (h : AgreeBy f x y) (hk : ∀ a, k' (f a) = g (k a)) :
    AgreeBy g (k <$> x) (k' <$> y) :=
  Agree.map h fun a _ hb => hb ▸ hk a

theorem agreeBy_mapM {k : α → Except ε γ} {k' : α → Except ε δ} (as : List α)
    (h : ∀ a ∈ as, AgreeBy g (k a) (k' a)) : AgreeBy (List.map g) (as.mapM k) (as.mapM k') := by
  induction as with
  | nil => exact .ok rfl
  | cons a as ih =>
    obtain ⟨ha, has⟩ := List.forall_mem_cons.1 h
    rw [List.mapM_cons, List.mapM_cons]
    exact ha.bind fun c => (ih has).bind fun cs => .ok rfl

theorem agreeBy_foldlM {k : α → γ → Except ε α} {k' : β → δ → Except ε β} (cs : List γ)
    (h : ∀ a c, AgreeBy f (k a c) (k' (f a) (g c))) :
    ∀ a, AgreeBy f (cs.foldlM k a) ((cs.map g).foldlM k' (f a)) := by
  induction cs with
  | nil => exact agreeBy_ok f
  | cons c cs ih =>
    intro a
    rw [List.map_cons, List.foldlM_cons, List.foldlM_cons]
    exact (h a c).bind ih

end AgreeBy

end SchemaLang
