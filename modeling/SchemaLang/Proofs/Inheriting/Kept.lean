import Mathlib.Data.List.Nodup

/-!
# Keeping the first of each key

`keepNew` appends items to a list one by one and leaves out those whose key is there already.  It
does not matter whether repetitions are left out early or late (`keepNew_keepNew`), nor whether they
are left out among the items or among groups of them (`keepNew_flatMap`).
-/

namespace SchemaLang

variable {α κ : Type} [DecidableEq κ] (key : α → κ)

/-- Appends each item whose key is not there yet. -/
def keepNew : (kept : List α) → List α → List α
  | kept, [] => kept
  | kept, x :: xs => keepNew (if key x ∈ kept.map key then kept else kept ++ [x]) xs

variable {key} {kept xs ys : List α}

theorem keepNew_append (kept xs ys : List α) :
    keepNew key kept (xs ++ ys) = keepNew key (keepNew key kept xs) ys := by
  induction xs generalizing kept with
  | nil => rfl
  | cons x xs ih => exact ih _

theorem prefix_keepNew (kept xs : List α) : kept <+: keepNew key kept xs := by
  induction xs generalizing kept with
  | nil => exact List.prefix_rfl
  | cons x xs ih =>
    rw [keepNew]
    split
    · exact ih kept
    · exact (List.prefix_append kept [x]).trans (ih _)

/-- No key is lost. -/
theorem key_mem_keepNew {k : κ} :
    k ∈ (keepNew key kept xs).map key ↔ k ∈ kept.map key ∨ k ∈ xs.map key := by
  induction xs generalizing kept with
  | nil => simp [keepNew]
  | cons x xs ih =>
    rw [keepNew, ih]
    by_cases hx : key x ∈ kept.map key
    · rw [if_pos hx, List.map_cons, List.mem_cons]
      refine or_congr_right' fun hk => ⟨.inr, fun h => h.resolve_left fun e => hk (e ▸ hx)⟩
    · rw [if_neg hx, List.map_append, List.map_singleton, List.mem_append, List.mem_singleton,
        List.map_cons, List.mem_cons, or_assoc]

/-- An item that is its own key is not lost. -/
theorem mem_keepNew {ι : Type} [DecidableEq ι] {kept is : List ι} {i : ι} :
    i ∈ keepNew (fun i => i) kept is ↔ i ∈ kept ∨ i ∈ is := by
  have hkeys : i ∈ (keepNew (fun i => i) kept is).map (fun i => i) ↔
      i ∈ kept.map (fun i => i) ∨ i ∈ is.map (fun i => i) := key_mem_keepNew
  rwa [List.map_id', List.map_id', List.map_id'] at hkeys

theorem nodup_keepNew (h : (kept.map key).Nodup) : ((keepNew key kept xs).map key).Nodup := by
  induction xs generalizing kept with
  | nil => exact h
  | cons x xs ih =>
    rw [keepNew]
    by_cases hx : key x ∈ kept.map key
    · rw [if_pos hx]
      exact ih h
    · rw [if_neg hx]
      refine ih ?_
      rw [List.map_append, List.map_singleton]
      exact List.concat_eq_append ▸ h.concat hx

theorem keepNew_eq_self (h : ∀ x ∈ xs, key x ∈ kept.map key) : keepNew key kept xs = kept := by
  induction xs with
  | nil => rfl
  | cons x xs ih =>
    obtain ⟨hx, hxs⟩ := List.forall_mem_cons.1 h
    rw [keepNew, if_pos hx]
    exact ih hxs

theorem keepNew_eq_append (hnodup : (xs.map key).Nodup) (hnew : ∀ x ∈ xs, key x ∉ kept.map key) :
    keepNew key kept xs = kept ++ xs := by
  induction xs generalizing kept with
  | nil => rw [keepNew, List.append_nil]
  | cons x xs ih =>
    obtain ⟨hx, hxs⟩ := List.forall_mem_cons.1 hnew
    obtain ⟨hfirst, hnodup⟩ := List.nodup_cons.1 hnodup
    rw [keepNew, if_neg hx, List.append_cons kept x xs]
    refine ih hnodup fun y hy hmem => ?_
    rw [List.map_append, List.mem_append, List.map_singleton, List.mem_singleton] at hmem
    rcases hmem with hmem | hmem
    · exact hxs y hy hmem
    · exact hfirst (hmem ▸ List.mem_map_of_mem hy)

/-- Items whose repetitions were left out before give the same as the items themselves. -/
theorem keepNew_keepNew (kept ys xs : List α) :
    keepNew key kept (keepNew key ys xs) = keepNew key (keepNew key kept ys) xs := by
  induction xs generalizing ys with
  | nil => rfl
  | cons x xs ih =>
    rw [keepNew, ih]
    by_cases hx : key x ∈ ys.map key
    · rw [if_pos hx, keepNew, if_pos (key_mem_keepNew.2 (.inr hx))]
    · rw [if_neg hx, keepNew_append]
      rfl

/-- Leaving out whole groups that come again. -/
theorem keepNew_flatMap {ι : Type} [DecidableEq ι] {own : ι → List α}
    (hnodup : ∀ i, ((own i).map key).Nodup)
    (happart : ∀ i, ∀ x ∈ own i, ∀ j, ∀ y ∈ own j, key x = key y → i = j) (kept ids : List ι) :
    keepNew key (kept.flatMap own) (ids.flatMap own) =
      (keepNew (fun i => i) kept ids).flatMap own := by
  induction ids generalizing kept with
  | nil => rfl
  | cons i ids ih =>
    rw [List.flatMap_cons, keepNew_append, keepNew, List.map_id']
    by_cases hi : i ∈ kept
    · have hkept : keepNew key (kept.flatMap own) (own i) = kept.flatMap own :=
        keepNew_eq_self fun x hx => List.mem_map_of_mem (List.mem_flatMap_of_mem hi hx)
      rw [if_pos hi, hkept]
      exact ih kept
    · have hkept : keepNew key (kept.flatMap own) (own i) = (kept ++ [i]).flatMap own := by
        rw [List.flatMap_append, List.flatMap_singleton]
        refine keepNew_eq_append (hnodup i) fun x hx hmem => ?_
        obtain ⟨y, hy, hkey⟩ := List.mem_map.1 hmem
        obtain ⟨j, hj, hy⟩ := List.mem_flatMap.1 hy
        exact hi (happart j y hy i x hx hkey ▸ hj)
      rw [if_neg hi, hkept]
      exact ih (kept ++ [i])

end SchemaLang
