import SchemaLang.Proofs.Inheriting.Unfolding

/-!
# Each interface once

`Loaded.visit` lists an interface and those that it inherits from without repetitions, and it does
not follow the bases of one that is there already.  The outcome is that of leaving out the
repetitions in the unfolding: `visit_eq`, and `ancestry_eq` for the whole list.
-/

namespace SchemaLang.Loaded

variable {l : Loaded} {id : DeclId}

/-- The interfaces that were met bring all that they are made up of, except for those whose bases
are being followed. -/
def Complete (l : Loaded) (below met : List DeclId) : Prop :=
  ∀ x ∈ met, x ∉ below → ∃ ids, l.Unfolds (fun id => [id]) x ids ∧ ids ⊆ met

theorem Complete.keepNew {below met ids : List DeclId} (h : l.Complete below met)
    (hid : l.Unfolds (fun id => [id]) id ids) :
    l.Complete below (keepNew (fun i => i) met ids) := by
  intro x hx hbelow
  rcases mem_keepNew.1 hx with hx | hx
  · obtain ⟨ids', hids', hsub⟩ := h x hx hbelow
    exact ⟨ids', hids', fun y hy => mem_keepNew.2 (.inl (hsub hy))⟩
  · obtain ⟨b, hreach, hb⟩ := hid.mem_iff.1 hx
    obtain rfl := List.mem_singleton.1 hb
    obtain ⟨ids', hids', hsub⟩ := hid.of_reaches hreach
    exact ⟨ids', hids', fun y hy => mem_keepNew.2 (.inr (hsub hy))⟩

/-- While the bases of an interface are followed, it need not be complete. -/
theorem Complete.concat {below met : List DeclId} (h : l.Complete below met) (id : DeclId) :
    l.Complete (id :: below) (met ++ [id]) := by
  intro x hx hbelow
  obtain ⟨hne, hbelow⟩ := not_or.1 (mt List.mem_cons.2 hbelow)
  rcases List.mem_append.1 hx with hx | hx
  · obtain ⟨ids, hids, hsub⟩ := h x hx hbelow
    exact ⟨ids, hids, fun y hy => List.mem_append_left _ (hsub hy)⟩
  · exact absurd (List.mem_singleton.1 hx) hne

/-- Bases are visited one after the other. -/
theorem foldlM_visit (below : List DeclId) (visited : List DeclId → DeclId → Link (List DeclId))
    (unfolded : DeclId → Link (List DeclId)) (bs : List DeclId)
    (h : ∀ b ∈ bs, (∀ ids, unfolded b = .ok ids → l.Unfolds (fun id => [id]) b ids) ∧
      ∀ met, l.Complete below met → visited met b = keepNew (fun i => i) met <$> unfolded b) :
    ∀ met, l.Complete below met → bs.foldlM visited met =
      (fun idss => keepNew (fun i => i) met idss.flatten) <$> bs.mapM unfolded := by
  induction bs with
  | nil => exact fun _ _ => rfl
  | cons b bs ih =>
    intro met hmet
    obtain ⟨⟨hunfolds, hvisit⟩, hbs⟩ := List.forall_mem_cons.1 h
    rw [List.foldlM_cons, List.mapM_cons, hvisit met hmet]
    cases hids : unfolded b with
    | error e => rfl
    | ok ids =>
      rw [ok_map, ok_bind, ok_bind, ih hbs _ (hmet.keepNew (hunfolds ids hids))]
      cases bs.mapM unfolded with
      | error e => rfl
      | ok idss =>
        rw [ok_map, ok_bind, pure_eq_ok, ok_map, List.flatten_cons, keepNew_append]

/-- Visiting appends what the interface is made up of, without repetitions. -/
theorem visit_eq (bound : Nat) : ∀ (below met : List DeclId) (id : DeclId), l.Leading below id →
    (l.above below).card < bound → l.Complete below met →
      l.visit bound below met id = keepNew (fun i => i) met <$> l.unfolding bound below id := by
  induction bound with
  | zero => exact fun _ _ _ _ hbound => absurd hbound (Nat.not_lt_zero _)
  | succ bound ih =>
    intro below met id hlead hbound hmet
    rw [visit]
    by_cases hid : id ∈ below
    · rw [if_pos hid, unfolding, if_pos hid, map_cyclic]
    · rw [if_neg hid]
      by_cases hold : id ∈ met
      · obtain ⟨ids, hids, hsub⟩ := hmet id hold hid
        have hkept : keepNew (fun i => i) met ids = met :=
          keepNew_eq_self fun x hx => (List.map_id' met).symm ▸ hsub hx
        rw [if_pos hold, hids.unfolding hlead hbound, ok_map, hkept]
      · rw [if_neg hold, unfolding, if_neg hid]
        cases hbases : l.basesOf id with
        | error e => rfl
        | ok bs =>
          have hstep {b : DeclId} (hb : b ∈ bs) : l.Extends id b := ⟨bs, hbases, hb⟩
          have hvisit := foldlM_visit (id :: below) (l.visit bound (id :: below))
            (l.unfolding bound (id :: below)) bs (fun b hb =>
              ⟨unfolds_of_unfolding bound _ b (card_above_base hbound hid (hstep hb)),
                fun met' hmet' => ih _ met' b (hlead.step (hstep hb))
                  (card_above_base hbound hid (hstep hb)) hmet'⟩) (met ++ [id]) (hmet.concat id)
          rw [ok_bind, ok_bind, hvisit]
          cases bs.mapM (l.unfolding bound (id :: below)) with
          | error e => rfl
          | ok idss =>
            rw [ok_map, ok_bind, pure_eq_ok, ok_map, SchemaLang.keepNew, List.map_id', if_neg hold]

/-- An interface and all that it inherits from are what it is made up of, without repetitions. -/
theorem ancestry_eq {bound : Nat} (hbound : l.entries.size < bound) (id : DeclId) :
    l.ancestry id = keepNew (fun i => i) [] <$> l.unfolding bound [] id := by
  rw [← visit_of_le hbound]
  exact visit_eq bound [] [] id (List.forall_mem_nil _) ((card_above_le []).trans_lt hbound)
    (List.forall_mem_nil _)

end SchemaLang.Loaded
