import SchemaLang.Proofs.Clashing.Spaces

/-!
# Clashes that are reported

A module is entered exactly if it binds no name twice in a scope and uses no ordinal twice in a
numbering space: `exists_enter_iff_distinct`.  If it is refused, the error points at the second use
of a name or ordinal and at the first: `reports_of_enter`.
-/

namespace SchemaLang

/-- No name is bound twice in one scope of the module, and no ordinal is used twice in one of its
numbering spaces. -/
structure Module.Distinct (m : Module) : Prop where
  names : ∀ scope ∈ m.scopeNames, (scope.map Ident.name).Nodup
  ordinals : ∀ space ∈ m.spaceOrdinals, (space.map Ordinal.value).Nodup

/-- A key comes again in a list: `first` is the first item that has it and `again` the second. -/
def Recurs {α κ : Type} (key : α → κ) (xs : List α) (first again : α) : Prop :=
  ∃ before between after, xs = before ++ first :: between ++ again :: after ∧
    key first = key again ∧ ∀ x ∈ before ++ between, key x ≠ key again

/-- The errors that tell, of the module under a path, which name or ordinal comes again: they point
at its second use and, as a note, at the first. -/
inductive Module.Reports (m : Module) (path : String) : SchemaError → Prop
  | name {scope : List Ident} {first again : Ident} (isScope : scope ∈ m.scopeNames)
      (recurs : Recurs Ident.name scope first again) :
      Reports m path (.linking ⟨path, again.span, .duplicateName again.name first.span⟩)
  | ordinal {space : List Ordinal} {first again : Ordinal} (isSpace : space ∈ m.spaceOrdinals)
      (recurs : Recurs Ordinal.value space first again) :
      Reports m path (.linking ⟨path, again.span, .duplicateOrdinal again.value first.span⟩)

/-! ## Clashes among uses -/

/-- Two uses clash unless they differ in every scope and in every numbering space. -/
theorem Use.sameKey_eq_false_iff (u v : Use) : u.sameKey v = false ↔
    (∀ scope, ∀ i ∈ u.nameIn? scope, ∀ j ∈ v.nameIn? scope, i.name ≠ j.name) ∧
      ∀ space, ∀ o ∈ u.ordinalIn? space, ∀ p ∈ v.ordinalIn? space, o.value ≠ p.value := by
  cases u <;> cases v <;> simp [sameKey, nameIn?, ordinalIn?] <;> grind

theorem clashless_iff {us : List Use} : Clashless us ↔
    (∀ scope, ((us.filterMap (Use.nameIn? scope)).map Ident.name).Nodup) ∧
      ∀ space, ((us.filterMap (Use.ordinalIn? space)).map Ordinal.value).Nodup := by
  simp only [Clashless, List.Nodup, List.pairwise_map, List.pairwise_filterMap,
    Use.sameKey_eq_false_iff]
  simp only [List.pairwise_iff_forall_sublist]
  constructor
  · intro h
    exact ⟨fun scope u v huv => (h huv).1 scope, fun space u v huv => (h huv).2 space⟩
  · rintro ⟨hnames, hordinals⟩ u v huv
    exact ⟨fun scope => hnames scope huv, fun space => hordinals space huv⟩

theorem Use.sameKey_trans {u v w : Use} (h : u.sameKey v) (h' : v.sameKey w) : u.sameKey w := by
  cases u <;> cases v <;> cases w <;> simp_all [sameKey]

/-- The clash that is found is between the first two uses of its key. -/
theorem recurs_of_firstClashAfter {us : List Use} {c : Clash} : ∀ earlier : List Use,
    Clashless earlier → firstClashAfter earlier us = some c →
      ∃ before between after, earlier.reverse ++ us =
        before ++ c.first :: between ++ c.again :: after ∧ c.first.sameKey c.again ∧
          ∀ u ∈ before ++ between, u.sameKey c.again = false := by
  induction us with
  | nil => exact fun _ _ => nofun
  | cons u us ih =>
    intro earlier hclashless h
    rw [firstClashAfter] at h
    cases hfind : earlier.find? (·.sameKey u) with
    | none =>
      rw [hfind] at h
      simp only [List.find?_eq_none, Bool.not_eq_true] at hfind
      have hcons : Clashless (u :: earlier) :=
        List.pairwise_cons.2 ⟨fun v hv => (u.sameKey_comm v).trans (hfind v hv), hclashless⟩
      have hsplit := ih (u :: earlier) hcons h
      rwa [List.reverse_cons, List.append_assoc, List.singleton_append] at hsplit
    | some first =>
      rw [hfind] at h
      obtain rfl := Option.some.inj h
      obtain ⟨hkey, after, before, rfl, hafter⟩ := List.find?_eq_some_iff_append.1 hfind
      refine ⟨before.reverse, after.reverse, us, by simp, hkey, ?_⟩
      refine List.forall_mem_append.2 ⟨fun v hv => ?_, fun v hv => ?_⟩
      · -- An earlier use of the key would clash with the first one.
        have hfirst := (List.pairwise_cons.1 (List.pairwise_append.1 hclashless).2.1).1 v
          (List.mem_reverse.1 hv)
        refine Bool.eq_false_iff.2 fun hv => ?_
        rw [first.sameKey_comm v] at hfirst
        exact absurd (Use.sameKey_trans hv (u.sameKey_comm first ▸ hkey)) (by simp [hfirst])
      · simpa using hafter v (List.mem_reverse.1 hv)

theorem recurs_of_firstClash? {us : List Use} {c : Clash} (h : firstClash? us = some c) :
    ∃ before between after, us = before ++ c.first :: between ++ c.again :: after ∧
      c.first.sameKey c.again ∧ ∀ u ∈ before ++ between, u.sameKey c.again = false :=
  recurs_of_firstClashAfter [] .nil h

/-- What comes again among uses comes again among what is read off them, as far as nothing else has
the same key there. -/
theorem recurs_filterMap {α κ : Type} {f : Use → Option α} {key : α → κ}
    {before between after : List Use} {u v : Use} {a b : α} (hu : f u = some a) (hv : f v = some b)
    (hkey : key a = key b)
    (hne : ∀ w ∈ before ++ between, ∀ c ∈ f w, key c ≠ key b) :
    Recurs key ((before ++ u :: between ++ v :: after).filterMap f) a b := by
  refine ⟨before.filterMap f, between.filterMap f, after.filterMap f, ?_, hkey, ?_⟩
  · simp [hu, hv]
  · intro c hc
    rw [← List.filterMap_append] at hc
    obtain ⟨w, hw, hc⟩ := List.mem_filterMap.1 hc
    exact hne w hw c hc

/-- A clash is that of two names in one scope or of two ordinals in one numbering space. -/
theorem Clash.cases {us : List Use} {c : Clash} (h : firstClash? us = some c) :
    (∃ scope first again, c = ⟨.name scope first, .name scope again⟩ ∧
      Recurs Ident.name (us.filterMap (Use.nameIn? scope)) first again) ∨
    ∃ space first again, c = ⟨.ordinal space first, .ordinal space again⟩ ∧
      Recurs Ordinal.value (us.filterMap (Use.ordinalIn? space)) first again := by
  obtain ⟨before, between, after, rfl, hkey, hne⟩ := recurs_of_firstClash? h
  simp only [Use.sameKey_eq_false_iff] at hne
  obtain ⟨u, v⟩ := c
  cases u with
  | name scope first =>
    cases v with
    | ordinal => cases hkey
    | name scope' again =>
      obtain ⟨rfl, hname⟩ : scope = scope' ∧ first.name = again.name := by
        simpa [Use.sameKey] using hkey
      refine .inl ⟨scope, first, again, rfl, recurs_filterMap (if_pos rfl) (if_pos rfl) hname ?_⟩
      exact fun w hw i hi => (hne w hw).1 scope i hi again (if_pos rfl)
  | ordinal space first =>
    cases v with
    | name => cases hkey
    | ordinal space' again =>
      obtain ⟨rfl, hvalue⟩ : space = space' ∧ first.value = again.value := by
        simpa [Use.sameKey] using hkey
      refine .inr ⟨space, first, again, rfl, recurs_filterMap (if_pos rfl) (if_pos rfl) hvalue ?_⟩
      exact fun w hw o ho => (hne w hw).2 space o ho again (if_pos rfl)

/-! ## Entering a module -/

section Enter

variable {l : Loaded} {path : String} {m : Module}

/-- The uses that are checked when a module is entered, by scope. -/
theorem Loaded.filed_names_place (l : Loaded) (m : Module) :
    Filed Use.nameIn? l.scopes.size ((l.place m).flatMap PlacedDecl.scopeIds)
      (m.decls.filterMap Decl.binding) (m.decls.flatMap Decl.scopeNames)
      (fileUses l.scopes.size (l.place m)) := by
  have hfile := filed_names_file l.scopes.size (l.place m)
  rwa [l.trees_place] at hfile

/-- The uses that are checked when a module is entered, by numbering space. -/
theorem Loaded.filed_ordinals_place (l : Loaded) (m : Module) (space : DeclId) :
    Filed Use.ordinalIn? space ((l.place m).flatMap PlacedDecl.ids) [] m.spaceOrdinals
      (fileUses l.scopes.size (l.place m)) := by
  have hfile := filed_ordinals_file space l.scopes.size (l.place m)
  rwa [l.trees_place] at hfile

theorem Loaded.exists_not_mem_ids (l : Loaded) (m : Module) :
    ∃ space, space ∉ (l.place m).flatMap PlacedDecl.ids := by
  have hids := Entered.ids_place l m
  generalize (l.place m).flatMap PlacedDecl.ids = ids at hids
  refine ⟨l.entries.size + ids.length, fun h => ?_⟩
  have hrange := hids.subst (motive := fun ids' => l.entries.size + ids.length ∈ ids') h
  exact Nat.lt_irrefl _ (List.mem_range'_1.1 hrange).2

theorem clashless_place_iff (l : Loaded) (m : Module) :
    Clashless (fileUses l.scopes.size (l.place m)) ↔ m.Distinct := by
  obtain ⟨hscope, hscopes⟩ := List.nodup_cons.1 (l.nodup_scopeIds_place m)
  obtain ⟨space, hspace⟩ := l.exists_not_mem_ids m
  have hnames := (l.filed_names_place m).forall_iff hscopes hscope
    (P := fun row => (row.map Ident.name).Nodup) .nil
  have hordinals := (l.filed_ordinals_place m space).forall_iff (l.nodup_ids_place m) hspace
    (P := fun row => (row.map Ordinal.value).Nodup) .nil
  rw [clashless_iff, hnames, hordinals]
  constructor
  · rintro ⟨hn, ho⟩
    exact ⟨hn, (List.forall_mem_cons.1 ho).2⟩
  · intro h
    exact ⟨h.names, List.forall_mem_cons.2 ⟨List.nodup_nil, h.ordinals⟩⟩

/-- A module is entered exactly if no name or ordinal comes again in it. -/
theorem exists_enter_iff_distinct : (∃ l', l.enter path m = .ok l') ↔ m.Distinct :=
  exists_enter.trans (clashless_place_iff l m)

/-- A module that is refused has a name or ordinal that comes again, and the error says which. -/
theorem reports_of_enter {e : SchemaError} (h : l.enter path m = .error e) : m.Reports path e := by
  obtain ⟨hscope, hscopes⟩ := List.nodup_cons.1 (l.nodup_scopeIds_place m)
  obtain ⟨other, hother⟩ := l.exists_not_mem_ids m
  unfold Loaded.enter at h
  dsimp only at h
  split at h
  · next c hclash =>
    obtain rfl := Except.error.inj h
    rcases Clash.cases hclash with
      ⟨scope, first, again, rfl, hrecurs⟩ | ⟨space, first, again, rfl, hrecurs⟩
    · refine .name (((l.filed_names_place m).mem hscopes hscope scope).resolve_left ?_) hrecurs
      intro hnil
      obtain ⟨before, between, after, hsplit, -⟩ := hrecurs
      exact absurd (hnil.symm.trans hsplit) (by simp)
    · have hrow := ((l.filed_ordinals_place m other).mem (l.nodup_ids_place m) hother space)
      have hne : (fileUses l.scopes.size (l.place m)).filterMap (Use.ordinalIn? space) ≠ [] := by
        intro hnil
        obtain ⟨before, between, after, hsplit, -⟩ := hrecurs
        exact absurd (hnil.symm.trans hsplit) (by simp)
      exact .ordinal ((List.mem_cons.1 (hrow.resolve_left hne)).resolve_left hne) hrecurs
  · cases h

end Enter

end SchemaLang
