import SchemaLang.Proofs.Printing.Terms

/-!
# Printed declarations

Every declaration and every member that was read is printed: `prints_decl` and `prints_member`.
-/

namespace SchemaLang

open Grammar Layout

/-! ## Declarations without a body -/

theorem apart_ending (as : List Application) (next : Layout) : Apart (ending as ++ next) := by
  rw [ending, List.append_assoc]
  exact apart_applications as (apart_mark (by decide) _)

/-- The end of a declaration is printed as its annotations and a semicolon. -/
theorem prints_ending {ls : List Lexeme} {as : List Application} (h : IsApplications ls as)
    (hg : Genuine ls) :
    Prints (fun used as => ∃ ls semicolon, used = ls ++ [.mark .semicolon semicolon] ∧
      IsApplications ls as) (List.map Application.eraseSpans) as (ending as) := by
  obtain ⟨hread, hderives⟩ := prints_applications h hg
  refine ⟨fun next hnext => ?_, fun ls hls => ?_⟩
  · simp only [ending, readable_append, readable_mark, readable_nil, and_true]
    exact hread _ (apart_mark (by decide) _)
  · simp only [ending, tokens_append, tokens_mark, tokens_nil, List.map_eq_append_iff,
      map_token_eq_cons, List.map_eq_nil_iff] at hls
    obtain ⟨as', _, rfl, has, semicolon, _, rfl, rfl⟩ := hls
    obtain ⟨applied, h, e⟩ := hderives as' has
    exact ⟨applied, ⟨as', semicolon, rfl, h⟩, e⟩

theorem prints_const {ls : List Lexeme} {d : Const} (h : IsConst ls d) (hg : Genuine ls)
    (depth : Nat) : Prints IsDecl Decl.eraseSpans (.const d) (decl depth (.const d)) := by
  obtain ⟨start, colon, equals, semicolon, name, isType, isValue, areApplied⟩ := h
  simp only [genuine_cons, genuine_append] at hg
  have htype := prints_type isType hg.2.2.2.1
  have hvalue := prints_shallow isValue hg.2.2.2.2.2.1
  have happlied := prints_ending areApplied hg.2.2.2.2.2.2.1
  refine ⟨fun next hnext => ?_, fun ls hls => ?_⟩
  · simp only [decl, default?, List.append_assoc, List.cons_append, List.nil_append, readable_word,
      readable_space, readable_name, readable_mark, readable_append]
    exact ⟨noWord_space _, isName_of_isGenuine hg.2.1, noWord_space _,
      htype.readable _ (apart_space _), hvalue.readable _ (apart_ending _ next),
      happlied.readable next hnext⟩
  · simp only [decl, default?, List.append_assoc, List.cons_append, List.nil_append, tokens_word,
      tokens_space, tokens_name, tokens_mark, tokens_append, map_token_eq_cons,
      List.map_eq_append_iff] at hls
    obtain ⟨start', _, rfl, span, _, rfl, colon', _, rfl, tys, _, rfl, htys, equals', _, rfl, vs,
      rest, rfl, hvs, hrest⟩ := hls
    obtain ⟨type', h₁, e₁⟩ := htype.derives tys htys
    obtain ⟨value', h₂, e₂⟩ := hvalue.derives vs hvs
    obtain ⟨applied', ⟨as, semicolon', rfl, h₃⟩, e₃⟩ := happlied.derives rest hrest
    refine ⟨_, .const (.mk start' colon' equals' semicolon' ⟨span, name.name⟩ h₁ h₂ h₃), ?_⟩
    simp only [Decl.eraseSpans, Const.eraseSpans, e₁, e₂, e₃]
    rfl

section Using

variable {α β : Type} {r : Phrases α} {erase : α → β} {a : α} {lay : Layout}

/-- A `using` form that gives no name is printed if its target is. -/
theorem prints_bareUsing (h : Prints r erase a lay) :
    Prints (fun used a => ∃ start ls semicolon,
      used = .word .usingKw start :: (ls ++ [.mark .semicolon semicolon]) ∧ r ls a)
      erase a (usingStart none ++ lay ++ [mark .semicolon]) := by
  refine ⟨fun next hnext => ?_, fun ls hls => ?_⟩
  · simp only [usingStart, Option.map_none, Option.getD_none, List.append_assoc,
      List.cons_append, List.nil_append, readable_word, readable_space, readable_append,
      readable_mark, readable_nil, and_true]
    exact ⟨noWord_space _, h.readable _ (apart_mark (by decide) _)⟩
  · simp only [usingStart, Option.map_none, Option.getD_none, List.cons_append, List.nil_append,
      tokens_word, tokens_space, tokens_append, tokens_mark, tokens_nil, map_token_eq_cons,
      List.map_eq_append_iff, List.map_eq_nil_iff] at hls
    obtain ⟨start, _, rfl, inner, _, rfl, hinner, semicolon, _, rfl, rfl⟩ := hls
    obtain ⟨a', ha, e⟩ := h.derives inner hinner
    exact ⟨a', ⟨start, inner, semicolon, rfl, ha⟩, e⟩

/-- A `using` form that gives a name is printed if its target is. -/
theorem prints_namedUsing {i : Ident} (hi : IsName i.name) (h : Prints r erase a lay) :
    Prints (fun used a => ∃ start span equals ls semicolon,
      used = .word .usingKw start :: Ident.lexeme ⟨span, i.name⟩ :: .mark .equals equals ::
        (ls ++ [.mark .semicolon semicolon]) ∧ r ls a)
      erase a (usingStart (some i) ++ lay ++ [mark .semicolon]) := by
  refine ⟨fun next hnext => ?_, fun ls hls => ?_⟩
  · simp only [usingStart, Option.map_some, Option.getD_some, List.append_assoc,
      List.cons_append, List.nil_append, readable_word, readable_space, readable_name,
      readable_append, readable_mark, readable_nil, and_true]
    exact ⟨noWord_space _, hi, noWord_space _, h.readable _ (apart_mark (by decide) _)⟩
  · simp only [usingStart, Option.map_some, Option.getD_some, List.cons_append, List.nil_append,
      tokens_word, tokens_space, tokens_name, tokens_append, tokens_mark, tokens_nil,
      map_token_eq_cons, List.map_eq_append_iff, List.map_eq_nil_iff] at hls
    obtain ⟨start, _, rfl, span, _, rfl, equals, _, rfl, inner, _, rfl, hinner, semicolon, _,
      rfl, rfl⟩ := hls
    obtain ⟨a', ha, e⟩ := h.derives inner hinner
    exact ⟨a', ⟨start, span, equals, inner, semicolon, rfl, ha⟩, e⟩

end Using

theorem prints_using {ls : List Lexeme} {d : Decl} (h : IsUsing ls d) (hg : Genuine ls)
    (depth : Nat) : Prints IsDecl Decl.eraseSpans d (decl depth d) := by
  cases h with
  | path start semicolon target =>
    simp only [genuine_cons, genuine_append] at hg
    rw [decl]
    refine (prints_bareUsing (prints_path target hg.2.1)).imp ?_
    rintro _ p' ⟨start', ls, semicolon', rfl, h⟩ e
    refine ⟨_, .usingForm (.path start' semicolon' h), ?_⟩
    simp only [Decl.eraseSpans, Alias.eraseSpans, Option.map_none, e]
  | pathAs start equals semicolon i target =>
    simp only [genuine_cons, genuine_append] at hg
    rw [decl]
    have htarget := prints_path target hg.2.2.2.1
    refine (prints_namedUsing (isName_of_isGenuine hg.2.1) htarget).imp ?_
    rintro _ p' ⟨start', span, equals', ls, semicolon', rfl, h⟩ e
    refine ⟨_, .usingForm (.pathAs start' equals' semicolon' ⟨span, i.name⟩ h), ?_⟩
    simp only [Decl.eraseSpans, Alias.eraseSpans, Option.map_some, e]
    rfl
  | imported start semicolon target =>
    simp only [genuine_cons, genuine_append] at hg
    rw [decl]
    refine (prints_bareUsing (prints_importTarget target hg.2.1)).imp ?_
    rintro _ ⟨kw, source, segments⟩ ⟨start', ls, semicolon', rfl, h⟩ e
    obtain ⟨esource, esegments⟩ := Prod.mk.inj e
    refine ⟨_, .usingForm (.imported start' semicolon' h), ?_⟩
    simp only [Decl.eraseSpans, ImportAlias.eraseSpans, Option.map_none]
    rw [esource, esegments]
  | importedAs start equals semicolon i target =>
    simp only [genuine_cons, genuine_append] at hg
    rw [decl]
    have htarget := prints_importTarget target hg.2.2.2.1
    refine (prints_namedUsing (isName_of_isGenuine hg.2.1) htarget).imp ?_
    rintro _ ⟨kw, source, segments⟩ ⟨start', span, equals', ls, semicolon', rfl, h⟩ e
    obtain ⟨esource, esegments⟩ := Prod.mk.inj e
    refine ⟨_, .usingForm (.importedAs start' equals' semicolon' ⟨span, i.name⟩ h), ?_⟩
    simp only [Decl.eraseSpans, ImportAlias.eraseSpans, Option.map_some]
    rw [esource, esegments]
    rfl

/-- A target is written as a star, as a keyword or as a name. -/
theorem target_cases (t : Target) :
    t = .any ∨ (∃ k : Keyword, target t = word k ∧ k.text = t.name) ∨
      (target t = name t.name ∧ IsName t.name ∧ t ≠ .any) := by
  cases t <;> first
    | exact .inl rfl
    | exact .inr (.inl ⟨_, rfl, rfl⟩)
    | exact .inr (.inr ⟨rfl, ⟨_, _, rfl, rfl, List.all_eq_true.1 rfl, rfl⟩, nofun⟩)

theorem prints_target (r : Span × Target) :
    Prints IsTarget (fun r => (Span.point 0, r.2)) r [target r.2] := by
  obtain ⟨span, t⟩ := r
  obtain rfl | ⟨k, ht, hk⟩ | ⟨ht, hname, hany⟩ := target_cases t
  · refine ⟨fun next _ => ?_, fun ls hls => ?_⟩
    · simp only [target, readable_mark, readable_nil]
    · simp only [target, tokens_mark, tokens_nil, map_token_eq_cons, List.map_eq_nil_iff] at hls
      obtain ⟨span', _, rfl, rfl⟩ := hls
      exact ⟨_, .star span', rfl⟩
  · refine ⟨fun next hnext => ?_, fun ls hls => ?_⟩
    · simp only [ht, readable_word, List.nil_append, readable_nil, and_true]
      exact hnext.noWord
    · simp only [ht, tokens_word, tokens_nil, map_token_eq_cons, List.map_eq_nil_iff] at hls
      obtain ⟨span', _, rfl, rfl⟩ := hls
      exact ⟨_, .keyword span' hk, rfl⟩
  · refine ⟨fun next hnext => ?_, fun ls hls => ?_⟩
    · simp only [ht, readable_name, List.nil_append, readable_nil, and_true]
      exact ⟨hname, hnext.noWord⟩
    · simp only [ht, tokens_name, tokens_nil, map_token_eq_cons, List.map_eq_nil_iff] at hls
      obtain ⟨span', _, rfl, rfl⟩ := hls
      exact ⟨_, .name span' hany, rfl⟩

theorem prints_annotationDecl {ls : List Lexeme} {d : AnnotationDecl} (h : IsAnnotationDecl ls d)
    (hg : Genuine ls) (depth : Nat) :
    Prints IsDecl Decl.eraseSpans (.annotationDecl d) (decl depth (.annotationDecl d)) := by
  obtain ⟨start, opening, closing, colon, semicolon, name, areTargets, isType, areApplied⟩ := h
  simp only [genuine_cons, genuine_append] at hg
  have htargets := prints_separated areTargets.ne_nil fun t _ => prints_target t
  have htype := prints_type isType hg.2.2.2.2.2.2.1
  have happlied := prints_ending areApplied hg.2.2.2.2.2.2.2.1
  refine ⟨fun next hnext => ?_, fun ls hls => ?_⟩
  · simp only [decl, List.append_assoc, List.cons_append, List.nil_append, readable_word,
      readable_space, readable_name, readable_mark, readable_append]
    exact ⟨noWord_space _, isName_of_isGenuine hg.2.1, noWord_mark _ _,
      htargets.readable _ (apart_mark (by decide) _), htype.readable _ (apart_ending _ next),
      happlied.readable next hnext⟩
  · simp only [decl, List.append_assoc, List.cons_append, List.nil_append, tokens_word,
      tokens_space, tokens_name, tokens_mark, tokens_append, map_token_eq_cons,
      List.map_eq_append_iff] at hls
    obtain ⟨start', _, rfl, span, _, rfl, opening', _, rfl, tgs, _, rfl, htgs, closing', _, rfl,
      colon', _, rfl, tys, rest, rfl, htys, hrest⟩ := hls
    obtain ⟨targets', h₁, e₁⟩ := htargets.derives tgs htgs
    obtain ⟨type', h₂, e₂⟩ := htype.derives tys htys
    obtain ⟨applied', ⟨as, semicolon', rfl, h₃⟩, e₃⟩ := happlied.derives rest hrest
    refine ⟨_, .annotationDecl
      (.mk start' opening' closing' colon' semicolon' ⟨span, name.name⟩ h₁ h₂ h₃), ?_⟩
    simp only [Decl.eraseSpans, AnnotationDecl.eraseSpans, e₁, e₂, e₃]
    rfl

/-! ## Enums -/

theorem prints_enumerant {ls : List Lexeme} {e : Enumerant} (h : IsEnumerant ls e)
    (hg : Genuine ls) : Prints IsEnumerant Enumerant.eraseSpans e (enumerant e) := by
  obtain ⟨semicolon, name, isOrdinal, areApplied⟩ := h
  simp only [genuine_cons, genuine_append] at hg
  have hordinal := prints_ordinal isOrdinal
  have happlied := prints_ending areApplied hg.2.2.1
  refine ⟨fun next hnext => ?_, fun ls hls => ?_⟩
  · simp only [enumerant, List.append_assoc, List.cons_append, List.nil_append, readable_space,
      readable_name, readable_append]
    exact ⟨isName_of_isGenuine hg.1, noWord_space _, hordinal.readable _ (apart_ending _ next),
      happlied.readable next hnext⟩
  · simp only [enumerant, List.cons_append, List.nil_append, tokens_space, tokens_name,
      tokens_append, map_token_eq_cons, List.map_eq_append_iff] at hls
    obtain ⟨span, _, rfl, os, rest, rfl, hos, hrest⟩ := hls
    obtain ⟨ordinal', h₁, e₁⟩ := hordinal.derives os hos
    obtain ⟨applied', ⟨as, semicolon', rfl, h₂⟩, e₂⟩ := happlied.derives rest hrest
    refine ⟨_, .mk semicolon' ⟨span, name.name⟩ h₁ h₂, ?_⟩
    simp only [Enumerant.eraseSpans, e₁, e₂]
    rfl

section Block

variable {α β : Type} {item : Phrases α} {erase : α → β} {lay : α → Layout}

theorem apart_block (depth : Nat) (items : List Layout) (next : Layout) :
    Apart (block depth items ++ next) := by
  cases items <;> exact apart_space _

/-- Items in braces are printed if each of them is. -/
theorem prints_block (depth : Nat) {as : List α} (h : ∀ a ∈ as, Prints item erase a (lay a)) :
    Prints (fun used as => ∃ opening ls closing,
      used = .mark .openBrace opening :: (ls ++ [.mark .closeBrace closing]) ∧ IsMany item ls as)
      (List.map erase) as (block depth (as.map lay)) := by
  cases as with
  | nil =>
    refine ⟨fun next hnext => ?_, fun ls hls => ?_⟩
    · simp only [List.map_nil, block, readable_space, readable_mark, readable_nil]
    · simp only [List.map_nil, block, tokens_space, tokens_mark, tokens_nil, map_token_eq_cons,
        List.map_eq_nil_iff] at hls
      obtain ⟨opening, _, rfl, closing, _, rfl, rfl⟩ := hls
      exact ⟨[], ⟨opening, [], closing, rfl, .nil⟩, rfl⟩
  | cons a as =>
    obtain ⟨hread, hderives⟩ := prints_many (Or.inr ⟨depth + 1, rfl⟩) h
    rw [List.map_cons, block, ← List.map_cons, List.flatMap_map]
    · refine ⟨fun next hnext => ?_, fun ls hls => ?_⟩
      · simp only [List.cons_append, List.nil_append, readable_space, readable_mark,
          readable_append, readable_line, readable_nil, and_true]
        exact hread _ (apart_line _ _)
      · simp only [List.cons_append, List.nil_append, tokens_space, tokens_mark, tokens_append,
          tokens_line, tokens_nil, map_token_eq_cons, List.map_eq_append_iff,
          List.map_eq_nil_iff] at hls
        obtain ⟨opening, _, rfl, inner, _, rfl, hinner, closing, _, rfl, rfl⟩ := hls
        obtain ⟨as', h, e⟩ := hderives inner hinner
        exact ⟨as', ⟨opening, inner, closing, rfl, h⟩, e⟩
    · exact List.cons_ne_nil _ _

end Block

theorem prints_enum {ls : List Lexeme} {d : Enum} (h : IsEnum ls d) (hg : Genuine ls)
    (depth : Nat) : Prints IsDecl Decl.eraseSpans (.enum d) (decl depth (.enum d)) := by
  obtain ⟨start, opening, closing, name, areApplied, areEnumerants⟩ := h
  simp only [genuine_cons, genuine_append] at hg
  have happlied := prints_applications areApplied hg.2.2.1
  have hbody := prints_block depth fun e he => by
    obtain ⟨ls, he, hg⟩ := areEnumerants.forall_genuine hg.2.2.2.2.1 e he
    exact prints_enumerant he hg
  refine ⟨fun next hnext => ?_, fun ls hls => ?_⟩
  · simp only [decl, List.append_assoc, List.cons_append, List.nil_append, readable_word,
      readable_space, readable_name, readable_append]
    exact ⟨noWord_space _, isName_of_isGenuine hg.2.1,
      (apart_applications _ (apart_block depth _ next)).noWord,
      happlied.readable _ (apart_block depth _ next), hbody.readable next hnext⟩
  · simp only [decl, List.cons_append, List.nil_append, tokens_word, tokens_space, tokens_name,
      tokens_append, map_token_eq_cons, List.map_eq_append_iff] at hls
    obtain ⟨start', _, rfl, span, _, rfl, as, rest, rfl, has, hrest⟩ := hls
    obtain ⟨applied', h₁, e₁⟩ := happlied.derives as has
    obtain ⟨enumerants', ⟨opening', ls, closing', rfl, h₂⟩, e₂⟩ := hbody.derives rest hrest
    refine ⟨_, .enum (.mk start' opening' closing' ⟨span, name.name⟩ h₁ h₂), ?_⟩
    simp only [Decl.eraseSpans, Enum.eraseSpans, e₁, e₂]
    rfl

/-! ## Methods and fields -/

theorem prints_param {ls : List Lexeme} {p : Param} (h : IsParam ls p) (hg : Genuine ls) :
    Prints IsParam Param.eraseSpans p (param p) := by
  obtain @⟨_, _, _, _, d, applied, colon, name, isType, isDefault, areApplied⟩ := h
  simp only [genuine_cons, genuine_append] at hg
  have htype := prints_type isType hg.2.2.1
  have hdefault := prints_default? isDefault hg.2.2.2.1
  have happlied := prints_applications areApplied hg.2.2.2.2
  refine ⟨fun next hnext => ?_, fun ls hls => ?_⟩
  · have hend := apart_applications applied hnext
    simp only [param, List.append_assoc, List.cons_append, List.nil_append, readable_space,
      readable_name, readable_mark, readable_append]
    exact ⟨isName_of_isGenuine hg.1, noWord_space _,
      htype.readable _ (by simpa using apart_default? d hend), hdefault.readable _ hend,
      happlied.readable next hnext⟩
  · simp only [param, List.append_assoc, List.cons_append, List.nil_append, tokens_space,
      tokens_name, tokens_mark, tokens_append, map_token_eq_cons, List.map_eq_append_iff] at hls
    obtain ⟨span, _, rfl, colon', _, rfl, tys, _, rfl, htys, ds, as, rfl, hds, has⟩ := hls
    obtain ⟨type', h₁, e₁⟩ := htype.derives tys htys
    obtain ⟨default', h₂, e₂⟩ := hdefault.derives ds hds
    obtain ⟨applied', h₃, e₃⟩ := happlied.derives as has
    refine ⟨_, .mk colon' ⟨span, name.name⟩ h₁ h₂ h₃, ?_⟩
    simp only [Param.eraseSpans, e₁, e₂, e₃]
    rfl

theorem prints_params {ls : List Lexeme} {ps : List Param} (h : IsParams ls ps) (hg : Genuine ls) :
    Prints IsParams (List.map Param.eraseSpans) ps (params ps) := by
  cases h with
  | nil opening closing =>
    refine ⟨fun next _ => ?_, fun ls hls => ?_⟩
    · simp only [params, List.map_nil, commaList, List.intercalate, List.intersperse,
        List.flatten_nil, List.append_nil, List.cons_append, List.nil_append, readable_mark,
        readable_nil]
    · simp only [params, List.map_nil, commaList, List.intercalate, List.intersperse,
        List.flatten_nil, List.append_nil, List.cons_append, List.nil_append, tokens_mark,
        tokens_nil, map_token_eq_cons, List.map_eq_nil_iff] at hls
      obtain ⟨opening', _, rfl, closing', _, rfl, rfl⟩ := hls
      exact ⟨[], .nil opening' closing', rfl⟩
  | some opening closing areParams =>
    simp only [genuine_cons, genuine_append] at hg
    obtain ⟨hread, hderives⟩ := prints_separated areParams.ne_nil fun p hp => by
      obtain ⟨ls, hp, hg⟩ := areParams.forall_genuine hg.2.1 p hp
      exact prints_param hp hg
    refine ⟨fun next _ => ?_, fun ls hls => ?_⟩
    · simp only [params, List.cons_append, List.nil_append, readable_mark, readable_append,
        readable_nil, and_true]
      exact hread _ (apart_mark (by decide) _)
    · simp only [params, List.cons_append, List.nil_append, tokens_mark, tokens_append, tokens_nil,
        map_token_eq_cons, List.map_eq_append_iff, List.map_eq_nil_iff] at hls
      obtain ⟨opening', _, rfl, inner, _, rfl, hinner, closing', _, rfl, rfl⟩ := hls
      obtain ⟨params', h, e⟩ := hderives inner hinner
      exact ⟨params', .some opening' closing' h, e⟩

/-- The results of a method, if it has an arrow. -/
theorem prints_results {ls : List Lexeme} {rs : Option (List Param)} (h : IsResults ls rs)
    (hg : Genuine ls) :
    Prints IsResults (Option.map (List.map Param.eraseSpans)) rs
      ((rs.map fun ps => [.space, mark .arrow, .space] ++ params ps).getD []) := by
  cases h with
  | none =>
    refine ⟨fun _ _ => trivial, fun ls hls => ?_⟩
    obtain rfl := List.map_eq_nil_iff.1 hls
    exact ⟨none, .none, rfl⟩
  | some arrow areResults =>
    rw [genuine_cons] at hg
    obtain ⟨hread, hderives⟩ := prints_params areResults hg.2
    refine ⟨fun next hnext => ?_, fun ls hls => ?_⟩
    · simp only [Option.map_some, Option.getD_some, List.cons_append, List.nil_append,
        readable_space, readable_mark]
      exact hread next hnext
    · simp only [Option.map_some, Option.getD_some, List.cons_append, List.nil_append,
        tokens_space, tokens_mark, map_token_eq_cons] at hls
      obtain ⟨arrow', rest, rfl, hrest⟩ := hls
      obtain ⟨results', h, e⟩ := hderives rest hrest
      exact ⟨some results', .some arrow' h, congrArg some e⟩

theorem apart_results (rs : Option (List Param)) {next : Layout} (h : Apart next) :
    Apart ((rs.map fun ps => [.space, mark .arrow, .space] ++ params ps).getD [] ++ next) := by
  cases rs with
  | none => exact h
  | some ps => exact apart_space _

theorem prints_method {ls : List Lexeme} {m : Method} (h : IsMethod ls m) (hg : Genuine ls) :
    Prints IsMethod Method.eraseSpans m (method m) := by
  obtain @⟨_, _, _, _, _, _, results, applied, semicolon, name, isOrdinal, areParams, areResults,
    areApplied⟩ := h
  simp only [genuine_cons, genuine_append] at hg
  have hordinal := prints_ordinal isOrdinal
  have hparams := prints_params areParams hg.2.2.1
  have hresults := prints_results areResults hg.2.2.2.1
  have happlied := prints_ending areApplied hg.2.2.2.2.1
  refine ⟨fun next hnext => ?_, fun ls hls => ?_⟩
  · simp only [method, List.append_assoc, List.cons_append, List.nil_append, readable_space,
      readable_name, readable_append]
    exact ⟨isName_of_isGenuine hg.1, noWord_space _, hordinal.readable _ (apart_space _),
      hparams.readable _ (by simpa using apart_results results (apart_ending applied next)),
      hresults.readable _ (apart_ending applied next), happlied.readable next hnext⟩
  · simp only [method, List.append_assoc, List.cons_append, List.nil_append, tokens_space,
      tokens_name, tokens_append, map_token_eq_cons, List.map_eq_append_iff] at hls
    obtain ⟨span, _, rfl, os, _, rfl, hos, ps, _, rfl, hps, rs, rest, rfl, hrs, hrest⟩ := hls
    obtain ⟨ordinal', h₁, e₁⟩ := hordinal.derives os hos
    obtain ⟨params', h₂, e₂⟩ := hparams.derives ps hps
    obtain ⟨results', h₃, e₃⟩ := hresults.derives rs hrs
    obtain ⟨applied', ⟨as, semicolon', rfl, h₄⟩, e₄⟩ := happlied.derives rest hrest
    refine ⟨_, .mk semicolon' ⟨span, name.name⟩ h₁ h₂ h₃ h₄, ?_⟩
    simp only [Method.eraseSpans, e₁, e₂, e₃, e₄]
    rfl

theorem prints_field {ls : List Lexeme} {f : Field} (h : IsField ls f) (hg : Genuine ls) :
    Prints IsField Field.eraseSpans f (field f) := by
  obtain @⟨_, _, _, _, _, _, d, applied, colon, semicolon, name, isOrdinal, isType, isDefault,
    areApplied⟩ := h
  simp only [genuine_cons, genuine_append] at hg
  have hordinal := prints_ordinal isOrdinal
  have htype := prints_type isType hg.2.2.2.1
  have hdefault := prints_default? isDefault hg.2.2.2.2.1
  have happlied := prints_ending areApplied hg.2.2.2.2.2.1
  refine ⟨fun next hnext => ?_, fun ls hls => ?_⟩
  · simp only [field, List.append_assoc, List.cons_append, List.nil_append, readable_space,
      readable_name, readable_mark, readable_append]
    exact ⟨isName_of_isGenuine hg.1, noWord_space _, hordinal.readable _ (apart_space _),
      htype.readable _ (by simpa using apart_default? d (apart_ending applied next)),
      hdefault.readable _ (apart_ending applied next), happlied.readable next hnext⟩
  · simp only [field, List.append_assoc, List.cons_append, List.nil_append, tokens_space,
      tokens_name, tokens_mark, tokens_append, map_token_eq_cons, List.map_eq_append_iff] at hls
    obtain ⟨span, _, rfl, os, _, rfl, hos, colon', _, rfl, tys, _, rfl, htys, ds, rest, rfl, hds,
      hrest⟩ := hls
    obtain ⟨ordinal', h₁, e₁⟩ := hordinal.derives os hos
    obtain ⟨type', h₂, e₂⟩ := htype.derives tys htys
    obtain ⟨default', h₃, e₃⟩ := hdefault.derives ds hds
    obtain ⟨applied', ⟨as, semicolon', rfl, h₄⟩, e₄⟩ := happlied.derives rest hrest
    refine ⟨_, .mk colon' semicolon' ⟨span, name.name⟩ h₁ h₂ h₃ h₄, ?_⟩
    simp only [Field.eraseSpans, e₁, e₂, e₃, e₄]
    rfl

theorem apart_bases (ts : List TypeRef) {next : Layout} (h : Apart next) :
    Apart (bases ts ++ next) := by
  cases ts with
  | nil => exact h
  | cons t ts => exact apart_space _

theorem prints_bases {ls : List Lexeme} {ts : List TypeRef} (h : IsBases ls ts) (hg : Genuine ls) :
    Prints IsBases (List.map TypeRef.eraseSpans) ts (bases ts) := by
  cases h with
  | none =>
    refine ⟨fun _ _ => trivial, fun ls hls => ?_⟩
    obtain rfl := List.map_eq_nil_iff.1 hls
    exact ⟨[], .none, rfl⟩
  | some start opening closing areBases =>
    simp only [genuine_cons, genuine_append] at hg
    obtain ⟨hread, hderives⟩ := prints_separated areBases.ne_nil fun t ht => by
      obtain ⟨ls, ht, hg⟩ := areBases.forall_genuine hg.2.2.1 t ht
      exact prints_type ht hg
    rw [bases]
    · refine ⟨fun next _ => ?_, fun ls hls => ?_⟩
      · simp only [List.cons_append, List.nil_append, readable_space, readable_word,
          readable_mark, readable_append, readable_nil, and_true]
        exact ⟨noWord_mark _ _, hread _ (apart_mark (by decide) _)⟩
      · simp only [List.cons_append, List.nil_append, tokens_space, tokens_word, tokens_mark,
          tokens_append, tokens_nil, map_token_eq_cons, List.map_eq_append_iff,
          List.map_eq_nil_iff] at hls
        obtain ⟨start', _, rfl, opening', _, rfl, inner, _, rfl, hinner, closing', _, rfl, rfl⟩ :=
          hls
        obtain ⟨bases', h, e⟩ := hderives inner hinner
        exact ⟨bases', .some start' opening' closing' h, e⟩
    · exact areBases.ne_nil

/-! ## Bodies -/

/-- The annotations of a struct, union or group, and its body. -/
def IsAnnotatedBody : Phrases (List Application × List Member) := fun used b =>
  ∃ as bs stop, used = as ++ bs ∧ IsApplications as b.1 ∧ IsBody bs (b.2, stop)

theorem apart_annotatedBody (applied : List Application) (depth : Nat) (items : List Layout)
    (next : Layout) : Apart (applications applied ++ (block depth items ++ next)) :=
  apart_applications _ (apart_block depth _ next)

/-- A body is printed if each of its members is. -/
theorem prints_annotatedBody {as bs : List Lexeme} {applied : List Application} {ms : List Member}
    {stop : Span} (areApplied : IsApplications as applied) (isBody : IsBody bs (ms, stop))
    (hg : Genuine as) (depth : Nat)
    (h : ∀ m ∈ ms, Prints IsMember Member.eraseSpans m (member (depth + 1) m)) :
    Prints IsAnnotatedBody
      (fun b => (b.1.map Application.eraseSpans, b.2.map Member.eraseSpans)) (applied, ms)
      (applications applied ++ block depth (ms.map (member (depth + 1)))) := by
  obtain ⟨opening, closing, areMembers, single⟩ := isBody
  have happlied := prints_applications areApplied hg
  have hbody := prints_block depth h
  refine ⟨fun next hnext => ?_, fun ls hls => ?_⟩
  · rw [readable_append]
    exact ⟨happlied.readable _ (apart_block depth _ next), hbody.readable next hnext⟩
  · simp only [tokens_append, List.map_eq_append_iff] at hls
    obtain ⟨as, rest, rfl, has, hrest⟩ := hls
    obtain ⟨applied', h₁, e₁⟩ := happlied.derives as has
    obtain ⟨ms', ⟨opening', ls, closing', rfl, h₂⟩, e₂⟩ := hbody.derives rest hrest
    have hsingle := Nat.le_trans (Nat.le_of_eq (countP_eq_of_eraseSpans_eq e₂)) single
    exact ⟨(applied', ms'), ⟨as, _, closing', rfl, h₁, .mk opening' closing' h₂ hsingle⟩,
      Prod.ext e₁ e₂⟩

/-- A body after `name : keyword` is printed if the body is. -/
theorem prints_namedBody {name : Ident} {k : Keyword} {applied : List Application}
    {ms : List Member} {depth : Nat} (hname : IsName name.name)
    (h : Prints IsAnnotatedBody
      (fun b => (b.1.map Application.eraseSpans, b.2.map Member.eraseSpans)) (applied, ms)
      (applications applied ++ block depth (ms.map (member (depth + 1))))) :
    Prints (fun used b => ∃ span colon kw as bs stop,
      used = Ident.lexeme ⟨span, name.name⟩ :: .mark .colon colon :: .word k kw :: (as ++ bs) ∧
        IsApplications as b.1 ∧ IsBody bs (b.2, stop))
      (fun b => (b.1.map Application.eraseSpans, b.2.map Member.eraseSpans)) (applied, ms)
      ([Layout.name name.name, .space, mark .colon, word k] ++ applications applied ++
        block depth (ms.map (member (depth + 1)))) := by
  refine ⟨fun next hnext => ?_, fun ls hls => ?_⟩
  · simp only [List.append_assoc, List.cons_append, List.nil_append, readable_word,
      readable_space, readable_name, readable_mark]
    exact ⟨hname, noWord_space _, (apart_annotatedBody _ depth _ next).noWord,
      h.readable next hnext⟩
  · simp only [List.cons_append, List.nil_append, tokens_word, tokens_space, tokens_name,
      tokens_mark, map_token_eq_cons] at hls
    obtain ⟨span, _, rfl, colon, _, rfl, kw, rest, rfl, hrest⟩ := hls
    obtain ⟨b, ⟨as, bs, stop, rfl, h₁, h₂⟩, e⟩ := h.derives rest hrest
    exact ⟨b, ⟨span, colon, kw, as, bs, stop, rfl, h₁, h₂⟩, e⟩

theorem members_eq_map (depth : Nat) (ms : List Member) :
    members depth ms = ms.map (member depth) := by
  induction ms with
  | nil => rfl
  | cons m ms ih => rw [members, ih, List.map_cons]

theorem interfaceMembers_eq_map (depth : Nat) (ms : List InterfaceMember) :
    interfaceMembers depth ms = ms.map (interfaceMember depth) := by
  induction ms with
  | nil => rfl
  | cons m ms ih => rw [interfaceMembers, ih, List.map_cons]

theorem Grammar.IsBody.forall_genuine {ls : List Lexeme} {ms : List Member} {stop : Span}
    (h : IsBody ls (ms, stop)) (hg : Genuine ls) : ∀ m ∈ ms, ∃ ls, IsMember ls m ∧ Genuine ls := by
  obtain ⟨opening, closing, areMembers, -⟩ := h
  simp only [genuine_cons, genuine_append] at hg
  exact areMembers.forall_genuine hg.2.1

mutual

theorem prints_decl : ∀ (d : Decl) {ls : List Lexeme}, IsDecl ls d → Genuine ls →
    ∀ depth, Prints IsDecl Decl.eraseSpans d (decl depth d)
  | .const d, _, h, hg, depth => by
    cases h with
    | usingForm h => cases h
    | const h => exact prints_const h hg depth
  | .struct head ms, _, h, hg, depth => by
    cases h with
    | usingForm h => cases h
    | struct start name areApplied isBody =>
      simp only [genuine_cons, genuine_append] at hg
      have hbody := prints_annotatedBody areApplied isBody hg.2.2.1 depth
        (prints_members ms (isBody.forall_genuine hg.2.2.2) (depth + 1))
      refine ⟨fun next hnext => ?_, fun ls hls => ?_⟩
      · simp only [decl, members_eq_map, List.append_assoc, List.cons_append, List.nil_append,
          readable_word, readable_space, readable_name]
        exact ⟨noWord_space _, isName_of_isGenuine hg.2.1,
          (apart_annotatedBody _ depth _ next).noWord, hbody.readable next hnext⟩
      · simp only [decl, members_eq_map, List.cons_append, List.nil_append, tokens_word,
          tokens_space, tokens_name, map_token_eq_cons] at hls
        obtain ⟨start', _, rfl, span, rest, rfl, hrest⟩ := hls
        obtain ⟨⟨applied', ms'⟩, ⟨as, bs, stop, rfl, h₁, h₂⟩, e⟩ := hbody.derives rest hrest
        obtain ⟨e₁, e₂⟩ := Prod.mk.inj e
        refine ⟨_, .struct start' ⟨span, name.name⟩ h₁ h₂, ?_⟩
        simp only [Decl.eraseSpans, Head.eraseSpans, eraseMembers_eq_map]
        rw [e₁, e₂]
        rfl
  | .enum d, _, h, hg, depth => by
    cases h with
    | usingForm h => cases h
    | enum h => exact prints_enum h hg depth
  | .interface head ts ms, _, h, hg, depth => by
    cases h with
    | usingForm h => cases h
    | @interface _ _ _ _ applied _ start opening closing name areBases areApplied areMembers =>
      simp only [genuine_cons, genuine_append] at hg
      have hbases := prints_bases areBases hg.2.2.1
      have happlied := prints_applications areApplied hg.2.2.2.1
      have hbody := prints_block depth
        (prints_interfaceMembers ms (areMembers.forall_genuine hg.2.2.2.2.2.1) (depth + 1))
      refine ⟨fun next hnext => ?_, fun ls hls => ?_⟩
      · simp only [decl, interfaceMembers_eq_map, List.append_assoc, List.cons_append,
          List.nil_append, readable_word, readable_space, readable_name, readable_append]
        have hrest := apart_annotatedBody applied depth (ms.map (interfaceMember (depth + 1))) next
        exact ⟨noWord_space _, isName_of_isGenuine hg.2.1, (apart_bases ts hrest).noWord,
          hbases.readable _ (by simpa using hrest), happlied.readable _ (apart_block depth _ next),
          hbody.readable next hnext⟩
      · simp only [decl, interfaceMembers_eq_map, List.append_assoc, List.cons_append,
          List.nil_append, tokens_word, tokens_space, tokens_name, tokens_append,
          map_token_eq_cons, List.map_eq_append_iff] at hls
        obtain ⟨start', _, rfl, span, _, rfl, bs, _, rfl, hbs, as, rest, rfl, has, hrest⟩ := hls
        obtain ⟨bases', h₁, e₁⟩ := hbases.derives bs hbs
        obtain ⟨applied', h₂, e₂⟩ := happlied.derives as has
        obtain ⟨ms', ⟨opening', ls, closing', rfl, h₃⟩, e₃⟩ := hbody.derives rest hrest
        refine ⟨_, .interface start' opening' closing' ⟨span, name.name⟩ h₁ h₂ h₃, ?_⟩
        simp only [Decl.eraseSpans, Head.eraseSpans, eraseInterfaceMembers_eq_map, e₁, e₂, e₃]
        rfl
  | .annotationDecl d, _, h, hg, depth => by
    cases h with
    | usingForm h => cases h
    | annotationDecl h => exact prints_annotationDecl h hg depth
  | .pathAlias a, _, h, hg, depth => by
    cases h with
    | usingForm h => exact prints_using h hg depth
  | .importAlias a, _, h, hg, depth => by
    cases h with
    | usingForm h => exact prints_using h hg depth

theorem prints_member : ∀ (m : Member) {ls : List Lexeme}, IsMember ls m → Genuine ls →
    ∀ depth, Prints IsMember Member.eraseSpans m (member depth m)
  | .field f, _, h, hg, depth => by
    cases h with
    | field h =>
      rw [member]
      exact (prints_field h hg).imp fun _ f' h e => ⟨.field f', .field h, congrArg Member.field e⟩
  | .union head none ms, _, h, hg, depth => by
    cases h with
    | union colon kw name areApplied isBody =>
      simp only [genuine_cons, genuine_append] at hg
      have hbody := prints_annotatedBody areApplied isBody hg.2.2.2.1 depth
        (prints_members ms (isBody.forall_genuine hg.2.2.2.2) (depth + 1))
      rw [member, members_eq_map]
      refine (prints_namedBody (isName_of_isGenuine hg.1) hbody).imp ?_
      rintro _ ⟨applied', ms'⟩ ⟨span, colon', kw', as, bs, stop, rfl, h₁, h₂⟩ e
      obtain ⟨e₁, e₂⟩ := Prod.mk.inj e
      refine ⟨_, .union colon' kw' ⟨span, name.name⟩ h₁ h₂, ?_⟩
      simp only [Member.eraseSpans, Head.eraseSpans, eraseMembers_eq_map, Option.map_none]
      rw [e₁, e₂]
      rfl
  | .union head (some o) ms, _, h, hg, depth => by
    cases h with
    | numberedUnion colon kw name isOrdinal areApplied isBody =>
      simp only [genuine_cons, genuine_append] at hg
      have hordinal := prints_ordinal isOrdinal
      have hbody := prints_annotatedBody areApplied isBody hg.2.2.2.2.1 depth
        (prints_members ms (isBody.forall_genuine hg.2.2.2.2.2) (depth + 1))
      refine ⟨fun next hnext => ?_, fun ls hls => ?_⟩
      · simp only [member, members_eq_map, Option.map_some, Option.getD_some, List.append_assoc,
          List.cons_append, List.nil_append, readable_word, readable_space, readable_name,
          readable_mark, readable_append _ (ordinal o)]
        exact ⟨isName_of_isGenuine hg.1, noWord_space _,
          hordinal.readable _ (apart_space _),
          (apart_annotatedBody _ depth _ next).noWord, hbody.readable next hnext⟩
      · simp only [member, members_eq_map, Option.map_some, Option.getD_some, List.append_assoc,
          List.cons_append, List.nil_append, tokens_word, tokens_space, tokens_name, tokens_mark,
          tokens_append (ordinal o), map_token_eq_cons, List.map_eq_append_iff] at hls
        obtain ⟨span, _, rfl, os, _, rfl, hos, colon', _, rfl, kw', rest, rfl, hrest⟩ := hls
        obtain ⟨ordinal', h₁, e₁⟩ := hordinal.derives os hos
        obtain ⟨⟨applied', ms'⟩, ⟨as, bs, stop, rfl, h₂, h₃⟩, e⟩ := hbody.derives rest hrest
        obtain ⟨e₂, e₃⟩ := Prod.mk.inj e
        refine ⟨_, .numberedUnion colon' kw' ⟨span, name.name⟩ h₁ h₂ h₃, ?_⟩
        simp only [Member.eraseSpans, Head.eraseSpans, eraseMembers_eq_map, Option.map_some, e₁]
        rw [e₂, e₃]
        rfl
  | .anonymousUnion _ annotations ms, _, h, hg, depth => by
    cases h with
    | anonymousUnion kw areApplied isBody =>
      simp only [genuine_cons, genuine_append] at hg
      have hbody := prints_annotatedBody areApplied isBody hg.2.1 depth
        (prints_members ms (isBody.forall_genuine hg.2.2) (depth + 1))
      refine ⟨fun next hnext => ?_, fun ls hls => ?_⟩
      · simp only [member, members_eq_map, List.append_assoc, List.cons_append, List.nil_append,
          readable_word]
        exact ⟨(apart_annotatedBody _ depth _ next).noWord, hbody.readable next hnext⟩
      · simp only [member, members_eq_map, List.cons_append, List.nil_append, tokens_word,
          map_token_eq_cons] at hls
        obtain ⟨kw', rest, rfl, hrest⟩ := hls
        obtain ⟨⟨applied', ms'⟩, ⟨as, bs, stop, rfl, h₁, h₂⟩, e⟩ := hbody.derives rest hrest
        obtain ⟨e₁, e₂⟩ := Prod.mk.inj e
        refine ⟨_, .anonymousUnion kw' h₁ h₂, ?_⟩
        simp only [Member.eraseSpans, eraseMembers_eq_map]
        rw [e₁, e₂]
  | .group head ms, _, h, hg, depth => by
    cases h with
    | group colon kw name areApplied isBody =>
      simp only [genuine_cons, genuine_append] at hg
      have hbody := prints_annotatedBody areApplied isBody hg.2.2.2.1 depth
        (prints_members ms (isBody.forall_genuine hg.2.2.2.2) (depth + 1))
      rw [member, members_eq_map]
      refine (prints_namedBody (isName_of_isGenuine hg.1) hbody).imp ?_
      rintro _ ⟨applied', ms'⟩ ⟨span, colon', kw', as, bs, stop, rfl, h₁, h₂⟩ e
      obtain ⟨e₁, e₂⟩ := Prod.mk.inj e
      refine ⟨_, .group colon' kw' ⟨span, name.name⟩ h₁ h₂, ?_⟩
      simp only [Member.eraseSpans, Head.eraseSpans, eraseMembers_eq_map]
      rw [e₁, e₂]
      rfl
  | .decl d, _, h, hg, depth => by
    cases h with
    | decl h =>
      rw [member]
      exact (prints_decl d h hg depth).imp fun _ d' h e =>
        ⟨.decl d', .decl h, congrArg Member.decl e⟩

theorem prints_members : ∀ ms : List Member, (∀ m ∈ ms, ∃ ls, IsMember ls m ∧ Genuine ls) →
    ∀ depth, ∀ m ∈ ms, Prints IsMember Member.eraseSpans m (member depth m)
  | [], _, _ => fun _ hm => absurd hm (by simp)
  | m :: ms, h, depth => by
    obtain ⟨⟨ls, hm, hg⟩, hms⟩ := List.forall_mem_cons.1 h
    exact List.forall_mem_cons.2 ⟨prints_member m hm hg depth, prints_members ms hms depth⟩

theorem prints_interfaceMember : ∀ (m : InterfaceMember) {ls : List Lexeme},
    IsInterfaceMember ls m → Genuine ls →
    ∀ depth, Prints IsInterfaceMember InterfaceMember.eraseSpans m (interfaceMember depth m)
  | .method m, _, h, hg, depth => by
    cases h with
    | method h =>
      rw [interfaceMember]
      exact (prints_method h hg).imp fun _ m' h e =>
        ⟨.method m', .method h, congrArg InterfaceMember.method e⟩
  | .decl d, _, h, hg, depth => by
    cases h with
    | decl h =>
      rw [interfaceMember]
      exact (prints_decl d h hg depth).imp fun _ d' h e =>
        ⟨.decl d', .decl h, congrArg InterfaceMember.decl e⟩

theorem prints_interfaceMembers : ∀ ms : List InterfaceMember,
    (∀ m ∈ ms, ∃ ls, IsInterfaceMember ls m ∧ Genuine ls) → ∀ depth, ∀ m ∈ ms,
      Prints IsInterfaceMember InterfaceMember.eraseSpans m (interfaceMember depth m)
  | [], _, _ => fun _ hm => absurd hm (by simp)
  | m :: ms, h, depth => by
    obtain ⟨⟨ls, hm, hg⟩, hms⟩ := List.forall_mem_cons.1 h
    exact List.forall_mem_cons.2
      ⟨prints_interfaceMember m hm hg depth, prints_interfaceMembers ms hms depth⟩

end

end SchemaLang
