import SchemaLang.Proofs.Deciding.Terms

/-!
# Declarations and files are decided early

The productions that read bodies and declarations are decided if the readers of what is nested in
them are.  A body is nested behind a keyword or a brace, so its reader need only be decided on fewer
lexemes, and its bound counts these: the knot is tied by induction on the bound.
-/

namespace SchemaLang.Parser

open Grammar

variable {n n' : Nat}

/-! ## Declarations without a body -/

theorem decided_aliased (start : Span) (name : Option Ident) (target : Path) :
    Decided n n' (usingDecl.aliased start name target) (usingDecl.aliased start name target) :=
  decided_bind (decided_mark _) fun _ => decided_pure _

theorem decided_imported (start : Span) (name : Option Ident) :
    Decided n n' (usingDecl.imported start name) (usingDecl.imported start name) :=
  decided_bind decided_importTarget fun _ => decided_bind (decided_mark _) fun _ => decided_pure _

theorem decided_usingDecl : Decided n n' usingDecl usingDecl := by
  refine decided_bind (decided_keyword _) fun start => decided_peek fun _ => ?_
  refine decided_ite (decided_imported start none) ?_
  refine decided_bind decided_ident fun first => decided_afterMark? _ ?_ ?_
  · refine decided_peek fun _ => decided_ite (decided_imported start _) ?_
    exact decided_bind decided_path fun target => decided_aliased start _ target
  · exact decided_bind (decided_pathFrom first) fun target => decided_aliased start none target

theorem decided_constDecl : Decided n n' constDecl constDecl := by
  refine decided_bind (decided_keyword _) fun _ => decided_bind decided_ident fun _ => ?_
  refine decided_bind (decided_mark _) fun _ => decided_bind decided_type fun _ => ?_
  refine decided_bind (decided_mark _) fun _ => decided_bind decided_literal fun _ => ?_
  refine decided_bind decided_applications fun _ => decided_bind (decided_mark _) fun _ => ?_
  exact decided_pure _

theorem decided_enumerant? : Decided n n' enumerant? enumerant? := by
  refine decided_peek fun _ => decided_ite (decided_pure none) ?_
  refine decided_bind decided_ident fun _ => decided_bind decided_ordinal fun _ => ?_
  refine decided_bind decided_applications fun _ => decided_bind (decided_mark _) fun _ => ?_
  exact decided_pure _

theorem decided_enumDecl : Decided n n' enumDecl enumDecl := by
  have hprogress : Progresses n enumerant? := by
    refine sound_enumerant?.progresses fun used a ha => ?_
    obtain ⟨⟩ := ha
    exact List.cons_ne_nil _ _
  refine decided_bind (decided_keyword _) fun _ => decided_bind decided_ident fun _ => ?_
  refine decided_bind decided_applications fun _ => decided_bind (decided_mark _) fun _ => ?_
  refine decided_bind (decided_many decided_enumerant? hprogress) fun _ => ?_
  exact decided_bind (decided_mark _) fun _ => decided_pure _

theorem decided_target : Decided n n' target target := by
  refine decided_of_opens (fun stop bound => ?_) ?_
  · exact beyond_unexpectedEnd stop bound "annotation target"
  rintro ⟨t, span⟩
  cases ht : targetOf? t with
  | some target' =>
    have hread (s : Stream) : target.run (s.behind [⟨t, span⟩]) =
        ((fun span => (span, target')) <$> bump).run (s.behind [⟨t, span⟩]) := by
      simp [target, Stream.behind, ht]
    exact .same _ _ (decided_map _ decided_bump) hread hread
  | none =>
    cases t with
    | name s =>
      have hstops (l : Stream) : target.run (l.behind [⟨.name s, span⟩]) =
          .error ⟨span, .unknownTarget s⟩ := by
        simp [target, Stream.behind, ht, run_fail]
      exact .stops _ (Nat.le_refl _) hstops hstops
    | _ =>
      refine .same _ _ (decided_unexpected "annotation target") (fun s => ?_) fun s => ?_
      all_goals simp [target, Stream.behind, ht]

theorem decided_annotationDecl : Decided n n' annotationDecl annotationDecl := by
  refine decided_bind (decided_keyword _) fun _ => decided_bind decided_ident fun _ => ?_
  refine decided_bind (decided_mark _) fun _ => ?_
  refine decided_bind (decided_separated _ decided_target) fun _ => ?_
  refine decided_bind (decided_mark _) fun _ => decided_bind (decided_mark _) fun _ => ?_
  refine decided_bind decided_type fun _ => decided_bind decided_applications fun _ => ?_
  exact decided_bind (decided_mark _) fun _ => decided_pure _

/-! ## Methods and fields -/

theorem decided_param : Decided n n' param param := by
  refine decided_bind decided_ident fun _ => decided_bind (decided_mark _) fun _ => ?_
  refine decided_bind decided_type fun _ => decided_bind decided_default? fun _ => ?_
  exact decided_bind decided_applications fun _ => decided_pure _

theorem decided_params : Decided n n' params params := by
  refine decided_bind (decided_mark _) fun _ => decided_afterMark? _ (decided_pure []) ?_
  refine decided_bind (decided_separated _ decided_param) fun _ => ?_
  exact decided_bind (decided_mark _) fun _ => decided_pure _

theorem decided_results? : Decided n n' results? results? :=
  decided_afterMark? _ (decided_map some decided_params) (decided_pure none)

theorem decided_method : Decided n n' method method := by
  refine decided_bind decided_ident fun _ => decided_bind decided_ordinal fun _ => ?_
  refine decided_bind decided_params fun _ => decided_bind decided_results? fun _ => ?_
  refine decided_bind decided_applications fun _ => decided_bind (decided_mark _) fun _ => ?_
  exact decided_pure _

theorem decided_field (name : Ident) (ordinal : Ordinal) :
    Decided n n' (field name ordinal) (field name ordinal) := by
  refine decided_bind decided_type fun _ => decided_bind decided_default? fun _ => ?_
  refine decided_bind decided_applications fun _ => decided_bind (decided_mark _) fun _ => ?_
  exact decided_pure _

/-! ## Bodies -/

section Bodies

variable {body body' : Parser (List Member × Span)} {decl decl' : Parser (Option Decl)}

theorem decided_namedUnion (hbody : Decided n n' body body') (name : Ident)
    (ordinal : Option Ordinal) :
    Decided n n' (namedUnion body name ordinal) (namedUnion body' name ordinal) := by
  refine decided_bind (decided_keyword _) fun _ => decided_bind decided_applications fun _ => ?_
  exact decided_bind hbody fun _ => decided_pure _

/-- A second union without a name is reported up to its closing brace, which is read last. -/
theorem decided_anonymousUnion (hbody : Prompt n n' body body' fun r => r.2.stop)
    (earlier : List Member) :
    Decided n n' (anonymousUnion body earlier) (anonymousUnion body' earlier) := by
  refine decided_bind (decided_keyword _) fun start => ?_
  refine decided_bind decided_applications fun _ => hbody _ fun r => ?_
  dsimp only
  split
  · exact checks_fail (Nat.le_max_right _ _)
  · exact checks_pure _ _

theorem decided_group (hbody : Decided n n' body body') (name : Ident) :
    Decided n n' (group body name) (group body' name) := by
  refine decided_bind (decided_keyword _) fun _ => decided_bind decided_applications fun _ => ?_
  exact decided_bind hbody fun _ => decided_pure _

theorem decided_namedMember (hbody : Decided n n' body body') :
    Decided n n' (namedMember body) (namedMember body') := by
  refine decided_bind decided_ident fun name => decided_peek fun t => ?_
  split
  · refine decided_bind decided_ordinal fun ordinal => decided_bind (decided_mark _) fun _ => ?_
    refine decided_peek fun _ => decided_ite ?_ ?_
    · exact decided_namedUnion hbody name _
    · exact decided_field name _
  · refine decided_bind decided_bump fun _ => decided_peek fun t => ?_
    split
    · exact decided_namedUnion hbody name none
    · exact decided_group hbody name
    · exact decided_unexpected _
  · exact decided_unexpected _

/-- A declaration that must be there. -/
theorem decided_required {α β : Type} {p p' : Parser (Option α)} {f : Option α → Parser β}
    (h : Decided n n' p p') (hsome : ∀ a, ∃ b, f (some a) = pure b)
    (hnone : ∃ expected, f none = unexpected expected) : Decided n n' (p >>= f) (p' >>= f) := by
  refine decided_bind h fun o => ?_
  cases o with
  | none =>
    obtain ⟨expected, hf⟩ := hnone
    exact hf ▸ decided_unexpected expected
  | some a =>
    obtain ⟨b, hf⟩ := hsome a
    exact hf ▸ decided_pure b

theorem decided_member? (hbody : Prompt n n' body body' fun r => r.2.stop)
    (hdecl : Decided n n' decl decl') (earlier : List Member) :
    Decided n n' (member? body decl earlier) (member? body' decl' earlier) := by
  refine decided_peek fun t => ?_
  split
  · exact decided_pure none
  · exact decided_map some (decided_anonymousUnion hbody earlier)
  · exact decided_map some (decided_namedMember hbody.decided)
  · exact decided_required hdecl (fun _ => ⟨_, rfl⟩) ⟨_, rfl⟩
  · exact decided_unexpected _

theorem progresses_member? (hbody : Sound body IsBody) (hdecl : Progresses n decl)
    (earlier : List Member) : Progresses n (member? body decl earlier) := by
  refine progresses_peek fun t => ?_
  split
  · exact progresses_none
  · exact progresses_some (sound_anonymousUnion hbody earlier) fun _ _ h => h.1.ne_nil
  · exact progresses_some (sound_namedMember hbody) fun _ _ h => h.1.ne_nil
  · exact progresses_required hdecl (fun _ => ⟨_, rfl⟩) ⟨_, rfl⟩
  · exact progresses_unexpected _

theorem prompt_members (hsound : Sound body IsBody) (hprogress : Progresses (n - 1) decl)
    (hbody : Prompt (n - 1) (n' - 1) body body' fun r => r.2.stop)
    (hdecl : Decided (n - 1) (n' - 1) decl decl') :
    Prompt n n' (members body decl) (members body' decl') fun r => r.2.stop := by
  refine prompt_bind_consumes (decided_mark _) (consumes_mark _) fun _ => ?_
  refine prompt_bind (decided_manyGiven (decided_member? hbody hdecl) ?_) fun ms => ?_
  · exact progresses_member? hsound hprogress
  · exact (prompt_mark .closeBrace).map fun stop => (ms, stop)

theorem decided_interfaceMember? (hdecl : Decided n n' decl decl') :
    Decided n n' (interfaceMember? decl) (interfaceMember? decl') := by
  refine decided_peek fun t => ?_
  split
  · exact decided_pure none
  · exact decided_map some (decided_map InterfaceMember.method decided_method)
  · exact decided_required hdecl (fun _ => ⟨_, rfl⟩) ⟨_, rfl⟩
  · exact decided_unexpected _

theorem decided_bases : Decided n n' bases bases := by
  refine decided_bind (decided_accept? _) fun _ => decided_ite ?_ (decided_pure [])
  refine decided_bind (decided_mark _) fun _ => ?_
  refine decided_bind (decided_separated _ decided_type) fun _ => ?_
  exact decided_bind (decided_mark _) fun _ => decided_pure _

theorem decided_interfaceDecl (hsound : Sound decl (IsOptional IsDecl))
    (hdecl : Decided (n - 1) (n' - 1) decl decl') :
    Decided n n' (interfaceDecl decl) (interfaceDecl decl') := by
  have hprogress : Progresses (n - 1) (interfaceMember? decl) :=
    (sound_interfaceMember? hsound).progresses fun _ _ h => h.ne_nil
  refine decided_bind_consumes (decided_keyword _) (consumes_keyword _) fun _ => ?_
  refine decided_bind decided_ident fun _ => decided_bind decided_bases fun _ => ?_
  refine decided_bind decided_applications fun _ => decided_bind (decided_mark _) fun _ => ?_
  refine decided_bind (decided_many (decided_interfaceMember? hdecl) hprogress) fun _ => ?_
  exact decided_bind (decided_mark _) fun _ => decided_pure _

theorem decided_structDecl (hbody : Decided (n - 1) (n' - 1) body body') :
    Decided n n' (structDecl body) (structDecl body') := by
  refine decided_bind_consumes (decided_keyword _) (consumes_keyword _) fun _ => ?_
  refine decided_bind decided_ident fun _ => decided_bind decided_applications fun _ => ?_
  exact decided_bind hbody fun _ => decided_pure _

theorem decided_declWith (hsound : Sound decl (IsOptional IsDecl))
    (hbody : Decided (n - 1) (n' - 1) body body') (hdecl : Decided (n - 1) (n' - 1) decl decl') :
    Decided n n' (declWith body decl) (declWith body' decl') := by
  refine decided_peek fun t => ?_
  split
  · exact decided_map some decided_usingDecl
  · exact decided_map some decided_constDecl
  · exact decided_map some (decided_structDecl hbody)
  · exact decided_map some decided_enumDecl
  · exact decided_map some (decided_interfaceDecl hsound hdecl)
  · exact decided_map some decided_annotationDecl
  · exact decided_pure none

end Bodies

/-! ## The knot -/

theorem decided_within : ∀ (k k' : Nat) {n n' : Nat}, n ≤ k + 1 → n' ≤ k' + 1 →
    Decided n n' (declWithin k) (declWithin k') ∧
      Prompt n n' (membersWithin k) (membersWithin k') fun r => r.2.stop := by
  intro k
  induction k with
  | zero =>
    intro k' n n' hk _
    have hnone : Prompt n 0 (membersWithin 0) (membersWithin 0) fun r => r.2.stop :=
      (readsOne_unexpected _ _).prompt
    exact ⟨(decided_pure none).of_le_one (.inl hk) _, hnone.of_le_one (.inl hk) _⟩
  | succ k ih =>
    obtain ⟨hdecl, hbody⟩ := sound_declWithin_and_membersWithin k
    have step (k' : Nat) {n n' : Nat} (hk : n ≤ k + 2) (hk' : n' ≤ k' + 2) :
        Decided n n' (declWithin (k + 1)) (declWithin (k' + 1)) ∧
          Prompt n n' (membersWithin (k + 1)) (membersWithin (k' + 1)) fun r => r.2.stop := by
      have hinner : n - 1 ≤ k + 1 := Nat.sub_le_of_le_add hk
      have hinner' : n' - 1 ≤ k' + 1 := Nat.sub_le_of_le_add hk'
      obtain ⟨hdecls, hbodies⟩ := ih k' hinner hinner'
      refine ⟨decided_declWith hdecl hbodies.decided hdecls, ?_⟩
      refine prompt_members hbody (hdecl.progresses fun used d hd => ?_) hbodies hdecls
      obtain ⟨kw, -, span, rest, rfl⟩ := hd.start
      exact List.cons_ne_nil _ _
    intro k' n n' hk hk'
    cases k' with
    | zero =>
      have hself := step k hk (Nat.zero_le _)
      exact ⟨hself.1.of_le_one (.inr hk') _, hself.2.of_le_one (.inr hk') _⟩
    | succ k' => exact step k' hk hk'

theorem decided_decl : Decided n n' decl decl :=
  decided_bound fun k k' =>
    (decided_within k k' (Nat.min_le_right _ _) (Nat.min_le_right _ _)).1

/-! ## Files -/

theorem decided_fileId : Decided n n' fileId fileId := by
  refine decided_of_opens (fun stop bound => .error (.inr (.inr rfl))) ?_
  rintro ⟨t, span⟩
  by_cases ht : t = .mark .atSign
  · subst ht
    have hread (s : Stream) : fileId.run (s.behind [⟨.mark .atSign, span⟩]) =
        (do
          let start ← bump
          let read ← natural ⟨false, .w64⟩
          let stop ← mark .semicolon
          return (⟨start.cover stop, read.2⟩ : FileId)).run (s.behind [⟨.mark .atSign, span⟩]) := rfl
    refine .same _ _ (decided_bind decided_bump fun _ => ?_) hread hread
    exact decided_bind (decided_natural _) fun _ => decided_bind (decided_mark _) fun _ =>
      decided_pure _
  · have hstops (s : Stream) : fileId.run (s.behind [⟨t, span⟩]) =
        .error ⟨span, .missingFileId⟩ := by
      have haccept : (accept? (.mark .atSign)).run (s.behind [⟨t, span⟩]) =
          .ok (none, s.behind [⟨t, span⟩]) := run_accept?_of_ne fun h => ht (Option.some.inj h)
      rw [fileId, StateT.run_bind, haccept]
      rfl
    exact .stops _ (Nat.le_refl _) hstops hstops

theorem decided_fileItem? : Decided n n' fileItem? fileItem? := by
  refine decided_of_opens (fun stop bound => .ok List.suffix_rfl) ?_
  have same {x : Lexeme} (q : Parser (Option (Application ⊕ Decl))) (hq : Decided n n' q q)
      (run : ∀ s : Stream, fileItem?.run (s.behind [x]) = q.run (s.behind [x])) :
      Opens n n' fileItem? fileItem? x := .same q q hq run run
  have hpeek {α : Type} (f : Option Token → Parser α) (x : Lexeme) (s : Stream) :
      (peek >>= f).run (s.behind [x]) = (f (some x.token)).run (s.behind [x]) := rfl
  have hannotation (a : Application) : Decided n n'
      (do let _ ← mark .semicolon; return (some (.inl a) : Option (Application ⊕ Decl)))
      (do let _ ← mark .semicolon; return some (.inl a)) :=
    decided_bind (decided_mark _) fun _ => decided_pure _
  rintro ⟨t, span⟩
  cases t with
  | mark m =>
    cases m with
    | dollar => exact same _ (decided_bind decided_application hannotation) fun _ => rfl
    | _ =>
      refine same _ (decided_required decided_decl ?_ ?_) fun s => hpeek _ _ s
      · exact fun _ => ⟨_, rfl⟩
      · exact ⟨_, rfl⟩
  | name s => exact .stops ⟨span, .expectedKeyword s⟩ (Nat.le_refl _) (fun _ => rfl) fun _ => rfl
  | _ =>
    refine same _ (decided_required decided_decl ?_ ?_) fun s => hpeek _ _ s
    · exact fun _ => ⟨_, rfl⟩
    · exact ⟨_, rfl⟩

theorem decided_file : Decided n n' file file := by
  refine decided_bind decided_fileId fun _ => ?_
  refine decided_bind (decided_many decided_fileItem? ?_) fun _ => decided_pure _
  exact sound_fileItem?.progresses fun _ _ h => h.ne_nil

end SchemaLang.Parser
