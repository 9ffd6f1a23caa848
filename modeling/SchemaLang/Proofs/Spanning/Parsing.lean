import Mathlib.Data.List.Pairwise
import SchemaLang.Proofs.Grammar.Completeness
import SchemaLang.Proofs.Lexing.MaximalMunch
import SchemaLang.Proofs.Spanning.Decls
import SchemaLang.Proofs.Spanning.Errors
import SchemaLang.Proofs.Spanning.Reached
import SchemaLang.Proofs.Spans.Sources

/-!
# Spans of parsed sources

The spans of a module that was parsed are a faithful picture of its tree: every node spans exactly
the tokens that make it up, a node lies inside the one that it is part of, and what is written one
after the other has spans one after the other.  A source that violates the grammar is reported at
tokens of it, or at its end: `parse_spans`.
-/

namespace SchemaLang

/-! ## What is shown -/

/-- The node spans the tokens that make it up, from the start of the first to the end of the last,
and its children lie in its span, one after the other. -/
structure SyntaxNode.Faithful (source : String) (n : SyntaxNode) : Prop where
  tokens : ∃ ls, ls <:+: (Lexed.ofText source).lexemes ∧ n.Phrase ls ∧ Spans ls n.span
  inside : n.span.LiesIn source
  children_within : ∀ c ∈ n.children, c.span.Within n.span
  children_ordered : n.children.Pairwise fun a b => a.span.Before b.span

/-- All nodes of the module are faithful, and no span of it is left out.  The id of the file comes
first; its annotations follow one another, and so do its declarations, without overlap. -/
structure Module.Faithful (source : String) (m : Module) : Prop where
  nodes : ∀ n, m.Contains n → n.Faithful source
  complete : ∀ span ∈ m.spans, ∃ n, m.Contains n ∧ n.span = span
  id_first : (∀ a ∈ m.annotations, m.id.span.Before a.span) ∧
    ∀ d ∈ m.decls, m.id.span.Before d.span
  annotations : m.annotations.Pairwise fun a b => a.span.Before b.span
  decls : m.decls.Pairwise fun a b => a.span.Before b.span
  apart : ∀ a ∈ m.annotations, ∀ d ∈ m.decls, a.span.Before d.span ∨ d.span.Before a.span

/-! ## The lexemes of a source -/

theorem inOrder_ofText (source : String) : InOrder (Lexed.ofText source).lexemes := by
  have haccounts := accounts_of_tokenises (Lexed.tokenises_walk source.toList 0)
  obtain ⟨hspans, hordered⟩ := haccounts.increasing
  exact ⟨fun x hx => (hspans x hx).2, hordered⟩

/-- What spans some tokens of a source lies in the source. -/
theorem Spans.liesIn {source : String} {ls : List Lexeme} {span : Span} (h : Spans ls span)
    (hls : ls <:+: (Lexed.ofText source).lexemes) : span.LiesIn source := by
  have hordered := (inOrder_ofText source).sublist hls.sublist
  obtain ⟨x, hx, y, hy, rfl⟩ := h
  have hmem {z : Lexeme} (hz : z ∈ ls) : z.span.LiesIn source :=
    ⟨_, Lexed.spells_of_mem (hls.subset hz)⟩
  have hfirst := Span.liesIn_iff.1 (hmem (List.mem_of_mem_head? hx))
  have hlast := Span.liesIn_iff.1 (hmem (List.mem_of_mem_getLast? hy))
  have hle := hordered.start_le hx (List.mem_of_mem_getLast? hy)
  exact Span.liesIn_iff.2 ⟨hfirst.1, hlast.2.1, Nat.le_trans hle hlast.2.2⟩

theorem Spread.faithful {source : String} {ls : List Lexeme} {n : SyntaxNode} (h : Spread ls n)
    (hls : ls <:+: (Lexed.ofText source).lexemes) : n.Faithful source := by
  have hordered := (inOrder_ofText source).sublist hls.sublist
  have hspans := h.spans hordered
  exact ⟨⟨ls, hls, h.phrase, hspans⟩, hspans.liesIn hls, fun c hc => h.within hordered hc,
    h.children.pairwise_before hordered⟩

/-! ## Modules -/

theorem rel_or_rel_of_pairwise {α : Type} {R : α → α → Prop} {l : List α} (h : l.Pairwise R)
    {x y : α} (hx : x ∈ l) (hy : y ∈ l) (hne : x ≠ y) : R x y ∨ R y x := by
  have hsymm : Std.Symm fun x y => R x y ∨ R y x := ⟨fun _ _ => Or.symm⟩
  have heither : l.Pairwise fun x y => R x y ∨ R y x := h.imp Or.inl
  exact heither.forall hx hy hne

theorem faithful_of_isModule {source : String} {m : Module}
    (h : Grammar.IsModule (Lexed.ofText source).lexemes m) : m.Faithful source := by
  obtain ⟨items, happlied, hdecls, hsequence⟩ := sequence_module h
  have happlication {a : Application} (ha : a ∈ m.annotations) : Sum.inl a ∈ items := by
    simpa [happlied] using ha
  have hdecl {d : Decl} (hd : d ∈ m.decls) : Sum.inr d ∈ items := by simpa [hdecls] using hd
  obtain ⟨hfirst, hitems⟩ :=
    List.pairwise_cons.1 (hsequence.pairwise_before (inOrder_ofText source))
  rw [List.pairwise_map] at hitems
  refine ⟨?nodes, fun _ hs => Module.exists_contains hs, ?id_first, ?annotations, ?decls, ?apart⟩
  case nodes =>
    rintro n ⟨root, hroot, hreach⟩
    have hmem : root ∈ SyntaxNode.fileId m.id :: items.map .ofFileItem := by
      simp only [Module.roots, List.mem_cons, List.mem_append, List.mem_map] at hroot
      rcases hroot with rfl | ⟨a, ha, rfl⟩ | ⟨d, hd, rfl⟩
      · exact List.mem_cons_self
      · exact List.mem_cons_of_mem _ (List.mem_map.2 ⟨_, happlication ha, rfl⟩)
      · exact List.mem_cons_of_mem _ (List.mem_map.2 ⟨_, hdecl hd, rfl⟩)
    obtain ⟨ls, hls, hspread⟩ := hsequence.exists_spread root hmem
    obtain ⟨ls', hls', hspread'⟩ := hspread.exists_of_reach hreach
    exact hspread'.faithful (hls'.trans hls)
  case id_first =>
    exact ⟨fun a ha => hfirst _ (List.mem_map.2 ⟨_, happlication ha, rfl⟩),
      fun d hd => hfirst _ (List.mem_map.2 ⟨_, hdecl hd, rfl⟩)⟩
  case annotations =>
    rw [happlied, List.pairwise_filterMap]
    refine hitems.imp fun {x y} hxy a ha b hb => ?_
    obtain rfl := Sum.getLeft?_eq_some_iff.1 ha
    obtain rfl := Sum.getLeft?_eq_some_iff.1 hb
    exact hxy
  case decls =>
    rw [hdecls, List.pairwise_filterMap]
    refine hitems.imp fun {x y} hxy a ha b hb => ?_
    obtain rfl := Sum.getRight?_eq_some_iff.1 ha
    obtain rfl := Sum.getRight?_eq_some_iff.1 hb
    exact hxy
  case apart =>
    intro a ha d hd
    exact rel_or_rel_of_pairwise hitems (happlication ha) (hdecl hd) Sum.inl_ne_inr

/-- The spans of a source.  Where it is accepted they are a faithful tree; where it violates the
grammar the reported span runs from the start of a token to the end of a token, or is the empty one
at the end of the source. -/
theorem parse_spans (source : String) :
    (∀ m, Module.parse source = .ok m → m.Faithful source) ∧
      ∀ e, Module.parse source = .error (.grammar e) →
        e.span.Reported (Lexed.ofText source).lexemes source.utf8ByteSize := by
  constructor
  · exact fun m h => faithful_of_isModule (parse_eq_ok_iff.1 h).2
  · intro e h
    unfold Module.parse at h
    split at h
    · cases h
    · next lexemes hlexed =>
      rw [hlexed]
      cases hx : Module.ofLexemes lexemes source.utf8ByteSize with
      | ok m =>
        rw [hx] at h
        cases h
      | error e' =>
        rw [hx] at h
        obtain rfl := ParseError.grammar.inj (Except.error.inj h)
        exact reported_of_ofLexemes hx

/-- The default of the parameter `p` stands behind the span of `p`, which ends with its type. -/
theorem parse_spans_param :
    (∃ m, Module.parse "@1;interface I{f@0(p:T=1);}" = .ok m ∧
      m.Faithful "@1;interface I{f@0(p:T=1);}" ∧
      m.spans = [⟨0, 3⟩, ⟨3, 27⟩, ⟨13, 14⟩, ⟨15, 26⟩, ⟨15, 16⟩, ⟨16, 18⟩, ⟨19, 22⟩, ⟨19, 20⟩,
        ⟨21, 22⟩, ⟨21, 22⟩, ⟨23, 24⟩]) ∧
      ∃ e, Module.parse "@1;enum E{a:}" = .error (.grammar e) ∧ e.span = ⟨11, 12⟩ ∧
        e.span.Reported (Lexed.ofText "@1;enum E{a:}").lexemes 13 := by
  obtain ⟨m, hm, hspans⟩ := exists_ok_of_toOption (f := Module.spans) (b := [⟨0, 3⟩, ⟨3, 27⟩,
    ⟨13, 14⟩, ⟨15, 26⟩, ⟨15, 16⟩, ⟨16, 18⟩, ⟨19, 22⟩, ⟨19, 20⟩, ⟨21, 22⟩, ⟨21, 22⟩, ⟨23, 24⟩])
    (x := Module.parse "@1;interface I{f@0(p:T=1);}") (by decide +kernel)
  have he : Module.parse "@1;enum E{a:}" =
      .error (.grammar ⟨⟨11, 12⟩, .unexpectedToken (.mark .colon) "`@`"⟩) :=
    error_of_failure? (by decide +kernel)
  exact ⟨⟨m, hm, (parse_spans _).1 m hm, hspans⟩, _, he, rfl, (parse_spans _).2 _ he⟩

end SchemaLang
