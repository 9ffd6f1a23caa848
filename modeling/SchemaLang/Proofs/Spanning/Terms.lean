import SchemaLang.Proofs.Grammar.Soundness
import SchemaLang.Proofs.Spanning.Order

/-!
# Names, types, literals and annotations over lexemes

By the rules of the grammar each of these is spread over the lexemes that it is derived from.  A
proof that nodes follow one another reads like the rule itself: `skip` passes over a mark or a
keyword, and `cons` and `ident` take a node.
-/

namespace SchemaLang

open Grammar

/-! ## Sequences of phrases -/

section Sequences

variable {α : Type} {item : Phrases α} {f : α → List SyntaxNode} {ls : List Lexeme} {as : List α}

theorem sequence_many (hitem : ∀ ls a, item ls a → Sequence ls (f a)) (h : IsMany item ls as) :
    Sequence ls (as.flatMap f) := by
  induction h with
  | nil => exact .nil
  | cons head _ ih => exact (hitem _ _ head).append ih

theorem sequence_separated (hitem : ∀ ls a, item ls a → Sequence ls (f a))
    (h : IsSeparated item ls as) : Sequence ls (as.flatMap f) := by
  induction h with
  | last head => simpa using hitem _ _ head
  | cons comma head _ ih => exact (hitem _ _ head).append (ih.skip _)

theorem sequence_map_many {f : α → SyntaxNode} (hitem : ∀ ls a, item ls a → Sequence ls [f a])
    (h : IsMany item ls as) : Sequence ls (as.map f) := by
  simpa [List.map_eq_flatMap] using sequence_many hitem h

theorem sequence_map_separated {f : α → SyntaxNode} (hitem : ∀ ls a, item ls a → Spread ls (f a))
    (h : IsSeparated item ls as) : Sequence ls (as.map f) := by
  simpa [List.map_eq_flatMap] using
    sequence_separated (f := fun a => [f a]) (fun ls a ha => .one (hitem ls a ha)) h

end Sequences

/-! ## Names and numbers -/

theorem sequence_segments {ls : List Lexeme} {is : List Ident} (h : IsMany IsSegment ls is) :
    Sequence ls (is.map .ident) :=
  sequence_map_many (fun _ _ ⟨_, i⟩ => .skip _ (.ident i .nil)) h

/-- The spans of the segments of a path, joined one by one, are that of the path. -/
theorem spans_foldl {ls : List Lexeme} {rest : List Ident} (h : IsMany IsSegment ls rest) :
    ∀ {before : List Lexeme} {span : Span}, Spans before span → InOrder (before ++ ls) →
      Spans (before ++ ls) (rest.foldl (fun span segment => span.cover segment.span) span) := by
  induction h with
  | nil => exact fun hspan _ => by simpa using hspan
  | @cons _ ls i _ head _ ih =>
    intro before span hspan hls
    obtain ⟨dot⟩ := head
    have hpart : InOrder (before ++ [.mark .dot dot, i.lexeme]) := hls.sublist (by simp)
    have hcover := hspan.cover (.single i.lexeme) (List.prefix_append before _)
      ⟨before ++ [.mark .dot dot], by simp⟩ hpart
    rw [← List.append_assoc] at hls ⊢
    exact ih hcover hls

theorem spread_path {ls : List Lexeme} {p : Path} (h : IsPath ls p) : Spread ls (.path p) := by
  have hphrase := h
  obtain ⟨first, tail⟩ := h
  exact ⟨hphrase, spans_foldl tail (.single first.lexeme), .ident first (sequence_segments tail)⟩

theorem spread_ordinal {ls : List Lexeme} {o : Ordinal} (h : IsOrdinal ls o) :
    Spread ls (.ordinal o) := by
  have hphrase := h
  obtain @⟨s, n, start, number, -⟩ := h
  exact ⟨hphrase, Spans.ends (x := .mark .atSign start) (y := .number s number) rfl rfl, .none _⟩

theorem sequence_import {ls : List Lexeme} {start : Span} {source : ImportPath}
    {segments : List Ident} (h : IsImport ls (start, source, segments)) :
    Sequence ls (.importPath source :: segments.map .ident) := by
  obtain ⟨start, file, decoded, tail⟩ := h
  refine .skip _ (.single ⟨⟨_, rfl, ?_⟩, fun _ => .single _, .none _⟩ (sequence_segments tail))
  simpa using decoded

/-- The last lexeme of an import is its last segment, or else the imported path. -/
theorem exists_last_segment {ls : List Lexeme} {segments : List Ident}
    (h : IsMany IsSegment ls segments) : ∀ x : Lexeme, ∃ y ∈ (x :: ls).getLast?,
      y.span = (segments.getLast?.map Ident.span).getD x.span := by
  induction h with
  | nil => exact fun x => ⟨x, rfl, rfl⟩
  | @cons _ _ i segments head _ ih =>
    intro x
    obtain ⟨dot⟩ := head
    obtain ⟨y, hy, hspan⟩ := ih i.lexeme
    refine ⟨y, by simpa [List.getLast?_cons] using hy, hspan.trans ?_⟩
    rw [List.getLast?_cons]
    cases segments.getLast? <;> rfl

theorem spans_import {ls : List Lexeme} {start : Span} {source : ImportPath}
    {segments : List Ident} (h : IsImport ls (start, source, segments)) (hls : InOrder ls) :
    Spans ls (start.cover ((segments.getLast?.map Ident.span).getD source.span)) := by
  obtain @⟨raw, cs, _, _, start, file, decoded, tail⟩ := h
  obtain ⟨y, hy, hspan⟩ := exists_last_segment tail (.text raw file)
  have hends := Spans.ends (x := .word .importKw start) (y := y) rfl
    (by simpa [List.getLast?_cons] using hy) hls
  rwa [hspan] at hends

/-! ## Types -/

theorem spread_type {ls : List Lexeme} {t : TypeRef} (h : IsType ls t) : Spread ls (.type t) := by
  induction h with
  | named path =>
    have hpath := spread_path path
    exact ⟨.named path, hpath.spans, .one hpath⟩
  | list list opening closing element ih =>
    have helement := (Sequence.one ih).followed [.mark .closeParen closing]
    refine ⟨.list list opening closing element, ?_, .skip _ (.skip _ helement)⟩
    exact Spans.ends (x := Ident.lexeme ⟨list, "List"⟩) (y := .mark .closeParen closing) rfl
      (by simp [List.getLast?_cons])
  | imported target => exact ⟨.imported target, spans_import target, sequence_import target⟩

/-! ## Literals -/

/-- A literal without parts. -/
theorem spread_leaf {ls : List Lexeme} {l : Literal} (h : IsLiteral ls l)
    (hspans : InOrder ls → Spans ls l.span) (hleaf : SyntaxNode.ofLiteral l = []) :
    Spread ls (.literal l) :=
  ⟨.inl h, hspans, by rw [SyntaxNode.children, hleaf]; exact .none ls⟩

theorem spread_numeral {ls : List Lexeme} {span : Span} {s : String} {l : Literal}
    (h : IsLiteral ls l) (hl : IsNumeral span s l) (hspans : InOrder ls → Spans ls span) :
    Spread ls (.literal l) := by
  cases hl with
  | int => exact spread_leaf h hspans rfl
  | float => exact spread_leaf h hspans rfl

mutual

theorem spread_literal : ∀ {l : Literal} {ls : List Lexeme}, IsLiteral ls l →
    Spread ls (.literal l)
  | l, ls, h => by
    have hphrase := h
    cases h with
    | @number s _ span numeral =>
      exact spread_numeral hphrase numeral fun _ => .single (.number s span)
    | @negative s _ minus number numeral =>
      exact spread_numeral hphrase numeral
        (Spans.ends (x := .mark .minus minus) (y := .number s number) rfl rfl)
    | @text raw _ span decoded => exact spread_leaf hphrase (fun _ => .single (.text raw span)) rfl
    | true span => exact spread_leaf hphrase (fun _ => .single (.word .trueKw span)) rfl
    | false span => exact spread_leaf hphrase (fun _ => .single (.word .falseKw span)) rfl
    | void span => exact spread_leaf hphrase (fun _ => .single (.word .voidKw span)) rfl
    | name path =>
      have hpath := spread_path path
      exact ⟨.inl hphrase, hpath.spans, .one hpath⟩
    | list opening closing body =>
      have hitems := sequence_items body
      refine ⟨.inl hphrase, ?_, .skip _ (hitems.followed _)⟩
      exact Spans.ends (x := .mark .openBracket opening) (y := .mark .closeBracket closing) rfl
        (by simp [List.getLast?_cons])
    | struct opening closing body =>
      have hfields := sequence_fields body
      refine ⟨.inl hphrase, ?_, .skip _ (hfields.followed _)⟩
      exact Spans.ends (x := .mark .openParen opening) (y := .mark .closeParen closing) rfl
        (by simp [List.getLast?_cons])

theorem sequence_items : ∀ {items : List Literal} {ls : List Lexeme},
    IsListed IsLiteral ls items → Sequence ls (items.map .literal)
  | [], _, h => .none _
  | l :: items, _, h => by
    cases h with
    | last head => exact .one (spread_literal head)
    | cons comma head tail => exact .cons (spread_literal head) (.skip _ (sequence_items tail))

theorem sequence_fields : ∀ {fields : List (Ident × Literal)} {ls : List Lexeme},
    IsListed (IsInit IsLiteral) ls fields → Sequence ls (fields.flatMap SyntaxNode.ofFieldInit)
  | [], _, h => .none _
  | (i, l) :: fields, _, h => by
    cases h with
    | last head =>
      obtain ⟨i, equals, set⟩ := head
      exact .ident i (.skip _ (.one (spread_literal set)))
    | cons comma head tail =>
      obtain ⟨i, equals, set⟩ := head
      exact .ident i (.skip _ (.cons (spread_literal set) (.skip _ (sequence_fields tail))))

end

theorem spread_value {ls : List Lexeme} {l : Literal} (h : IsShallow ls l) :
    Spread ls (.literal l) := spread_literal h.1

theorem sequence_default {ls : List Lexeme} {default : Option Literal} (h : IsDefault ls default) :
    Sequence ls (default.toList.map .literal) := by
  cases h with
  | none => exact .nil
  | some equals value => exact .skip _ (.one (spread_value value))

/-! ## Annotations -/

/-- Empty parentheses after the name of an annotation. -/
theorem spread_void (opening closing : Span) :
    Spread [.mark .openParen opening, .mark .closeParen closing]
      (.literal (.void (opening.cover closing))) :=
  ⟨.inr ⟨_, _, rfl, rfl⟩,
    Spans.ends (x := .mark .openParen opening) (y := .mark .closeParen closing) rfl rfl, .none _⟩

theorem spread_application {ls : List Lexeme} {a : Application} (h : IsApplication ls a) :
    Spread ls (.application a) := by
  have hphrase := h
  cases h with
  | @bare ls _ start name =>
    have hpath := spread_path name
    refine ⟨hphrase, fun hls => ?_, .skip _ (.one hpath)⟩
    have hname := hpath.spans (hls.sublist (List.sublist_cons_self _ ls))
    exact Spans.cover (.single (.mark .dollar start)) hname ⟨ls, rfl⟩ (List.suffix_cons _ _) hls
  | void start opening closing name =>
    have hpath := spread_path name
    refine ⟨hphrase, ?_, .skip _ (.cons hpath (.one (spread_void opening closing)))⟩
    exact Spans.ends (x := .mark .dollar start) (y := .mark .closeParen closing) rfl
      (by simp [List.getLast?_cons])
  | fields start opening closing name inits =>
    have hpath := spread_path name
    -- The parentheses of the annotation are those of the struct literal.
    have hstruct := spread_literal (.struct opening closing
      (Parser.isListed_init_within_iff.1 inits).1)
    refine ⟨hphrase, ?_, .skip _ (.cons hpath (.one hstruct))⟩
    exact Spans.ends (x := .mark .dollar start) (y := .mark .closeParen closing) rfl
      (by simp [List.getLast?_cons])
  | value start opening closing name value =>
    have hpath := spread_path name
    have hvalue := (Sequence.one (spread_value value)).followed [.mark .closeParen closing]
    refine ⟨hphrase, ?_, .skip _ (.cons hpath (.skip _ hvalue))⟩
    exact Spans.ends (x := .mark .dollar start) (y := .mark .closeParen closing) rfl
      (by simp [List.getLast?_cons])

theorem sequence_applications {ls : List Lexeme} {as : List Application}
    (h : IsApplications ls as) : Sequence ls (as.map .application) :=
  sequence_map_many (fun _ _ ha => .one (spread_application ha)) h

end SchemaLang
