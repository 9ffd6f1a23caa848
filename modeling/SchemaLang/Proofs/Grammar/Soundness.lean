import SchemaLang.Proofs.Grammar.Decls
import SchemaLang.Proofs.Grammar.Reading
import SchemaLang.Tree.Parser.Decl

/-!
# What the parser reads is derived

Every production of the parser, when it succeeds, has read the lexemes of a phrase of the grammar
and gives the node of that phrase: `sound_type`, `sound_literal`, …, up to `isModule_of_ofLexemes`.
-/

namespace SchemaLang

open Grammar

namespace Parser

/-! ## Names and numbers -/

theorem sound_moreSegments : Sound moreSegments (IsMany IsSegment) := by
  refine sound_many fun l stop bound o s' h => ?_
  obtain ⟨b, s₁, h₁, h₂⟩ := run_bind_ok.1 h
  rcases mark?_ok h₁ with ⟨dot, rest, rfl, rfl, rfl⟩ | ⟨rfl, -, rfl⟩
  · obtain ⟨i, h₃, rfl⟩ := run_map_ok.1 h₂
    obtain ⟨rest, rfl, rfl⟩ := ident_ok h₃
    exact ⟨[.mark .dot dot, i.lexeme], rest, rfl, rfl, .some (.mk dot i)⟩
  · obtain ⟨rfl, rfl⟩ : none = o ∧ _ = s' := by simpa using h₂
    exact ⟨[], l, rfl, rfl, .none⟩

theorem sound_pathFrom (first : Ident) :
    Sound (pathFrom first) fun used p => IsPath (first.lexeme :: used) p := by
  intro l stop bound p s' h
  obtain ⟨more, s₁, h₁, h₂⟩ := run_bind_ok.1 h
  obtain ⟨used, rest, rfl, rfl, hmore⟩ := sound_moreSegments h₁
  obtain ⟨rfl, rfl⟩ : _ = p ∧ _ = s' := by simpa using h₂
  exact ⟨used, rest, rfl, rfl, .mk first hmore⟩

theorem sound_path : Sound path IsPath := by
  intro l stop bound p s' h
  obtain ⟨first, s₁, h₁, h₂⟩ := run_bind_ok.1 h
  obtain ⟨l, rfl, rfl⟩ := ident_ok h₁
  obtain ⟨used, rest, rfl, rfl, hp⟩ := sound_pathFrom first h₂
  exact ⟨first.lexeme :: used, rest, rfl, rfl, hp⟩

theorem sound_importTarget : Sound importTarget IsImport := by
  intro l stop bound r s' h
  obtain ⟨start, s₁, h₁, h₂⟩ := run_bind_ok.1 h
  obtain ⟨l, rfl, rfl⟩ := keyword_ok h₁
  obtain ⟨⟨span, file⟩, s₂, h₃, h₄⟩ := run_bind_ok.1 h₂
  obtain ⟨raw, cs, l, hcs, rfl, rfl, rfl⟩ := text_ok h₃
  obtain ⟨segments, s₃, h₅, h₆⟩ := run_bind_ok.1 h₄
  obtain ⟨used, rest, rfl, rfl, hsegments⟩ := sound_moreSegments h₅
  obtain ⟨rfl, rfl⟩ : _ = r ∧ _ = s' := by simpa using h₆
  exact ⟨.word .importKw start :: .text raw span :: used, rest, rfl, rfl,
    .mk start span hcs hsegments⟩

theorem sound_ordinal : Sound ordinal IsOrdinal := by
  intro l stop bound o s' h
  obtain ⟨start, s₁, h₁, h₂⟩ := run_bind_ok.1 h
  obtain ⟨l, rfl, rfl⟩ := mark_ok h₁
  obtain ⟨⟨span, value⟩, s₂, h₃, h₄⟩ := run_bind_ok.1 h₂
  obtain ⟨s, n, rest, hn, rfl, rfl, rfl⟩ := natural_ok h₃
  obtain ⟨rfl, rfl⟩ : _ = o ∧ _ = s' := by simpa using h₄
  exact ⟨[.mark .atSign start, .number s span], rest, rfl, rfl, .mk start span hn⟩

/-! ## Types -/

theorem sound_applyParameters {p : Path} {list : List Lexeme} (hp : IsPath list p)
    (span : Span) (ts : List TypeRef) : Sound (applyParameters p span ts) fun used t =>
      used = [] ∧ ∃ i element, list = [Ident.lexeme ⟨i, "List"⟩] ∧ p.span = i ∧ ts = [element] ∧
        t = .list span element := by
  intro l stop bound t s' h
  unfold applyParameters at h
  split at h
  · next hlist =>
    obtain ⟨rfl, rfl⟩ : TypeRef.list span _ = t ∧ _ = s' := by simpa using h
    obtain ⟨first, tail⟩ := hp
    obtain ⟨hfirst, hrest⟩ := List.cons.inj hlist
    obtain rfl := List.map_eq_nil_iff.1 hrest
    cases tail
    obtain ⟨i, name⟩ := first
    obtain rfl : name = "List" := hfirst
    exact ⟨[], l, rfl, rfl, rfl, i, _, rfl, rfl, rfl, rfl⟩
  · simp [run_fail] at h

theorem isSeparated_singleton {α : Type} {item : Phrases α} {ls : List Lexeme} {a : α}
    (h : IsSeparated item ls [a]) : item ls a := by
  cases h with
  | last h => exact h
  | cons comma h tail => cases tail

theorem sound_typeWithin : ∀ bound, Sound (typeWithin bound) IsType
  | 0 => sound_unexpected _ _
  | bound + 1 => by
    intro l stop n t s' h
    obtain ⟨o, s₁, h₁, h₂⟩ := run_bind_ok.1 h
    obtain ⟨rfl, rfl⟩ : nextToken l = o ∧ _ = s₁ := by simpa using h₁
    split at h₂
    · obtain ⟨⟨start, source, segments⟩, s₂, h₃, h₄⟩ := run_bind_ok.1 h₂
      obtain ⟨used, rest, rfl, rfl, htarget⟩ := sound_importTarget h₃
      obtain ⟨rfl, rfl⟩ : _ = t ∧ _ = s' := by simpa using h₄
      exact ⟨used, rest, rfl, rfl, .imported htarget⟩
    · obtain ⟨p, s₂, h₃, h₄⟩ := run_bind_ok.1 h₂
      obtain ⟨list, l, rfl, rfl, hp⟩ := sound_path h₃
      obtain ⟨b, s₃, h₅, h₆⟩ := run_bind_ok.1 h₄
      rcases mark?_ok h₅ with ⟨opening, l, rfl, rfl, rfl⟩ | ⟨rfl, -, rfl⟩
      · obtain ⟨ts, s₄, h₇, h₈⟩ := run_bind_ok.1 h₆
        obtain ⟨used, l, rfl, rfl, hts⟩ := sound_separated (sound_typeWithin bound) h₇
        obtain ⟨closing, s₅, h₉, h₁₀⟩ := run_bind_ok.1 h₈
        obtain ⟨l, rfl, rfl⟩ := mark_ok h₉
        obtain ⟨none, rest, rfl, rfl, rfl, i, element, rfl, hi, rfl, rfl⟩ :=
          sound_applyParameters hp _ ts h₁₀
        rw [hi]
        exact ⟨Ident.lexeme ⟨i, "List"⟩ :: .mark .openParen opening ::
          (used ++ [.mark .closeParen closing]), rest, by simp, rfl,
          .list i opening closing (isSeparated_singleton hts)⟩
      · obtain ⟨rfl, rfl⟩ : TypeRef.named p = t ∧ _ = s' := by simpa using h₆
        exact ⟨list, l, rfl, rfl, .named hp⟩

theorem sound_type : Sound type IsType := by
  intro l stop bound t s' h
  obtain ⟨n, s₁, h₁, h₂⟩ := run_bind_ok.1 h
  obtain ⟨rfl, rfl⟩ : bound = n ∧ _ = s₁ := by simpa using h₁
  exact sound_typeWithin _ h₂

/-! ## Literals -/

theorem sound_numeral (span : Span) (s : String) :
    Sound (numeral span s) fun used l => used = [] ∧ IsNumeral span s l := by
  intro l stop bound literal s' h
  simp only [numeral] at h
  split at h
  · next l' hl =>
    obtain ⟨rfl, rfl⟩ : l' = literal ∧ _ = s' := by simpa using h
    obtain ⟨shape, hshape, hl⟩ := bind_eq_ok.1 hl
    refine ⟨[], l, rfl, rfl, rfl, ?_⟩
    cases shape with
    | float =>
      obtain ⟨x, hx, hl⟩ := bind_eq_ok.1 hl
      obtain rfl := Except.ok.inj hl
      exact .float hshape hx
    | integer base =>
      obtain ⟨n, hn, hl⟩ := bind_eq_ok.1 hl
      obtain rfl := Except.ok.inj hl
      exact .int hshape hn
  · simp [run_fail] at h

/-- The fields of a struct are read with whatever reads a value. -/
theorem sound_structFields {value : Parser Literal} {r : Phrases Literal} (hvalue : Sound value r) :
    Sound (structFields value) (IsListed (IsInit r)) := by
  refine sound_listUntil fun l stop bound a s' h => ?_
  obtain ⟨i, s₁, h₁, h₂⟩ := run_bind_ok.1 h
  obtain ⟨l, rfl, rfl⟩ := ident_ok h₁
  obtain ⟨equals, s₂, h₃, h₄⟩ := run_bind_ok.1 h₂
  obtain ⟨l, rfl, rfl⟩ := mark_ok h₃
  obtain ⟨v, h₅, rfl⟩ := run_map_ok.1 h₄
  obtain ⟨used, rest, rfl, rfl, hv⟩ := hvalue h₅
  exact ⟨i.lexeme :: .mark .equals equals :: used, rest, rfl, rfl, .mk i equals hv⟩

/-- The literals of at most some depth. -/
def IsWithin (room : Nat) : Phrases Literal := fun used l => IsLiteral used l ∧ l.depth ≤ room

theorem isListed_within_iff {room : Nat} {ls : List Lexeme} {items : List Literal} :
    IsListed (IsWithin room) ls items ↔ IsListed IsLiteral ls items ∧ itemsDepth items ≤ room := by
  constructor
  · intro h
    induction h with
    | nil => exact ⟨.nil, by simp [itemsDepth]⟩
    | last h => exact ⟨.last h.1, by simp [itemsDepth, h.2]⟩
    | cons comma h _ ih =>
      exact ⟨.cons comma h.1 ih.1, by rw [itemsDepth]; exact Nat.max_le.2 ⟨h.2, ih.2⟩⟩
  · rintro ⟨h, hd⟩
    induction h with
    | nil => exact .nil
    | last h => exact .last ⟨h, by simpa [itemsDepth] using hd⟩
    | cons comma h _ ih =>
      obtain ⟨hd₁, hd₂⟩ := Nat.max_le.1 (by simpa only [itemsDepth] using hd)
      exact .cons comma ⟨h, hd₁⟩ (ih hd₂)

theorem isListed_init_within_iff {room : Nat} {ls : List Lexeme}
    {fields : List (Ident × Literal)} :
    IsListed (IsInit (IsWithin room)) ls fields ↔
      IsListed (IsInit IsLiteral) ls fields ∧ fieldsDepth fields ≤ room := by
  constructor
  · intro h
    induction h with
    | nil => exact ⟨.nil, by simp [fieldsDepth]⟩
    | last h =>
      obtain ⟨i, equals, h⟩ := h
      exact ⟨.last (.mk i equals h.1), by simp [fieldsDepth, h.2]⟩
    | cons comma h _ ih =>
      obtain ⟨i, equals, h⟩ := h
      exact ⟨.cons comma (.mk i equals h.1) ih.1, by
        rw [fieldsDepth]; exact Nat.max_le.2 ⟨h.2, ih.2⟩⟩
  · rintro ⟨h, hd⟩
    induction h with
    | nil => exact .nil
    | last h =>
      obtain ⟨i, equals, h⟩ := h
      exact .last (.mk i equals ⟨h, by simpa [fieldsDepth] using hd⟩)
    | cons comma h _ ih =>
      obtain ⟨i, equals, h⟩ := h
      obtain ⟨hd₁, hd₂⟩ := Nat.max_le.1 (by simpa only [fieldsDepth] using hd)
      exact .cons comma (.mk i equals ⟨h, hd₁⟩) (ih hd₂)

/-- A literal is read with whatever reads lists and structs from their opening marks. -/
theorem sound_literalWith {list struct : Span → Parser Literal} {room : Nat}
    (hlist : ∀ opening l stop bound a s',
      (list opening).run ⟨.mark .openBracket opening :: l, stop, bound⟩ = .ok (a, s') →
      ∃ used rest, l = used ++ rest ∧ s' = ⟨rest, stop, bound⟩ ∧
        IsWithin room (.mark .openBracket opening :: used) a)
    (hstruct : ∀ opening l stop bound a s',
      (struct opening).run ⟨.mark .openParen opening :: l, stop, bound⟩ = .ok (a, s') →
      ∃ used rest, l = used ++ rest ∧ s' = ⟨rest, stop, bound⟩ ∧
        IsWithin room (.mark .openParen opening :: used) a) :
    Sound (literalWith list struct) (IsWithin room) := by
  intro l stop bound a s' h
  obtain ⟨start, s₁, h₁, h₂⟩ := run_bind_ok.1 h
  obtain ⟨rfl, rfl⟩ : _ = start ∧ _ = s₁ := by simpa using h₁
  obtain ⟨o, s₂, h₃, h₄⟩ := run_bind_ok.1 h₂
  obtain ⟨rfl, rfl⟩ : nextToken l = o ∧ _ = s₂ := by simpa using h₃
  split at h₄
  · next hm =>
    obtain ⟨minus, l, rfl⟩ := eq_cons_of_nextToken hm
    obtain ⟨_, s₃, h₅, h₆⟩ := run_bind_ok.1 h₄
    obtain ⟨rfl, rfl⟩ : minus = _ ∧ _ = s₃ := by simpa using h₅
    obtain ⟨⟨span, s⟩, s₄, h₇, h₈⟩ := run_bind_ok.1 h₆
    obtain ⟨l, rfl, rfl⟩ := number_ok h₇
    obtain ⟨used, rest, rfl, rfl, rfl, hn⟩ := sound_numeral _ _ h₈
    exact ⟨[.mark .minus minus, .number s span], rest, rfl, rfl, .negative minus span hn,
      by cases hn <;> simp [Literal.depth]⟩
  · next s hs =>
    obtain ⟨span, l, rfl⟩ := eq_cons_of_nextToken hs
    obtain ⟨_, s₃, h₅, h₆⟩ := run_bind_ok.1 h₄
    obtain ⟨rfl, rfl⟩ : span = _ ∧ _ = s₃ := by simpa using h₅
    obtain ⟨used, rest, rfl, rfl, rfl, hn⟩ := sound_numeral _ _ h₆
    exact ⟨[.number s span], rest, rfl, rfl, .number span hn,
      by cases hn <;> simp [Literal.depth]⟩
  · obtain ⟨⟨span, t⟩, s₃, h₅, h₆⟩ := run_bind_ok.1 h₄
    obtain ⟨raw, cs, rest, hcs, rfl, rfl, rfl⟩ := text_ok h₅
    obtain ⟨rfl, rfl⟩ : _ = a ∧ _ = s' := by simpa using h₆
    exact ⟨[.text raw span], rest, rfl, rfl, .text span hcs, by simp [Literal.depth]⟩
  · next hw =>
    obtain ⟨span, rest, rfl⟩ := eq_cons_of_nextToken hw
    obtain ⟨rfl, rfl⟩ : _ = a ∧ _ = s' := by simpa using h₄
    exact ⟨[.word .trueKw span], rest, rfl, rfl, .true span, by simp [Literal.depth]⟩
  · next hw =>
    obtain ⟨span, rest, rfl⟩ := eq_cons_of_nextToken hw
    obtain ⟨rfl, rfl⟩ : _ = a ∧ _ = s' := by simpa using h₄
    exact ⟨[.word .falseKw span], rest, rfl, rfl, .false span, by simp [Literal.depth]⟩
  · next hw =>
    obtain ⟨span, rest, rfl⟩ := eq_cons_of_nextToken hw
    obtain ⟨rfl, rfl⟩ : _ = a ∧ _ = s' := by simpa using h₄
    exact ⟨[.word .voidKw span], rest, rfl, rfl, .void span, by simp [Literal.depth]⟩
  · obtain ⟨p, h₅, rfl⟩ := run_map_ok.1 h₄
    obtain ⟨used, rest, rfl, rfl, hp⟩ := sound_path h₅
    exact ⟨used, rest, rfl, rfl, .name hp, by simp [Literal.depth]⟩
  · next hm =>
    obtain ⟨opening, l, rfl⟩ := eq_cons_of_nextToken hm
    obtain ⟨used, rest, rfl, rfl, ha⟩ := hlist opening l _ _ _ _ h₄
    exact ⟨.mark .openBracket opening :: used, rest, rfl, rfl, ha⟩
  · next hm =>
    obtain ⟨opening, l, rfl⟩ := eq_cons_of_nextToken hm
    obtain ⟨used, rest, rfl, rfl, ha⟩ := hstruct opening l _ _ _ _ h₄
    exact ⟨.mark .openParen opening :: used, rest, rfl, rfl, ha⟩
  · exact absurd h₄ (run_unexpected_ne _ _ _)

theorem sound_literalWithin : ∀ room, Sound (literalWithin room) (IsWithin room)
  | 0 => sound_literalWith (fun _ _ _ _ _ _ h => by simp [run_fail] at h)
      fun _ _ _ _ _ _ h => by simp [run_fail] at h
  | room + 1 => by
    refine sound_literalWith ?_ ?_
    · intro opening l stop bound a s' h
      obtain ⟨_, s₁, h₁, h₂⟩ := run_bind_ok.1 h
      obtain ⟨rfl, rfl⟩ : opening = _ ∧ _ = s₁ := by simpa [Lexeme.mark] using h₁
      obtain ⟨items, s₂, h₃, h₄⟩ := run_bind_ok.1 h₂
      obtain ⟨used, l, rfl, rfl, hitems⟩ := sound_listUntil (sound_literalWithin room) h₃
      obtain ⟨closing, s₃, h₅, h₆⟩ := run_bind_ok.1 h₄
      obtain ⟨rest, rfl, rfl⟩ := mark_ok h₅
      obtain ⟨rfl, rfl⟩ : _ = a ∧ _ = s' := by simpa using h₆
      obtain ⟨hitems, hdepth⟩ := isListed_within_iff.1 hitems
      exact ⟨used ++ [.mark .closeBracket closing], rest, by simp, rfl,
        .list opening closing hitems, by simpa [Literal.depth] using hdepth⟩
    · intro opening l stop bound a s' h
      obtain ⟨_, s₁, h₁, h₂⟩ := run_bind_ok.1 h
      obtain ⟨rfl, rfl⟩ : opening = _ ∧ _ = s₁ := by simpa [Lexeme.mark] using h₁
      obtain ⟨fields, s₂, h₃, h₄⟩ := run_bind_ok.1 h₂
      obtain ⟨used, l, rfl, rfl, hfields⟩ := sound_structFields (sound_literalWithin room) h₃
      obtain ⟨closing, s₃, h₅, h₆⟩ := run_bind_ok.1 h₄
      obtain ⟨rest, rfl, rfl⟩ := mark_ok h₅
      obtain ⟨rfl, rfl⟩ : _ = a ∧ _ = s' := by simpa using h₆
      obtain ⟨hfields, hdepth⟩ := isListed_init_within_iff.1 hfields
      exact ⟨used ++ [.mark .closeParen closing], rest, by simp, rfl,
        .struct opening closing hfields, by simpa [Literal.depth] using hdepth⟩

theorem sound_literal : Sound literal IsShallow := sound_literalWithin _

theorem sound_default? : Sound default? IsDefault := by
  intro l stop bound o s' h
  obtain ⟨b, s₁, h₁, h₂⟩ := run_bind_ok.1 h
  rcases mark?_ok h₁ with ⟨equals, l, rfl, rfl, rfl⟩ | ⟨rfl, -, rfl⟩
  · obtain ⟨v, h₃, rfl⟩ := run_map_ok.1 h₂
    obtain ⟨used, rest, rfl, rfl, hv⟩ := sound_literal h₃
    exact ⟨.mark .equals equals :: used, rest, rfl, rfl, .some equals hv⟩
  · obtain ⟨rfl, rfl⟩ : none = o ∧ _ = s' := by simpa using h₂
    exact ⟨[], l, rfl, rfl, .none⟩

/-! ## Annotations -/

theorem sound_application : Sound application IsApplication := by
  intro l stop bound a s' h
  obtain ⟨start, s₁, h₁, h₂⟩ := run_bind_ok.1 h
  obtain ⟨l, rfl, rfl⟩ := mark_ok h₁
  obtain ⟨p, s₂, h₃, h₄⟩ := run_bind_ok.1 h₂
  obtain ⟨name, l, rfl, rfl, hp⟩ := sound_path h₃
  obtain ⟨o, s₃, h₅, h₆⟩ := run_bind_ok.1 h₄
  rcases accept?_ok h₅ with ⟨opening, l, rfl, rfl, rfl⟩ | ⟨rfl, -, rfl⟩
  · obtain ⟨first, s₄, h₇, h₈⟩ := run_bind_ok.1 h₆
    obtain ⟨rfl, rfl⟩ : nextToken l = first ∧ _ = s₄ := by simpa using h₇
    obtain ⟨second, s₅, h₉, h₁₀⟩ := run_bind_ok.1 h₈
    obtain ⟨rfl, rfl⟩ : nextToken l.tail = second ∧ _ = s₅ := by simpa using h₉
    split at h₁₀
    · next hm =>
      obtain ⟨closing, rest, rfl⟩ := eq_cons_of_nextToken hm
      obtain ⟨rfl, rfl⟩ : _ = a ∧ _ = s' := by simpa using h₁₀
      exact ⟨.mark .dollar start :: (name ++ [.mark .openParen opening, .mark .closeParen closing]),
        rest, by simp [Lexeme.mark], rfl, .void start opening closing hp⟩
    · next hn he =>
      obtain ⟨fields, s₆, h₁₁, h₁₂⟩ := run_bind_ok.1 h₁₀
      obtain ⟨body, l, rfl, rfl, hfields⟩ := sound_structFields sound_literal h₁₁
      obtain ⟨closing, s₇, h₁₃, h₁₄⟩ := run_bind_ok.1 h₁₂
      obtain ⟨rest, rfl, rfl⟩ := mark_ok h₁₃
      obtain ⟨rfl, rfl⟩ : _ = a ∧ _ = s' := by simpa using h₁₄
      have hne : fields ≠ [] := by
        rintro rfl
        cases hfields
        simp at hn
      exact ⟨.mark .dollar start :: (name ++ .mark .openParen opening ::
        (body ++ [.mark .closeParen closing])), rest, by simp [Lexeme.mark], rfl,
        .fields start opening closing hp hfields hne⟩
    · obtain ⟨v, s₆, h₁₁, h₁₂⟩ := run_bind_ok.1 h₁₀
      obtain ⟨body, l, rfl, rfl, hv⟩ := sound_literal h₁₁
      obtain ⟨closing, s₇, h₁₃, h₁₄⟩ := run_bind_ok.1 h₁₂
      obtain ⟨rest, rfl, rfl⟩ := mark_ok h₁₃
      obtain ⟨rfl, rfl⟩ : _ = a ∧ _ = s' := by simpa using h₁₄
      exact ⟨.mark .dollar start :: (name ++ .mark .openParen opening ::
        (body ++ [.mark .closeParen closing])), rest, by simp [Lexeme.mark], rfl,
        .value start opening closing hp hv⟩
  · obtain ⟨rfl, rfl⟩ : _ = a ∧ _ = s' := by simpa using h₆
    exact ⟨.mark .dollar start :: name, l, rfl, rfl, .bare start hp⟩

theorem sound_applications : Sound applications IsApplications := by
  refine sound_many fun l stop bound o s' h => ?_
  obtain ⟨t, s₁, h₁, h₂⟩ := run_bind_ok.1 h
  obtain ⟨rfl, rfl⟩ : nextToken l = t ∧ _ = s₁ := by simpa using h₁
  split at h₂
  · obtain ⟨a, h₃, rfl⟩ := run_map_ok.1 h₂
    obtain ⟨used, rest, rfl, rfl, ha⟩ := sound_application h₃
    exact ⟨used, rest, rfl, rfl, .some ha⟩
  · obtain ⟨rfl, rfl⟩ : none = o ∧ _ = s' := by simpa using h₂
    exact ⟨[], l, rfl, rfl, .none⟩

/-! ## Declarations without a body -/

theorem sound_usingDecl : Sound usingDecl IsUsing := by
  intro l stop bound d s' h
  obtain ⟨start, s₁, h₁, h₂⟩ := run_bind_ok.1 h
  obtain ⟨l, rfl, rfl⟩ := keyword_ok h₁
  obtain ⟨o, s₂, h₃, h₄⟩ := run_bind_ok.1 h₂
  obtain ⟨rfl, rfl⟩ : nextToken l = o ∧ _ = s₂ := by simpa using h₃
  split at h₄
  · obtain ⟨⟨kw, source, segments⟩, s₃, h₅, h₆⟩ := run_bind_ok.1 h₄
    obtain ⟨used, l, rfl, rfl, htarget⟩ := sound_importTarget h₅
    obtain ⟨stop, s₄, h₇, h₈⟩ := run_bind_ok.1 h₆
    obtain ⟨rest, rfl, rfl⟩ := mark_ok h₇
    obtain ⟨rfl, rfl⟩ : _ = d ∧ _ = s' := by simpa using h₈
    exact ⟨.word .usingKw start :: (used ++ [.mark .semicolon stop]), rest, by simp, rfl,
      .imported start stop htarget⟩
  · obtain ⟨first, s₃, h₅, h₆⟩ := run_bind_ok.1 h₄
    obtain ⟨l, rfl, rfl⟩ := ident_ok h₅
    obtain ⟨b, s₄, h₇, h₈⟩ := run_bind_ok.1 h₆
    rcases mark?_ok h₇ with ⟨equals, l, rfl, rfl, rfl⟩ | ⟨rfl, -, rfl⟩
    · obtain ⟨o, s₅, h₉, h₁₀⟩ := run_bind_ok.1 h₈
      obtain ⟨rfl, rfl⟩ : nextToken l = o ∧ _ = s₅ := by simpa using h₉
      split at h₁₀
      · obtain ⟨⟨kw, source, segments⟩, s₆, h₁₁, h₁₂⟩ := run_bind_ok.1 h₁₀
        obtain ⟨used, l, rfl, rfl, htarget⟩ := sound_importTarget h₁₁
        obtain ⟨stop, s₇, h₁₃, h₁₄⟩ := run_bind_ok.1 h₁₂
        obtain ⟨rest, rfl, rfl⟩ := mark_ok h₁₃
        obtain ⟨rfl, rfl⟩ : _ = d ∧ _ = s' := by simpa using h₁₄
        exact ⟨.word .usingKw start :: first.lexeme :: .mark .equals equals ::
          (used ++ [.mark .semicolon stop]), rest, by simp, rfl,
          .importedAs start equals stop first htarget⟩
      · obtain ⟨p, s₆, h₁₁, h₁₂⟩ := run_bind_ok.1 h₁₀
        obtain ⟨used, l, rfl, rfl, hp⟩ := sound_path h₁₁
        obtain ⟨stop, s₇, h₁₃, h₁₄⟩ := run_bind_ok.1 h₁₂
        obtain ⟨rest, rfl, rfl⟩ := mark_ok h₁₃
        obtain ⟨rfl, rfl⟩ : _ = d ∧ _ = s' := by simpa using h₁₄
        exact ⟨.word .usingKw start :: first.lexeme :: .mark .equals equals ::
          (used ++ [.mark .semicolon stop]), rest, by simp, rfl,
          .pathAs start equals stop first hp⟩
    · obtain ⟨p, s₅, h₉, h₁₀⟩ := run_bind_ok.1 h₈
      obtain ⟨used, l, rfl, rfl, hp⟩ := sound_pathFrom first h₉
      obtain ⟨stop, s₆, h₁₁, h₁₂⟩ := run_bind_ok.1 h₁₀
      obtain ⟨rest, rfl, rfl⟩ := mark_ok h₁₁
      obtain ⟨rfl, rfl⟩ : _ = d ∧ _ = s' := by simpa using h₁₂
      exact ⟨.word .usingKw start :: (first.lexeme :: used ++ [.mark .semicolon stop]), rest,
        by simp, rfl, .path start stop hp⟩

theorem sound_constDecl : Sound constDecl fun used d => ∃ c, d = .const c ∧ IsConst used c := by
  intro l stop bound d s' h
  obtain ⟨start, s₁, h₁, h₂⟩ := run_bind_ok.1 h
  obtain ⟨l, rfl, rfl⟩ := keyword_ok h₁
  obtain ⟨name, s₂, h₃, h₄⟩ := run_bind_ok.1 h₂
  obtain ⟨l, rfl, rfl⟩ := ident_ok h₃
  obtain ⟨colon, s₃, h₅, h₆⟩ := run_bind_ok.1 h₄
  obtain ⟨l, rfl, rfl⟩ := mark_ok h₅
  obtain ⟨type, s₄, h₇, h₈⟩ := run_bind_ok.1 h₆
  obtain ⟨tys, l, rfl, rfl, htype⟩ := sound_type h₇
  obtain ⟨equals, s₅, h₉, h₁₀⟩ := run_bind_ok.1 h₈
  obtain ⟨l, rfl, rfl⟩ := mark_ok h₉
  obtain ⟨value, s₆, h₁₁, h₁₂⟩ := run_bind_ok.1 h₁₀
  obtain ⟨vs, l, rfl, rfl, hvalue⟩ := sound_literal h₁₁
  obtain ⟨applied, s₇, h₁₃, h₁₄⟩ := run_bind_ok.1 h₁₂
  obtain ⟨as, l, rfl, rfl, happlied⟩ := sound_applications h₁₃
  obtain ⟨semicolon, s₈, h₁₅, h₁₆⟩ := run_bind_ok.1 h₁₄
  obtain ⟨rest, rfl, rfl⟩ := mark_ok h₁₅
  obtain ⟨rfl, rfl⟩ : _ = d ∧ _ = s' := by simpa using h₁₆
  exact ⟨_, rest, by simp, rfl, _, rfl, .mk start colon equals semicolon name htype hvalue happlied⟩

theorem sound_enumerant? : Sound enumerant? (IsOptional IsEnumerant) := by
  intro l stop bound e s' h
  obtain ⟨o, s₁, h₁, h₂⟩ := run_bind_ok.1 h
  obtain ⟨rfl, rfl⟩ : nextToken l = o ∧ _ = s₁ := by simpa using h₁
  split at h₂
  · obtain ⟨rfl, rfl⟩ : none = e ∧ _ = s' := by simpa using h₂
    exact ⟨[], l, rfl, rfl, .none⟩
  · obtain ⟨name, s₂, h₃, h₄⟩ := run_bind_ok.1 h₂
    obtain ⟨l, rfl, rfl⟩ := ident_ok h₃
    obtain ⟨number, s₃, h₅, h₆⟩ := run_bind_ok.1 h₄
    obtain ⟨os, l, rfl, rfl, hnumber⟩ := sound_ordinal h₅
    obtain ⟨applied, s₄, h₇, h₈⟩ := run_bind_ok.1 h₆
    obtain ⟨as, l, rfl, rfl, happlied⟩ := sound_applications h₇
    obtain ⟨semicolon, s₅, h₉, h₁₀⟩ := run_bind_ok.1 h₈
    obtain ⟨rest, rfl, rfl⟩ := mark_ok h₉
    obtain ⟨rfl, rfl⟩ : _ = e ∧ _ = s' := by simpa using h₁₀
    exact ⟨_, rest, by simp, rfl, .some (.mk semicolon name hnumber happlied)⟩

theorem sound_enumDecl : Sound enumDecl fun used d => ∃ e, d = .enum e ∧ IsEnum used e := by
  intro l stop bound d s' h
  obtain ⟨start, s₁, h₁, h₂⟩ := run_bind_ok.1 h
  obtain ⟨l, rfl, rfl⟩ := keyword_ok h₁
  obtain ⟨name, s₂, h₃, h₄⟩ := run_bind_ok.1 h₂
  obtain ⟨l, rfl, rfl⟩ := ident_ok h₃
  obtain ⟨applied, s₃, h₅, h₆⟩ := run_bind_ok.1 h₄
  obtain ⟨as, l, rfl, rfl, happlied⟩ := sound_applications h₅
  obtain ⟨opening, s₄, h₇, h₈⟩ := run_bind_ok.1 h₆
  obtain ⟨l, rfl, rfl⟩ := mark_ok h₇
  obtain ⟨enumerants, s₅, h₉, h₁₀⟩ := run_bind_ok.1 h₈
  obtain ⟨es, l, rfl, rfl, henumerants⟩ := sound_many sound_enumerant? h₉
  obtain ⟨closing, s₆, h₁₁, h₁₂⟩ := run_bind_ok.1 h₁₀
  obtain ⟨rest, rfl, rfl⟩ := mark_ok h₁₁
  obtain ⟨rfl, rfl⟩ : _ = d ∧ _ = s' := by simpa using h₁₂
  exact ⟨_, rest, by simp, rfl, _, rfl, .mk start opening closing name happlied henumerants⟩

/-- The tokens that stand for targets are those of the grammar. -/
theorem isTarget_iff_targetOf? (x : Lexeme) (t : Target) :
    IsTarget [x] (x.span, t) ↔ targetOf? x.token = some t := by
  obtain ⟨token, span⟩ := x
  constructor
  · intro h
    generalize hr : ((⟨token, span⟩ : Lexeme).span, t) = r at h
    cases h with
    | star span' =>
      obtain rfl : t = .any := congrArg Prod.snd hr
      rfl
    | @keyword k t' span' text =>
      obtain rfl : t = t' := congrArg Prod.snd hr
      cases k <;> cases t <;> first | rfl | exact absurd text (by decide)
    | @name t' span' named =>
      obtain rfl : t = t' := congrArg Prod.snd hr
      cases t <;> first | rfl | exact absurd rfl named
  · intro h
    dsimp only at h
    unfold targetOf? at h
    split at h
    · obtain rfl := Option.some.inj h; exact .star span
    · obtain rfl := Option.some.inj h; exact .keyword span rfl
    · obtain rfl := Option.some.inj h; exact .keyword span rfl
    · obtain rfl := Option.some.inj h; exact .keyword span rfl
    · obtain rfl := Option.some.inj h; exact .keyword span rfl
    · obtain rfl := Option.some.inj h; exact .keyword span rfl
    · obtain rfl := Option.some.inj h; exact .keyword span rfl
    · obtain rfl := Option.some.inj h; exact .keyword span rfl
    · next s =>
      obtain rfl : t.name = s := by simpa using List.find?_some h
      have hmem := List.mem_of_find?_eq_some h
      refine .name span ?_
      rintro rfl
      exact absurd hmem (by decide)
    · cases h

theorem sound_target : Sound target IsTarget := by
  intro l stop bound r s' h
  obtain ⟨o, s₁, h₁, h₂⟩ := run_bind_ok.1 h
  obtain ⟨rfl, rfl⟩ : nextToken l = o ∧ _ = s₁ := by simpa using h₁
  split at h₂
  · next found hfound =>
    obtain ⟨span, rest, rfl⟩ := eq_cons_of_nextToken hfound
    split at h₂
    · next t ht =>
      obtain ⟨rfl, rfl⟩ : (span, t) = r ∧ _ = s' := by simpa using h₂
      exact ⟨[⟨_, span⟩], rest, rfl, rfl, (isTarget_iff_targetOf? ⟨_, span⟩ t).2 ht⟩
    · simp [run_fail] at h₂
    · exact absurd h₂ (run_unexpected_ne _ _ _)
  · exact absurd h₂ (run_unexpected_ne _ _ _)

theorem sound_annotationDecl :
    Sound annotationDecl fun used d => ∃ a, d = .annotationDecl a ∧ IsAnnotationDecl used a := by
  intro l stop bound d s' h
  obtain ⟨start, s₁, h₁, h₂⟩ := run_bind_ok.1 h
  obtain ⟨l, rfl, rfl⟩ := keyword_ok h₁
  obtain ⟨name, s₂, h₃, h₄⟩ := run_bind_ok.1 h₂
  obtain ⟨l, rfl, rfl⟩ := ident_ok h₃
  obtain ⟨opening, s₃, h₅, h₆⟩ := run_bind_ok.1 h₄
  obtain ⟨l, rfl, rfl⟩ := mark_ok h₅
  obtain ⟨targets, s₄, h₇, h₈⟩ := run_bind_ok.1 h₆
  obtain ⟨tgs, l, rfl, rfl, htargets⟩ := sound_separated sound_target h₇
  obtain ⟨closing, s₅, h₉, h₁₀⟩ := run_bind_ok.1 h₈
  obtain ⟨l, rfl, rfl⟩ := mark_ok h₉
  obtain ⟨colon, s₆, h₁₁, h₁₂⟩ := run_bind_ok.1 h₁₀
  obtain ⟨l, rfl, rfl⟩ := mark_ok h₁₁
  obtain ⟨type, s₇, h₁₃, h₁₄⟩ := run_bind_ok.1 h₁₂
  obtain ⟨tys, l, rfl, rfl, htype⟩ := sound_type h₁₃
  obtain ⟨applied, s₈, h₁₅, h₁₆⟩ := run_bind_ok.1 h₁₄
  obtain ⟨as, l, rfl, rfl, happlied⟩ := sound_applications h₁₅
  obtain ⟨semicolon, s₉, h₁₇, h₁₈⟩ := run_bind_ok.1 h₁₆
  obtain ⟨rest, rfl, rfl⟩ := mark_ok h₁₇
  obtain ⟨rfl, rfl⟩ : _ = d ∧ _ = s' := by simpa using h₁₈
  exact ⟨_, rest, by simp, rfl, _, rfl,
    .mk start opening closing colon semicolon name htargets htype happlied⟩

/-! ## Methods and fields -/

theorem sound_param : Sound param IsParam := by
  intro l stop bound p s' h
  obtain ⟨name, s₁, h₁, h₂⟩ := run_bind_ok.1 h
  obtain ⟨l, rfl, rfl⟩ := ident_ok h₁
  obtain ⟨colon, s₂, h₃, h₄⟩ := run_bind_ok.1 h₂
  obtain ⟨l, rfl, rfl⟩ := mark_ok h₃
  obtain ⟨type, s₃, h₅, h₆⟩ := run_bind_ok.1 h₄
  obtain ⟨tys, l, rfl, rfl, htype⟩ := sound_type h₅
  obtain ⟨default, s₄, h₇, h₈⟩ := run_bind_ok.1 h₆
  obtain ⟨ds, l, rfl, rfl, hdefault⟩ := sound_default? h₇
  obtain ⟨applied, s₅, h₉, h₁₀⟩ := run_bind_ok.1 h₈
  obtain ⟨as, rest, rfl, rfl, happlied⟩ := sound_applications h₉
  obtain ⟨rfl, rfl⟩ : _ = p ∧ _ = s' := by simpa using h₁₀
  exact ⟨_, rest, by simp, rfl, .mk colon name htype hdefault happlied⟩

theorem sound_params : Sound params IsParams := by
  intro l stop bound ps s' h
  obtain ⟨opening, s₁, h₁, h₂⟩ := run_bind_ok.1 h
  obtain ⟨l, rfl, rfl⟩ := mark_ok h₁
  obtain ⟨b, s₂, h₃, h₄⟩ := run_bind_ok.1 h₂
  rcases mark?_ok h₃ with ⟨closing, rest, rfl, rfl, rfl⟩ | ⟨rfl, -, rfl⟩
  · obtain ⟨rfl, rfl⟩ : [] = ps ∧ _ = s' := by simpa using h₄
    exact ⟨[.mark .openParen opening, .mark .closeParen closing], rest, rfl, rfl,
      .nil opening closing⟩
  · obtain ⟨params, s₃, h₅, h₆⟩ := run_bind_ok.1 h₄
    obtain ⟨used, l, rfl, rfl, hparams⟩ := sound_separated sound_param h₅
    obtain ⟨closing, s₄, h₇, h₈⟩ := run_bind_ok.1 h₆
    obtain ⟨rest, rfl, rfl⟩ := mark_ok h₇
    obtain ⟨rfl, rfl⟩ : params = ps ∧ _ = s' := by simpa using h₈
    exact ⟨_, rest, by simp, rfl, .some opening closing hparams⟩

theorem sound_results? : Sound results? IsResults := by
  intro l stop bound rs s' h
  obtain ⟨b, s₁, h₁, h₂⟩ := run_bind_ok.1 h
  rcases mark?_ok h₁ with ⟨arrow, l, rfl, rfl, rfl⟩ | ⟨rfl, -, rfl⟩
  · obtain ⟨results, h₃, rfl⟩ := run_map_ok.1 h₂
    obtain ⟨used, rest, rfl, rfl, hresults⟩ := sound_params h₃
    exact ⟨.mark .arrow arrow :: used, rest, rfl, rfl, .some arrow hresults⟩
  · obtain ⟨rfl, rfl⟩ : none = rs ∧ _ = s' := by simpa using h₂
    exact ⟨[], l, rfl, rfl, .none⟩

theorem sound_method : Sound method IsMethod := by
  intro l stop bound m s' h
  obtain ⟨name, s₁, h₁, h₂⟩ := run_bind_ok.1 h
  obtain ⟨l, rfl, rfl⟩ := ident_ok h₁
  obtain ⟨number, s₂, h₃, h₄⟩ := run_bind_ok.1 h₂
  obtain ⟨os, l, rfl, rfl, hnumber⟩ := sound_ordinal h₃
  obtain ⟨params, s₃, h₅, h₆⟩ := run_bind_ok.1 h₄
  obtain ⟨ps, l, rfl, rfl, hparams⟩ := sound_params h₅
  obtain ⟨results, s₄, h₇, h₈⟩ := run_bind_ok.1 h₆
  obtain ⟨rs, l, rfl, rfl, hresults⟩ := sound_results? h₇
  obtain ⟨applied, s₅, h₉, h₁₀⟩ := run_bind_ok.1 h₈
  obtain ⟨as, l, rfl, rfl, happlied⟩ := sound_applications h₉
  obtain ⟨semicolon, s₆, h₁₁, h₁₂⟩ := run_bind_ok.1 h₁₀
  obtain ⟨rest, rfl, rfl⟩ := mark_ok h₁₁
  obtain ⟨rfl, rfl⟩ : _ = m ∧ _ = s' := by simpa using h₁₂
  exact ⟨_, rest, by simp, rfl, .mk semicolon name hnumber hparams hresults happlied⟩

/-- A field from its type on. -/
theorem sound_field (name : Ident) (number : Ordinal) :
    Sound (field name number) fun used m => m.isAnonymousUnion = false ∧
      ∀ os colon, IsOrdinal os number →
        IsMember (name.lexeme :: (os ++ .mark .colon colon :: used)) m := by
  intro l stop bound m s' h
  obtain ⟨type, s₁, h₁, h₂⟩ := run_bind_ok.1 h
  obtain ⟨tys, l, rfl, rfl, htype⟩ := sound_type h₁
  obtain ⟨default, s₂, h₃, h₄⟩ := run_bind_ok.1 h₂
  obtain ⟨ds, l, rfl, rfl, hdefault⟩ := sound_default? h₃
  obtain ⟨applied, s₃, h₅, h₆⟩ := run_bind_ok.1 h₄
  obtain ⟨as, l, rfl, rfl, happlied⟩ := sound_applications h₅
  obtain ⟨semicolon, s₄, h₇, h₈⟩ := run_bind_ok.1 h₆
  obtain ⟨rest, rfl, rfl⟩ := mark_ok h₇
  obtain ⟨rfl, rfl⟩ : _ = m ∧ _ = s' := by simpa using h₈
  exact ⟨tys ++ (ds ++ (as ++ [.mark .semicolon semicolon])), rest, by simp, rfl, rfl,
    fun os colon hos => .field (.mk colon semicolon name hos htype hdefault happlied)⟩

theorem sound_bases : Sound bases IsBases := by
  intro l stop bound ts s' h
  obtain ⟨o, s₁, h₁, h₂⟩ := run_bind_ok.1 h
  rcases accept?_ok h₁ with ⟨start, l, rfl, rfl, rfl⟩ | ⟨rfl, -, rfl⟩
  · obtain ⟨opening, s₂, h₃, h₄⟩ := run_bind_ok.1 h₂
    obtain ⟨l, rfl, rfl⟩ := mark_ok h₃
    obtain ⟨types, s₃, h₅, h₆⟩ := run_bind_ok.1 h₄
    obtain ⟨used, l, rfl, rfl, htypes⟩ := sound_separated sound_type h₅
    obtain ⟨closing, s₄, h₇, h₈⟩ := run_bind_ok.1 h₆
    obtain ⟨rest, rfl, rfl⟩ := mark_ok h₇
    obtain ⟨rfl, rfl⟩ : types = ts ∧ _ = s' := by simpa using h₈
    exact ⟨.word .extendsKw start :: .mark .openParen opening ::
      (used ++ [.mark .closeParen closing]), rest, by simp [Lexeme.word], rfl,
      .some start opening closing htypes⟩
  · obtain ⟨rfl, rfl⟩ : [] = ts ∧ _ = s' := by simpa using h₂
    exact ⟨[], l, rfl, rfl, .none⟩

/-! ## Bodies -/

section Bodies

variable {body : Parser (List Member × Span)} {decl : Parser (Option Decl)}

/-- A named union from its keyword on. -/
theorem sound_namedUnion (hbody : Sound body IsBody) (name : Ident) (number : Option Ordinal) :
    Sound (namedUnion body name number) fun used m =>
      ∃ kw as bs applied ms stop, used = .word .unionKw kw :: (as ++ bs) ∧
        IsApplications as applied ∧ IsBody bs (ms, stop) ∧
        m = .union ⟨name.span.cover stop, name, applied⟩ number ms := by
  intro l stop bound m s' h
  obtain ⟨kw, s₁, h₁, h₂⟩ := run_bind_ok.1 h
  obtain ⟨l, rfl, rfl⟩ := keyword_ok h₁
  obtain ⟨applied, s₂, h₃, h₄⟩ := run_bind_ok.1 h₂
  obtain ⟨as, l, rfl, rfl, happlied⟩ := sound_applications h₃
  obtain ⟨⟨ms, closing⟩, s₃, h₅, h₆⟩ := run_bind_ok.1 h₄
  obtain ⟨bs, rest, rfl, rfl, hms⟩ := hbody h₅
  obtain ⟨rfl, rfl⟩ : _ = m ∧ _ = s' := by simpa using h₆
  exact ⟨.word .unionKw kw :: (as ++ bs), rest, by simp, rfl, kw, as, bs, applied, ms, closing,
    rfl, happlied, hms, rfl⟩

theorem sound_anonymousUnion (hbody : Sound body IsBody) (earlier : List Member) :
    Sound (anonymousUnion body earlier) fun used m =>
      IsMember used m ∧ m.isAnonymousUnion = true ∧
        earlier.any Member.isAnonymousUnion = false := by
  intro l stop bound m s' h
  obtain ⟨kw, s₁, h₁, h₂⟩ := run_bind_ok.1 h
  obtain ⟨l, rfl, rfl⟩ := keyword_ok h₁
  obtain ⟨applied, s₂, h₃, h₄⟩ := run_bind_ok.1 h₂
  obtain ⟨as, l, rfl, rfl, happlied⟩ := sound_applications h₃
  obtain ⟨⟨ms, closing⟩, s₃, h₅, h₆⟩ := run_bind_ok.1 h₄
  obtain ⟨bs, rest, rfl, rfl, hms⟩ := hbody h₅
  dsimp only at h₆
  split at h₆
  · simp [run_fail] at h₆
  · next hany =>
    obtain ⟨rfl, rfl⟩ : _ = m ∧ _ = s' := by simpa using h₆
    exact ⟨.word .unionKw kw :: (as ++ bs), rest, by simp, rfl, .anonymousUnion kw happlied hms,
      rfl, by simpa using hany⟩

/-- A group from its keyword on. -/
theorem sound_group (hbody : Sound body IsBody) (name : Ident) :
    Sound (group body name) fun used m => m.isAnonymousUnion = false ∧
      ∀ colon, IsMember (name.lexeme :: .mark .colon colon :: used) m := by
  intro l stop bound m s' h
  obtain ⟨kw, s₁, h₁, h₂⟩ := run_bind_ok.1 h
  obtain ⟨l, rfl, rfl⟩ := keyword_ok h₁
  obtain ⟨applied, s₂, h₃, h₄⟩ := run_bind_ok.1 h₂
  obtain ⟨as, l, rfl, rfl, happlied⟩ := sound_applications h₃
  obtain ⟨⟨ms, closing⟩, s₃, h₅, h₆⟩ := run_bind_ok.1 h₄
  obtain ⟨bs, rest, rfl, rfl, hms⟩ := hbody h₅
  obtain ⟨rfl, rfl⟩ : _ = m ∧ _ = s' := by simpa using h₆
  exact ⟨.word .groupKw kw :: (as ++ bs), rest, by simp, rfl, rfl,
    fun colon => .group colon kw name happlied hms⟩

theorem sound_namedMember (hbody : Sound body IsBody) :
    Sound (namedMember body) fun used m => IsMember used m ∧ m.isAnonymousUnion = false := by
  intro l stop bound m s' h
  obtain ⟨name, s₁, h₁, h₂⟩ := run_bind_ok.1 h
  obtain ⟨l, rfl, rfl⟩ := ident_ok h₁
  obtain ⟨o, s₂, h₃, h₄⟩ := run_bind_ok.1 h₂
  obtain ⟨rfl, rfl⟩ : nextToken l = o ∧ _ = s₂ := by simpa using h₃
  split at h₄
  · obtain ⟨number, s₃, h₅, h₆⟩ := run_bind_ok.1 h₄
    obtain ⟨os, l, rfl, rfl, hnumber⟩ := sound_ordinal h₅
    obtain ⟨colon, s₄, h₇, h₈⟩ := run_bind_ok.1 h₆
    obtain ⟨l, rfl, rfl⟩ := mark_ok h₇
    obtain ⟨o, s₅, h₉, h₁₀⟩ := run_bind_ok.1 h₈
    obtain ⟨rfl, rfl⟩ : nextToken l = o ∧ _ = s₅ := by simpa using h₉
    split at h₁₀
    · obtain ⟨used, rest, rfl, rfl, kw, as, bs, applied, ms, closing, rfl, happlied, hms, rfl⟩ :=
        sound_namedUnion hbody name _ h₁₀
      exact ⟨_, rest, by simp, rfl, .numberedUnion colon kw name hnumber happlied hms, rfl⟩
    · obtain ⟨used, rest, rfl, rfl, hm, hused⟩ := sound_field name number h₁₀
      exact ⟨name.lexeme :: (os ++ .mark .colon colon :: used), rest, by simp, rfl,
        hused os colon hnumber, hm⟩
  · next hcolon =>
    obtain ⟨colon, l, rfl⟩ := eq_cons_of_nextToken hcolon
    obtain ⟨_, s₃, h₅, h₆⟩ := run_bind_ok.1 h₄
    obtain ⟨rfl, rfl⟩ : colon = _ ∧ _ = s₃ := by simpa using h₅
    obtain ⟨o, s₄, h₇, h₈⟩ := run_bind_ok.1 h₆
    obtain ⟨rfl, rfl⟩ : nextToken l = o ∧ _ = s₄ := by simpa using h₇
    split at h₈
    · obtain ⟨used, rest, rfl, rfl, kw, as, bs, applied, ms, closing, rfl, happlied, hms, rfl⟩ :=
        sound_namedUnion hbody name _ h₈
      exact ⟨_, rest, by simp [Lexeme.mark], rfl, .union colon kw name happlied hms, rfl⟩
    · obtain ⟨used, rest, rfl, rfl, hm, hused⟩ := sound_group hbody name h₈
      exact ⟨name.lexeme :: .mark .colon colon :: used, rest, rfl, rfl, hused colon, hm⟩
    · exact absurd h₈ (run_unexpected_ne _ _ _)
  · exact absurd h₄ (run_unexpected_ne _ _ _)

/-- No second union without a name is read. -/
theorem sound_member? (hbody : Sound body IsBody) (hdecl : Sound decl (IsOptional IsDecl))
    (earlier : List Member) (hearlier : earlier.countP Member.isAnonymousUnion ≤ 1) :
    Sound (member? body decl earlier) (IsOptional fun used m =>
      IsMember used m ∧ (m :: earlier).countP Member.isAnonymousUnion ≤ 1) := by
  intro l stop bound o s' h
  obtain ⟨first, s₁, h₁, h₂⟩ := run_bind_ok.1 h
  obtain ⟨rfl, rfl⟩ : nextToken l = first ∧ _ = s₁ := by simpa using h₁
  split at h₂
  · obtain ⟨rfl, rfl⟩ : none = o ∧ _ = s' := by simpa using h₂
    exact ⟨[], l, rfl, rfl, .none⟩
  · obtain ⟨m, h₃, rfl⟩ := run_map_ok.1 h₂
    obtain ⟨used, rest, rfl, rfl, hm, hanonymous, hnone⟩ := sound_anonymousUnion hbody earlier h₃
    have hzero : earlier.countP Member.isAnonymousUnion = 0 := by
      simpa [List.countP_eq_zero] using hnone
    exact ⟨used, rest, rfl, rfl, .some ⟨hm, by simp [hanonymous, hzero]⟩⟩
  · obtain ⟨m, h₃, rfl⟩ := run_map_ok.1 h₂
    obtain ⟨used, rest, rfl, rfl, hm, hnamed⟩ := sound_namedMember hbody h₃
    exact ⟨used, rest, rfl, rfl, .some ⟨hm, by simpa [hnamed] using hearlier⟩⟩
  · obtain ⟨d, s₃, h₃, h₄⟩ := run_bind_ok.1 h₂
    obtain ⟨used, rest, rfl, rfl, hd⟩ := hdecl h₃
    cases hd with
    | none => exact absurd h₄ (run_unexpected_ne _ _ _)
    | @some _ d hd =>
      obtain ⟨rfl, rfl⟩ : some (Member.decl d) = o ∧ _ = s' := by simpa using h₄
      exact ⟨used, rest, rfl, rfl, .some ⟨.decl hd, hearlier⟩⟩
  · exact absurd h₂ (run_unexpected_ne _ _ _)

theorem sound_members (hbody : Sound body IsBody) (hdecl : Sound decl (IsOptional IsDecl)) :
    Sound (members body decl) IsBody := by
  intro l stop bound r s' h
  obtain ⟨opening, s₁, h₁, h₂⟩ := run_bind_ok.1 h
  obtain ⟨l, rfl, rfl⟩ := mark_ok h₁
  obtain ⟨ms, s₂, h₃, h₄⟩ := run_bind_ok.1 h₂
  obtain ⟨used, l, rfl, rfl, hms, hsingle⟩ := sound_manyGiven
    (k := fun ms => ms.countP Member.isAnonymousUnion ≤ 1) (sound_member? hbody hdecl)
    (by simp) h₃
  obtain ⟨closing, s₃, h₅, h₆⟩ := run_bind_ok.1 h₄
  obtain ⟨rest, rfl, rfl⟩ := mark_ok h₅
  obtain ⟨rfl, rfl⟩ : (ms, closing) = r ∧ _ = s' := by simpa using h₆
  exact ⟨_, rest, by simp, rfl, .mk opening closing hms (by simpa using hsingle)⟩

theorem sound_interfaceMember? (hdecl : Sound decl (IsOptional IsDecl)) :
    Sound (interfaceMember? decl) (IsOptional IsInterfaceMember) := by
  intro l stop bound o s' h
  obtain ⟨first, s₁, h₁, h₂⟩ := run_bind_ok.1 h
  obtain ⟨rfl, rfl⟩ : nextToken l = first ∧ _ = s₁ := by simpa using h₁
  split at h₂
  · obtain ⟨rfl, rfl⟩ : none = o ∧ _ = s' := by simpa using h₂
    exact ⟨[], l, rfl, rfl, .none⟩
  · obtain ⟨_, h₃, rfl⟩ := run_map_ok.1 h₂
    obtain ⟨m, h₄, rfl⟩ := run_map_ok.1 h₃
    obtain ⟨used, rest, rfl, rfl, hm⟩ := sound_method h₄
    exact ⟨used, rest, rfl, rfl, .some (.method hm)⟩
  · obtain ⟨d, s₃, h₃, h₄⟩ := run_bind_ok.1 h₂
    obtain ⟨used, rest, rfl, rfl, hd⟩ := hdecl h₃
    cases hd with
    | none => exact absurd h₄ (run_unexpected_ne _ _ _)
    | @some _ d hd =>
      obtain ⟨rfl, rfl⟩ : some (InterfaceMember.decl d) = o ∧ _ = s' := by simpa using h₄
      exact ⟨used, rest, rfl, rfl, .some (.decl hd)⟩
  · exact absurd h₂ (run_unexpected_ne _ _ _)

theorem sound_interfaceDecl (hdecl : Sound decl (IsOptional IsDecl)) :
    Sound (interfaceDecl decl) IsDecl := by
  intro l stop bound d s' h
  obtain ⟨start, s₁, h₁, h₂⟩ := run_bind_ok.1 h
  obtain ⟨l, rfl, rfl⟩ := keyword_ok h₁
  obtain ⟨name, s₂, h₃, h₄⟩ := run_bind_ok.1 h₂
  obtain ⟨l, rfl, rfl⟩ := ident_ok h₃
  obtain ⟨types, s₃, h₅, h₆⟩ := run_bind_ok.1 h₄
  obtain ⟨bs, l, rfl, rfl, htypes⟩ := sound_bases h₅
  obtain ⟨applied, s₄, h₇, h₈⟩ := run_bind_ok.1 h₆
  obtain ⟨as, l, rfl, rfl, happlied⟩ := sound_applications h₇
  obtain ⟨opening, s₅, h₉, h₁₀⟩ := run_bind_ok.1 h₈
  obtain ⟨l, rfl, rfl⟩ := mark_ok h₉
  obtain ⟨ms, s₆, h₁₁, h₁₂⟩ := run_bind_ok.1 h₁₀
  obtain ⟨used, l, rfl, rfl, hms⟩ := sound_many (sound_interfaceMember? hdecl) h₁₁
  obtain ⟨closing, s₇, h₁₃, h₁₄⟩ := run_bind_ok.1 h₁₂
  obtain ⟨rest, rfl, rfl⟩ := mark_ok h₁₃
  obtain ⟨rfl, rfl⟩ : _ = d ∧ _ = s' := by simpa using h₁₄
  exact ⟨_, rest, by simp, rfl, .interface start opening closing name htypes happlied hms⟩

theorem sound_structDecl (hbody : Sound body IsBody) : Sound (structDecl body) IsDecl := by
  intro l stop bound d s' h
  obtain ⟨start, s₁, h₁, h₂⟩ := run_bind_ok.1 h
  obtain ⟨l, rfl, rfl⟩ := keyword_ok h₁
  obtain ⟨name, s₂, h₃, h₄⟩ := run_bind_ok.1 h₂
  obtain ⟨l, rfl, rfl⟩ := ident_ok h₃
  obtain ⟨applied, s₃, h₅, h₆⟩ := run_bind_ok.1 h₄
  obtain ⟨as, l, rfl, rfl, happlied⟩ := sound_applications h₅
  obtain ⟨⟨ms, closing⟩, s₄, h₇, h₈⟩ := run_bind_ok.1 h₆
  obtain ⟨bs, rest, rfl, rfl, hms⟩ := hbody h₇
  obtain ⟨rfl, rfl⟩ : _ = d ∧ _ = s' := by simpa using h₈
  exact ⟨_, rest, by simp, rfl, .struct start name happlied hms⟩

/-- What one of the declarations reads is a declaration if it is there. -/
theorem sound_someDecl {p : Parser Decl} (hp : Sound p IsDecl) :
    Sound (some <$> p) (IsOptional IsDecl) := by
  intro l stop bound o s' h
  obtain ⟨d, h₁, rfl⟩ := run_map_ok.1 h
  obtain ⟨used, rest, rfl, rfl, hd⟩ := hp h₁
  exact ⟨used, rest, rfl, rfl, .some hd⟩

theorem sound_declWith (hbody : Sound body IsBody) (hdecl : Sound decl (IsOptional IsDecl)) :
    Sound (declWith body decl) (IsOptional IsDecl) := by
  intro l stop bound o s' h
  obtain ⟨first, s₁, h₁, h₂⟩ := run_bind_ok.1 h
  obtain ⟨rfl, rfl⟩ : nextToken l = first ∧ _ = s₁ := by simpa using h₁
  split at h₂
  · exact sound_someDecl (sound_usingDecl.mono fun _ _ => .usingForm) h₂
  · exact sound_someDecl (sound_constDecl.mono fun _ _ ⟨_, e, h⟩ => e ▸ .const h) h₂
  · exact sound_someDecl (sound_structDecl hbody) h₂
  · exact sound_someDecl (sound_enumDecl.mono fun _ _ ⟨_, e, h⟩ => e ▸ .enum h) h₂
  · exact sound_someDecl (sound_interfaceDecl hdecl) h₂
  · exact sound_someDecl
      (sound_annotationDecl.mono fun _ _ ⟨_, e, h⟩ => e ▸ .annotationDecl h) h₂
  · obtain ⟨rfl, rfl⟩ : none = o ∧ _ = s' := by simpa using h₂
    exact ⟨[], l, rfl, rfl, .none⟩

end Bodies

/-! ## The knot -/

theorem sound_declWithin_and_membersWithin (bound : Nat) :
    Sound (declWithin bound) (IsOptional IsDecl) ∧ Sound (membersWithin bound) IsBody := by
  induction bound with
  | zero =>
    refine ⟨fun l stop bound o s' h => ?_, sound_unexpected _ _⟩
    obtain ⟨rfl, rfl⟩ : none = o ∧ _ = s' := by simpa [declWithin] using h
    exact ⟨[], l, rfl, rfl, .none⟩
  | succ bound ih => exact ⟨sound_declWith ih.2 ih.1, sound_members ih.2 ih.1⟩

theorem sound_decl : Sound decl (IsOptional IsDecl) := by
  intro l stop bound o s' h
  obtain ⟨n, s₁, h₁, h₂⟩ := run_bind_ok.1 h
  obtain ⟨rfl, rfl⟩ : bound = n ∧ _ = s₁ := by simpa using h₁
  exact (sound_declWithin_and_membersWithin _).1 h₂

/-! ## Files -/

theorem sound_fileId : Sound fileId fun used id => ∃ s n start number semicolon,
    used = [.mark .atSign start, .number s number, .mark .semicolon semicolon] ∧
      (NumericType.int ⟨false, .w64⟩).decode s.toList = .ok (.int n) ∧
      id = ⟨start.cover semicolon, n.toNat⟩ := by
  intro l stop bound id s' h
  obtain ⟨o, s₁, h₁, h₂⟩ := run_bind_ok.1 h
  rcases accept?_ok h₁ with ⟨start, l, rfl, rfl, rfl⟩ | ⟨rfl, -, rfl⟩
  · obtain ⟨⟨span, value⟩, s₂, h₃, h₄⟩ := run_bind_ok.1 h₂
    obtain ⟨s, n, l, hn, rfl, rfl, rfl⟩ := natural_ok h₃
    obtain ⟨semicolon, s₃, h₅, h₆⟩ := run_bind_ok.1 h₄
    obtain ⟨rest, rfl, rfl⟩ := mark_ok h₅
    obtain ⟨rfl, rfl⟩ : _ = id ∧ _ = s' := by simpa using h₆
    exact ⟨_, rest, rfl, rfl, s, n, start, span, semicolon, rfl, hn, rfl⟩
  · obtain ⟨span, s₂, h₃, h₄⟩ := run_bind_ok.1 h₂
    simp [run_fail] at h₄

theorem sound_fileItem? : Sound fileItem? (IsOptional IsFileItem) := by
  intro l stop bound o s' h
  obtain ⟨first, s₁, h₁, h₂⟩ := run_bind_ok.1 h
  obtain ⟨rfl, rfl⟩ : nextToken l = first ∧ _ = s₁ := by simpa using h₁
  split at h₂
  · obtain ⟨rfl, rfl⟩ : none = o ∧ _ = s' := by simpa using h₂
    exact ⟨[], l, rfl, rfl, .none⟩
  · obtain ⟨a, s₂, h₃, h₄⟩ := run_bind_ok.1 h₂
    obtain ⟨used, l, rfl, rfl, ha⟩ := sound_application h₃
    obtain ⟨semicolon, s₃, h₅, h₆⟩ := run_bind_ok.1 h₄
    obtain ⟨rest, rfl, rfl⟩ := mark_ok h₅
    obtain ⟨rfl, rfl⟩ : _ = o ∧ _ = s' := by simpa using h₆
    exact ⟨_, rest, by simp, rfl, .some (.application semicolon ha)⟩
  · obtain ⟨span, s₂, h₃, h₄⟩ := run_bind_ok.1 h₂
    simp [run_fail] at h₄
  · obtain ⟨d, s₂, h₃, h₄⟩ := run_bind_ok.1 h₂
    obtain ⟨used, rest, rfl, rfl, hd⟩ := sound_decl h₃
    cases hd with
    | none => exact absurd h₄ (run_unexpected_ne _ _ _)
    | @some _ d hd =>
      obtain ⟨rfl, rfl⟩ : some (Sum.inr d) = o ∧ _ = s' := by simpa using h₄
      exact ⟨used, rest, rfl, rfl, .some (.decl hd)⟩

/-- Only the end of the file ends the items of a file. -/
theorem fileItem?_none {l : List Lexeme} {stop bound : Nat} {s' : Stream}
    (h : fileItem?.run ⟨l, stop, bound⟩ = .ok (none, s')) : l = [] := by
  obtain ⟨first, s₁, h₁, h₂⟩ := run_bind_ok.1 h
  obtain ⟨rfl, rfl⟩ : nextToken l = first ∧ _ = s₁ := by simpa using h₁
  split at h₂
  · next hl => simpa [nextToken] using hl
  · obtain ⟨a, s₂, h₃, h₄⟩ := run_bind_ok.1 h₂
    obtain ⟨semicolon, s₃, h₅, h₆⟩ := run_bind_ok.1 h₄
    simp at h₆
  · obtain ⟨span, s₂, h₃, h₄⟩ := run_bind_ok.1 h₂
    simp [run_fail] at h₄
  · obtain ⟨d, s₂, h₃, h₄⟩ := run_bind_ok.1 h₂
    cases d with
    | none => exact absurd h₄ (run_unexpected_ne _ _ _)
    | some d => simp at h₄

end Parser

/-- A file that is read is one of the grammar, and all of it. -/
theorem isModule_of_ofLexemes {ls : List Lexeme} {stop : Nat} {m : Module}
    (h : Module.ofLexemes ls stop = .ok m) : IsModule ls m := by
  obtain ⟨⟨m', s'⟩, hfile, rfl⟩ := map_eq_ok.1 h
  obtain ⟨id, s₁, h₁, h₂⟩ := Parser.run_bind_ok.1 hfile
  obtain ⟨_, l, rfl, rfl, s, n, start, number, semicolon, rfl, hn, rfl⟩ := Parser.sound_fileId h₁
  obtain ⟨items, s₂, h₃, h₄⟩ := Parser.run_bind_ok.1 h₂
  have hstops := Parser.many_stops Parser.sound_fileItem? (fun _ _ => IsFileItem.ne_nil)
    (by simp only [List.length_append]; omega) h₃
  obtain ⟨used, rest, rfl, rfl, hitems⟩ := Parser.sound_many Parser.sound_fileItem? h₃
  obtain rfl := Parser.fileItem?_none hstops
  obtain ⟨rfl, -⟩ : _ = m' ∧ _ = s' := by simpa using h₄
  simpa using IsModule.mk start number semicolon hn hitems

end SchemaLang
