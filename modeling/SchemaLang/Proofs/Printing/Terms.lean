import SchemaLang.Proofs.Grammar.Completeness
import SchemaLang.Proofs.Numerals
import SchemaLang.Proofs.Printing.Erasure
import SchemaLang.Proofs.Printing.Lexing

/-!
# Printed names, types, literals and annotations

`Prints r erase a l` says that the layout `l` is readable and that its tokens are, wherever they
stand, those of a phrase of `r` whose node is `a` up to spans.  Every part of a tree that was read
from the lexemes of a source is printed in this sense.
-/

namespace SchemaLang

open Grammar

/-! ## Layouts piece by piece -/

namespace Layout

/-- The layout does not begin with a word. -/
def NoWord (l : Layout) : Prop := ∀ p ∈ l.head?, ¬ isWord p

theorem Apart.noWord {l : Layout} (h : Apart l) : NoWord l := fun p hp => (h p hp).1

@[simp] theorem apart_space (l : Layout) : Apart (.space :: l) := by
  intro p hp
  obtain rfl := Option.some.inj hp
  exact ⟨by decide, nofun, nofun, nofun⟩

@[simp] theorem apart_line (depth : Nat) (l : Layout) : Apart (.line depth :: l) := by
  intro p hp
  obtain rfl := Option.some.inj hp
  exact ⟨fun h => by simp [isWord] at h, nofun, nofun, nofun⟩

theorem apart_mark {m : Mark} (h : m ∉ [Mark.dot, .minus, .arrow]) (l : Layout) :
    Apart (mark m :: l) := by
  intro p hp
  obtain rfl := Option.some.inj hp
  refine ⟨fun h => by simp [isWord, mark] at h, ?_, ?_, ?_⟩ <;>
    · rintro e
      obtain rfl := Token.mark.inj (Piece.token.inj e)
      simp at h

@[simp] theorem noWord_mark (m : Mark) (l : Layout) : NoWord (mark m :: l) := by
  intro p hp
  obtain rfl := Option.some.inj hp
  simp [isWord, mark]

@[simp] theorem noWord_space (l : Layout) : NoWord (.space :: l) := (apart_space l).noWord

theorem readable_append (next l l' : Layout) :
    Readable next (l ++ l') ↔ Readable (l' ++ next) l ∧ Readable next l' := by
  induction l with
  | nil => simp [Readable]
  | cons p l ih =>
    cases p with
    | token t => simp only [List.cons_append, Readable, ih, List.append_assoc, and_assoc]
    | space => exact ih
    | line depth => exact ih

@[simp] theorem readable_nil (next : Layout) : Readable next [] := trivial

@[simp] theorem readable_space (next l : Layout) :
    Readable next (.space :: l) ↔ Readable next l := Iff.rfl

@[simp] theorem readable_line (next l : Layout) (depth : Nat) :
    Readable next (.line depth :: l) ↔ Readable next l := Iff.rfl

@[simp] theorem readable_mark (next l : Layout) (m : Mark) :
    Readable next (mark m :: l) ↔ Readable next l := by
  simp [mark, Readable, Precedes, Token.WellFormed]

@[simp] theorem readable_word (next l : Layout) (k : Keyword) :
    Readable next (word k :: l) ↔ NoWord (l ++ next) ∧ Readable next l := by
  simp [word, Readable, Precedes, Token.WellFormed, NoWord]

@[simp] theorem readable_name (next l : Layout) (s : String) :
    Readable next (name s :: l) ↔ IsName s ∧ NoWord (l ++ next) ∧ Readable next l := by
  simp [name, Readable, Precedes, Token.WellFormed, NoWord]

@[simp] theorem readable_quoted (next l : Layout) (s : String) :
    Readable next (quoted s :: l) ↔ Readable next l :=
  ⟨fun h => h.2.2, fun h => ⟨⟨_, rfl⟩, trivial, h⟩⟩

@[simp] theorem readable_number (next l : Layout) (s : String) :
    Readable next (.token (.number s) :: l) ↔ IsNumber s ∧ Apart (l ++ next) ∧ Readable next l :=
  Iff.rfl

@[simp] theorem tokens_nil : tokens [] = [] := rfl

@[simp] theorem tokens_append (l l' : Layout) : tokens (l ++ l') = tokens l ++ tokens l' :=
  List.filterMap_append

@[simp] theorem tokens_token (t : Token) (l : Layout) : tokens (.token t :: l) = t :: tokens l :=
  rfl

@[simp] theorem tokens_space (l : Layout) : tokens (.space :: l) = tokens l := rfl

@[simp] theorem tokens_line (depth : Nat) (l : Layout) : tokens (.line depth :: l) = tokens l := rfl

@[simp] theorem tokens_mark (m : Mark) (l : Layout) : tokens (mark m :: l) = .mark m :: tokens l :=
  rfl

@[simp] theorem tokens_word (k : Keyword) (l : Layout) :
    tokens (word k :: l) = .keyword k :: tokens l := rfl

@[simp] theorem tokens_name (s : String) (l : Layout) :
    tokens (name s :: l) = .name s :: tokens l := rfl

@[simp] theorem tokens_quoted (s : String) (l : Layout) :
    tokens (quoted s :: l) = .text (String.ofList (Escape.encode s.toList)) :: tokens l := rfl

end Layout

open Layout

/-! ## Lexemes of tokens -/

/-- The names and numbers among the lexemes are ones that the lexer gives. -/
def Genuine (ls : List Lexeme) : Prop := ∀ x ∈ ls, x.token.IsGenuine

@[simp] theorem genuine_nil : Genuine [] := fun _ h => by simp at h

@[simp] theorem genuine_cons (x : Lexeme) (ls : List Lexeme) :
    Genuine (x :: ls) ↔ x.token.IsGenuine ∧ Genuine ls := List.forall_mem_cons

@[simp] theorem genuine_append (ls ls' : List Lexeme) :
    Genuine (ls ++ ls') ↔ Genuine ls ∧ Genuine ls' := List.forall_mem_append

theorem isName_of_isGenuine {i : Ident} (h : i.lexeme.token.IsGenuine) : IsName i.name := h.1 _ rfl

theorem map_token_eq_cons {ls : List Lexeme} {t : Token} {ts : List Token} :
    ls.map Lexeme.token = t :: ts ↔
      ∃ span rest, ls = ⟨t, span⟩ :: rest ∧ rest.map Lexeme.token = ts := by
  rw [List.map_eq_cons_iff]
  constructor
  · rintro ⟨x, rest, rfl, rfl, rfl⟩
    exact ⟨x.span, rest, rfl, rfl⟩
  · rintro ⟨span, rest, rfl, rfl⟩
    exact ⟨⟨t, span⟩, rest, rfl, rfl, rfl⟩

/-- The layout is readable, and its tokens are those of a phrase for `a`, up to spans. -/
structure Prints {α β : Type} (r : Phrases α) (erase : α → β) (a : α) (l : Layout) : Prop where
  readable : ∀ next, Apart next → Readable next l
  derives : ∀ ls, ls.map Lexeme.token = l.tokens → ∃ a', r ls a' ∧ erase a' = erase a

/-- What is printed for a phrase is printed for every other phrase that its tokens make up. -/
theorem Prints.imp {α β γ δ : Type} {r : Phrases α} {erase : α → β} {a : α} {s : Phrases γ}
    {erase' : γ → δ} {c : γ} {l : Layout} (h : Prints r erase a l)
    (hs : ∀ ls a', r ls a' → erase a' = erase a → ∃ c', s ls c' ∧ erase' c' = erase' c) :
    Prints s erase' c l := by
  refine ⟨h.readable, fun ls hls => ?_⟩
  obtain ⟨a', ha, e⟩ := h.derives ls hls
  exact hs ls a' ha e

/-! ## Names and numbers -/

theorem noWord_dotted (segments : List Ident) {next : Layout} (h : Apart next) :
    NoWord (dotted segments ++ next) := by
  cases segments with
  | nil => exact h.noWord
  | cons => exact noWord_mark _ _

theorem prints_dotted {ls : List Lexeme} {segments : List Ident} (h : IsMany IsSegment ls segments)
    (hg : Genuine ls) :
    Prints (IsMany IsSegment) (List.map Ident.eraseSpans) segments (dotted segments) := by
  induction h with
  | nil =>
    refine ⟨fun _ _ => trivial, fun ls hls => ?_⟩
    obtain rfl := List.map_eq_nil_iff.1 hls
    exact ⟨[], .nil, rfl⟩
  | @cons _ _ i segments hi hsegments ih =>
    obtain ⟨dot, i⟩ := hi
    simp only [genuine_append, genuine_cons] at hg
    obtain ⟨hread, hderives⟩ := ih hg.2
    refine ⟨fun next hnext => ?_, fun ls hls => ?_⟩
    · simp only [dotted, List.flatMap_cons, List.cons_append, List.nil_append, readable_mark,
        readable_name]
      exact ⟨isName_of_isGenuine hg.1.2.1, noWord_dotted segments hnext, hread next hnext⟩
    · simp only [dotted, List.flatMap_cons, List.cons_append, List.nil_append, tokens_mark,
        tokens_name, map_token_eq_cons] at hls
      obtain ⟨dot, _, rfl, span, rest, rfl, hrest⟩ := hls
      obtain ⟨segments', h, e⟩ := hderives rest hrest
      exact ⟨⟨span, i.name⟩ :: segments', .cons (.mk dot ⟨span, i.name⟩) h, by
        rw [List.map_cons, List.map_cons, e]
        rfl⟩

theorem prints_path {ls : List Lexeme} {p : Path} (h : IsPath ls p) (hg : Genuine ls) :
    Prints IsPath Path.eraseSpans p (path p) := by
  obtain @⟨_, segments, first, tail⟩ := h
  rw [genuine_cons] at hg
  obtain ⟨hread, hderives⟩ := prints_dotted tail hg.2
  refine ⟨fun next hnext => ?_, fun ls hls => ?_⟩
  · simp only [path, readable_name]
    exact ⟨isName_of_isGenuine hg.1, noWord_dotted segments hnext, hread next hnext⟩
  · simp only [path, tokens_name, map_token_eq_cons] at hls
    obtain ⟨span, rest, rfl, hrest⟩ := hls
    obtain ⟨segments', h, e⟩ := hderives rest hrest
    refine ⟨_, .mk ⟨span, first.name⟩ h, ?_⟩
    simp only [Path.eraseSpans, List.map_cons, e]
    rfl

/-- The written form of a text is decoded as the text. -/
theorem decode_quoted {s : String} :
    Escape.decode (String.ofList (Escape.encode s.toList)).toList = .ok s.toList := by
  rw [String.toList_ofList, decode_encode]

theorem prints_importTarget {ls : List Lexeme} {start : Span} {source : ImportPath}
    {segments : List Ident} (h : IsImport ls (start, source, segments)) (hg : Genuine ls) :
    Prints IsImport (fun t => (t.2.1.eraseSpans, t.2.2.map Ident.eraseSpans))
      (start, source, segments) (importTarget source segments) := by
  obtain ⟨start, file, decoded, tail⟩ := h
  simp only [genuine_cons] at hg
  obtain ⟨hread, hderives⟩ := prints_dotted tail hg.2.2
  refine ⟨fun next hnext => ?_, fun ls hls => ?_⟩
  · simp only [importTarget, List.cons_append, List.nil_append, readable_word, readable_space,
      readable_quoted]
    exact ⟨noWord_space _, hread next hnext⟩
  · simp only [importTarget, List.cons_append, List.nil_append, tokens_word, tokens_space,
      tokens_quoted, map_token_eq_cons] at hls
    obtain ⟨start', _, rfl, file', rest, rfl, hrest⟩ := hls
    obtain ⟨segments', h, e⟩ := hderives rest hrest
    refine ⟨_, .mk start' file' decode_quoted h, ?_⟩
    simp only [ImportPath.eraseSpans, String.ofList_toList, e]

theorem prints_ordinal {ls : List Lexeme} {o : Ordinal} (h : IsOrdinal ls o) :
    Prints IsOrdinal Ordinal.eraseSpans o (ordinal o) := by
  obtain @⟨s, n, start, number, decoded⟩ := h
  have hvalue := (holds_of_decode decoded).toNat rfl
  refine ⟨fun next hnext => ?_, fun ls hls => ?_⟩
  · simp only [ordinal, readable_mark, readable_number]
    exact ⟨isNumber_toString _, hnext, trivial⟩
  · simp only [ordinal, tokens_mark, tokens_token, tokens_nil, map_token_eq_cons,
      List.map_eq_nil_iff] at hls
    obtain ⟨start', _, rfl, number', _, rfl, rfl⟩ := hls
    have hdecode : (NumericType.int ⟨false, .w16⟩).decode (toString n.toNat).toList =
        .ok (.int n) := by
      rw [show (toString n.toNat).toList = Nat.toDigits 10 n.toNat from Nat.toList_repr,
        decode_toDigits hvalue.1, hvalue.2]
    exact ⟨_, .mk start' number' hdecode, rfl⟩

/-! ## Types -/

theorem prints_type {ls : List Lexeme} {t : TypeRef} (h : IsType ls t) (hg : Genuine ls) :
    Prints IsType TypeRef.eraseSpans t (type t) := by
  induction h with
  | named path =>
    exact (prints_path path hg).imp fun _ p' h e =>
      ⟨.named p', .named h, congrArg TypeRef.named e⟩
  | list list opening closing element ih =>
    simp only [genuine_cons, genuine_append] at hg
    obtain ⟨hread, hderives⟩ := ih hg.2.2.1
    refine ⟨fun next hnext => ?_, fun ls hls => ?_⟩
    · simp only [type, List.cons_append, List.nil_append, readable_name, readable_mark,
        readable_append, readable_nil, and_true]
      exact ⟨isName_of_isGenuine hg.1, noWord_mark _ _, hread _ (apart_mark (by decide) _)⟩
    · simp only [type, List.cons_append, List.nil_append, tokens_name, tokens_mark, tokens_append,
        tokens_nil, map_token_eq_cons, List.map_eq_append_iff, List.map_eq_nil_iff] at hls
      obtain ⟨list', _, rfl, opening', _, rfl, inner, _, rfl, hinner, closing', _, rfl, rfl⟩ := hls
      obtain ⟨element', h, e⟩ := hderives inner hinner
      exact ⟨_, .list list' opening' closing' h, congrArg (TypeRef.list _) e⟩
  | imported target =>
    refine (prints_importTarget target hg).imp ?_
    rintro _ ⟨start, source, segments⟩ h e
    obtain ⟨esource, esegments⟩ := Prod.mk.inj e
    exact ⟨_, .imported h, by simp only [TypeRef.eraseSpans] at *; rw [esource, esegments]⟩

/-! ## Sequences -/

section Sequences

variable {α β : Type} {item : Phrases α} {erase : α → β} {lay : α → Layout}

theorem Grammar.IsMany.forall_genuine {ls : List Lexeme} {as : List α} (h : IsMany item ls as)
    (hg : Genuine ls) : ∀ a ∈ as, ∃ ls, item ls a ∧ Genuine ls := by
  induction h with
  | nil => exact fun _ ha => absurd ha (by simp)
  | cons ha _ ih =>
    rw [genuine_append] at hg
    exact List.forall_mem_cons.2 ⟨⟨_, ha, hg.1⟩, ih hg.2⟩

theorem Grammar.IsSeparated.forall_genuine {ls : List Lexeme} {as : List α}
    (h : IsSeparated item ls as) (hg : Genuine ls) : ∀ a ∈ as, ∃ ls, item ls a ∧ Genuine ls := by
  induction h with
  | last ha => exact List.forall_mem_singleton.2 ⟨_, ha, hg⟩
  | cons comma ha _ ih =>
    rw [genuine_append, genuine_cons] at hg
    exact List.forall_mem_cons.2 ⟨⟨_, ha, hg.1⟩, ih hg.2.2⟩

theorem Grammar.IsSeparated.ne_nil {ls : List Lexeme} {as : List α} (h : IsSeparated item ls as) :
    as ≠ [] := by
  cases h <;> simp

theorem Grammar.IsListed.forall_genuine {ls : List Lexeme} {as : List α} (h : IsListed item ls as)
    (hg : Genuine ls) : ∀ a ∈ as, ∃ ls, item ls a ∧ Genuine ls := by
  induction h with
  | nil => exact fun _ ha => absurd ha (by simp)
  | last ha => exact List.forall_mem_singleton.2 ⟨_, ha, hg⟩
  | cons comma ha _ ih =>
    rw [genuine_append, genuine_cons] at hg
    exact List.forall_mem_cons.2 ⟨⟨_, ha, hg.1⟩, ih hg.2.2⟩

theorem isListed_of_isSeparated {ls : List Lexeme} {as : List α} (h : IsSeparated item ls as) :
    IsListed item ls as := by
  induction h with
  | last ha => exact .last ha
  | cons comma ha _ ih => exact .cons comma ha ih

theorem commaList_cons_cons (l l' : Layout) (ls : List Layout) :
    commaList (l :: l' :: ls) = l ++ mark .comma :: .space :: commaList (l' :: ls) := by
  simp [commaList, List.intercalate]

theorem commaList_singleton (l : Layout) : commaList [l] = l := by
  simp [commaList, List.intercalate]

/-- Items with commas between them are printed if each of them is. -/
theorem prints_separated {as : List α} (hne : as ≠ [])
    (h : ∀ a ∈ as, Prints item erase a (lay a)) :
    Prints (IsSeparated item) (List.map erase) as (commaList (as.map lay)) := by
  induction as with
  | nil => exact absurd rfl hne
  | cons a as ih =>
    obtain ⟨ha, has⟩ := List.forall_mem_cons.1 h
    cases as with
    | nil =>
      rw [List.map_singleton, commaList_singleton]
      refine ⟨ha.readable, fun ls hls => ?_⟩
      obtain ⟨a', h, e⟩ := ha.derives ls hls
      exact ⟨[a'], .last h, by rw [List.map_singleton, e, List.map_singleton]⟩
    | cons b as =>
      obtain ⟨hread, hderives⟩ := ih (List.cons_ne_nil _ _) has
      rw [List.map_cons, List.map_cons, commaList_cons_cons, ← List.map_cons]
      refine ⟨fun next hnext => ?_, fun ls hls => ?_⟩
      · rw [readable_append, readable_mark, readable_space]
        exact ⟨ha.readable _ (apart_mark (by decide) _), hread next hnext⟩
      · simp only [tokens_append, tokens_mark, tokens_space, List.map_eq_append_iff,
          map_token_eq_cons] at hls
        obtain ⟨head, _, rfl, hhead, comma, tail, rfl, htail⟩ := hls
        obtain ⟨a', h, e⟩ := ha.derives head hhead
        obtain ⟨more, h', e'⟩ := hderives tail htail
        exact ⟨a' :: more, .cons comma h h', by rw [List.map_cons, e, e', ← List.map_cons]⟩

theorem prints_listed {as : List α} (h : ∀ a ∈ as, Prints item erase a (lay a)) :
    Prints (IsListed item) (List.map erase) as (commaList (as.map lay)) := by
  cases as with
  | nil =>
    refine ⟨fun _ _ => trivial, fun ls hls => ?_⟩
    obtain rfl := List.map_eq_nil_iff.1 hls
    exact ⟨[], .nil, rfl⟩
  | cons a as =>
    exact (prints_separated (List.cons_ne_nil a as) h).imp fun _ as' h e =>
      ⟨as', isListed_of_isSeparated h, e⟩

/-- Items that stand each after a space or a line end are printed if each of them is. -/
theorem prints_many {sep : Piece} (hsep : sep = .space ∨ ∃ depth, sep = .line depth)
    {as : List α} (h : ∀ a ∈ as, Prints item erase a (lay a)) :
    Prints (IsMany item) (List.map erase) as (as.flatMap fun a => sep :: lay a) := by
  have hapart (l : Layout) : Apart (sep :: l) := by
    rcases hsep with rfl | ⟨depth, rfl⟩ <;> simp
  have hread (next l : Layout) : Readable next (sep :: l) ↔ Readable next l := by
    rcases hsep with rfl | ⟨depth, rfl⟩ <;> rfl
  have htokens (l : Layout) : tokens (sep :: l) = tokens l := by
    rcases hsep with rfl | ⟨depth, rfl⟩ <;> rfl
  induction as with
  | nil =>
    refine ⟨fun _ _ => trivial, fun ls hls => ?_⟩
    obtain rfl := List.map_eq_nil_iff.1 hls
    exact ⟨[], .nil, rfl⟩
  | cons a as ih =>
    obtain ⟨ha, has⟩ := List.forall_mem_cons.1 h
    obtain ⟨hmore, hderives⟩ := ih has
    rw [List.flatMap_cons]
    refine ⟨fun next hnext => ?_, fun ls hls => ?_⟩
    · rw [readable_append, hread]
      refine ⟨ha.readable _ ?_, hmore next hnext⟩
      cases as with
      | nil => exact hnext
      | cons b as => exact hapart _
    · simp only [tokens_append, htokens, List.map_eq_append_iff] at hls
      obtain ⟨head, tail, rfl, hhead, htail⟩ := hls
      obtain ⟨a', h, e⟩ := ha.derives head hhead
      obtain ⟨more, h', e'⟩ := hderives tail htail
      exact ⟨a' :: more, .cons h h', by rw [List.map_cons, e, e', List.map_cons]⟩

end Sequences

/-! ## Literals -/

theorem literal_of_isNumeral {span : Span} {s : String} {l : Literal} (h : IsNumeral span s l) :
    literal l = numeral s := by
  cases h <;> rw [literal]

/-- A numeral means the same literal wherever it stands. -/
theorem Grammar.IsNumeral.exists_eraseSpans_eq {span : Span} {s : String} {l : Literal}
    (h : IsNumeral span s l) (span' : Span) :
    ∃ l', IsNumeral span' s l' ∧ l'.eraseSpans = l.eraseSpans := by
  cases h with
  | int shape decoded => exact ⟨_, .int shape decoded, rfl⟩
  | float shape decoded => exact ⟨_, .float shape decoded, rfl⟩

theorem numeral_of_isNumber {s : String} (h : IsNumber s) : numeral s = [.token (.number s)] := by
  obtain ⟨c, cs, hs, hc, -⟩ := h
  unfold numeral
  split
  · next heq =>
    rw [hs] at heq
    obtain ⟨rfl, -⟩ := List.cons.inj heq
    exact absurd hc (by decide)
  · rfl

theorem numeral_minus (s : String) :
    numeral ("-" ++ s) = [mark .minus, .token (.number s)] := by
  simp [numeral]

theorem prints_number {span : Span} {s : String} {l : Literal} (h : IsNumeral span s l)
    (hs : IsNumber s) : Prints IsLiteral Literal.eraseSpans l (literal l) := by
  rw [literal_of_isNumeral h, numeral_of_isNumber hs]
  refine ⟨fun next hnext => ⟨hs, hnext, trivial⟩, fun ls hls => ?_⟩
  simp only [tokens_token, tokens_nil, map_token_eq_cons, List.map_eq_nil_iff] at hls
  obtain ⟨span', _, rfl, rfl⟩ := hls
  obtain ⟨l', h, e⟩ := h.exists_eraseSpans_eq span'
  exact ⟨l', .number span' h, e⟩

theorem prints_negative {span : Span} {s : String} {l : Literal} (h : IsNumeral span ("-" ++ s) l)
    (hs : IsNumber s) : Prints IsLiteral Literal.eraseSpans l (literal l) := by
  rw [literal_of_isNumeral h, numeral_minus]
  refine ⟨fun next hnext => ⟨trivial, trivial, hs, hnext, trivial⟩, fun ls hls => ?_⟩
  simp only [tokens_mark, tokens_token, tokens_nil, map_token_eq_cons, List.map_eq_nil_iff] at hls
  obtain ⟨minus, _, rfl, number, _, rfl, rfl⟩ := hls
  obtain ⟨l', h, e⟩ := h.exists_eraseSpans_eq (minus.cover number)
  exact ⟨l', .negative minus number h, e⟩

/-- `name = value` for a field of a struct. -/
def fieldValue (f : Ident × Literal) : Layout :=
  [name f.1.name, .space, mark .equals, .space] ++ literal f.2

theorem literals_eq_map (items : List Literal) : literals items = items.map literal := by
  induction items with
  | nil => rfl
  | cons l ls ih => rw [literals, ih, List.map_cons]

theorem fieldValues_eq_map (fields : List (Ident × Literal)) :
    fieldValues fields = fields.map fieldValue := by
  induction fields with
  | nil => rfl
  | cons f fields ih => rw [fieldValues, ih, List.map_cons, fieldValue]

/-- A field is printed if its value is. -/
theorem prints_fieldValue {value : Phrases Literal} {i : Ident} {l : Literal} (hi : IsName i.name)
    (h : Prints value Literal.eraseSpans l (literal l)) :
    Prints (IsInit value) (fun f => (f.1.eraseSpans, f.2.eraseSpans)) (i, l)
      (fieldValue (i, l)) := by
  refine ⟨fun next hnext => ?_, fun ls hls => ?_⟩
  · simp only [fieldValue, List.cons_append, List.nil_append, readable_name, readable_space,
      readable_mark]
    exact ⟨hi, noWord_space _, h.readable next hnext⟩
  · simp only [fieldValue, List.cons_append, List.nil_append, tokens_name, tokens_space,
      tokens_mark, map_token_eq_cons] at hls
    obtain ⟨span, _, rfl, equals, rest, rfl, hrest⟩ := hls
    obtain ⟨l', h, e⟩ := h.derives rest hrest
    exact ⟨(⟨span, i.name⟩, l'), .mk ⟨span, i.name⟩ equals h, by rw [e]; rfl⟩

theorem prints_word {k : Keyword} {l : Literal} (hl : literal l = [word k])
    (h : ∀ span, ∃ l', IsLiteral [.word k span] l' ∧ l'.eraseSpans = l.eraseSpans) :
    Prints IsLiteral Literal.eraseSpans l (literal l) := by
  rw [hl]
  refine ⟨fun next hnext => ?_, fun ls hls => ?_⟩
  · simp only [readable_word, List.nil_append, readable_nil, and_true]
    exact hnext.noWord
  · simp only [tokens_word, tokens_nil, map_token_eq_cons, List.map_eq_nil_iff] at hls
    obtain ⟨span, _, rfl, rfl⟩ := hls
    exact h span

mutual

theorem prints_literal : ∀ (l : Literal) {ls : List Lexeme}, IsLiteral ls l → Genuine ls →
    Prints IsLiteral Literal.eraseSpans l (literal l)
  | .void _, _, _, _ => prints_word rfl fun span => ⟨_, .void span, rfl⟩
  | .bool _ true, _, _, _ => prints_word rfl fun span => ⟨_, .true span, rfl⟩
  | .bool _ false, _, _, _ => prints_word rfl fun span => ⟨_, .false span, rfl⟩
  | .int _ s, _, h, hg => by
    cases h with
    | number span h => exact prints_number h ((hg _ List.mem_cons_self).2 _ rfl)
    | negative minus number h =>
      simp only [genuine_cons] at hg
      exact prints_negative h (hg.2.1.2 _ rfl)
  | .float _ s, _, h, hg => by
    cases h with
    | number span h => exact prints_number h ((hg _ List.mem_cons_self).2 _ rfl)
    | negative minus number h =>
      simp only [genuine_cons] at hg
      exact prints_negative h (hg.2.1.2 _ rfl)
  | .text _ s, _, _, _ => by
    refine ⟨fun next hnext => ?_, fun ls hls => ?_⟩
    · simp only [literal, readable_quoted, readable_nil]
    · simp only [literal, tokens_quoted, tokens_nil, map_token_eq_cons, List.map_eq_nil_iff] at hls
      obtain ⟨span, _, rfl, rfl⟩ := hls
      exact ⟨_, .text span decode_quoted, by simp only [Literal.eraseSpans, String.ofList_toList]⟩
  | .name p, _, h, hg => by
    cases h with
    | number span h => cases h
    | negative minus number h => cases h
    | name path =>
      rw [literal]
      exact (prints_path path hg).imp fun _ p' h e => ⟨.name p', .name h, congrArg Literal.name e⟩
  | .list _ items, _, h, hg => by
    cases h with
    | number span h => cases h
    | negative minus number h => cases h
    | list opening closing body =>
      simp only [genuine_cons, genuine_append] at hg
      obtain ⟨hread, hderives⟩ :=
        prints_listed (prints_literals items (body.forall_genuine hg.2.1))
      rw [literal, literals_eq_map]
      refine ⟨fun next hnext => ?_, fun ls hls => ?_⟩
      · simp only [List.cons_append, List.nil_append, readable_mark, readable_append, readable_nil,
          and_true]
        exact hread _ (apart_mark (by decide) _)
      · simp only [List.cons_append, List.nil_append, tokens_mark, tokens_append, tokens_nil,
          map_token_eq_cons, List.map_eq_append_iff, List.map_eq_nil_iff] at hls
        obtain ⟨opening', _, rfl, inner, _, rfl, hinner, closing', _, rfl, rfl⟩ := hls
        obtain ⟨items', h, e⟩ := hderives inner hinner
        refine ⟨_, .list opening' closing' h, ?_⟩
        simp only [Literal.eraseSpans, eraseItems_eq_map, e]
  | .struct _ fields, _, h, hg => by
    cases h with
    | number span h => cases h
    | negative minus number h => cases h
    | struct opening closing body =>
      simp only [genuine_cons, genuine_append] at hg
      have hfields := prints_fields fields (body.forall_genuine hg.2.1)
      obtain ⟨hread, hderives⟩ :=
        prints_listed fun f hf => prints_fieldValue (hfields f hf).1 (hfields f hf).2
      rw [literal, fieldValues_eq_map]
      refine ⟨fun next hnext => ?_, fun ls hls => ?_⟩
      · simp only [List.cons_append, List.nil_append, readable_mark, readable_append, readable_nil,
          and_true]
        exact hread _ (apart_mark (by decide) _)
      · simp only [List.cons_append, List.nil_append, tokens_mark, tokens_append, tokens_nil,
          map_token_eq_cons, List.map_eq_append_iff, List.map_eq_nil_iff] at hls
        obtain ⟨opening', _, rfl, inner, _, rfl, hinner, closing', _, rfl, rfl⟩ := hls
        obtain ⟨fields', h, e⟩ := hderives inner hinner
        refine ⟨_, .struct opening' closing' h, ?_⟩
        simp only [Literal.eraseSpans, eraseFields_eq_map, e]

theorem prints_literals : ∀ items : List Literal,
    (∀ l ∈ items, ∃ ls, IsLiteral ls l ∧ Genuine ls) →
    ∀ l ∈ items, Prints IsLiteral Literal.eraseSpans l (literal l)
  | [], _ => fun _ hl => absurd hl (by simp)
  | l :: items, h => by
    obtain ⟨⟨ls, hl, hg⟩, hitems⟩ := List.forall_mem_cons.1 h
    exact List.forall_mem_cons.2 ⟨prints_literal l hl hg, prints_literals items hitems⟩

theorem prints_fields : ∀ fields : List (Ident × Literal),
    (∀ f ∈ fields, ∃ ls, IsInit IsLiteral ls f ∧ Genuine ls) →
    ∀ f ∈ fields, IsName f.1.name ∧ Prints IsLiteral Literal.eraseSpans f.2 (literal f.2)
  | [], _ => fun _ hf => absurd hf (by simp)
  | (i, l) :: fields, h => by
    obtain ⟨⟨ls, hf, hg⟩, hfields⟩ := List.forall_mem_cons.1 h
    obtain ⟨i, equals, hl⟩ := hf
    simp only [genuine_cons] at hg
    exact List.forall_mem_cons.2
      ⟨⟨isName_of_isGenuine hg.1, prints_literal l hl hg.2.2⟩, prints_fields fields hfields⟩

end

/-- A printed literal is nested as deep as the literal. -/
theorem prints_within {room : Nat} {ls : List Lexeme} {l : Literal}
    (h : Parser.IsWithin room ls l) (hg : Genuine ls) :
    Prints (Parser.IsWithin room) Literal.eraseSpans l (literal l) := by
  refine (prints_literal l h.1 hg).imp fun _ l' h' e => ⟨l', ⟨h', ?_⟩, e⟩
  rw [depth_eq_of_eraseSpans_eq e]
  exact h.2

theorem prints_shallow {ls : List Lexeme} {l : Literal} (h : IsShallow ls l) (hg : Genuine ls) :
    Prints IsShallow Literal.eraseSpans l (literal l) := prints_within h hg

theorem apart_default? (d : Option Literal) {next : Layout} (h : Apart next) :
    Apart (default? d ++ next) := by
  cases d with
  | none => exact h
  | some l => exact apart_space _

theorem prints_default? {ls : List Lexeme} {d : Option Literal} (h : IsDefault ls d)
    (hg : Genuine ls) : Prints IsDefault (Option.map Literal.eraseSpans) d (default? d) := by
  cases h with
  | none =>
    refine ⟨fun _ _ => trivial, fun ls hls => ?_⟩
    obtain rfl := List.map_eq_nil_iff.1 hls
    exact ⟨none, .none, rfl⟩
  | some equals value =>
    rw [genuine_cons] at hg
    obtain ⟨hread, hderives⟩ := prints_shallow value hg.2
    refine ⟨fun next hnext => ?_, fun ls hls => ?_⟩
    · simp only [default?, List.cons_append, List.nil_append, readable_space, readable_mark]
      exact hread next hnext
    · simp only [default?, List.cons_append, List.nil_append, tokens_space, tokens_mark,
        map_token_eq_cons] at hls
      obtain ⟨equals', rest, rfl, hrest⟩ := hls
      obtain ⟨l', h, e⟩ := hderives rest hrest
      exact ⟨some l', .some equals' h, congrArg some e⟩

/-! ## Annotations -/

/-- The parentheses after the name of an annotation, and its value. -/
def IsArgument : Phrases Literal := fun ls l => ∀ start names p, IsPath names p →
  ∃ span, IsApplication (.mark .dollar start :: (names ++ ls)) ⟨span, p, some l⟩

theorem prints_argument_void (span : Span) :
    Prints IsArgument Literal.eraseSpans (.void span) (argument (.void span)) := by
  refine ⟨fun next hnext => ?_, fun ls hls => ?_⟩
  · simp only [argument, readable_mark, readable_nil]
  · simp only [argument, tokens_mark, tokens_nil, map_token_eq_cons, List.map_eq_nil_iff] at hls
    obtain ⟨opening, _, rfl, closing, _, rfl, rfl⟩ := hls
    exact ⟨_, fun start names p h => ⟨_, .void start opening closing h⟩, rfl⟩

theorem prints_argument_fields (span : Span) {fields : List (Ident × Literal)} (hne : fields ≠ [])
    (h : ∀ f ∈ fields, IsName f.1.name ∧ Prints IsShallow Literal.eraseSpans f.2 (literal f.2)) :
    Prints IsArgument Literal.eraseSpans (.struct span fields)
      (argument (.struct span fields)) := by
  obtain ⟨hread, hderives⟩ :=
    prints_listed fun f hf => prints_fieldValue (h f hf).1 (h f hf).2
  have hlayout : argument (.struct span fields) =
      mark .openParen :: (commaList (fields.map fieldValue) ++ [mark .closeParen]) := by
    cases fields with
    | nil => exact absurd rfl hne
    | cons f fields => rw [argument, fieldValues_eq_map]; rfl
  rw [hlayout]
  refine ⟨fun next hnext => ?_, fun ls hls => ?_⟩
  · simp only [readable_mark, readable_append, readable_nil, and_true]
    exact hread _ (apart_mark (by decide) _)
  · simp only [tokens_mark, tokens_append, tokens_nil, map_token_eq_cons, List.map_eq_append_iff,
      List.map_eq_nil_iff] at hls
    obtain ⟨opening, _, rfl, inner, _, rfl, hinner, closing, _, rfl, rfl⟩ := hls
    obtain ⟨fields', h, e⟩ := hderives inner hinner
    have hne' : fields' ≠ [] := by
      rintro rfl
      exact hne (List.map_eq_nil_iff.1 e.symm)
    refine ⟨.struct (opening.cover closing) fields',
      fun start names p hp => ⟨_, .fields start opening closing hp h hne'⟩, ?_⟩
    simp only [Literal.eraseSpans, eraseFields_eq_map, e]

theorem prints_argument_value {l : Literal}
    (hl : argument l = [mark .openParen] ++ literal l ++ [mark .closeParen])
    (h : Prints IsShallow Literal.eraseSpans l (literal l)) :
    Prints IsArgument Literal.eraseSpans l (argument l) := by
  rw [hl]
  refine ⟨fun next hnext => ?_, fun ls hls => ?_⟩
  · simp only [List.cons_append, List.nil_append, readable_mark, readable_append, readable_nil,
      and_true]
    exact h.readable _ (apart_mark (by decide) _)
  · simp only [List.cons_append, List.nil_append, tokens_mark, tokens_append, tokens_nil,
      map_token_eq_cons, List.map_eq_append_iff, List.map_eq_nil_iff] at hls
    obtain ⟨opening, _, rfl, inner, _, rfl, hinner, closing, _, rfl, rfl⟩ := hls
    obtain ⟨l', h, e⟩ := h.derives inner hinner
    exact ⟨l', fun start names p hp => ⟨_, .value start opening closing hp h⟩, e⟩

/-- The void literal and the fields of a struct are printed without the parentheses of their own. -/
theorem prints_argument {ls : List Lexeme} {l : Literal} (h : IsShallow ls l) (hg : Genuine ls) :
    Prints IsArgument Literal.eraseSpans l (argument l) := by
  cases l with
  | void span => exact prints_argument_void span
  | struct span fields =>
    cases fields with
    | nil => exact prints_argument_value rfl (prints_shallow h hg)
    | cons f fields =>
      obtain ⟨h, hd⟩ := h
      cases h with
      | number span h => cases h
      | negative minus number h => cases h
      | struct opening closing body =>
        simp only [genuine_cons, genuine_append] at hg
        have hbody := Parser.isListed_init_within_iff.2 ⟨body, Nat.le_of_succ_le hd⟩
        refine prints_argument_fields _ (List.cons_ne_nil _ _) fun f hf => ?_
        obtain ⟨ls, hf, hg⟩ := hbody.forall_genuine hg.2.1 f hf
        obtain ⟨i, equals, hl⟩ := hf
        simp only [genuine_cons] at hg
        exact ⟨isName_of_isGenuine hg.1, prints_shallow hl hg.2.2⟩
  | _ => exact prints_argument_value rfl (prints_shallow h hg)

theorem prints_argument_of_isApplication {ls : List Lexeme} {span : Span} {p : Path} {l : Literal}
    (h : IsApplication ls ⟨span, p, some l⟩) (hg : Genuine ls) :
    Prints IsArgument Literal.eraseSpans l (argument l) := by
  cases h with
  | void start opening closing name => exact prints_argument_void _
  | fields start opening closing name inits nonempty =>
    simp only [genuine_cons, genuine_append] at hg
    refine prints_argument_fields _ nonempty fun f hf => ?_
    obtain ⟨ls, hf, hg⟩ := inits.forall_genuine hg.2.2.2.1 f hf
    obtain ⟨i, equals, hl⟩ := hf
    simp only [genuine_cons] at hg
    exact ⟨isName_of_isGenuine hg.1, prints_shallow hl hg.2.2⟩
  | value start opening closing name value =>
    simp only [genuine_cons, genuine_append] at hg
    exact prints_argument value hg.2.2.2.1

theorem apart_argument (l : Literal) (next : Layout) : Apart (argument l ++ next) := by
  unfold argument
  split <;> exact apart_mark (by decide) _

theorem prints_application {ls : List Lexeme} {a : Application} (h : IsApplication ls a)
    (hg : Genuine ls) : Prints IsApplication Application.eraseSpans a (application a) := by
  obtain ⟨span, p, value⟩ := a
  have hpath : Prints IsPath Path.eraseSpans p (path p) := by
    obtain ⟨names, hp, hnames⟩ : ∃ names, IsPath names p ∧ Genuine names := by
      cases h with
      | bare start name => exact ⟨_, name, ((genuine_cons _ _).1 hg).2⟩
      | void start opening closing name =>
        exact ⟨_, name, ((genuine_append _ _).1 ((genuine_cons _ _).1 hg).2).1⟩
      | fields start opening closing name =>
        exact ⟨_, name, ((genuine_append _ _).1 ((genuine_cons _ _).1 hg).2).1⟩
      | value start opening closing name =>
        exact ⟨_, name, ((genuine_append _ _).1 ((genuine_cons _ _).1 hg).2).1⟩
    exact prints_path hp hnames
  cases value with
  | none =>
    refine ⟨fun next hnext => ?_, fun ls hls => ?_⟩
    · simp only [application, Option.map_none, Option.getD_none, List.append_nil, List.cons_append,
        List.nil_append, readable_mark]
      exact hpath.readable next hnext
    · simp only [application, Option.map_none, Option.getD_none, List.append_nil, List.cons_append,
        List.nil_append, tokens_mark, map_token_eq_cons] at hls
      obtain ⟨start, rest, rfl, hrest⟩ := hls
      obtain ⟨p', h, e⟩ := hpath.derives rest hrest
      exact ⟨_, .bare start h, by simp only [Application.eraseSpans, e, Option.map_none]⟩
  | some l =>
    obtain ⟨hread, hderives⟩ := prints_argument_of_isApplication h hg
    refine ⟨fun next hnext => ?_, fun ls hls => ?_⟩
    · simp only [application, Option.map_some, Option.getD_some, List.cons_append, List.nil_append,
        readable_mark, readable_append]
      exact ⟨hpath.readable _ (apart_argument l next), hread next hnext⟩
    · simp only [application, Option.map_some, Option.getD_some, List.cons_append, List.nil_append,
        tokens_mark, tokens_append, map_token_eq_cons, List.map_eq_append_iff] at hls
      obtain ⟨start, _, rfl, names, rest, rfl, hnames, hrest⟩ := hls
      obtain ⟨p', hp, ep⟩ := hpath.derives names hnames
      obtain ⟨l', hl, el⟩ := hderives rest hrest
      obtain ⟨span', happlied⟩ := hl start names p' hp
      exact ⟨_, happlied, by simp only [Application.eraseSpans, ep, Option.map_some, el]⟩

theorem apart_applications (as : List Application) {next : Layout} (h : Apart next) :
    Apart (applications as ++ next) := by
  cases as with
  | nil => exact h
  | cons a as => exact apart_space _

theorem prints_applications {ls : List Lexeme} {as : List Application} (h : IsApplications ls as)
    (hg : Genuine ls) :
    Prints IsApplications (List.map Application.eraseSpans) as (applications as) := by
  refine prints_many (Or.inl rfl) fun a ha => ?_
  obtain ⟨ls, ha, hg⟩ := h.forall_genuine hg a ha
  exact prints_application ha hg

end SchemaLang
