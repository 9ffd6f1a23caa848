import SchemaLang.Proofs.Deciding.Prefixes

/-!
# Single tokens and loops

What reads a token looks no further than at it, and the rounds of a loop do the same in two runs,
one by one, even if the loops have different bounds.
-/

namespace SchemaLang.Parser

variable {α β : Type} {n n' : Nat}

/-! ## Single tokens -/

theorem decided_accept? (t : Token) : Decided n n' (accept? t) (accept? t) :=
  decided_peek fun _ => decided_ite (decided_map some decided_bump) (decided_pure none)

theorem decided_mark? (m : Mark) : Decided n n' (mark? m) (mark? m) :=
  decided_bind (decided_accept? _) fun _ => decided_pure _

/-- What is read after a mark, if it is there, and else. -/
theorem decided_afterMark? (m : Mark) {p p' q q' : Parser α}
    (hp : Decided (n - 1) (n' - 1) p p') (hq : Decided n n' q q') :
    Decided n n' (do if ← mark? m then p else q) (do if ← mark? m then p' else q') := by
  refine decided_bind_cost (fun b => if b then 1 else 0) (decided_mark? m) ?_ fun b => ?_
  · rintro ⟨l, stop, bound⟩ _ b s₁ hrun
    rcases mark?_ok hrun with ⟨span, rest, rfl, rfl, rfl⟩ | ⟨rfl, -, rfl⟩
    · exact Nat.le_refl _
    · exact Nat.le_refl _
  · cases b with
    | true => exact hp
    | false => exact hq

theorem readsOne_expect (t : Token) : ReadsOne (expect t) Span.stop := by
  refine ⟨fun _ _ => ⟨t.describe, rfl⟩, fun x => ?_⟩
  by_cases ht : x.token = t
  · subst ht
    exact .inl ⟨x.span, Nat.le_refl _, fun s => run_expect_cons _ _⟩
  · obtain ⟨e, hreaches, hrun⟩ := exists_run_unexpected t.describe x
    refine .inr ⟨e, hreaches, fun s => ?_⟩
    have hne : nextToken (s.behind [x]).lexemes ≠ some t := fun h => ht (Option.some.inj h)
    have haccept : (accept? t).run (s.behind [x]) = .ok (none, s.behind [x]) :=
      run_accept?_of_ne hne
    rw [expect, StateT.run_bind, haccept, ok_bind]
    exact hrun s

theorem prompt_expect (t : Token) : Prompt n n' (expect t) (expect t) Span.stop :=
  (readsOne_expect t).prompt

theorem prompt_mark (m : Mark) : Prompt n n' (mark m) (mark m) Span.stop := prompt_expect _

theorem decided_mark (m : Mark) : Decided n n' (mark m) (mark m) := (prompt_mark m).decided

theorem decided_keyword (k : Keyword) : Decided n n' (keyword k) (keyword k) :=
  (prompt_expect _).decided

theorem consumes_expect (t : Token) : Consumes (expect t) := by
  rintro ⟨l, stop, bound⟩ span s₁ hrun
  obtain ⟨rest, rfl, rfl⟩ := expect_ok hrun
  exact Nat.lt_succ_self _

theorem consumes_mark (m : Mark) : Consumes (mark m) := consumes_expect _

theorem consumes_keyword (k : Keyword) : Consumes (keyword k) := consumes_expect _

theorem readsOne_ident : ReadsOne ident fun i => i.span.stop := by
  refine ⟨fun _ _ => ⟨"name", rfl⟩, ?_⟩
  rintro ⟨t, span⟩
  cases t with
  | name s => exact .inl ⟨⟨span, s⟩, Nat.le_refl _, fun _ => rfl⟩
  | _ => exact .inr (exists_run_unexpected "name" _)

theorem decided_ident : Decided n n' ident ident := readsOne_ident.prompt.decided

theorem readsOne_number : ReadsOne number fun r => r.1.stop := by
  refine ⟨fun _ _ => ⟨"number literal", rfl⟩, ?_⟩
  rintro ⟨t, span⟩
  cases t with
  | number s => exact .inl ⟨(span, s), Nat.le_refl _, fun _ => rfl⟩
  | _ => exact .inr (exists_run_unexpected "number literal" _)

theorem readsOne_text : ReadsOne text fun r => r.1.stop := by
  refine ⟨fun _ _ => ⟨"text literal", rfl⟩, ?_⟩
  rintro ⟨t, span⟩
  cases t with
  | text raw =>
    cases hraw : Escape.decode raw.toList with
    | ok cs =>
      exact .inl ⟨(span, String.ofList cs), Nat.le_refl _, fun s => run_text span hraw⟩
    | error escape =>
      refine .inr ⟨⟨span, .invalidEscape (String.ofList escape)⟩, Nat.le_refl _, fun s => ?_⟩
      simp [text, Stream.behind, hraw, run_fail]
  | _ => exact .inr (exists_run_unexpected "text literal" _)

theorem decided_text : Decided n n' text text := readsOne_text.prompt.decided

theorem decided_natural (type : IntType) : Decided n n' (natural type) (natural type) := by
  refine readsOne_number.prompt _ fun r => ?_
  dsimp only
  split
  · exact checks_pure _ _
  · exact checks_fail (Nat.le_refl _)
  · exact checks_fail (Nat.le_refl _)

/-! ## Loops -/

/-- An item that is read is one lexeme or more. -/
def Progresses (n : Nat) (item : Parser (Option α)) : Prop :=
  ∀ s : Stream, s.Fits n → ∀ a s₁, item.run s = .ok (some a, s₁) →
    s₁.lexemes.length < s.lexemes.length

theorem Sound.progresses {item : Parser (Option α)} {r : Grammar.Phrases α}
    (h : Sound item (Grammar.IsOptional r)) (hne : ∀ used a, r used a → used ≠ []) :
    Progresses n item := by
  rintro ⟨l, stop, bound⟩ _ a s₁ hrun
  obtain ⟨used, rest, rfl, rfl, hused⟩ := h hrun
  cases hused with
  | some ha =>
    have hpos := List.length_pos_iff.2 (hne _ _ ha)
    rw [List.length_append]
    exact Nat.lt_add_of_pos_left hpos

theorem progresses_none : Progresses n (pure none : Parser (Option α)) :=
  fun _ _ _ _ hrun => by cases hrun

theorem progresses_unexpected (expected : String) :
    Progresses n (unexpected expected : Parser (Option α)) :=
  fun _ _ _ _ hrun => absurd hrun (run_unexpected_ne _ _ _)

theorem progresses_some {p : Parser α} {r : Grammar.Phrases α} (h : Sound p r)
    (hne : ∀ used a, r used a → used ≠ []) : Progresses n (some <$> p) := by
  refine Sound.progresses (r := r) (fun l stop bound o s' hrun => ?_) hne
  obtain ⟨a, hp, rfl⟩ := run_map_ok.1 hrun
  obtain ⟨used, rest, rfl, rfl, ha⟩ := h hp
  exact ⟨used, rest, rfl, rfl, .some ha⟩

theorem progresses_peek {f : Option Token → Parser (Option α)} (h : ∀ t, Progresses n (f t)) :
    Progresses n (peek >>= f) :=
  fun s hs a s₁ hrun => h (nextToken s.lexemes) s hs a s₁ hrun

/-- An item that must be there. -/
theorem progresses_required {p : Parser (Option α)} {f : Option α → Parser (Option β)}
    (h : Progresses n p) (hsome : ∀ a, ∃ b, f (some a) = pure b)
    (hnone : ∃ expected, f none = unexpected expected) : Progresses n (p >>= f) := by
  intro s hs b s₁ hrun
  obtain ⟨o, s₂, hp, hrest⟩ := run_bind_ok.1 hrun
  cases o with
  | none =>
    obtain ⟨expected, hf⟩ := hnone
    rw [hf] at hrest
    exact absurd hrest (run_unexpected_ne _ _ _)
  | some a =>
    obtain ⟨b', hf⟩ := hsome a
    rw [hf] at hrest
    obtain ⟨-, rfl⟩ : b' = some b ∧ s₂ = s₁ := by simpa using hrest
    exact h s hs a s₂ hp

theorem progresses_afterMark? (m : Mark) {p : Parser α} (hp : Decided n 0 p p) :
    Progresses n (do if ← mark? m then some <$> p else return none) := by
  rintro ⟨l, stop, bound⟩ hs a s₁ hrun
  obtain ⟨b, s₂, hmark, hrest⟩ := run_bind_ok.1 hrun
  rcases mark?_ok hmark with ⟨span, rest, rfl, rfl, rfl⟩ | ⟨rfl, -, -⟩
  · obtain ⟨a, hrest, -⟩ := run_map_ok.1 hrest
    have hbeyond := hp.beyond _ ((hs.sub (l := rest) (k := 0) (Nat.le_succ _)).mono (Nat.sub_le _ _))
    rw [hrest] at hbeyond
    cases hbeyond with
    | ok hsuffix => exact Nat.lt_succ_of_le hsuffix.length_le
  · cases hrest

/-- The rounds of both loops are enough for the lexemes that are left. -/
theorem decided_manyFrom {item : List α → Parser (Option α)}
    (hprogress : ∀ earlier, Progresses n (item earlier)) :
    ∀ (k : Nat) {n' k' m m' : Nat} {item' : List α → Parser (Option α)} (earlier : List α),
      (∀ earlier, Decided n n' (item earlier) (item' earlier)) → m ≤ n → m' ≤ n' → m ≤ k →
        m' ≤ k' → Decided m m' (manyFrom item k earlier) (manyFrom item' k' earlier) := by
  intro k
  induction k with
  | zero =>
    intro n' k' m m' item' earlier _ _ _ hk _
    obtain rfl := Nat.le_zero.1 hk
    exact decided_zero _ _
  | succ k ih =>
    have step (k' : Nat) {n' m m' : Nat} {item' : List α → Parser (Option α)} (earlier : List α)
        (h : ∀ earlier, Decided n n' (item earlier) (item' earlier)) (hm : m ≤ n) (hm' : m' ≤ n')
        (hk : m ≤ k + 1) (hk' : m' ≤ k' + 1) :
        Decided m m' (manyFrom item (k + 1) earlier) (manyFrom item' (k' + 1) earlier) := by
      refine decided_bind_cost (fun o => if o.isSome then 1 else 0) ((h earlier).mono hm hm') ?_ ?_
      · intro s hs o s₁ hrun
        cases o with
        | some a => exact hprogress earlier s (hs.mono hm) a s₁ hrun
        | none =>
          have hbeyond := (h earlier).beyond s (hs.mono hm)
          rw [hrun] at hbeyond
          cases hbeyond with
          | ok rest => exact rest.length_le
      · rintro (_ | a)
        · exact decided_pure _
        · dsimp only
          exact ih _ h (by omega) (by omega) (Nat.sub_le_of_le_add hk) (Nat.sub_le_of_le_add hk')
    intro n' k' m m' item' earlier h hm hm' hk hk'
    cases k' with
    | zero =>
      have hself := step k earlier (fun earlier => (h earlier).alone) hm (Nat.le_refl 0) hk
        (Nat.zero_le _)
      exact hself.of_le_one (.inr (by omega)) _
    | succ k' => exact step k' earlier h hm hm' hk hk'

theorem decided_manyGiven {item item' : List α → Parser (Option α)}
    (h : ∀ earlier, Decided n n' (item earlier) (item' earlier))
    (hprogress : ∀ earlier, Progresses n (item earlier)) :
    Decided n n' (manyGiven item) (manyGiven item') :=
  decided_bound fun k _ => decided_manyFrom hprogress (k + 1) [] h (Nat.min_le_left _ _)
    (Nat.min_le_left _ _) (Nat.min_le_right _ _) (Nat.min_le_right _ _)

theorem decided_many {item item' : Parser (Option α)} (h : Decided n n' item item')
    (hprogress : Progresses n item) : Decided n n' (many item) (many item') :=
  decided_manyGiven (fun _ => h) fun _ => hprogress

theorem decided_separated (separator : Mark) {item item' : Parser α}
    (h : Decided n n' item item') :
    Decided n n' (separated separator item) (separated separator item') := by
  refine decided_bind h fun first => ?_
  refine decided_bind (decided_many ?_ (progresses_afterMark? separator h.alone)) fun rest =>
    decided_pure _
  refine decided_afterMark? separator (decided_map some ?_) (decided_pure none)
  exact h.mono (Nat.sub_le _ _) (Nat.sub_le _ _)

/-- A comma is read before each further round. -/
theorem decided_listUntil_go (close : Mark) {item : Parser α} :
    ∀ (k : Nat) {n n' k' : Nat} {item' : Parser α}, Decided n n' item item' → n ≤ k → n' ≤ k' →
      Decided n n' (listUntil.go close item k) (listUntil.go close item' k') := by
  intro k
  induction k with
  | zero =>
    intro n n' k' item' _ hk _
    obtain rfl := Nat.le_zero.1 hk
    exact decided_zero _ _
  | succ k ih =>
    have step (k' : Nat) {n n' : Nat} {item' : Parser α} (h : Decided n n' item item') (hk : n ≤ k + 1)
        (hk' : n' ≤ k' + 1) : Decided n n' (listUntil.go close item (k + 1))
          (listUntil.go close item' (k' + 1)) := by
      refine decided_peek fun _ => decided_ite (decided_pure []) ?_
      refine decided_bind h fun first => decided_afterMark? .comma ?_ (decided_pure _)
      refine decided_map _ (ih (h.mono (Nat.sub_le _ _) (Nat.sub_le _ _)) ?_ ?_)
      · exact Nat.sub_le_of_le_add hk
      · exact Nat.sub_le_of_le_add hk'
    intro n n' k' item' h hk hk'
    cases k' with
    | zero =>
      have hself := step k h.alone hk (Nat.zero_le _)
      exact hself.of_le_one (.inr (by omega)) _
    | succ k' => exact step k' h hk hk'

theorem decided_listUntil (close : Mark) {item item' : Parser α} (h : Decided n n' item item') :
    Decided n n' (listUntil close item) (listUntil close item') :=
  decided_bound fun k _ => decided_listUntil_go close (k + 1)
    (h.mono (Nat.min_le_left _ _) (Nat.min_le_left _ _)) (Nat.min_le_right _ _)
    (Nat.min_le_right _ _)

end SchemaLang.Parser
