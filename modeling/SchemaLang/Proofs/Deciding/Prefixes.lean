import SchemaLang.Proofs.Grammar.Reading

/-!
# Steps that are decided early

Two runs of the parser on lexemes that begin alike see the same for as long as neither has come to
the end of the common beginning.  `Decided n n' p p'` says that `p` and `p'`, run on such lexemes,
either do the same or are apart because the run of `p` has gone beyond the common beginning; all
errors that it reports from there on reach the end of a lexeme out there.  The rules here cover the
primitive steps and the loops.

A step may look at one lexeme more than it reads, so a step that has done the same in both runs may
have seen different lexemes.  What it leaves to be read then decides: the next step fails at
these lexemes or reads on in them.  Only a check of what was just read fails at once, and it may do
so after a step that looks no further than it reads: `Prompt`.
-/

namespace SchemaLang

/-! ## Where errors stand -/

namespace GrammarError

/-- Something is missing at the end of the source. -/
def AtEnd (e : GrammarError) (stop : Nat) : Prop :=
  (∃ expected, e.cause = .unexpectedEnd expected) ∨ e = ⟨.point stop, .missingFileId⟩

/-- The error reaches to the end of one of the lexemes, or further. -/
def Reaches (e : GrammarError) (l : List Lexeme) : Prop :=
  ∃ x ∈ l, x.span.stop ≤ e.span.stop

theorem Reaches.mono {e : GrammarError} {l l' : List Lexeme} (h : e.Reaches l) (hl : l ⊆ l') :
    e.Reaches l' := by
  obtain ⟨x, hx, hle⟩ := h
  exact ⟨x, hl hx, hle⟩

end GrammarError

/-! ## Streams -/

namespace Stream

/-- The stream with some lexemes more in front. -/
def behind (s : Stream) (c : List Lexeme) : Stream := { s with lexemes := c ++ s.lexemes }

/-- The stream has fewer than `n` lexemes left, and its bound counts them. -/
structure Fits (n : Nat) (s : Stream) : Prop where
  length : s.lexemes.length < n
  bound : s.lexemes.length ≤ s.bound

theorem behind_cons (s : Stream) (x : Lexeme) (c : List Lexeme) :
    s.behind (x :: c) = (s.behind c).behind [x] := rfl

theorem Fits.mono {n m : Nat} {s : Stream} (h : s.Fits m) (hn : m ≤ n) : s.Fits n :=
  ⟨Nat.lt_of_lt_of_le h.length hn, h.bound⟩

/-- A stream that has `k` lexemes less. -/
theorem Fits.sub {n k : Nat} {s : Stream} (h : s.Fits n) {l : List Lexeme}
    (hl : l.length + k ≤ s.lexemes.length) : Fits (n - k) { s with lexemes := l } := by
  have := h.length
  have := h.bound
  exact ⟨by dsimp only; omega, by dsimp only; omega⟩

theorem not_fits_zero (s : Stream) : ¬s.Fits 0 := fun h => absurd h.length (Nat.not_lt_zero _)

/-- What fits only the empty stream fits no stream with something in front. -/
theorem not_fits_behind {n : Nat} (hn : n ≤ 1) (s : Stream) {c : List Lexeme} (hc : c ≠ []) :
    ¬(s.behind c).Fits n := by
  intro h
  have hpos := List.length_pos_iff.2 hc
  have hlength : (c ++ s.lexemes).length < n := h.length
  rw [List.length_append] at hlength
  omega

end Stream

namespace Parser

variable {α β γ : Type} {n n' : Nat}

/-! ## Outcomes -/

/-- What has come of a run that has arrived at the stream `s`: it has read on from there, or its
error reaches a lexeme that was left there, or something is missing at the end. -/
inductive Beyond (s : Stream) : Except GrammarError (α × Stream) → Prop
  | ok {a : α} {l : List Lexeme} (rest : l <:+ s.lexemes) :
    Beyond s (.ok (a, { s with lexemes := l }))
  | error {e : GrammarError} (stands : e.Reaches s.lexemes ∨ e.AtEnd s.stop) : Beyond s (.error e)

theorem Beyond.mono {s : Stream} {l : List Lexeme} {x : Except GrammarError (α × Stream)}
    (h : Beyond { s with lexemes := l } x) (hl : l <:+ s.lexemes) : Beyond s x := by
  cases h with
  | ok rest => exact .ok (rest.trans hl)
  | error stands => exact .error (stands.imp_left fun h => h.mono hl.subset)

/-- Two runs on the lexemes `c`, behind which the one has the stream `s` and the other has `s'`.
They come to the same, the one before `s` and the other before `s'`, unless the one has arrived
there. -/
inductive InStep (c : List Lexeme) (s s' : Stream) :
    Except GrammarError (α × Stream) → Except GrammarError (α × Stream) → Prop
  | ok {a : α} {l : List Lexeme} (rest : l <:+ c) :
    InStep c s s' (.ok (a, s.behind l)) (.ok (a, s'.behind l))
  | error {e : GrammarError} : InStep c s s' (.error e) (.error e)
  | beyond {x y : Except GrammarError (α × Stream)} (h : Beyond s x) : InStep c s s' x y

theorem InStep.mono {c c' : List Lexeme} {s s' : Stream}
    {x y : Except GrammarError (α × Stream)} (h : InStep c s s' x y) (hc : c <:+ c') :
    InStep c' s s' x y := by
  cases h with
  | ok rest => exact .ok (rest.trans hc)
  | error => exact .error
  | beyond h => exact .beyond h

/-- The steps come to the same on streams of fewer than `n` and `n'` lexemes that begin alike,
unless the first one goes beyond what is alike. -/
structure Decided (n n' : Nat) (p p' : Parser α) : Prop where
  beyond : ∀ s : Stream, s.Fits n → Beyond s (p.run s)
  inStep : ∀ (c : List Lexeme) (s s' : Stream), c ≠ [] → (s.behind c).Fits n →
    (s'.behind c).Fits n' → InStep c s s' (p.run (s.behind c)) (p'.run (s'.behind c))

theorem Decided.mono {m m' : Nat} {p p' : Parser α} (h : Decided n n' p p') (hm : m ≤ n)
    (hm' : m' ≤ n') : Decided m m' p p' :=
  ⟨fun s hs => h.beyond s (hs.mono hm),
    fun c s s' hc hs hs' => h.inStep c s s' hc (hs.mono hm) (hs'.mono hm')⟩

/-- What is known of the first run by itself. -/
theorem Decided.alone {p p' : Parser α} (h : Decided n n' p p') : Decided n 0 p p :=
  ⟨h.beyond, fun _ _ _ _ _ hs' => absurd hs' (Stream.not_fits_zero _)⟩

/-- Where one of the streams has no lexemes, there is no common beginning. -/
theorem Decided.of_le_one {p : Parser α} (h : Decided n 0 p p) (hn : n ≤ 1 ∨ n' ≤ 1)
    (p' : Parser α) : Decided n n' p p' := by
  refine ⟨h.beyond, fun c s s' hc hs hs' => ?_⟩
  rcases hn with hn | hn
  · exact absurd hs (Stream.not_fits_behind hn s hc)
  · exact absurd hs' (Stream.not_fits_behind hn s' hc)

/-- No stream has fewer lexemes than none. -/
theorem decided_zero (p p' : Parser α) : Decided 0 n' p p' :=
  ⟨fun s hs => absurd hs (Stream.not_fits_zero s),
    fun _ _ _ _ hs _ => absurd hs (Stream.not_fits_zero _)⟩

/-! ## Sequences -/

theorem decided_pure (a : α) : Decided n n' (pure a) (pure a) :=
  ⟨fun _ _ => .ok List.suffix_rfl, fun _ _ _ _ _ _ => .ok List.suffix_rfl⟩

/-- What a first step reads is not there any more for the second one. -/
theorem decided_bind_cost {p p' : Parser α} {f f' : α → Parser β} (cost : α → Nat)
    (hp : Decided n n' p p')
    (hcost : ∀ s : Stream, s.Fits n → ∀ a s₁, p.run s = .ok (a, s₁) →
      s₁.lexemes.length + cost a ≤ s.lexemes.length)
    (hf : ∀ a, Decided (n - cost a) (n' - cost a) (f a) (f' a)) :
    Decided n n' (p >>= f) (p' >>= f') := by
  constructor
  · intro s hs
    have hfirst := hp.beyond s hs
    have hless := hcost s hs
    rw [StateT.run_bind]
    generalize p.run s = x at hfirst hless
    cases hfirst with
    | ok rest => exact ((hf _).beyond _ (hs.sub (hless _ _ rfl))).mono rest
    | error stands => exact .error stands
  · intro c s s' hc hs hs'
    have hfirst := hp.inStep c s s' hc hs hs'
    have hless := hcost _ hs
    rw [StateT.run_bind, StateT.run_bind]
    generalize p.run (s.behind c) = x at hfirst hless
    generalize p'.run (s'.behind c) = y at hfirst
    cases hfirst with
    | error => exact .error
    | @ok a l rest =>
      have hl : (l ++ s.lexemes).length + cost a ≤ (c ++ s.lexemes).length := hless a _ rfl
      rw [List.length_append, List.length_append] at hl
      have hfit : (s.behind l).Fits (n - cost a) := hs.sub (by
        rw [Stream.behind, List.length_append, List.length_append]
        omega)
      have hfit' : (s'.behind l).Fits (n' - cost a) := hs'.sub (by
        rw [Stream.behind, List.length_append, List.length_append]
        omega)
      by_cases hnil : l = []
      · subst hnil
        exact .beyond ((hf a).beyond s hfit)
      · exact ((hf a).inStep l s s' hnil hfit hfit').mono rest
    | beyond h =>
      cases h with
      | error stands => exact .beyond (.error stands)
      | @ok a l rest =>
        have hl : l.length + cost a ≤ (c ++ s.lexemes).length := hless a _ rfl
        refine .beyond (((hf a).beyond _ ?_).mono rest)
        exact hs.sub (l := l) hl

/-- A step that reads at least one lexeme. -/
def Consumes (p : Parser α) : Prop :=
  ∀ ⦃s a s₁⦄, p.run s = .ok (a, s₁) → s₁.lexemes.length < s.lexemes.length

theorem decided_bind {p p' : Parser α} {f f' : α → Parser β} (hp : Decided n n' p p')
    (hf : ∀ a, Decided n n' (f a) (f' a)) : Decided n n' (p >>= f) (p' >>= f') := by
  refine decided_bind_cost (fun _ => 0) hp (fun s hs a s₁ hrun => ?_) hf
  have hbeyond := hp.beyond s hs
  rw [hrun] at hbeyond
  cases hbeyond with
  | ok rest => exact rest.length_le

theorem decided_bind_consumes {p p' : Parser α} {f f' : α → Parser β} (hp : Decided n n' p p')
    (hless : Consumes p) (hf : ∀ a, Decided (n - 1) (n' - 1) (f a) (f' a)) :
    Decided n n' (p >>= f) (p' >>= f') :=
  decided_bind_cost (fun _ => 1) hp (fun _ _ _ _ hrun => hless hrun) hf

theorem decided_map {p p' : Parser α} (f : α → β) (hp : Decided n n' p p') :
    Decided n n' (f <$> p) (f <$> p') := by
  rw [map_eq_pure_bind, map_eq_pure_bind]
  exact decided_bind hp fun a => decided_pure (f a)

theorem decided_ite {c : Prop} [Decidable c] {p p' q q' : Parser α} (hp : Decided n n' p p')
    (hq : Decided n n' q q') : Decided n n' (if c then p else q) (if c then p' else q') := by
  split
  · exact hp
  · exact hq

/-! ## Primitive steps -/

theorem run_peek_behind (s : Stream) (x : Lexeme) (c : List Lexeme) (f : Option Token → Parser α) :
    (peek >>= f).run (s.behind (x :: c)) = (f (some x.token)).run (s.behind (x :: c)) := rfl

theorem decided_peek {f f' : Option Token → Parser α} (h : ∀ t, Decided n n' (f t) (f' t)) :
    Decided n n' (peek >>= f) (peek >>= f') := by
  refine ⟨fun s hs => (h (nextToken s.lexemes)).beyond s hs, fun c s s' hc hs hs' => ?_⟩
  obtain ⟨x, c, rfl⟩ := List.exists_cons_of_ne_nil hc
  rw [run_peek_behind, run_peek_behind]
  exact (h (some x.token)).inStep _ s s' hc hs hs'

theorem decided_bump : Decided n n' bump bump := by
  constructor
  · intro s _
    have hrun : bump.run s = .ok ((s.lexemes.head?.map Lexeme.span).getD (.point s.stop),
        { s with lexemes := s.lexemes.tail }) := rfl
    rw [hrun]
    exact .ok (List.tail_suffix _)
  · intro c s s' hc _ _
    obtain ⟨x, c, rfl⟩ := List.exists_cons_of_ne_nil hc
    exact .ok (List.suffix_cons x c)

/-- The bounds of the two streams need not be the same, but both count what is left. -/
theorem decided_bound {f f' : Nat → Parser α}
    (h : ∀ k k', Decided (min n (k + 1)) (min n' (k' + 1)) (f k) (f' k')) :
    Decided n n' (Parser.bound >>= f) (Parser.bound >>= f') := by
  have hfits {m : Nat} {s : Stream} (hs : s.Fits m) : s.Fits (min m (s.bound + 1)) :=
    ⟨Nat.lt_min.2 ⟨hs.length, Nat.lt_succ_of_le hs.bound⟩, hs.bound⟩
  exact ⟨fun s hs => (h s.bound 0).beyond s (hfits hs),
    fun c s s' hc hs hs' => (h s.bound s'.bound).inStep c s s' hc (hfits hs) (hfits hs')⟩

/-! ## Steps by their first lexeme -/

/-- On lexemes that begin with `x` the steps run like others that are decided, or they stop at `x`
with the same error. -/
inductive Opens (n n' : Nat) (p p' : Parser α) (x : Lexeme) : Prop
  | same (q q' : Parser α) (decided : Decided n n' q q')
      (run : ∀ s : Stream, p.run (s.behind [x]) = q.run (s.behind [x]))
      (run' : ∀ s : Stream, p'.run (s.behind [x]) = q'.run (s.behind [x]))
  | stops (e : GrammarError) (reaches : x.span.stop ≤ e.span.stop)
      (run : ∀ s : Stream, p.run (s.behind [x]) = .error e)
      (run' : ∀ s : Stream, p'.run (s.behind [x]) = .error e)

theorem decided_of_opens {p p' : Parser α}
    (hnil : ∀ stop bound, Beyond ⟨[], stop, bound⟩ (p.run ⟨[], stop, bound⟩))
    (hcons : ∀ x, Opens n n' p p' x) : Decided n n' p p' := by
  constructor
  · rintro ⟨_ | ⟨x, l⟩, stop, bound⟩ hs
    · exact hnil stop bound
    · have hrun := hcons x
      cases hrun with
      | same q q' decided run =>
        have hp := run ⟨l, stop, bound⟩
        exact hp ▸ decided.beyond _ hs
      | stops e reaches run =>
        have hp := run ⟨l, stop, bound⟩
        exact hp ▸ .error (.inl ⟨x, List.mem_cons_self, reaches⟩)
  · intro c s s' hc hs hs'
    obtain ⟨x, c, rfl⟩ := List.exists_cons_of_ne_nil hc
    rw [Stream.behind_cons, Stream.behind_cons s']
    cases hcons x with
    | same q q' decided run run' =>
      rw [run, run', ← Stream.behind_cons, ← Stream.behind_cons]
      exact decided.inStep _ s s' hc hs hs'
    | stops e reaches run run' =>
      rw [run, run']
      exact .error

/-- The step runs into what stands first. -/
theorem exists_run_unexpected (expected : String) (x : Lexeme) :
    ∃ e : GrammarError, x.span.stop ≤ e.span.stop ∧
      ∀ s : Stream, (unexpected expected : Parser α).run (s.behind [x]) = .error e := by
  obtain ⟨t, span⟩ := x
  cases t with
  | singleQuoted raw => exact ⟨⟨span, .singleQuotedText⟩, Nat.le_refl _, fun _ => rfl⟩
  | _ => exact ⟨⟨span, .unexpectedToken _ expected⟩, Nat.le_refl _, fun _ => rfl⟩

theorem beyond_unexpectedEnd (stop bound : Nat) (expected : String) :
    Beyond ⟨[], stop, bound⟩
      (.error ⟨.point stop, .unexpectedEnd expected⟩ : Except GrammarError (α × Stream)) :=
  .error (.inr (.inl ⟨expected, rfl⟩))

theorem opens_unexpected (expected : String) (x : Lexeme) :
    Opens n n' (unexpected expected : Parser α) (unexpected expected) x := by
  obtain ⟨e, hreaches, hrun⟩ := exists_run_unexpected expected x
  exact .stops e hreaches hrun hrun

theorem decided_unexpected (expected : String) :
    Decided n n' (unexpected expected : Parser α) (unexpected expected) :=
  decided_of_opens (fun stop bound => beyond_unexpectedEnd stop bound expected)
    (opens_unexpected expected)

/-! ## Checks -/

/-- The step reads nothing: it gives a result, or it stops with an error that reaches `stop`. -/
def Checks (p : Parser α) (stop : Nat) : Prop :=
  (∃ a, p = pure a) ∨ ∃ span cause, stop ≤ span.stop ∧ p = fail span cause

theorem checks_pure (a : α) (stop : Nat) : Checks (pure a : Parser α) stop := .inl ⟨a, rfl⟩

theorem checks_fail {span : Span} {cause : GrammarCause} {stop : Nat} (h : stop ≤ span.stop) :
    Checks (fail span cause : Parser α) stop := .inr ⟨span, cause, h, rfl⟩

/-- The steps look no further than they read, and what they read last ends at `last` of the result.
So a check of the result is decided as well. -/
def Prompt (n n' : Nat) (p p' : Parser α) (last : α → Nat) : Prop :=
  ∀ ⦃β : Type⦄ (g : α → Parser β), (∀ a, Checks (g a) (last a)) →
    Decided n n' (p >>= g) (p' >>= g)

theorem Prompt.decided {p p' : Parser α} {last : α → Nat} (h : Prompt n n' p p' last) :
    Decided n n' p p' := by
  have hpure := h pure fun a => checks_pure a _
  rwa [bind_pure, bind_pure] at hpure

theorem Prompt.of_le_one {p : Parser α} {last : α → Nat} (h : Prompt n 0 p p last)
    (hn : n ≤ 1 ∨ n' ≤ 1) (p' : Parser α) : Prompt n n' p p' last :=
  fun _ g hg => (h g hg).of_le_one hn _

theorem Prompt.map {p p' : Parser α} {last : β → Nat} (f : α → β)
    (h : Prompt n n' p p' fun a => last (f a)) :
    Prompt n n' (p >>= fun a => pure (f a)) (p' >>= fun a => pure (f a)) last := by
  intro γ g hg
  simp only [bind_assoc, pure_bind]
  exact h _ fun a => hg (f a)

/-- What the steps read is one lexeme, which `last` of the result is the end of. -/
structure ReadsOne (p : Parser α) (last : α → Nat) : Prop where
  ends : ∀ stop bound, ∃ expected,
    p.run ⟨[], stop, bound⟩ = .error ⟨.point stop, .unexpectedEnd expected⟩
  reads : ∀ x : Lexeme,
    (∃ a, x.span.stop ≤ last a ∧ ∀ s : Stream, p.run (s.behind [x]) = .ok (a, s)) ∨
      ∃ e : GrammarError, x.span.stop ≤ e.span.stop ∧
        ∀ s : Stream, p.run (s.behind [x]) = .error e

theorem ReadsOne.prompt {p : Parser α} {last : α → Nat} (h : ReadsOne p last) :
    Prompt n n' p p last := by
  intro β g hg
  refine decided_of_opens (fun stop bound => ?_) fun x => ?_
  · obtain ⟨expected, hrun⟩ := h.ends stop bound
    rw [StateT.run_bind, hrun]
    exact beyond_unexpectedEnd stop bound expected
  · rcases h.reads x with ⟨a, hlast, hrun⟩ | ⟨e, hreaches, hrun⟩
    · have hg' (s : Stream) : (p >>= g).run (s.behind [x]) = (g a).run s := by
        rw [StateT.run_bind, hrun]
        rfl
      rcases hg a with ⟨b, hb⟩ | ⟨span, cause, hle, hfail⟩
      · have hread (s : Stream) :
            (p >>= g).run (s.behind [x]) = ((fun _ => b) <$> bump).run (s.behind [x]) := by
          rw [hg', hb]
          rfl
        exact .same _ _ (decided_map _ decided_bump) hread hread
      · have hstops (s : Stream) : (p >>= g).run (s.behind [x]) = .error ⟨span, cause⟩ := by
          rw [hg', hfail]
          rfl
        exact .stops _ (Nat.le_trans hlast hle) hstops hstops
    · have hstops (s : Stream) : (p >>= g).run (s.behind [x]) = .error e := by
        rw [StateT.run_bind, hrun]
        rfl
      exact .stops e hreaches hstops hstops

theorem readsOne_unexpected (expected : String) (last : α → Nat) :
    ReadsOne (unexpected expected) last :=
  ⟨fun _ _ => ⟨expected, rfl⟩, fun x => .inr (exists_run_unexpected expected x)⟩

theorem prompt_bind {p p' : Parser α} {f f' : α → Parser β} {last : β → Nat}
    (hp : Decided n n' p p') (hf : ∀ a, Prompt n n' (f a) (f' a) last) :
    Prompt n n' (p >>= f) (p' >>= f') last := by
  intro γ g hg
  rw [bind_assoc, bind_assoc]
  exact decided_bind hp fun a => hf a g hg

theorem prompt_bind_consumes {p p' : Parser α} {f f' : α → Parser β} {last : β → Nat}
    (hp : Decided n n' p p') (hless : Consumes p)
    (hf : ∀ a, Prompt (n - 1) (n' - 1) (f a) (f' a) last) :
    Prompt n n' (p >>= f) (p' >>= f') last := by
  intro γ g hg
  rw [bind_assoc, bind_assoc]
  exact decided_bind_consumes hp hless fun a => hf a g hg

end Parser

end SchemaLang
