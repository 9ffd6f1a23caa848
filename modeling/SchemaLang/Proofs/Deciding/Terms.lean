import SchemaLang.Proofs.Deciding.Steps
import SchemaLang.Proofs.Grammar.Soundness

/-!
# Names, types, literals and annotations are decided early

The productions that contain no declaration.  Where a literal starts, its first lexeme selects the
production.  The argument of an annotation takes a second one if the first is a name; it is read as
if the name came first and what follows it were looked at then.
-/

namespace SchemaLang.Parser

variable {n n' : Nat}

/-! ## Names and types -/

theorem decided_moreSegments : Decided n n' moreSegments moreSegments :=
  decided_many (decided_afterMark? _ (decided_map some decided_ident) (decided_pure none))
    (progresses_afterMark? _ decided_ident)

theorem decided_pathFrom (first : Ident) : Decided n n' (pathFrom first) (pathFrom first) :=
  decided_bind decided_moreSegments fun _ => decided_pure _

theorem decided_path : Decided n n' path path := decided_bind decided_ident decided_pathFrom

theorem decided_importTarget : Decided n n' importTarget importTarget := by
  refine decided_bind (decided_keyword _) fun _ => decided_bind decided_text fun _ => ?_
  exact decided_bind decided_moreSegments fun _ => decided_pure _

theorem decided_ordinal : Decided n n' ordinal ordinal := by
  refine decided_bind (decided_mark _) fun _ => ?_
  exact decided_bind (decided_natural _) fun _ => decided_pure _

theorem checks_applyParameters (p : Path) {span : Span} {stop : Nat} (h : stop ≤ span.stop)
    (ts : List TypeRef) : Checks (applyParameters p span ts) stop := by
  unfold applyParameters
  split
  · exact checks_pure _ _
  · exact checks_fail h

/-- The parameters of a type are shorter than the type, so smaller bounds do for them. -/
theorem decided_typeWithin : ∀ (k k' : Nat) {n n' : Nat}, n ≤ k + 1 → n' ≤ k' + 1 →
    Decided n n' (typeWithin k) (typeWithin k') := by
  intro k
  induction k with
  | zero => exact fun k' _ _ hk _ => (decided_unexpected "name").of_le_one (.inl hk) _
  | succ k ih =>
    have step (k' : Nat) {n n' : Nat} (hk : n ≤ k + 2) (hk' : n' ≤ k' + 2) :
        Decided n n' (typeWithin (k + 1)) (typeWithin (k' + 1)) := by
      refine decided_peek fun _ => decided_ite ?_ ?_
      · exact decided_bind decided_importTarget fun _ => decided_pure _
      · refine decided_bind decided_path fun p => decided_afterMark? _ ?_ (decided_pure _)
        refine decided_bind (decided_separated _ (ih k' ?_ ?_)) fun ts => ?_
        · exact Nat.sub_le_of_le_add hk
        · exact Nat.sub_le_of_le_add hk'
        exact prompt_mark _ _ fun close => checks_applyParameters p (Nat.le_max_right _ _) ts
    intro k' n n' hk hk'
    cases k' with
    | zero => exact (step k hk (Nat.zero_le _)).of_le_one (.inr hk') _
    | succ k' => exact step k' hk hk'

theorem decided_type : Decided n n' type type :=
  decided_bound fun k k' => decided_typeWithin k k' (Nat.min_le_right _ _) (Nat.min_le_right _ _)

/-! ## Literals -/

theorem checks_numeral {span : Span} {stop : Nat} (h : stop ≤ span.stop) (s : String) :
    Checks (numeral span s) stop := by
  unfold numeral
  dsimp only
  split
  · exact checks_pure _ _
  · exact checks_fail h

/-- One field of a struct literal. -/
theorem decided_structField {value : Parser Literal} (h : Decided n n' value value) :
    Decided n n' (do
      let name ← ident
      let _ ← mark .equals
      return (name, ← value)) (do
      let name ← ident
      let _ ← mark .equals
      return (name, ← value)) := by
  refine decided_bind decided_ident fun _ => decided_bind (decided_mark _) fun _ => ?_
  exact decided_bind h fun _ => decided_pure _

theorem decided_structFields {value : Parser Literal} (h : Decided n n' value value) :
    Decided n n' (structFields value) (structFields value) :=
  decided_listUntil _ (decided_structField h)

theorem decided_listLiteral {item : Parser Literal} (h : Decided n n' item item) (start : Span) :
    Decided n n' (listLiteral item start) (listLiteral item start) := by
  refine decided_bind decided_bump fun _ => decided_bind (decided_listUntil _ h) fun _ => ?_
  exact decided_bind (decided_mark _) fun _ => decided_pure _

theorem decided_structLiteral {value : Parser Literal} (h : Decided n n' value value)
    (start : Span) : Decided n n' (structLiteral value start) (structLiteral value start) := by
  refine decided_bind decided_bump fun _ => decided_bind (decided_structFields h) fun _ => ?_
  exact decided_bind (decided_mark _) fun _ => decided_pure _

/-- The first lexeme of a literal selects what is read. -/
theorem decided_literalWith {list struct : Span → Parser Literal}
    (hlist : ∀ x : Lexeme, Opens n n' (list x.span) (list x.span) x)
    (hstruct : ∀ x : Lexeme, Opens n n' (struct x.span) (struct x.span) x) :
    Decided n n' (literalWith list struct) (literalWith list struct) := by
  refine decided_of_opens (fun stop bound => beyond_unexpectedEnd stop bound "literal") ?_
  have same {x : Lexeme} (q : Parser Literal) (hq : Decided n n' q q)
      (run : ∀ s : Stream, (literalWith list struct).run (s.behind [x]) = q.run (s.behind [x])) :
      Opens n n' (literalWith list struct) (literalWith list struct) x := .same q q hq run run
  have hunexpected : Decided n n' (unexpected "literal" : Parser Literal) (unexpected "literal") :=
    decided_unexpected _
  have hword (l : Span → Literal) : Decided n n' (l <$> bump) (l <$> bump) :=
    decided_map l decided_bump
  have hnumber (g : Span × String → Span × String) (hg : ∀ r, r.1.stop ≤ (g r).1.stop) :
      Decided n n' (number >>= fun r => numeral (g r).1 (g r).2)
        (number >>= fun r => numeral (g r).1 (g r).2) :=
    readsOne_number.prompt _ fun r => checks_numeral (hg r) _
  rintro ⟨t, span⟩
  cases t with
  | keyword k =>
    cases k with
    | trueKw => exact same _ (hword (.bool · true)) fun _ => rfl
    | falseKw => exact same _ (hword (.bool · false)) fun _ => rfl
    | voidKw => exact same _ (hword .void) fun _ => rfl
    | _ => exact same _ hunexpected fun _ => rfl
  | mark m =>
    cases m with
    | minus =>
      refine same _ (decided_bind decided_bump fun _ => hnumber (fun r =>
        (span.cover r.1, "-" ++ r.2)) fun r => ?_) fun _ => rfl
      exact Nat.le_max_right _ _
    | openBracket =>
      cases hlist ⟨.mark .openBracket, span⟩ with
      | same q q' decided run run' => exact .same q q' decided run run'
      | stops e reaches run run' => exact .stops e reaches run run'
    | openParen =>
      cases hstruct ⟨.mark .openParen, span⟩ with
      | same q q' decided run run' => exact .same q q' decided run run'
      | stops e reaches run run' => exact .stops e reaches run run'
    | _ => exact same _ hunexpected fun _ => rfl
  | name s => exact same _ (decided_map Literal.name decided_path) fun _ => rfl
  | number s => exact same _ (hnumber id fun _ => Nat.le_refl _) fun _ => rfl
  | text raw =>
    exact same _ (decided_map (fun r : Span × String => Literal.text r.1 r.2) decided_text)
      fun _ => rfl
  | singleQuoted raw => exact same _ hunexpected fun _ => rfl

theorem decided_literalWithin : ∀ room : Nat,
    Decided n n' (literalWithin room) (literalWithin room)
  | 0 => by
    have hdeep (x : Lexeme) : Opens n n' (fail x.span .literalTooDeep : Parser Literal)
        (fail x.span .literalTooDeep) x :=
      .stops ⟨x.span, .literalTooDeep⟩ (Nat.le_refl _) (fun _ => rfl) fun _ => rfl
    exact decided_literalWith hdeep hdeep
  | room + 1 => by
    have hinner := decided_literalWithin room
    exact decided_literalWith
      (fun x => .same _ _ (decided_listLiteral hinner x.span) (fun _ => rfl) fun _ => rfl)
      (fun x => .same _ _ (decided_structLiteral hinner x.span) (fun _ => rfl) fun _ => rfl)

theorem decided_literal : Decided n n' literal literal := decided_literalWithin _

theorem decided_default? : Decided n n' default? default? :=
  decided_afterMark? _ (decided_map some decided_literal) (decided_pure none)

/-! ## Annotations -/

/-- The fields of a struct literal from the first name on, which has been read. -/
def structFieldsFrom (value : Parser Literal) (first : Ident) :
    Parser (List (Ident × Literal)) := do
  let bound ← Parser.bound
  let _ ← mark .equals
  let v ← value
  if ← mark? .comma then
    return (first, v) :: (← listUntil.go .closeParen (do
      let name ← ident
      let _ ← mark .equals
      return (name, ← value)) bound)
  else return [(first, v)]

theorem decided_structFieldsFrom {value : Parser Literal}
    (h : ∀ n n', Decided n n' value value) (first : Ident) :
    Decided n n' (structFieldsFrom value first) (structFieldsFrom value first) := by
  refine decided_bound fun k k' => decided_bind (decided_mark _) fun _ => ?_
  refine decided_bind (h _ _) fun v => decided_afterMark? .comma ?_ (decided_pure _)
  refine decided_map _ (decided_listUntil_go .closeParen k (decided_structField (h _ _)) ?_ ?_)
  · omega
  · omega

theorem run_structFields_name (value : Parser Literal) (first : Ident) (s : Stream) :
    (structFields value).run (s.behind [first.lexeme]) = (structFieldsFrom value first).run s := by
  obtain ⟨l, stop, bound⟩ := s
  simp [structFields, listUntil, listUntil.go, structFieldsFrom, Stream.behind]

theorem run_literal_name (first : Ident) (s : Stream) :
    literal.run (s.behind [first.lexeme]) = (Literal.name <$> pathFrom first).run s := rfl

/-- An argument of an annotation is read by its first two lexemes.  After a name, only an equals
sign tells the fields of a struct from a literal, and both of them begin by reading the name. -/
theorem decided_argument {α : Type} {empty : Parser α}
    {fields : List (Ident × Literal) → Parser α} {value : Literal → Parser α}
    (hempty : Decided n n' empty empty) (hfields : ∀ f, Decided n n' (fields f) (fields f))
    (hvalue : ∀ l, Decided n n' (value l) (value l)) :
    let argument : Parser α := do
      match ← peek, ← peekSecond with
      | some (.mark .closeParen), _ => empty
      | some (.name _), some (.mark .equals) => structFields literal >>= fields
      | _, _ => literal >>= value
    Decided n n' argument argument := by
  intro argument
  have hliteral : Decided n n' (literal >>= value) (literal >>= value) :=
    decided_bind decided_literal hvalue
  have same {x : Lexeme} (q : Parser α) (hq : Decided n n' q q)
      (run : ∀ s : Stream, argument.run (s.behind [x]) = q.run (s.behind [x])) :
      Opens n n' argument argument x := .same q q hq run run
  refine decided_of_opens (fun stop bound => ?_) ?_
  · exact beyond_unexpectedEnd stop bound "literal"
  rintro ⟨t, span⟩
  cases t with
  | mark m =>
    cases m with
    | closeParen => exact same _ hempty fun _ => rfl
    | _ => exact same _ hliteral fun _ => rfl
  | name s =>
    have hfrom (first : Ident) : Decided n n'
        (do if (← peek) = some (.mark .equals) then structFieldsFrom literal first >>= fields
            else (Literal.name <$> pathFrom first) >>= value)
        (do if (← peek) = some (.mark .equals) then structFieldsFrom literal first >>= fields
            else (Literal.name <$> pathFrom first) >>= value) :=
      decided_peek fun _ => decided_ite
        (decided_bind (decided_structFieldsFrom (fun _ _ => decided_literal) first) hfields)
        (decided_bind (decided_map _ (decided_pathFrom first)) hvalue)
    refine same _ (decided_bind decided_ident hfrom) fun l => ?_
    have hother : (literal >>= value).run (l.behind [⟨.name s, span⟩]) =
        ((Literal.name <$> pathFrom ⟨span, s⟩) >>= value).run l := by
      rw [StateT.run_bind, StateT.run_bind, ← run_literal_name]
      rfl
    obtain ⟨_ | ⟨⟨t, span'⟩, l⟩, stop, bound⟩ := l
    · exact hother
    · cases t with
      | mark m =>
        cases m with
        | equals =>
          have hrun : (structFields literal >>= fields).run
              (Stream.behind ⟨⟨.mark .equals, span'⟩ :: l, stop, bound⟩ [⟨.name s, span⟩]) =
                (structFieldsFrom literal ⟨span, s⟩ >>= fields).run
                  ⟨⟨.mark .equals, span'⟩ :: l, stop, bound⟩ := by
            rw [StateT.run_bind, StateT.run_bind, ← run_structFields_name]
            rfl
          exact hrun
        | _ => exact hother
      | _ => exact hother
  | _ => exact same _ hliteral fun _ => rfl

theorem decided_application : Decided n n' application application := by
  refine decided_bind (decided_mark _) fun start => decided_bind decided_path fun name => ?_
  refine decided_bind (decided_accept? _) fun o => ?_
  cases o with
  | none => exact decided_pure _
  | some openSpan =>
    have hclose (l : Span → Literal) : Decided n n'
        (do let stop ← mark .closeParen; return (⟨start.cover stop, name, some (l stop)⟩ : Application))
        (do let stop ← mark .closeParen; return ⟨start.cover stop, name, some (l stop)⟩) :=
      decided_bind (decided_mark _) fun _ => decided_pure _
    refine decided_argument (decided_bind decided_bump fun _ => decided_pure _) ?_ ?_
    · exact fun fields => hclose fun stop => .struct (openSpan.cover stop) fields
    · exact fun value => hclose fun _ => value

theorem progresses_applications : Progresses n
    (do if (← peek) = some (.mark .dollar) then some <$> application else return none) := by
  refine progresses_peek fun t => ?_
  split
  · refine progresses_some sound_application fun used a ha => ?_
    obtain ⟨span, rest, rfl⟩ := ha.start
    exact List.cons_ne_nil _ _
  · exact progresses_none

theorem decided_applications : Decided n n' applications applications :=
  decided_many (decided_peek fun _ => decided_ite (decided_map some decided_application)
    (decided_pure none)) progresses_applications

end SchemaLang.Parser
