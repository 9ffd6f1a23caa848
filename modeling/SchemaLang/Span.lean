/-!
# Byte ranges

A `Span` is a half-open range of byte offsets into a source text.  Every token, every node of a
parsed module and every error carries one.  `Span.cover` joins two spans into the smallest one
that holds both.
-/

namespace SchemaLang

/-- The bytes from `start` up to, but not including, `stop`. -/
structure Span where
  start : Nat
  stop : Nat
deriving DecidableEq, Inhabited

namespace Span

/-- The empty span at a position. -/
def point (pos : Nat) : Span := ⟨pos, pos⟩

/-- The smallest span that holds both `a` and `b`. -/
def cover (a b : Span) : Span := ⟨min a.start b.start, max a.stop b.stop⟩

/-- `a` lies inside `b`. -/
def Within (a b : Span) : Prop := b.start ≤ a.start ∧ a.stop ≤ b.stop

theorem within_cover_left (a b : Span) : a.Within (a.cover b) :=
  ⟨Nat.min_le_left _ _, Nat.le_max_left _ _⟩

theorem within_cover_right (a b : Span) : b.Within (a.cover b) :=
  ⟨Nat.min_le_right _ _, Nat.le_max_right _ _⟩

end Span

end SchemaLang
