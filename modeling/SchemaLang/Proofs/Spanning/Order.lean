import Mathlib.Data.List.Basic
import SchemaLang.Proofs.Spanning.Nodes

/-!
# Nodes over lexemes

`InOrder ls` says that the lexemes follow one another, and `Spans ls span` that `span` runs from
the start of the first of them to the end of the last.  `Spread ls n` says that the node `n` spans
its lexemes `ls`, and that so do the nodes below it, each with lexemes of its own.
-/

namespace SchemaLang

open Grammar

/-- `a` ends before `b` begins. -/
def Span.Before (a b : Span) : Prop := a.stop ≤ b.start

/-- The lexemes hold some bytes each, and each ends before the next begins. -/
structure InOrder (ls : List Lexeme) : Prop where
  positive : ∀ x ∈ ls, x.span.start < x.span.stop
  ordered : ls.Pairwise fun x y => x.span.Before y.span

/-- The span runs from the start of the first lexeme to the end of the last. -/
def Spans (ls : List Lexeme) (span : Span) : Prop :=
  ∃ first ∈ ls.head?, ∃ last ∈ ls.getLast?, span = ⟨first.span.start, last.span.stop⟩

namespace InOrder

variable {ls ls' : List Lexeme} {x y : Lexeme}

theorem sublist (h : InOrder ls) (hs : ls'.Sublist ls) : InOrder ls' :=
  ⟨fun x hx => h.positive x (hs.subset hx), h.ordered.sublist hs⟩

theorem start_le (h : InOrder ls) (hx : x ∈ ls.head?) (hy : y ∈ ls) :
    x.span.start ≤ y.span.start := by
  obtain ⟨rest, rfl⟩ := List.head?_eq_some_iff.1 hx
  rcases List.mem_cons.1 hy with rfl | hy
  · exact Nat.le_refl _
  · have hbefore : x.span.stop ≤ y.span.start := List.rel_of_pairwise_cons h.ordered hy
    have := h.positive x List.mem_cons_self
    omega

theorem le_stop (h : InOrder ls) (hx : x ∈ ls) (hy : y ∈ ls.getLast?) :
    x.span.stop ≤ y.span.stop := by
  obtain ⟨rest, rfl⟩ := List.getLast?_eq_some_iff.1 hy
  rcases List.mem_append.1 hx with hx | hx
  · have hbefore : x.span.stop ≤ y.span.start :=
      (List.pairwise_append.1 h.ordered).2.2 x hx y (List.mem_singleton_self y)
    have := h.positive y (List.mem_append_right _ (List.mem_singleton_self y))
    omega
  · exact Nat.le_of_eq (by rw [List.mem_singleton.1 hx])

end InOrder

namespace Spans

variable {ls a b : List Lexeme} {s t : Span}

theorem single (x : Lexeme) : Spans [x] x.span := ⟨x, rfl, x, rfl, rfl⟩

/-- Two spans, one of them of lexemes at the beginning and the other of lexemes at the end, cover
all the lexemes together. -/
theorem cover (hs : Spans a s) (ht : Spans b t) (ha : a <+: ls) (hb : b <:+ ls)
    (h : InOrder ls) : Spans ls (s.cover t) := by
  obtain ⟨x, hx, x', hx', rfl⟩ := hs
  obtain ⟨y', hy', y, hy, rfl⟩ := ht
  have hfirst : x ∈ ls.head? := by
    obtain ⟨rest, rfl⟩ := ha
    exact List.mem_head?_append_of_mem_head? hx
  have hlast : y ∈ ls.getLast? := by
    obtain ⟨before, rfl⟩ := hb
    exact List.mem_getLast?_append_of_mem_getLast? hy
  have hstart := h.start_le hfirst (hb.subset (List.mem_of_mem_head? hy'))
  have hstop := h.le_stop (ha.subset (List.mem_of_mem_getLast? hx')) hlast
  exact ⟨x, hfirst, y, hlast, by rw [Span.cover, Nat.min_eq_left hstart, Nat.max_eq_right hstop]⟩

theorem ends {x y : Lexeme} (hx : x ∈ ls.head?) (hy : y ∈ ls.getLast?) (h : InOrder ls) :
    Spans ls (x.span.cover y.span) := by
  obtain ⟨rest, rfl⟩ := List.head?_eq_some_iff.1 hx
  obtain ⟨before, hlast⟩ := List.getLast?_eq_some_iff.1 hy
  exact cover (single x) (single y) ⟨rest, rfl⟩ ⟨before, hlast.symm⟩ h

theorem before (hs : Spans a s) (ht : Spans b t)
    (h : ∀ x ∈ a, ∀ y ∈ b, x.span.Before y.span) : s.Before t := by
  obtain ⟨-, -, x, hx, rfl⟩ := hs
  obtain ⟨y, hy, -, -, rfl⟩ := ht
  exact h x (List.mem_of_mem_getLast? hx) y (List.mem_of_mem_head? hy)

theorem within (hs : Spans a s) (ht : Spans ls t) (ha : a ⊆ ls) (h : InOrder ls) :
    s.Within t := by
  obtain ⟨x, hx, y, hy, rfl⟩ := hs
  obtain ⟨x', hx', y', hy', rfl⟩ := ht
  exact ⟨h.start_le hx' (ha (List.mem_of_mem_head? hx)),
    h.le_stop (ha (List.mem_of_mem_getLast? hy)) hy'⟩

end Spans

/-! ## Nodes with the nodes below them -/

mutual

/-- The node is what the lexemes mean, it spans them if they are in order, and its children follow
one another in them. -/
inductive Spread : List Lexeme → SyntaxNode → Prop
  | mk {ls : List Lexeme} {n : SyntaxNode} (phrase : n.Phrase ls)
    (spans : InOrder ls → Spans ls n.span) (children : Sequence ls n.children) : Spread ls n

/-- The nodes follow one another in the lexemes, with other lexemes between them. -/
inductive Sequence : List Lexeme → List SyntaxNode → Prop
  | nil : Sequence [] []
  | skip {ls : List Lexeme} {ns : List SyntaxNode} (x : Lexeme) (tail : Sequence ls ns) :
    Sequence (x :: ls) ns
  | cons {ls rest : List Lexeme} {n : SyntaxNode} {ns : List SyntaxNode} (head : Spread ls n)
    (tail : Sequence rest ns) : Sequence (ls ++ rest) (n :: ns)

end

variable {ls ls' : List Lexeme} {n : SyntaxNode} {ns ns' : List SyntaxNode}

theorem Spread.phrase (h : Spread ls n) : n.Phrase ls := by
  obtain ⟨phrase⟩ := h
  exact phrase

theorem Spread.spans (h : Spread ls n) (hls : InOrder ls) : Spans ls n.span := by
  obtain ⟨-, spans⟩ := h
  exact spans hls

theorem Spread.children (h : Spread ls n) : Sequence ls n.children := by
  obtain ⟨-, -, children⟩ := h
  exact children

namespace Sequence

theorem none : ∀ ls, Sequence ls []
  | [] => .nil
  | x :: ls => .skip x (none ls)

theorem append : ∀ {ls ls' ns ns'}, Sequence ls ns → Sequence ls' ns' →
    Sequence (ls ++ ls') (ns ++ ns')
  | _, _, _, _, .nil, h' => h'
  | _, _, _, _, .skip x tail, h' => .skip x (tail.append h')
  | _, _, _, _, .cons head tail, h' => by
    rw [List.append_assoc]
    exact .cons head (tail.append h')

/-- More lexemes may follow. -/
theorem followed (h : Sequence ls ns) (ls' : List Lexeme) : Sequence (ls ++ ls') ns := by
  simpa using h.append (none ls')

theorem one (h : Spread ls n) : Sequence ls [n] := by simpa using Sequence.cons h .nil

/-- A node of one lexeme comes first. -/
theorem single {x : Lexeme} (hn : Spread [x] n) (h : Sequence ls ns) :
    Sequence (x :: ls) (n :: ns) := .cons hn h

theorem ident (i : Ident) (h : Sequence ls ns) : Sequence (i.lexeme :: ls) (.ident i :: ns) :=
  .single ⟨rfl, fun _ => .single i.lexeme, none _⟩ h

/-- Each of the nodes is spread over some of the lexemes. -/
theorem exists_spread : ∀ {ls ns}, Sequence ls ns → ∀ n ∈ ns, ∃ used, used <:+: ls ∧ Spread used n
  | _, _, .nil, _, hn => absurd hn List.not_mem_nil
  | _, _, .skip x tail, n, hn => by
    obtain ⟨used, hused, h⟩ := tail.exists_spread n hn
    exact ⟨used, hused.trans (List.suffix_cons x _).isInfix, h⟩
  | _, _, .cons head tail, n, hn => by
    rcases List.mem_cons.1 hn with rfl | hn
    · exact ⟨_, (List.prefix_append _ _).isInfix, head⟩
    · obtain ⟨used, hused, h⟩ := tail.exists_spread n hn
      exact ⟨used, hused.trans (List.suffix_append _ _).isInfix, h⟩

theorem pairwise_before : ∀ {ls ns}, Sequence ls ns → InOrder ls →
    ns.Pairwise fun a b => a.span.Before b.span
  | _, _, .nil, _ => .nil
  | _, _, .skip x tail, hls => tail.pairwise_before (hls.sublist (List.sublist_cons_self x _))
  | _, _, @Sequence.cons ls rest _ _ head tail, hls => by
    have hrest := hls.sublist (List.sublist_append_right ls rest)
    refine List.pairwise_cons.2 ⟨fun n hn => ?_, tail.pairwise_before hrest⟩
    obtain ⟨used, hused, h⟩ := tail.exists_spread n hn
    have hspans := h.spans (hrest.sublist hused.sublist)
    exact (head.spans (hls.sublist (List.sublist_append_left ls rest))).before hspans
      fun x hx y hy => (List.pairwise_append.1 hls.ordered).2.2 x hx y (hused.subset hy)

end Sequence

namespace Spread

/-- The children of a node lie in its span. -/
theorem within (h : Spread ls n) (hls : InOrder ls) {c : SyntaxNode} (hc : c ∈ n.children) :
    c.span.Within n.span := by
  obtain ⟨used, hused, hspread⟩ := h.children.exists_spread c hc
  exact (hspread.spans (hls.sublist hused.sublist)).within (h.spans hls) hused.subset hls

/-- Every node below a node is spread over some of its lexemes. -/
theorem exists_of_reach {root : SyntaxNode} (h : Spread ls root)
    (hreach : Relation.ReflTransGen (fun n c => c ∈ n.children) root n) :
    ∃ used, used <:+: ls ∧ Spread used n := by
  induction hreach with
  | refl => exact ⟨ls, List.infix_rfl, h⟩
  | tail _ hc ih =>
    obtain ⟨used, hused, hspread⟩ := ih
    obtain ⟨used', hused', hspread'⟩ := hspread.children.exists_spread _ hc
    exact ⟨used', hused'.trans hused, hspread'⟩

end Spread

end SchemaLang
