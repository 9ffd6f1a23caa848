import SchemaLang.Text.Bytes

/-!
# Lines and columns

Where a byte offset lies in a text, for a reader: lines and columns count from one, a column counts
characters, and a line ends after its newline.
-/

namespace SchemaLang

/-- A line and a column of a text. -/
structure Position where
  line : Nat
  column : Nat
deriving DecidableEq

namespace Position

/-- The beginning of a text. -/
def start : Position := ⟨1, 1⟩

/-- The position behind a character. -/
def advance (p : Position) (c : Char) : Position :=
  if c = '\n' then ⟨p.line + 1, 1⟩ else ⟨p.line, p.column + 1⟩

/-- The position that is `offset` bytes further on, or the end of the text. -/
def walk (p : Position) : (offset : Nat) → List Char → Position
  | 0, _ => p
  | _ + 1, [] => p
  | offset + 1, c :: cs => walk (p.advance c) (offset + 1 - c.utf8Size) cs

/-- The position of a byte offset in a text. -/
def ofOffset (text : String) (offset : Nat) : Position := start.walk offset text.toList

/-- The offset right behind some characters is where these characters lead. -/
theorem walk_append (p : Position) (before after : List Char) :
    p.walk (byteSize before) (before ++ after) = before.foldl advance p := by
  induction before generalizing p with
  | nil => cases after <;> rfl
  | cons c cs ih =>
    obtain ⟨n, hn⟩ : ∃ n, c.utf8Size + byteSize cs = n + 1 :=
      ⟨c.utf8Size + byteSize cs - 1, by have := c.utf8Size_pos; omega⟩
    rw [byteSize_cons, hn, List.cons_append, walk, ← hn, Nat.add_sub_cancel_left, ih,
      List.foldl_cons]

end Position

end SchemaLang
