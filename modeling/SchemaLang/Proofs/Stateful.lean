import SchemaLang.Link.Lookup

/-!
# Steps of linking with a state

`Stateful σ` is a step of linking that reads and writes a state.  What it has written is there even
if it fails, and it comes to nothing if it is nested more deeply than a bound allows.
-/

namespace SchemaLang

/-- A step of linking with a state.  It comes to nothing if a bound is exceeded. -/
abbrev Stateful (σ : Type) := ExceptT SchemaError (StateT σ Option)

namespace Stateful

variable {σ α β : Type}

/-- A step that leaves the state alone. -/
def lift (x : Link α) : Stateful σ α := fun s => some (x, s)

theorem bind_ok {x : Stateful σ α} {f : α → Stateful σ β} {s s' : σ} {a : α}
    (h : x s = some (.ok a, s')) : (x >>= f) s = f a s' := by
  show (x s).bind _ = _
  rw [h]
  rfl

theorem bind_error {x : Stateful σ α} {f : α → Stateful σ β} {s s' : σ} {e : SchemaError}
    (h : x s = some (.error e, s')) : (x >>= f) s = some (.error e, s') := by
  show (x s).bind _ = _
  rw [h]
  rfl

end Stateful

end SchemaLang
