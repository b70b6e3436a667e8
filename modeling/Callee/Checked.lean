set_option autoImplicit false

/-! # Checked arithmetic

Counts, lengths and ids have 32 bits, and arithmetic on them is checked: a number that does not fit ends the program,
which panics. What is computed from such numbers is a `Checked` value. It says what the numbers come to, however large
they grow, and whether all of them fit. If they do not, then the program gets nothing (`Checked.outcome?`), and what
the numbers come to is of no account. -/

namespace Callee

/-- What is computed from numbers of 32 bits. -/
structure Checked (α : Type) where
  /-- What the numbers come to. -/
  value : α
  /-- Whether one of them does not fit into 32 bits. -/
  panicked : Bool
  deriving DecidableEq

namespace Checked

variable {α β : Type}

instance : Monad Checked where
  pure a := { value := a, panicked := false }
  bind r f := { value := (f r.value).value, panicked := r.panicked || (f r.value).panicked }

/-- What the program gets. It gets nothing if it panics. -/
def outcome? (r : Checked α) : Option α :=
  if r.panicked then none else some r.value

@[simp] theorem value_pure (a : α) : (pure a : Checked α).value = a := rfl

@[simp] theorem panicked_pure (a : α) : (pure a : Checked α).panicked = false := rfl

@[simp] theorem value_bind (r : Checked α) (f : α → Checked β) : (r >>= f).value = (f r.value).value := rfl

@[simp] theorem panicked_bind (r : Checked α) (f : α → Checked β) :
    (r >>= f).panicked = (r.panicked || (f r.value).panicked) := rfl

theorem outcome?_eq_some_iff {r : Checked α} {a : α} : r.outcome? = some a ↔ r.panicked = false ∧ r.value = a := by
  unfold outcome?
  cases r.panicked <;> simp

theorem outcome?_eq_none_iff {r : Checked α} : r.outcome? = none ↔ r.panicked = true := by
  unfold outcome?
  cases r.panicked <;> simp

end Checked

end Callee
