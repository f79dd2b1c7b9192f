namespace LineRules

variable {ε α β : Type} {a : α} {b : β} {e : ε} {x : Except ε α} {g : α → Except ε β}

@[simp] theorem ok_bind : (Except.ok a >>= g : Except ε β) = g a :=
  rfl

@[simp] theorem error_bind : (Except.error e >>= g : Except ε β) = .error e :=
  rfl

@[simp] theorem pure_ok : (pure a : Except ε α) = .ok a :=
  rfl

@[simp] theorem throw_error : (throw e : Except ε α) = .error e :=
  rfl

theorem bind_ok : (x >>= g) = .ok b ↔ ∃ a, x = .ok a ∧ g a = .ok b := by
  cases x with
  | error e => simp
  | ok a => simp

end LineRules
