import ShapeCodec.Error

/-!
# Results that succeed

A sequence of steps succeeds exactly when each step does, which takes it apart step by step.
-/

namespace ShapeCodec.Result

variable {ε α β : Type}

@[simp] theorem pure_eq_ok (a : α) : (pure a : Except ε α) = .ok a := rfl

@[simp] theorem throw_eq_error (e : ε) : (throw e : Except ε α) = .error e := rfl

@[simp] theorem ok_bind (a : α) (f : α → Except ε β) : (Except.ok a >>= f) = f a := rfl

@[simp] theorem error_bind (e : ε) (f : α → Except ε β) :
    ((Except.error e : Except ε α) >>= f) = .error e := rfl

theorem bind_eq_ok {x : Except ε α} {f : α → Except ε β} {b : β} :
    (x >>= f) = .ok b ↔ ∃ a, x = .ok a ∧ f a = .ok b := by
  cases x <;> simp

theorem bind_eq_error {x : Except ε α} {f : α → Except ε β} {e : ε} :
    (x >>= f) = .error e ↔ x = .error e ∨ ∃ a, x = .ok a ∧ f a = .error e := by
  cases x <;> simp

theorem map_eq_ok {x : Except ε α} {f : α → β} {b : β} :
    x.map f = .ok b ↔ ∃ a, x = .ok a ∧ f a = b := by
  cases x <;> simp [Except.map]

theorem map_eq_error {x : Except ε α} {f : α → β} {e : ε} : x.map f = .error e ↔ x = .error e := by
  cases x <;> simp [Except.map]

theorem isOk_iff {r : Except ε α} : r.isOk = true ↔ ∃ a, r = .ok a := by
  cases r <;> simp [Except.isOk, Except.toBool]

/-- Steps that come to the same for each element come to the same in all. -/
theorem mapM_congr {f g : α → Except ε β} {xs : List α} (h : ∀ x ∈ xs, f x = g x) :
    xs.mapM f = xs.mapM g := by
  induction xs with
  | nil => rfl
  | cons x xs ih =>
      obtain ⟨hx, h⟩ := List.forall_mem_cons.mp h
      rw [List.mapM_cons, List.mapM_cons, hx, ih h]

theorem of_mapM_eq_error {f : α → Except ε β} {xs : List α} {e : ε} (h : xs.mapM f = .error e) :
    ∃ x ∈ xs, f x = .error e := by
  induction xs with
  | nil => simp at h
  | cons x xs ih =>
      rw [List.mapM_cons] at h
      rcases bind_eq_error.mp h with h | ⟨y, -, h⟩
      · exact ⟨x, List.mem_cons_self .., h⟩
      rcases bind_eq_error.mp h with h | ⟨ys, -, h⟩
      · obtain ⟨x, hx, h⟩ := ih h
        exact ⟨x, List.mem_cons_of_mem _ hx, h⟩
      · simp at h

/-! ### Values without errors -/

theorem toOption_bind (r : Except ε α) (f : α → Except ε β) :
    (r >>= f).toOption = r.toOption.bind fun a => (f a).toOption := by
  cases r <;> rfl

theorem toOption_map (r : Except ε α) (f : α → β) :
    (r.map f).toOption = r.toOption.map f := by
  cases r <;> rfl

theorem toOption_eq_some {r : Except ε α} {a : α} : r.toOption = some a ↔ r = .ok a := by
  cases r <;> simp [Except.toOption]

/-- Two steps succeed with the same value, or both fail, for whatever reasons. -/
def Alike (r r' : Except ε α) : Prop :=
  r.toOption = r'.toOption

namespace Alike

variable {r r' : Except ε α}

theorem ok_iff (h : Alike r r') {a : α} : r = .ok a ↔ r' = .ok a := by
  rw [← toOption_eq_some, ← toOption_eq_some, h]

theorem of_ok_iff (h : ∀ a, r = .ok a ↔ r' = .ok a) : Alike r r' :=
  Option.ext fun a => by rw [toOption_eq_some, toOption_eq_some, h a]

theorem of_fail (h : ∀ a, r ≠ .ok a) (h' : ∀ a, r' ≠ .ok a) : Alike r r' := by
  cases r with
  | ok a => exact absurd rfl (h a)
  | error e =>
      cases r' with
      | ok a => exact absurd rfl (h' a)
      | error e' => rfl

theorem bind {f g : α → Except ε β} (h : Alike r r') (hf : ∀ a, Alike (f a) (g a)) :
    Alike (r >>= f) (r' >>= g) := by
  unfold Alike at h ⊢
  rw [toOption_bind, toOption_bind, h]
  exact congrArg _ (funext hf)

theorem map (h : Alike r r') (f : α → β) : Alike (r.map f) (r'.map f) := by
  unfold Alike at h ⊢
  rw [toOption_map, toOption_map, h]

end Alike

end ShapeCodec.Result
