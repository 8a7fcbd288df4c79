import Mathlib.Logic.Basic

/-!
# C++ runs: returning, throwing, undefined

The header is C++, so a run of one of its functions ends in one of three ways: it
returns, it throws, or its behaviour is undefined. `Result` records which, and
`Cxx` adds the objects a member function updates in place. An exception keeps the
state it was thrown in, because the exception guarantees `variant` gives are
statements about that state: a copy assignment that throws leaves its left-hand
side as it was.

Undefined behaviour carries its cause. Besides what the standard leaves undefined
(touching storage through a pointer to a type other than its object's,
dereferencing a null `unique_ptr`, leaving a value-returning function without a
`return`, modifying a const object), the causes include the breaches of the buffer
discipline `variant` keeps by hand: constructing into storage that already holds a
live object, and reading or destroying storage that holds none. An instantiation the
language rejects has no run at all; a statement that needs one ends the run there.
-/

namespace Broker

/-- Why a run has no defined meaning. -/
inductive Undefined where
  /-- The storage is read or destroyed while no object is live in it. -/
  | emptyStorage
  /-- The storage is used through a pointer to a type other than its live object's. -/
  | wrongType
  /-- Placement new into storage that already holds a live object. -/
  | occupied
  /-- `*item` on a `recursive_wrapper` that was moved from. -/
  | nullItem
  /-- The `assert` of `visit_impl`: a discriminator outside `[0, n)`. -/
  | badTag
  /-- Control reaches the end of a function that returns a value. -/
  | noReturn
  /-- The instantiation is ill-formed, so there is no run at all. -/
  | illFormed
  /-- A const object is modified: `construct` places a `const T` for an lvalue. -/
  | constWrite
  /-- A variable is used outside the lifetime of its object. -/
  | noObject
  deriving DecidableEq, Repr

/-- How a run ends. -/
inductive Result (ε α : Type) where
  | ok (a : α)
  | throw (e : ε)
  | ub (why : Undefined)
  deriving DecidableEq, Repr

namespace Result
variable {ε α β : Type}

/-- Sequencing: an exception or undefined behaviour ends the run. -/
def bind : Result ε α → (α → Result ε β) → Result ε β
  | ok a, f => f a
  | throw e, _ => throw e
  | ub w, _ => ub w

instance : Monad (Result ε) where
  pure := ok
  bind := bind

@[simp] theorem pure_eq (a : α) : (pure a : Result ε α) = ok a := rfl
@[simp] theorem ok_bind (a : α) (f : α → Result ε β) : (ok a >>= f) = f a := rfl
@[simp] theorem throw_bind (e : ε) (f : α → Result ε β) : (throw e >>= f) = throw e := rfl
@[simp] theorem ub_bind (w : Undefined) (f : α → Result ε β) : (ub w >>= f) = ub w := rfl
@[simp] theorem map_ok (f : α → β) (a : α) : (f <$> ok a : Result ε β) = ok (f a) := rfl
@[simp] theorem map_throw (f : α → β) (e : ε) : (f <$> throw e : Result ε β) = throw e := rfl
@[simp] theorem map_ub (f : α → β) (w : Undefined) : (f <$> ub w : Result ε β) = ub w := rfl

theorem bind_eq_ok {r : Result ε α} {f : α → Result ε β} {b : β} :
    r >>= f = ok b ↔ ∃ a, r = ok a ∧ f a = ok b := by
  cases r <;> simp

theorem map_eq_ok {r : Result ε α} {f : α → β} {b : β} :
    f <$> r = ok b ↔ ∃ a, r = ok a ∧ f a = b := by
  cases r <;> simp

@[simp] theorem bind_eq_ub {r : Result ε α} {f : α → Result ε β} {w : Undefined} :
    r >>= f = ub w ↔ r = ub w ∨ ∃ a, r = ok a ∧ f a = ub w := by
  cases r <;> simp

@[simp] theorem map_eq_ub {r : Result ε α} {f : α → β} {w : Undefined} :
    f <$> r = ub w ↔ r = ub w := by
  cases r <;> simp

theorem bind_pure_eq_ub {r : Result ε α} {f : α → β} {w : Undefined} :
    (r >>= fun a => pure (f a)) = ub w ↔ r = ub w := by
  cases r <;> simp

/-- The outcome of a function that reads its inputs and, if that succeeds, replaces
the state `s` by what `f` makes of the result; an exception leaves `s` as it was. -/
def settle {σ γ : Type} (r : Result ε α) (s : σ) (f : α → γ × σ) : Result (ε × σ) (γ × σ) :=
  match r with
  | ok a => ok (f a)
  | throw e => throw (e, s)
  | ub w => ub w

@[simp] theorem settle_ok {σ γ : Type} (a : α) (s : σ) (f : α → γ × σ) :
    (ok a : Result ε α).settle s f = ok (f a) := rfl
@[simp] theorem settle_throw {σ γ : Type} (e : ε) (s : σ) (f : α → γ × σ) :
    (throw e : Result ε α).settle s f = throw (e, s) := rfl
@[simp] theorem settle_ub {σ γ : Type} (w : Undefined) (s : σ) (f : α → γ × σ) :
    (ub w : Result ε α).settle s f = ub w := rfl

theorem settle_eq_ok {σ γ : Type} {r : Result ε α} {s : σ} {f : α → γ × σ} {p : γ × σ} :
    r.settle s f = ok p ↔ ∃ a, r = ok a ∧ f a = p := by
  cases r <;> simp

theorem settle_eq_throw {σ γ : Type} {r : Result ε α} {s : σ} {f : α → γ × σ} {q : ε × σ} :
    r.settle s f = throw q ↔ ∃ e, r = throw e ∧ (e, s) = q := by
  cases r <;> simp

@[simp] theorem settle_map {σ γ β : Type} (f : α → β) (r : Result ε α) (s : σ) (g : β → γ × σ) :
    (f <$> r).settle s g = r.settle s fun a => g (f a) := by
  cases r <;> rfl

/-- Code after a function that can only return changes the state it leaves, not the
state an exception of the function leaves. -/
@[simp] theorem settle_bind_ok {σ γ δ : Type} (r : Result ε α) (s : σ) (f : α → γ × σ)
    (g : γ × σ → δ × σ) : (r.settle s f >>= fun p => ok (g p)) = r.settle s fun a => g (f a) := by
  cases r <;> rfl

@[simp] theorem settle_eq_ub {σ γ : Type} {r : Result ε α} {s : σ} {f : α → γ × σ}
    {w : Undefined} : r.settle s f = ub w ↔ r = ub w := by
  cases r <;> simp

/-- An exception that leaves the program: no handler sees the state it was thrown in. -/
def uncaught {σ : Type} : Result (ε × σ) α → Result ε α
  | ok a => ok a
  | throw p => throw p.1
  | ub w => ub w

@[simp] theorem uncaught_ok {σ : Type} (a : α) : (ok a : Result (ε × σ) α).uncaught = ok a := rfl
@[simp] theorem uncaught_throw {σ : Type} (e : ε) (s : σ) :
    (throw (e, s) : Result (ε × σ) α).uncaught = throw e := rfl
@[simp] theorem uncaught_ub {σ : Type} (w : Undefined) :
    (ub w : Result (ε × σ) α).uncaught = ub w := rfl

theorem uncaught_eq_ok {σ : Type} {r : Result (ε × σ) α} {a : α} : r.uncaught = ok a ↔ r = ok a := by
  rcases r with _ | ⟨_, _⟩ | _ <;> simp

@[simp] theorem uncaught_eq_ub {σ : Type} {r : Result (ε × σ) α} {w : Undefined} :
    r.uncaught = ub w ↔ r = ub w := by
  rcases r with _ | ⟨_, _⟩ | _ <;> simp

@[simp] theorem uncaught_settle {σ γ : Type} (r : Result ε α) (s : σ) (f : α → γ × σ) :
    (r.settle s f).uncaught = f <$> r := by
  cases r <;> rfl

/-- Two outcomes that agree: the same exception, the same undefined behaviour, or
two returns whose values are related. -/
inductive Rel {β : Type} (P : α → β → Prop) : Result ε α → Result ε β → Prop
  | ok {a : α} {b : β} : P a b → Rel P (ok a) (ok b)
  | throw (e : ε) : Rel P (throw e) (throw e)
  | ub (w : Undefined) : Rel P (ub w) (ub w)

section rel
variable {β γ δ : Type} {P : α → β → Prop} {Q : γ → δ → Prop} {r : Result ε α} {r' : Result ε β}

theorem Rel.bind {f : α → Result ε γ} {g : β → Result ε δ} (h : Rel P r r')
    (hf : ∀ a b, P a b → Rel Q (f a) (g b)) : Rel Q (r >>= f) (r' >>= g) := by
  cases h with
  | ok hab => exact hf _ _ hab
  | throw e => exact .throw e
  | ub w => exact .ub w

theorem Rel.map {f : α → γ} {g : β → δ} (h : Rel P r r') (hf : ∀ a b, P a b → Q (f a) (g b)) :
    Rel Q (f <$> r) (g <$> r') := by
  cases h with
  | ok hab => exact .ok (hf _ _ hab)
  | throw e => exact .throw e
  | ub w => exact .ub w

theorem Rel.mono {P' : α → β → Prop} (h : Rel P r r') (hP : ∀ a b, P a b → P' a b) : Rel P' r r' := by
  cases h with
  | ok hab => exact .ok (hP _ _ hab)
  | throw e => exact .throw e
  | ub w => exact .ub w

theorem Rel.map_same {f : α → γ} {g : α → δ} (r : Result ε α) (hf : ∀ a, Q (f a) (g a)) :
    Rel Q (f <$> r) (g <$> r) := by
  cases r with
  | ok a => exact .ok (hf a)
  | throw e => exact .throw e
  | ub w => exact .ub w

/-- One outcome agrees with itself when every value it may return is related to itself. -/
theorem Rel.self {P : α → α → Prop} {r : Result ε α} (h : ∀ a, r = .ok a → P a a) : Rel P r r := by
  cases r with
  | ok a => exact .ok (h a rfl)
  | throw e => exact .throw e
  | ub w => exact .ub w

theorem Rel.eq {r r' : Result ε α} (h : Rel (fun a b => b = a) r r') : r' = r := by
  cases h with
  | ok hab => rw [hab]
  | throw e => rfl
  | ub w => rfl

/-- Two outcomes related through a function: the second is the first mapped. -/
theorem Rel.map_eq {f : α → β} (h : Rel (fun a b => f a = b) r r') : f <$> r = r' := by
  cases h with
  | ok hab => rw [← hab]; rfl
  | throw e => rfl
  | ub w => rfl

theorem Rel.of_map_eq {f : α → β} (h : f <$> r = r') : Rel (fun a b => f a = b) r r' := by
  subst h
  cases r with
  | ok a => exact .ok rfl
  | throw e => exact .throw e
  | ub w => exact .ub w

end rel

/-- Where the first outcome is defined, the second agrees with it: both return, with
related values, or both throw the same exception. Undefined behaviour of the first
constrains nothing. -/
inductive Agrees {β : Type} (P : α → β → Prop) : Result ε α → Result ε β → Prop
  | ok {a : α} {b : β} : P a b → Agrees P (ok a) (ok b)
  | throw (e : ε) : Agrees P (throw e) (throw e)
  | ub (w : Undefined) (r' : Result ε β) : Agrees P (ub w) r'

section agrees
variable {β γ δ : Type} {P : α → β → Prop} {Q : γ → δ → Prop} {r : Result ε α} {r' : Result ε β}

@[simp] theorem agrees_ok_iff {a : α} {b : β} : Agrees P (ok a : Result ε α) (ok b) ↔ P a b :=
  ⟨fun | .ok h => h, .ok⟩

@[simp] theorem agrees_ub (w : Undefined) (r' : Result ε β) : Agrees P (ub w : Result ε α) r' :=
  .ub w r'

theorem Rel.agrees (h : Rel P r r') : Agrees P r r' := by
  cases h with
  | ok hab => exact .ok hab
  | throw e => exact .throw e
  | ub w => exact .ub w _

theorem Agrees.bind {f : α → Result ε γ} {g : β → Result ε δ} (h : Agrees P r r')
    (hf : ∀ a b, P a b → Agrees Q (f a) (g b)) : Agrees Q (r >>= f) (r' >>= g) := by
  cases h with
  | ok hab => exact hf _ _ hab
  | throw e => exact .throw e
  | ub w => exact .ub w _

theorem Agrees.map {f : α → γ} {g : β → δ} (h : Agrees P r r')
    (hf : ∀ a b, P a b → Q (f a) (g b)) : Agrees Q (f <$> r) (g <$> r') := by
  cases h with
  | ok hab => exact .ok (hf _ _ hab)
  | throw e => exact .throw e
  | ub w => exact .ub w _

theorem Agrees.mono {P' : α → β → Prop} (h : Agrees P r r') (hP : ∀ a b, P a b → P' a b) :
    Agrees P' r r' := by
  cases h with
  | ok hab => exact .ok (hP _ _ hab)
  | throw e => exact .throw e
  | ub w => exact .ub w _

/-- Where an outcome related through a function is defined, the second is the first
mapped. -/
theorem Agrees.map_eq {f : α → β} (h : Agrees (fun a b => f a = b) r r')
    (hr : ∀ w, r ≠ Result.ub w) : f <$> r = r' := by
  cases h with
  | ok hab => rw [← hab]; rfl
  | throw e => rfl
  | ub w => exact absurd rfl (hr w)

end agrees

end Result

/-- A computation that updates the objects `σ` in place and ends as `Result` says;
an exception carries the state it was thrown in. -/
def Cxx (ε σ α : Type) := σ → Result (ε × σ) (α × σ)

namespace Cxx
variable {ε σ α β : Type}

instance : Monad (Cxx ε σ) where
  pure a := fun s => .ok (a, s)
  bind m f := fun s => m s >>= fun p => f p.1 p.2

/-- The current state. -/
def get : Cxx ε σ σ := fun s => .ok (s, s)

/-- Replace the state. -/
def set (s : σ) : Cxx ε σ Unit := fun _ => .ok ((), s)

/-- Update the state. -/
def modify (f : σ → σ) : Cxx ε σ Unit := fun s => .ok ((), f s)

/-- A computation that only reads, run in the current state. -/
def lift (r : Result ε α) : Cxx ε σ α := fun s => r.settle s fun a => (a, s)

@[simp] theorem run_pure (a : α) (s : σ) : (pure a : Cxx ε σ α) s = .ok (a, s) := rfl
@[simp] theorem run_bind (m : Cxx ε σ α) (f : α → Cxx ε σ β) (s : σ) :
    (m >>= f) s = m s >>= fun p => f p.1 p.2 := rfl
@[simp] theorem run_get (s : σ) : (get : Cxx ε σ σ) s = .ok (s, s) := rfl
@[simp] theorem run_set (s s' : σ) : (set s' : Cxx ε σ Unit) s = .ok ((), s') := rfl
@[simp] theorem run_modify (f : σ → σ) (s : σ) : (modify f : Cxx ε σ Unit) s = .ok ((), f s) :=
  rfl
@[simp] theorem run_lift (r : Result ε α) (s : σ) :
    (lift r : Cxx ε σ α) s = r.settle s fun a => (a, s) := rfl

end Cxx
end Broker
