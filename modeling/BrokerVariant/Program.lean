import BrokerVariant.Lifecycle

/-!
# Client programs

A client declares variants, constructs, copies, moves, assigns and destroys them, and
looks at them through `which`, `get`, `is`, `std::hash`, `==`, `<` and visitation. A
straight-line program of such statements runs over numbered variables; what the client
sees of a run is the list of its observations and how it ended. An exception leaves the
program, and undefined behaviour ends the run with no further meaning.

Every store a run reaches holds consistent variants only: each statement that returns
keeps the invariant, by the lemmas of `Lifecycle`.
-/

namespace Broker.Util

variable {Ty Val Exn R : Type}

/-- A question a client asks of its variables. A visitor is a function of the values
it is handed. -/
inductive Query (Ty Val R : Type) where
  | which (x : Nat)
  | get (x : Nat) (S : Alt Ty)
  | is (x : Nat) (S : Alt Ty)
  | hash (x : Nat)
  | eq (x y : Nat)
  | lt (x y : Nat)
  | visit (f : List (Ty × Val) → R) (x : Nat) (ys : List Nat)

/-- A client statement over numbered variables. `value x t a rvalue` is `variant x(u)`
for an argument `u` of type `t` holding `a`, passed as an rvalue or an lvalue. -/
inductive Stmt (Ty Val R : Type) where
  | default (x : Nat)
  | value (x : Nat) (t : Ty) (a : Val) (rvalue : Bool)
  | make (x t : Nat)
  | copy (x y : Nat)
  | move (x y : Nat)
  | assign (x y : Nat)
  | moveAssign (x y : Nat)
  | destroy (x : Nat)
  | observe (q : Query Ty Val R)

/-- What a client sees: the answer to a query. -/
inductive Obs (Val R : Type) where
  | which (n : Nat)
  | get (p : Option Val)
  | is (b : Bool)
  | hash (n : Nat)
  | eq (b : Bool)
  | lt (b : Bool)
  | visit (r : R)
  deriving DecidableEq, Repr

/-- The variables: `none` outside the lifetime of a variable's object. -/
abbrev Store (Ty Val : Type) := Nat → Option (Variant Ty Val)

/-- Using variable `x`, which must be alive. -/
def load (st : Store Ty Val) (x : Nat) : Result Exn (Variant Ty Val) :=
  match st x with
  | some v => .ok v
  | none => .ub .noObject

/-- Using variables `ys`, all alive. -/
def loadAll (st : Store Ty Val) : List Nat → Result Exn (List (Variant Ty Val))
  | [] => .ok []
  | y :: ys => do
    let v ← load st y
    let vs ← loadAll st ys
    pure (v :: vs)

/-- Declaring variable `x` with the variant a constructor built. Its storage must not
hold a live variable. -/
def declare {α : Type} (st : Store Ty Val) (x : Nat)
    (r : Result (Exn × Variant Ty Val) (α × Variant Ty Val)) : Result Exn (α × Store Ty Val) :=
  match st x with
  | some _ => .ub .occupied
  | none => (fun p => (p.1, Function.update st x (some p.2))) <$> r.uncaught

theorem load_eq_ok {st : Store Ty Val} {x : Nat} {v : Variant Ty Val} :
    (load st x : Result Exn _) = .ok v ↔ st x = some v := by
  unfold load
  cases st x <;> simp

theorem declare_eq_ok {α : Type} {st st' : Store Ty Val} {x : Nat}
    {r : Result (Exn × Variant Ty Val) (α × Variant Ty Val)} {a : α} :
    declare st x r = .ok (a, st') ↔
      st x = none ∧ ∃ v, r = .ok (a, v) ∧ st' = Function.update st x (some v) := by
  unfold declare
  cases st x with
  | some _ => simp
  | none => rcases r with ⟨b, v⟩ | ⟨e, s⟩ | w <;> simp [and_assoc, eq_comm]

/-- Every live variable keeps the invariant. -/
def Sound (Ts : List (Alt Ty)) (st : Store Ty Val) : Prop := ∀ x v, st x = some v → Consistent Ts v

theorem Sound.update {Ts : List (Alt Ty)} {st : Store Ty Val} (h : Sound Ts st) (x : Nat) {v : Variant Ty Val}
    (hv : Consistent Ts v) : Sound Ts (Function.update st x (some v)) := by
  intro y w hy
  by_cases hxy : y = x
  · subst hxy
    rw [Function.update_same, Option.some.injEq] at hy
    exact hy ▸ hv
  · rw [Function.update_noteq hxy] at hy
    exact h y w hy

theorem Sound.erase {Ts : List (Alt Ty)} {st : Store Ty Val} (h : Sound Ts st) (x : Nat) :
    Sound Ts (Function.update st x none) := by
  intro y w hy
  by_cases hxy : y = x
  · subst hxy; simp at hy
  · rw [Function.update_noteq hxy] at hy
    exact h y w hy

variable [DecidableEq Ty] (Ts : List (Alt Ty)) (M : Members Ty Val Exn)

/-- The answer to a query. -/
def query : Query Ty Val R → Store Ty Val → Result Exn (Obs Val R)
  | .which x, st => do
    let v ← load st x
    pure (.which (which v))
  | .get x S, st => do
    let v ← load st x
    let p ← get Ts S v
    pure (.get p)
  | .is x S, st => do
    let v ← load st x
    let b ← is Ts S v
    pure (.is b)
  | .hash x, st => do
    let v ← load st x
    let n ← hash Ts M v
    pure (.hash n)
  | .eq x y, st => do
    let v ← load st x
    let w ← load st y
    let b ← opEq Ts M v w
    pure (.eq b)
  | .lt x y, st => do
    let v ← load st x
    let w ← load st y
    let b ← opLt Ts M v w
    pure (.lt b)
  | .visit f x ys, st => do
    let v ← load st x
    let vs ← loadAll st ys
    let p ← visit Ts (.client fun xs s => (f xs, s)) v vs ()
    pure (.visit p.1)

/-- One statement: its observation, if it makes one, and the variables after it. -/
def step : Stmt Ty Val R → Store Ty Val → Result Exn (Option (Obs Val R) × Store Ty Val)
  | .default x, st => (fun p => (none, p.2)) <$> declare st x (variantDefault Ts M Variant.fresh)
  | .value x t a rvalue, st =>
    (fun p => (none, p.2)) <$> declare st x (variantValue Ts M (.plain t a) rvalue Variant.fresh)
  | .make x t, st => (fun p => (none, p.2)) <$> declare st x (make Ts M t)
  | .copy x y, st => do
    let w ← load st y
    let p ← declare st x (variantCopy Ts M w Variant.fresh)
    pure (none, p.2)
  | .move x y, st => do
    let w ← load st y
    let p ← declare st x (variantMove Ts M w Variant.fresh)
    pure (none, Function.update p.2 y (some p.1))
  | .assign x y, st => do
    let w ← load st y
    let v ← load st x
    let p ← (opAssign Ts M w v).uncaught
    pure (none, Function.update st x (some p.2))
  | .moveAssign x y, st => do
    let w ← load st y
    let v ← load st x
    let p ← (opMoveAssign Ts M w v).uncaught
    pure (none, Function.update (Function.update st x (some p.2)) y (some p.1))
  | .destroy x, st => do
    let v ← load st x
    let _ ← (destruct Ts v).uncaught
    pure (none, Function.update st x none)
  | .observe q, st => (fun o => (some o, st)) <$> query Ts M q st

/-- A run: the observations made, and how it ended. -/
def run : List (Stmt Ty Val R) → Store Ty Val → List (Obs Val R) × Result Exn Unit
  | [], _ => ([], .ok ())
  | s :: p, st =>
    match step Ts M s st with
    | .ok (o, st') => (o.toList ++ (run p st').1, (run p st').2)
    | .throw e => ([], .throw e)
    | .ub w => ([], .ub w)

/-- The stores that runs from no variables reach. -/
inductive Reachable (R : Type) : Store Ty Val → Prop
  | empty : Reachable R fun _ => none
  | step {st st' : Store Ty Val} {o : Option (Obs Val R)} (s : Stmt Ty Val R) :
      Reachable R st → step Ts M s st = .ok (o, st') → Reachable R st'

variable {Ts M}

omit [DecidableEq Ty] in
theorem Sound.declare {α : Type} {st st' : Store Ty Val} {x : Nat}
    {r : Result (Exn × Variant Ty Val) (α × Variant Ty Val)} {a : α} (hst : Sound Ts st)
    (h : declare st x r = .ok (a, st')) (hr : ∀ a v, r = .ok (a, v) → Consistent Ts v) :
    Sound Ts st' := by
  obtain ⟨-, v, hv, rfl⟩ := declare_eq_ok.1 h
  exact hst.update x (hr _ _ hv)

/-- **One statement keeps every variable consistent.** -/
theorem step_sound {s : Stmt Ty Val R} {st st' : Store Ty Val} {o : Option (Obs Val R)}
    (hst : Sound Ts st) (h : step Ts M s st = .ok (o, st')) : Sound Ts st' := by
  have live : ∀ {x v}, (load st x : Result Exn _) = .ok v → Consistent Ts v :=
    fun hx => hst _ _ (load_eq_ok.1 hx)
  cases s with
  | default x =>
    obtain ⟨⟨_, st1⟩, hp, ⟨⟩⟩ := Result.map_eq_ok.1 h
    exact hst.declare hp fun _ _ h => (variantDefault_valid h).consistent
  | value x t a rvalue =>
    obtain ⟨⟨_, st1⟩, hp, ⟨⟩⟩ := Result.map_eq_ok.1 h
    exact hst.declare hp fun _ _ h => (variantValue_valid h ⟨t, a, rfl⟩).consistent
  | make x t =>
    obtain ⟨⟨_, st1⟩, hp, ⟨⟩⟩ := Result.map_eq_ok.1 h
    exact hst.declare hp fun _ _ h => (make_valid h).consistent
  | copy x y =>
    obtain ⟨w, hw, h⟩ := Result.bind_eq_ok.1 h
    obtain ⟨⟨_, st1⟩, hp, ⟨⟩⟩ := Result.bind_eq_ok.1 h
    exact hst.declare hp fun _ _ h => (variantCopy_valid (live hw) h).consistent
  | move x y =>
    obtain ⟨w, hw, h⟩ := Result.bind_eq_ok.1 h
    obtain ⟨⟨w', st1⟩, hp, ⟨⟩⟩ := Result.bind_eq_ok.1 h
    obtain ⟨-, v', hv', rfl⟩ := declare_eq_ok.1 hp
    obtain ⟨hv, hw', -⟩ := variantMove_consistent (live hw) hv'
    exact (hst.update x hv).update y hw'
  | assign x y =>
    obtain ⟨w, hw, h⟩ := Result.bind_eq_ok.1 h
    obtain ⟨v, hv, h⟩ := Result.bind_eq_ok.1 h
    obtain ⟨⟨_, v'⟩, hp, ⟨⟩⟩ := Result.bind_eq_ok.1 h
    exact hst.update x (opAssign_valid (live hv) (live hw) (Result.uncaught_eq_ok.1 hp)).consistent
  | moveAssign x y =>
    obtain ⟨w, hw, h⟩ := Result.bind_eq_ok.1 h
    obtain ⟨v, hv, h⟩ := Result.bind_eq_ok.1 h
    obtain ⟨⟨w', v'⟩, hp, ⟨⟩⟩ := Result.bind_eq_ok.1 h
    obtain ⟨hv', hw', -⟩ := opMoveAssign_consistent (live hv) (live hw) (Result.uncaught_eq_ok.1 hp)
    exact (hst.update x hv').update y hw'
  | destroy x =>
    obtain ⟨v, -, h⟩ := Result.bind_eq_ok.1 h
    obtain ⟨_, -, ⟨⟩⟩ := Result.bind_eq_ok.1 h
    exact hst.erase x
  | observe q =>
    obtain ⟨_, -, ⟨⟩⟩ := Result.map_eq_ok.1 h
    exact hst

/-- **Every store a run reaches holds consistent variants only.** -/
theorem Reachable.sound {st : Store Ty Val} (h : Reachable Ts M R st) : Sound Ts st := by
  induction h with
  | empty => intro _ _ h; cases h
  | step _ _ hs ih => exact step_sound ih hs

end Broker.Util
