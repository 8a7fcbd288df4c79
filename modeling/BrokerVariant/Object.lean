import BrokerVariant.Cxx

/-!
# Alternatives, their members, and `recursive_wrapper`

A variant is instantiated with a list of alternatives, each an ordinary type `T`
or `detail::recursive_wrapper<T>`, the box that keeps its `T` on the heap so that
`T` may contain the variant itself. The header never looks inside an ordinary
alternative: it only calls its members (constructors, assignments, `==`, `<`,
`std::hash`). So the alternative types are parameters: a set `Ty` of type names, one
carrier `Val` for the values of all of them, and `Members`, the semantics of each
member at each type. `recursive_wrapper` is code of the header, so its members are
modelled from its source, on top of those of the `T` it boxes.

An object knows the type it was constructed as. That is what the storage of a
variant is checked against: a read through a `T*` of storage whose live object is
not a `T` is undefined.

Overload resolution needs the implicit conversions between the alternative types, and
the rank of each; they are members too.
-/

namespace Broker.Util

variable {Ty Val Exn : Type}

/-- An alternative of a variant: a type `T`, or `recursive_wrapper<T>`. -/
inductive Alt (Ty : Type) where
  | plain (t : Ty)
  | wrapper (t : Ty)
  deriving DecidableEq, Repr

/-- A live object: a `T` with its value, or a `recursive_wrapper<T>` whose
`std::unique_ptr<T> item` owns a `T` or, once the wrapper was moved from, is null. -/
inductive Obj (Ty Val : Type) where
  | plain (t : Ty) (x : Val)
  | wrapper (t : Ty) (item : Option Val)
  deriving DecidableEq, Repr

/-- The rank of an implicit conversion sequence other than the identity, in the order
overload resolution compares them ([over.ics.rank]): an exact match (an lvalue
transformation or a qualification adjustment), a promotion, a conversion, and a
user-defined conversion, which every standard conversion sequence beats. -/
inductive Rank where
  | exact
  | promotion
  | conversion
  | userDefined
  deriving DecidableEq, Repr

/-- The position of a rank in that order, best first. `0` is left for the identity,
which is a proper subsequence of every other conversion sequence and so beats them all. -/
def Rank.key : Rank → Nat
  | exact => 1
  | promotion => 2
  | conversion => 3
  | userDefined => 4

theorem Rank.key_pos (r : Rank) : 0 < r.key := by cases r <;> decide

/-- The members of the alternative types that `variant` and `recursive_wrapper`
call, each at the type it belongs to. Destructors are `noexcept` and leave nothing
to observe, so they have no field. -/
structure Members (Ty Val Exn : Type) where
  /-- Value initialisation `T()`, which `default_ctor` and `front{}` use. -/
  valueInit : Ty → Val
  /-- The copy constructor `T(const T&)`; it may throw. -/
  copy : Ty → Val → Result Exn Val
  /-- The move constructor `T(T&&)`, which `variant` requires not to throw: the new
  object's value and the value the donor is left holding. -/
  move : Ty → Val → Val × Val
  /-- Copy assignment `lhs = rhs`: the value `lhs` is left holding. It may throw,
  and then leaves `lhs` as it was. -/
  copyAssign : Ty → Val → Val → Result Exn Val
  /-- Move assignment `lhs = std::move(rhs)`, required not to throw: the values
  `lhs` and `rhs` are left holding. -/
  moveAssign : Ty → Val → Val → Val × Val
  /-- `operator==`. -/
  eq : Ty → Val → Val → Bool
  /-- `operator<`. -/
  lt : Ty → Val → Val → Bool
  /-- `std::hash<T>{}`. -/
  hash : Ty → Val → Nat
  /-- `operator new`, which `recursive_wrapper` calls for its heap object: it
  succeeds or throws `std::bad_alloc`. -/
  alloc : Result Exn Unit
  /-- Whether the move constructor and move assignment of `T` write the object they
  move from: a `std::string`'s do, an `int`'s, which copies, does not. -/
  moveWrites : Ty → Bool
  /-- The implicit conversion from an argument of type `a` to another type `T`, with the
  rank overload resolution gives it; `none` when `std::is_convertible<A, T>` is false. -/
  conv : Ty → Ty → Option Rank
  /-- The value that conversion makes of the argument's. It may throw, and it leaves the
  argument as it was. -/
  convert : Ty → Ty → Val → Result Exn Val

/-- The type an alternative holds a value of: `T`, for `T` and for
`recursive_wrapper<T>` alike. -/
def Alt.base : Alt Ty → Ty
  | .plain t | .wrapper t => t

@[simp] theorem Alt.base_plain (t : Ty) : (Alt.plain t).base = t := rfl
@[simp] theorem Alt.base_wrapper (t : Ty) : (Alt.wrapper t).base = t := rfl

/-- The members of regular value types: copies and moves reproduce their source and
never throw, a move leaves the donor as it was and does not write it, allocation
succeeds, and no type converts implicitly to another. -/
def Members.regular (init : Ty → Val) (eq lt : Ty → Val → Val → Bool) (hash : Ty → Val → Nat) :
    Members Ty Val Exn where
  valueInit := init
  copy _ x := .ok x
  move _ x := (x, x)
  copyAssign _ _ y := .ok y
  moveAssign _ _ y := (y, y)
  eq := eq
  lt := lt
  hash := hash
  alloc := .ok ()
  moveWrites _ := false
  conv _ _ := none
  convert _ _ x := .ok x

/-- Natural numbers at every type, with their own `==`, `<` and the identity hash: the
instantiation the concrete witnesses of this development run on. -/
def Members.nat : Members Nat Nat Unit :=
  .regular (fun _ => 0) (fun _ a b => a == b) (fun _ a b => decide (a < b)) (fun _ a => a)

namespace Obj

/-- The type the object was constructed as. -/
def type : Obj Ty Val → Alt Ty
  | plain t _ => .plain t
  | wrapper t _ => .wrapper t

/-- The value the object stands for, with its type: its own, or the one a wrapper
owns on the heap. A wrapper that was moved from stands for none. -/
def value : Obj Ty Val → Option (Ty × Val)
  | plain t x => some (t, x)
  | wrapper t item => item.map (t, ·)

@[simp] theorem type_plain (t : Ty) (x : Val) : (plain t x).type = .plain t := rfl
@[simp] theorem type_wrapper (t : Ty) (item : Option Val) :
    (wrapper t item : Obj Ty Val).type = .wrapper t := rfl
@[simp] theorem value_plain (t : Ty) (x : Val) : (plain t x).value = some (t, x) := rfl
@[simp] theorem value_wrapper (t : Ty) (item : Option Val) :
    (wrapper t item).value = item.map (t, ·) := rfl

theorem base_of_value {o : Obj Ty Val} {t : Ty} {x : Val} (h : o.value = some (t, x)) :
    o.type.base = t := by
  cases o with
  | plain _ _ => cases h; rfl
  | wrapper _ item => cases item <;> cases h; rfl

/-- Whether an assignment to the object writes the object itself. An ordinary type's
does; a wrapper's copy assignment `*item = rhs.get()` writes the `T` its `item` owns,
a heap object apart from the wrapper. -/
def assignWrites : Obj Ty Val → Bool
  | plain _ _ => true
  | wrapper _ _ => false

/-- `*item`: the `T` a wrapper owns. Dereferencing the null pointer a move leaves
behind is undefined. -/
def deref : Option Val → Result Exn Val
  | some u => .ok u
  | none => .ub .nullItem

@[simp] theorem deref_some (u : Val) : (deref (some u) : Result Exn Val) = .ok u := rfl
@[simp] theorem deref_none : (deref none : Result Exn Val) = .ub .nullItem := rfl

variable (M : Members Ty Val Exn)

/-- Copy construction from an object: the alternative's copy constructor, or
`recursive_wrapper(const recursive_wrapper& other) : item(new T(other.get()))`,
which dereferences `other`, allocates, and copies the pointee. -/
def copy : Obj Ty Val → Result Exn (Obj Ty Val)
  | plain t x => plain t <$> M.copy t x
  | wrapper t item => do
      let u ← deref item
      M.alloc
      let u' ← M.copy t u
      pure (wrapper t (some u'))

/-- Move construction from an object: the new object and the donor left behind.
`recursive_wrapper(recursive_wrapper&& other) : item(other.item.release())` hands the
pointer over and leaves the donor null, without calling any member of `T`. -/
def move : Obj Ty Val → Obj Ty Val × Obj Ty Val
  | plain t x => (plain t (M.move t x).1, plain t (M.move t x).2)
  | wrapper t item => (wrapper t item, wrapper t none)

/-- Whether moving from the object writes it: the wrapper's move constructor releases
the donor's `item`; an ordinary type's move writes its source when `moveWrites` says so. -/
def moveWrites : Obj Ty Val → Bool
  | plain t _ => M.moveWrites t
  | wrapper _ _ => true

/-- `recursive_wrapper(U&& u) : item(new T(std::forward<U>(u)))`, the converting
constructor that makes a temporary box from an argument `u` of type `T`: it allocates,
then moves or copies `u` onto the heap. Returns the box and what `u` is left holding. -/
def box (t : Ty) (a : Val) (rvalue : Bool) : Result Exn (Obj Ty Val × Obj Ty Val) := do
  M.alloc
  if rvalue then pure (wrapper t (some (M.move t a).1), plain t (M.move t a).2)
  else do
    let a' ← M.copy t a
    pure (wrapper t (some a'), plain t a)

/-- Copy assignment `lhs = rhs` between objects of one type. The wrapper's
`operator=(const recursive_wrapper& rhs)` is `assign(rhs.get())`, that is
`*item = rhs.get()`: it assigns through its own pointer rather than allocating. -/
def copyAssign : Obj Ty Val → Obj Ty Val → Result Exn (Obj Ty Val)
  | plain t x, plain _ y => plain t <$> M.copyAssign t x y
  | wrapper t item, wrapper _ item' => do
      let u' ← deref item'
      let u ← deref item
      let z ← M.copyAssign t u u'
      pure (wrapper t (some z))
  | _, _ => .ub .wrongType

/-- Move assignment `lhs = std::move(rhs)` between objects of one type: what `lhs`
and `rhs` are left as. The wrapper's `operator=(recursive_wrapper&& rhs)` is
`{ item = std::move(rhs.item); }`: unlike its three siblings it has no
`return *this;`, and flowing off the end of a function returning a reference is
undefined. -/
def moveAssign : Obj Ty Val → Obj Ty Val → Result Exn (Obj Ty Val × Obj Ty Val)
  | plain t x, plain t' y => .ok (plain t (M.moveAssign t x y).1, plain t' (M.moveAssign t x y).2)
  | wrapper _ _, wrapper _ _ => .ub .noReturn
  | _, _ => .ub .wrongType

/-- `operator==` between objects of one type; for wrappers `*x.item == *y.item`. -/
def eq : Obj Ty Val → Obj Ty Val → Result Exn Bool
  | plain t x, plain _ y => .ok (M.eq t x y)
  | wrapper t item, wrapper _ item' => do
      let u ← deref item
      let u' ← deref item'
      pure (M.eq t u u')
  | _, _ => .ub .wrongType

/-- `operator<` between objects of one type; for wrappers `*x.item < *y.item`. -/
def lt : Obj Ty Val → Obj Ty Val → Result Exn Bool
  | plain t x, plain _ y => .ok (M.lt t x y)
  | wrapper t item, wrapper _ item' => do
      let u ← deref item
      let u' ← deref item'
      pure (M.lt t u u')
  | _, _ => .ub .wrongType

/-! ## Constructors and assignments keep the type -/

theorem type_of_copy {o o' : Obj Ty Val} (h : o.copy M = .ok o') : o'.type = o.type := by
  cases o with
  | plain t x => obtain ⟨y, -, rfl⟩ := Result.map_eq_ok.1 h; rfl
  | wrapper t item =>
    obtain ⟨u, -, h⟩ := Result.bind_eq_ok.1 h
    obtain ⟨_, -, h⟩ := Result.bind_eq_ok.1 h
    obtain ⟨u', -, h⟩ := Result.bind_eq_ok.1 h
    cases h; rfl

@[simp] theorem type_move_fst (o : Obj Ty Val) : (o.move M).1.type = o.type := by
  cases o <;> rfl

@[simp] theorem type_move_snd (o : Obj Ty Val) : (o.move M).2.type = o.type := by
  cases o <;> rfl

theorem type_of_copyAssign {l r l' : Obj Ty Val} (h : l.copyAssign M r = .ok l') :
    l'.type = l.type := by
  cases l with
  | plain t x =>
    cases r with
    | plain _ y => obtain ⟨z, -, rfl⟩ := Result.map_eq_ok.1 h; rfl
    | wrapper _ _ => cases h
  | wrapper t item =>
    cases r with
    | plain _ _ => cases h
    | wrapper _ item' =>
      obtain ⟨_, -, h⟩ := Result.bind_eq_ok.1 h
      obtain ⟨_, -, h⟩ := Result.bind_eq_ok.1 h
      obtain ⟨_, -, h⟩ := Result.bind_eq_ok.1 h
      cases h; rfl

theorem type_of_moveAssign {l r : Obj Ty Val} {p : Obj Ty Val × Obj Ty Val}
    (h : l.moveAssign M r = .ok p) : p.1.type = l.type ∧ p.2.type = r.type := by
  cases l <;> cases r <;> simp only [moveAssign, reduceCtorEq, Result.ok.injEq] at h
  subst h
  exact ⟨rfl, rfl⟩

/-- The converting constructor makes a box that owns a `T`. -/
theorem box_eq_ok {t : Ty} {a : Val} {rvalue : Bool} {p : Obj Ty Val × Obj Ty Val}
    (h : box M t a rvalue = .ok p) : ∃ a', p.1 = wrapper t (some a') := by
  obtain ⟨_, -, h⟩ := Result.bind_eq_ok.1 h
  cases rvalue
  · obtain ⟨a', -, ⟨⟩⟩ := Result.bind_eq_ok.1 h
    exact ⟨a', rfl⟩
  · cases h
    exact ⟨_, rfl⟩

/-- A copy that returns owns a value: a wrapper's copy dereferenced its source. -/
theorem value_of_copy_ok {o o' : Obj Ty Val} (h : o.copy M = .ok o') :
    ∃ t x, o'.value = some (t, x) := by
  cases o with
  | plain t _ => obtain ⟨y, -, rfl⟩ := Result.map_eq_ok.1 h; exact ⟨t, y, rfl⟩
  | wrapper t _ =>
    obtain ⟨_, -, h⟩ := Result.bind_eq_ok.1 h
    obtain ⟨_, -, h⟩ := Result.bind_eq_ok.1 h
    obtain ⟨y, -, ⟨⟩⟩ := Result.bind_eq_ok.1 h
    exact ⟨t, y, rfl⟩

theorem value_of_copyAssign {l r l' : Obj Ty Val} (h : l.copyAssign M r = .ok l') :
    ∃ t x, l'.value = some (t, x) := by
  cases l with
  | plain t _ =>
    cases r with
    | plain _ _ => obtain ⟨z, -, rfl⟩ := Result.map_eq_ok.1 h; exact ⟨t, z, rfl⟩
    | wrapper _ _ => cases h
  | wrapper t _ =>
    cases r with
    | plain _ _ => cases h
    | wrapper _ _ =>
      obtain ⟨_, -, h⟩ := Result.bind_eq_ok.1 h
      obtain ⟨_, -, h⟩ := Result.bind_eq_ok.1 h
      obtain ⟨z, -, ⟨⟩⟩ := Result.bind_eq_ok.1 h
      exact ⟨t, z, rfl⟩

theorem value_of_moveAssign {l r : Obj Ty Val} {p : Obj Ty Val × Obj Ty Val}
    (h : l.moveAssign M r = .ok p) : ∃ t x, p.1.value = some (t, x) := by
  cases l <;> cases r <;> simp only [moveAssign, reduceCtorEq, Result.ok.injEq] at h
  subst h
  exact ⟨_, _, rfl⟩

/-- The object a move makes stands for a value of the donor's type. -/
theorem value_move_fst {o : Obj Ty Val} {t : Ty} {x : Val} (h : o.value = some (t, x)) :
    ∃ y, (o.move M).1.value = some (t, y) := by
  cases o with
  | plain _ _ => cases h; exact ⟨_, rfl⟩
  | wrapper _ item => cases item <;> cases h; exact ⟨x, rfl⟩

/-- The object a copy makes stands for a value of its source's type. -/
theorem value_of_copy {o o' : Obj Ty Val} {t : Ty} {x : Val} (h : o.copy M = .ok o')
    (hx : o.value = some (t, x)) : ∃ y, o'.value = some (t, y) := by
  cases o with
  | plain _ _ =>
    cases hx
    obtain ⟨y, -, rfl⟩ := Result.map_eq_ok.1 h
    exact ⟨y, rfl⟩
  | wrapper _ item =>
    cases item <;> cases hx
    obtain ⟨_, -, h⟩ := Result.bind_eq_ok.1 h
    obtain ⟨_, -, h⟩ := Result.bind_eq_ok.1 h
    obtain ⟨y, -, ⟨⟩⟩ := Result.bind_eq_ok.1 h
    exact ⟨y, rfl⟩

/-- Two objects of one type that stand for values compare as those values do. -/
theorem eq_of_value {l r : Obj Ty Val} {t t' : Ty} {a b : Val} (hlr : l.type = r.type)
    (hl : l.value = some (t, a)) (hr : r.value = some (t', b)) :
    l.eq M r = .ok (M.eq t a b) := by
  cases l with
  | plain _ _ =>
    cases r with
    | plain _ _ => cases hl; cases hr; rfl
    | wrapper _ _ => cases hlr
  | wrapper _ item =>
    cases r with
    | plain _ _ => cases hlr
    | wrapper _ item' => cases item <;> cases item' <;> cases hl <;> cases hr; rfl

/-- Two objects of one type that stand for values are ordered as those values are. -/
theorem lt_of_value {l r : Obj Ty Val} {t t' : Ty} {a b : Val} (hlr : l.type = r.type)
    (hl : l.value = some (t, a)) (hr : r.value = some (t', b)) :
    l.lt M r = .ok (M.lt t a b) := by
  cases l with
  | plain _ _ =>
    cases r with
    | plain _ _ => cases hl; cases hr; rfl
    | wrapper _ _ => cases hlr
  | wrapper _ item =>
    cases r with
    | plain _ _ => cases hlr
    | wrapper _ item' => cases item <;> cases item' <;> cases hl <;> cases hr; rfl

/-- An equality that comes out true compared two objects that stand for values. -/
theorem value_of_eq {l r : Obj Ty Val} (h : l.eq M r = .ok true) :
    ∃ t t' a b, l.value = some (t, a) ∧ r.value = some (t', b) ∧ M.eq t a b = true := by
  cases l with
  | plain t a =>
    cases r with
    | plain t' b => exact ⟨t, t', a, b, rfl, rfl, by simpa [eq] using h⟩
    | wrapper _ _ => cases h
  | wrapper t item =>
    cases r with
    | plain _ _ => cases h
    | wrapper t' item' =>
      cases item <;> cases item' <;> simp [eq] at h
      exact ⟨t, t', _, _, rfl, rfl, h⟩

end Obj
end Broker.Util
