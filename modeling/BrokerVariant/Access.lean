import BrokerVariant.Variant

/-!
# Comparison, access and visitation

Everything a client sees of a variant goes through the dispatch of its lifecycle.
`operator==` and `operator<` compare discriminators and then visit in internal mode,
so that two wrappers are compared by the wrappers' own operators, which delegate to
their pointees. `get`, `is`, `std::hash` and `visit` dispatch in external mode, where
a wrapper is replaced by its pointee. N-ary visitation curries:
`apply_visitor(f, v, vs...)` wraps `f` and `v` in a `binary_visitor` and recurses on
`vs`, so the last variant is dispatched first and the first one last.
-/

namespace Broker.Util

variable {Ty Val Exn : Type} [DecidableEq Ty]

/-- The value an external-mode visitor is handed, with its type. External mode never
hands a wrapper over. -/
def View.present (storage : Option (Obj Ty Val)) : View Ty Val → Result Exn (Ty × Val)
  | .pointee t u => .ok (t, u)
  | .storage c => do
    let o ← readAs c storage
    match o with
    | .plain t x => pure (t, x)
    | .wrapper _ _ => .ub .illFormed

variable (Ts : List (Alt Ty)) (M : Members Ty Val Exn)

/-! ## Comparison -/

/-- `equals{x}`, handed `y`'s object `rhs`:
`*reinterpret_cast<const Rhs*>(&self.storage) == rhs`. -/
def equals (self y : Variant Ty Val) (view : View Ty Val) : Result Exn Bool := do
  let l ← readAs view.type self.storage
  let r ← view.load y.storage
  l.eq M r

/-- `less_than{x}`, handed `y`'s object `rhs`:
`*reinterpret_cast<const Rhs*>(&self.storage) < rhs`. -/
def lessThan (self y : Variant Ty Val) (view : View Ty Val) : Result Exn Bool := do
  let l ← readAs view.type self.storage
  let r ← view.load y.storage
  l.lt M r

/-- `operator==(x, y)`: `x.active == y.active && y.apply_visitor_internal(equals{x})`. -/
def opEq (x y : Variant Ty Val) : Result Exn Bool :=
  if x.active = y.active then do
    let view ← y.apply Ts true
    equals M x y view
  else pure false

/-- `operator<(x, y)`: `y.apply_visitor_internal(less_than{x})` when the discriminators
are equal, `x.active < y.active` otherwise. -/
def opLt (x y : Variant Ty Val) : Result Exn Bool :=
  if x.active = y.active then do
    let view ← y.apply Ts true
    lessThan M x y view
  else pure (decide (x.active < y.active))

/-! ## Access -/

/-- `getter<S>`: its `operator()(S& val)` returns `&val` and its template
`operator()(const U&)` returns `nullptr`; overload resolution picks the first exactly
when the value handed over is an `S`. The model returns the value the pointer
designates. -/
def getter (S : Alt Ty) (storage : Option (Obj Ty Val)) (view : View Ty Val) :
    Result Exn (Option Val) :=
  if view.type = S then (fun p => some p.2) <$> view.present storage else pure none

/-- `get<T>(v)`: `apply_visitor(getter<T>{}, expose(v))`. -/
def get (S : Alt Ty) (v : Variant Ty Val) : Result Exn (Option Val) := do
  let view ← v.apply Ts false
  getter S v.storage view

/-- `is<T>(v)`: `get<T>(v) != nullptr`. -/
def is (S : Alt Ty) (v : Variant Ty Val) : Result Exn Bool :=
  Option.isSome <$> get Ts S v

/-- `which(v)`: `expose(v).which()`, the discriminator. -/
def which (v : Variant Ty Val) : Nat := v.active

/-- `hasher`: `std::hash<T>{}(x)` of the value handed over. -/
def hasher (storage : Option (Obj Ty Val)) (view : View Ty Val) : Result Exn Nat := do
  let p ← view.present storage
  pure (M.hash p.1 p.2)

/-- `std::hash<variant<Tag, Ts...>>`: `visit(hasher{}, v)`; the discriminator is not
mixed in. -/
def hash (v : Variant Ty Val) : Result Exn Nat := do
  let view ← v.apply Ts false
  hasher M v.storage view

/-! ## Visitation -/

/-- A visitor as `apply_visitor` builds them: the client's own, whose call operator
takes the values it is handed and the visitor's state `S`, so that how often it runs
shows; or a `binary_visitor` holding an inner visitor and a visitable. -/
inductive Visitor (Ty Val S R : Type) where
  | client (f : List (Ty × Val) → S → R × S)
  | binary (visitor : Visitor Ty Val S R) (visitable : Variant Ty Val)

variable {S R : Type}

/-- The call operator. `binary_visitor::operator()(xs...)` is
`visitable.template apply<std::false_type>(visitor, xs...)`: the value of its
visitable goes in front of the arguments it was called with. -/
def Visitor.call : Visitor Ty Val S R → List (Ty × Val) → S → Result Exn (R × S)
  | .client f, xs, s => .ok (f xs s)
  | .binary vis v, xs, s => do
    let view ← v.apply Ts false
    let x ← view.present v.storage
    vis.call (x :: xs) s

/-- `apply_visitor(visitor, v, vs...)`: with one visitable,
`visitable.template apply<std::false_type>(visitor)`; with more,
`apply_visitor(binary_visitor<Visitor, V>(visitor, v), vs...)`. -/
def applyVisitor (vis : Visitor Ty Val S R) (v : Variant Ty Val) :
    List (Variant Ty Val) → S → Result Exn (R × S)
  | [], s => do
    let view ← v.apply Ts false
    let x ← view.present v.storage
    vis.call Ts [x] s
  | w :: ws, s => applyVisitor (.binary vis v) w ws s

/-- `delayed_visitor`, what `apply_visitor(visitor)` returns: it holds the visitor. -/
structure DelayedVisitor (Ty Val S R : Type) where
  visitor : Visitor Ty Val S R

/-- `apply_visitor(visitor)`. -/
def applyVisitorDelayed (vis : Visitor Ty Val S R) : DelayedVisitor Ty Val S R := ⟨vis⟩

/-- The call operator of `delayed_visitor`: `apply_visitor(visitor, vs...)`. -/
def DelayedVisitor.call (d : DelayedVisitor Ty Val S R) (v : Variant Ty Val)
    (vs : List (Variant Ty Val)) (s : S) : Result Exn (R × S) :=
  applyVisitor Ts d.visitor v vs s

/-- `expose(v)`: the identity on variants, the hook other types overload. -/
def expose (v : Variant Ty Val) : Variant Ty Val := v

omit [DecidableEq Ty] in
@[simp] theorem map_expose (vs : List (Variant Ty Val)) : vs.map expose = vs := List.map_id vs

/-- `visit(visitor, vs...)`: `apply_visitor(visitor, expose(vs)...)`. -/
def visit (vis : Visitor Ty Val S R) (v : Variant Ty Val) (vs : List (Variant Ty Val))
    (s : S) : Result Exn (R × S) :=
  applyVisitor Ts vis (expose v) (vs.map expose) s

end Broker.Util
