import BrokerVariant.Object
import Mathlib.Data.List.Nodup
import Mathlib.Tactic.Common

/-!
# The storage and lifecycle of `variant`

`variant<Tag, Ts...>` keeps an `aligned_union_t<0, Ts...> storage` and a `tag active`.
Every lifecycle operation goes through visitation: `visit_impl` indexes a jump table
by the discriminator, and the entry reinterprets the storage as that alternative and
calls a visitor on it. The visitors of this file (`default_ctor`, `copy_ctor`,
`move_ctor`, `assigner`, `move_assigner`, `dtor`) run in internal mode
(`std::true_type`), which hands a `recursive_wrapper` over as the wrapper itself;
external mode (`std::false_type`), meant for clients, hands over its pointee. The
one lifecycle path that dispatches in external mode is `variant(factory, tag)`,
behind `make`.

The storage is modelled by the object live in it, if any, and the discriminator by
its number. A constructor runs on `Variant.fresh`. `construct(x)` places an object
of type `std::remove_reference<T>::type`, which is `const U` when `x` is an lvalue
`const U&`, so the copy constructor and construction from an lvalue leave a const
object in the storage, and a later write to it is undefined.

Construction from a value is overload resolution over the `initializer` chain: the
argument converts to the parameter of some levels, and the best conversion wins when
no other is as good. Move assignment instantiates `move_assigner` at every
alternative, and its `static_assert`s reject a `recursive_wrapper`.
-/

namespace Broker.Util

variable {Ty Val Exn : Type}

/-- A `variant<Tag, Ts...>` object: its `storage`, `none` while no object is live in
it, and its discriminator `active`. The class comment requires an enumeration `Tag`
to count from 0 in steps of 1, so `static_cast<tag>(TT)` and
`static_cast<size_t>(active)` are inverse on `[0, n)`; `active` is that number. -/
structure Variant (Ty Val : Type) where
  storage : Option (Obj Ty Val)
  active : Nat
  /-- Whether the live object is a `const T`, as `construct` places one for an lvalue. -/
  isConst : Bool
  deriving DecidableEq, Repr

/-- The object a constructor starts from: raw storage, and a discriminator that no
constructor reads before writing it. -/
def Variant.fresh : Variant Ty Val := ⟨none, 0, false⟩

@[simp] theorem Variant.fresh_storage : (Variant.fresh : Variant Ty Val).storage = none := rfl

/-- What `get_value` hands a visitor: the storage seen as a `T` (`*x`), or, in
external mode, the object a wrapper there points to (`x.get()`). -/
inductive View (Ty Val : Type) where
  | storage (c : Alt Ty)
  | pointee (t : Ty) (u : Val)
  deriving DecidableEq, Repr

/-- The type of the visitor's parameter, which picks the overload that runs. -/
def View.type : View Ty Val → Alt Ty
  | .storage c => c
  | .pointee t _ => .plain t

@[simp] theorem View.type_storage (c : Alt Ty) : (View.storage c : View Ty Val).type = c := rfl
@[simp] theorem View.type_pointee (t : Ty) (u : Val) : (View.pointee t u).type = .plain t := rfl

/-- `std::is_nothrow_move_assignable<T>` of an alternative, which `move_assigner`
asserts. The alternatives' own move assignments are required not to throw
(`Members.moveAssign` cannot), but `recursive_wrapper`'s
`operator=(recursive_wrapper&&)` is not declared `noexcept`. -/
def Alt.nothrowMoveAssignable : Alt Ty → Bool
  | .plain _ => true
  | .wrapper _ => false

/-- A list whose alternatives all move-assign without throwing holds no box. -/
theorem Alt.plain_of_nothrow {Ts : List (Alt Ty)} (hn : Ts.all Alt.nothrowMoveAssignable)
    {c : Alt Ty} (hc : c ∈ Ts) : ∃ t, c = .plain t := by
  have h := List.all_eq_true.1 hn c hc
  cases c with
  | plain t => exact ⟨t, rfl⟩
  | wrapper _ => cases h

variable [DecidableEq Ty]

/-! ## Dispatch -/

/-- The live object of the storage, read through a pointer to `c`. -/
def readAs (c : Alt Ty) : Option (Obj Ty Val) → Result Exn (Obj Ty Val)
  | some o => if o.type = c then .ok o else .ub .wrongType
  | none => .ub .emptyStorage

theorem readAs_eq_ok {c : Alt Ty} {s : Option (Obj Ty Val)} {o : Obj Ty Val} :
    (readAs c s : Result Exn _) = .ok o ↔ s = some o ∧ o.type = c := by
  cases s with
  | none => simp [readAs]
  | some o' => by_cases h : o'.type = c <;> simp [readAs, h] <;> aesop

/-- `get_value(*x, internal)`, with `x` the storage reinterpreted as a `T*`. Only
external mode on a wrapper touches the storage: `x.get()` reads the wrapper's `item`
and dereferences it. -/
def getValue (internal : Bool) (c : Alt Ty) (storage : Option (Obj Ty Val)) :
    Result Exn (View Ty Val) :=
  match internal, c with
  | false, .wrapper t =>
    match storage with
    | some (.wrapper t' item) => if t' = t then .pointee t <$> Obj.deref item else .ub .wrongType
    | some (.plain _ _) => .ub .wrongType
    | none => .ub .emptyStorage
  | _, c => .ok (.storage c)

/-- Reading the object a view designates: the storage through a `T*`, or the
pointee of a wrapper. -/
def View.load (storage : Option (Obj Ty Val)) : View Ty Val → Result Exn (Obj Ty Val)
  | .storage c => readAs c storage
  | .pointee t u => .ok (.plain t u)

@[simp] theorem View.load_storage (storage : Option (Obj Ty Val)) (c : Alt Ty) :
    ((View.storage c).load storage : Result Exn _) = readAs c storage := rfl
@[simp] theorem View.load_pointee (storage : Option (Obj Ty Val)) (t : Ty) (u : Val) :
    ((View.pointee t u).load storage : Result Exn _) = .ok (.plain t u) := rfl

variable (Ts : List (Alt Ty))

/-- `visit_impl(which_active, internal, storage, visitor, args...)`: entry
`which_active` of the jump table `callers` is `invoke<T>` for the alternative `T` in
that position, which hands the visitor `get_value` of the storage as a `T`. Only the
`assert` checks the range. The model returns what the visitor is handed. -/
def visitImpl (which : Nat) (internal : Bool) (storage : Option (Obj Ty Val)) :
    Result Exn (View Ty Val) :=
  match Ts[which]? with
  | some c => getValue internal c storage
  | none => .ub .badTag

/-- `v.apply<Internal>(visitor)`: `visit_impl` on `v`'s own discriminator and storage. -/
def Variant.apply (v : Variant Ty Val) (internal : Bool) : Result Exn (View Ty Val) :=
  visitImpl Ts v.active internal v.storage

/-- Internal dispatch succeeds exactly on an in-range discriminator, and hands over the
storage as that alternative without reading it. -/
theorem Variant.apply_true_eq_ok {v : Variant Ty Val} {view : View Ty Val} :
    (v.apply Ts true : Result Exn _) = .ok view ↔ ∃ c, Ts[v.active]? = some c ∧ view = .storage c := by
  unfold Variant.apply visitImpl
  cases Ts[v.active]? <;> simp [getValue, eq_comm]

/-! ## Into and out of the storage -/

/-- `construct(x)`: placement new into the storage. The constructor it runs,
`type(std::forward<T>(x))`, is the caller's `Obj.copy` or `Obj.move`. `type` is
`std::remove_reference<T>::type`: for an lvalue `x`, which every caller passes as a
`const U&`, it is `const U`, and the object placed is const. -/
def construct (o : Obj Ty Val) (lvalue : Bool) : Cxx Exn (Variant Ty Val) Unit := fun v =>
  match v.storage with
  | none => .ok ((), { v with storage := some o, isConst := lvalue })
  | some _ => .ub .occupied

/-- `dtor`: `x.~T()` on the object in the storage, which must be a live `T`. -/
def dtor (view : View Ty Val) : Cxx Exn (Variant Ty Val) Unit := do
  let self ← Cxx.get
  let _ ← Cxx.lift (view.load self.storage)
  Cxx.set { self with storage := none }

/-- `destruct()`: `apply_visitor_internal(dtor())`. It is also the whole body of
`~variant()`. -/
def destruct : Cxx Exn (Variant Ty Val) Unit := do
  let self ← Cxx.get
  let view ← Cxx.lift (self.apply Ts true)
  dtor view

variable (M : Members Ty Val Exn)

/-- `default_ctor`: `self.construct(T())` for `T` the type of its parameter, which it
does not read; the temporary `T()` is moved into the storage.
`recursive_wrapper<T>` has no default constructor. -/
def defaultCtor (view : View Ty Val) : Cxx Exn (Variant Ty Val) Unit :=
  match view.type with
  | .plain t => construct (.plain t (M.move t (M.valueInit t)).1) false
  | .wrapper _ => Cxx.lift (.ub .illFormed)

/-- `copy_ctor`: `self.construct(other)`, a copy of the object `other` holds, placed
as a const object since `other` is a `const T&`. -/
def copyCtor (other : Variant Ty Val) (view : View Ty Val) :
    Cxx Exn (Variant Ty Val) Unit := do
  let o ← Cxx.lift (view.load other.storage)
  let o' ← Cxx.lift (o.copy M)
  construct o' true

/-- `move_ctor`: `self.construct(std::move(rhs))`. Returns the donor, which keeps
what the move leaves behind. A move that writes its source modifies the donor's
object, which is undefined when that object is const. -/
def moveCtor (other : Variant Ty Val) (view : View Ty Val) :
    Cxx Exn (Variant Ty Val) (Variant Ty Val) := do
  let o ← Cxx.lift (view.load other.storage)
  if other.isConst && o.moveWrites M then
    Cxx.lift (.ub .constWrite)
  else
    construct (o.move M).1 false
    pure { other with storage := some (o.move M).2 }

/-- `assigner`: with equal discriminators,
`*reinterpret_cast<Rhs*>(&self.storage) = rhs` in place, which modifies a const object
there unless it is a wrapper, whose assignment writes its pointee; otherwise
`Rhs tmp(rhs); self.destruct(); self.construct(std::move(tmp));`, so that a copy
that throws does so before anything is destroyed. -/
def assigner (rhsActive : Nat) (rhs : Variant Ty Val) (view : View Ty Val) :
    Cxx Exn (Variant Ty Val) Unit := do
  let r ← Cxx.lift (view.load rhs.storage)
  let self ← Cxx.get
  if self.active = rhsActive then
    let l ← Cxx.lift (readAs view.type self.storage)
    if self.isConst && l.assignWrites then
      Cxx.lift (.ub .constWrite)
    else
      let l' ← Cxx.lift (l.copyAssign M r)
      Cxx.set { self with storage := some l' }
  else
    let tmp ← Cxx.lift (r.copy M)
    destruct Ts
    construct (tmp.move M).1 false

/-- `move_assigner`: with equal discriminators,
`*reinterpret_cast<rhs_type*>(&self.storage) = std::move(rhs)`, which writes the
object in the storage, and `rhs`'s when the move writes its source; otherwise
`self.destruct(); self.construct(std::move(rhs));`. Either write is undefined on a
const object. Returns the donor. -/
def moveAssigner (rhsActive : Nat) (rhs : Variant Ty Val) (view : View Ty Val) :
    Cxx Exn (Variant Ty Val) (Variant Ty Val) := do
  let r ← Cxx.lift (view.load rhs.storage)
  let self ← Cxx.get
  if self.active = rhsActive then
    let l ← Cxx.lift (readAs view.type self.storage)
    if self.isConst || rhs.isConst && r.moveWrites M then
      Cxx.lift (.ub .constWrite)
    else
      let p ← Cxx.lift (l.moveAssign M r)
      Cxx.set { self with storage := some p.1 }
      pure { rhs with storage := some p.2 }
  else
    destruct Ts
    if rhs.isConst && r.moveWrites M then
      Cxx.lift (.ub .constWrite)
    else
      construct (r.move M).1 false
      pure { rhs with storage := some (r.move M).2 }

/-! ## Constructors -/

/-- `variant()`: `construct(front{}); active = tag{};`. Neither an empty list nor one
whose front is a wrapper has a `front{}`. -/
def variantDefault : Cxx Exn (Variant Ty Val) Unit :=
  match Ts with
  | .plain t :: _ => do
    construct (.plain t (M.move t (M.valueInit t)).1) false
    Cxx.modify fun v => { v with active := 0 }
  | _ => Cxx.lift (.ub .illFormed)

/-! ## Construction from a value -/

/-- The implicit conversion sequence from an argument of type `a` to the parameter of
the `initialize` overloads of alternative `c`, by its place in overload resolution, best
first: `0`, the identity, when `c` is `a`; for an ordinary `T`, the conversion of the
alternative types' own; for `recursive_wrapper<U>`, its converting constructor, a
user-defined conversion that `enable_if_t<std::is_convertible<U, T>{}>` leaves viable
when the argument converts to `U`. Nothing converts from a `recursive_wrapper`. -/
def Members.rank (a c : Alt Ty) : Option Nat :=
  if a = c then some 0 else
    match a, c with
    | .plain a, .plain t => Rank.key <$> M.conv a t
    | .plain a, .wrapper u => if a = u ∨ (M.conv a u).isSome then some Rank.userDefined.key else none
    | .wrapper _, _ => none

/-- The overloads of `initializer<TT, Ts...>::initialize`, each with the alternative
of its parameter and its level. Each level declares `initialize(v, T&&)` and
`initialize(v, const T&)` for its alternative `T`, numbered `TT`, and takes in those of
its base with `using base::initialize`, but for the ones it hides, of its own parameter
type. So each alternative type has the overloads of its first level. Within a level the
`T&&` overload binds an rvalue argument and every temporary a conversion makes, and
`const T&` an lvalue of type `T`. -/
def initializer (TT : Nat) : List (Alt Ty) → List (Alt Ty × Nat)
  | [] => []
  | T :: Tail => (T, TT) :: (initializer (TT + 1) Tail).filter fun p => p.1 ≠ T

/-- Overload resolution: the viable candidate whose conversion is best, when no other
is as good; `none` when none is viable or the best is ambiguous. -/
def bestOverload {α : Type} (viable : List (α × Nat)) : Option (α × Nat) :=
  match viable.filter fun p => viable.all fun q => p.2 ≤ q.2 with
  | [p] => some p
  | _ => none

/-- The overload `initializer<0, Ts...>::initialize(*this, std::forward<T>(x))` calls
for an argument of type `a`: its alternative and level, and where the argument's
conversion to it stands. -/
def initializeOverload (a : Alt Ty) : Option ((Alt Ty × Nat) × Nat) :=
  bestOverload ((initializer 0 Ts).filterMap fun p => (M.rank a p.1).map (p, ·))

section overload

variable {Ts M}

/-- Resolution commits to a viable candidate that beats every other. -/
theorem bestOverload_eq_some {α : Type} {viable : List (α × Nat)} {p : α × Nat}
    (hnd : viable.Nodup) :
    bestOverload viable = some p ↔ p ∈ viable ∧ ∀ q ∈ viable, q ≠ p → p.2 < q.2 := by
  have hmem : ∀ q, q ∈ viable.filter (fun p => viable.all fun q => p.2 ≤ q.2) ↔
      q ∈ viable ∧ ∀ r ∈ viable, q.2 ≤ r.2 := by
    simp
  constructor
  · intro h
    unfold bestOverload at h
    split at h
    · next p' hf =>
      cases h
      have hp := (hmem p).1 (hf ▸ List.mem_singleton_self p)
      refine ⟨hp.1, fun q hq hne => Nat.lt_of_le_of_ne (hp.2 q hq) fun heq => hne ?_⟩
      have hq' := (hmem q).2 ⟨hq, fun r hr => heq ▸ hp.2 r hr⟩
      simpa [hf] using hq'
    · cases h
  · rintro ⟨hp, hbest⟩
    have hf : viable.filter (fun p => viable.all fun q => p.2 ≤ q.2) = [p] := by
      by_contra hne
      rcases ((List.Nodup.filter _ hnd).ne_singleton_iff p).1 hne with h | ⟨q, hq, hqp⟩
      · have := (hmem p).2 ⟨hp, fun q hq => by
          by_cases hqp : q = p
          · rw [hqp]
          · exact (hbest q hq hqp).le⟩
        simp [h] at this
      · have hq := (hmem q).1 hq
        exact absurd (hq.2 p hp) (not_le.2 (hbest q hq.1 hqp))
    simp [bestOverload, hf]

/-- Each alternative type has the overloads of its first level. -/
theorem mem_initializer {TT k : Nat} {c : Alt Ty} {L : List (Alt Ty)} :
    (c, k) ∈ initializer TT L ↔ ∃ i, k = TT + i ∧ L[i]? = some c ∧ ∀ j < i, L[j]? ≠ some c := by
  induction L generalizing TT with
  | nil => simp [initializer]
  | cons T L ih =>
    simp only [initializer, List.mem_cons, Prod.mk.injEq, List.mem_filter, ih, decide_eq_true_eq]
    constructor
    · rintro (⟨rfl, rfl⟩ | ⟨⟨i, rfl, hi, hfirst⟩, hne⟩)
      · exact ⟨0, rfl, by simp, fun j hj => absurd hj (Nat.not_lt_zero j)⟩
      · refine ⟨i + 1, by omega, by simpa using hi, fun j hj => ?_⟩
        cases j with
        | zero => simpa [eq_comm] using hne
        | succ j => simpa using hfirst j (by omega)
    · rintro ⟨_ | i, rfl, hi, hfirst⟩
      · simp only [List.getElem?_cons_zero, Option.some.injEq] at hi
        exact .inl ⟨hi.symm, rfl⟩
      · exact .inr ⟨⟨i, by omega, by simpa using hi, fun j hj => by simpa using hfirst (j + 1) (by omega)⟩,
          fun h => hfirst 0 (by omega) (by simp [h])⟩

theorem exists_mem_initializer {TT : Nat} {c : Alt Ty} {L : List (Alt Ty)} :
    (∃ k, (c, k) ∈ initializer TT L) ↔ c ∈ L := by
  induction L generalizing TT with
  | nil => simp [initializer]
  | cons T L ih =>
    simp only [initializer, List.mem_cons, Prod.mk.injEq, List.mem_filter, decide_eq_true_eq]
    by_cases h : c = T
    · simp [h]
    · simp [h, ih]

theorem initializer_nodup (TT : Nat) (L : List (Alt Ty)) : (initializer TT L).Nodup := by
  induction L generalizing TT with
  | nil => exact List.nodup_nil
  | cons T L ih => exact List.nodup_cons.2 ⟨by simp, (ih (TT + 1)).filter _⟩

/-- An alternative type has one first level. -/
theorem initializer_level_unique {TT k k' : Nat} {c : Alt Ty} {L : List (Alt Ty)}
    (h : (c, k) ∈ initializer TT L) (h' : (c, k') ∈ initializer TT L) : k = k' := by
  obtain ⟨i, rfl, hi, hfirst⟩ := mem_initializer.1 h
  obtain ⟨i', rfl, hi', hfirst'⟩ := mem_initializer.1 h'
  rcases lt_trichotomy i i' with hlt | rfl | hlt
  · exact absurd hi (hfirst' i hlt)
  · rfl
  · exact absurd hi' (hfirst i' hlt)

@[simp] theorem Members.rank_self (a : Alt Ty) : M.rank a a = some 0 := by simp [Members.rank]

/-- Every conversion other than the identity ranks below it. -/
theorem Members.rank_pos {a c : Alt Ty} {n : Nat} (hne : a ≠ c) (h : M.rank a c = some n) :
    0 < n := by
  unfold Members.rank at h
  rw [if_neg hne] at h
  split at h
  · obtain ⟨r, -, rfl⟩ := Option.map_eq_some'.1 h
    exact r.key_pos
  · split at h
    · cases h; exact Rank.userDefined.key_pos
    · cases h
  · cases h

/-- A `recursive_wrapper` argument binds only the overloads of its own type. -/
theorem Members.rank_wrapper {t : Ty} {c : Alt Ty} {n : Nat} (h : M.rank (.wrapper t) c = some n) :
    c = .wrapper t := by
  unfold Members.rank at h
  split at h
  · exact (‹_› : Alt.wrapper t = c).symm
  · cases h

/-- The overload called for an argument: one of an alternative type's first level,
viable for the argument, and better than every other alternative's. -/
theorem initializeOverload_eq_some {a c : Alt Ty} {k n : Nat} :
    initializeOverload Ts M a = some ((c, k), n) ↔
      (c, k) ∈ initializer 0 Ts ∧ M.rank a c = some n ∧
        ∀ c' ∈ Ts, c' ≠ c → ∀ n', M.rank a c' = some n' → n < n' := by
  have hmem : ∀ {c k n}, ((c, k), n) ∈ (initializer 0 Ts).filterMap
      (fun p => (M.rank a p.1).map (p, ·)) ↔ (c, k) ∈ initializer 0 Ts ∧ M.rank a c = some n := by
    intro c k n
    simp only [List.mem_filterMap, Option.map_eq_some', Prod.mk.injEq]
    constructor
    · rintro ⟨p, hp, m, hm, rfl, rfl⟩
      exact ⟨hp, hm⟩
    · rintro ⟨hp, hm⟩
      exact ⟨_, hp, n, hm, rfl, rfl⟩
  have hnd : ((initializer 0 Ts).filterMap fun p => (M.rank a p.1).map (p, ·)).Nodup := by
    refine List.Nodup.filterMap (fun p p' q hp hp' => ?_) (initializer_nodup 0 Ts)
    obtain ⟨_, -, rfl⟩ := Option.map_eq_some'.1 hp
    obtain ⟨_, -, h⟩ := Option.map_eq_some'.1 hp'
    exact (Prod.mk.inj h).1.symm
  rw [initializeOverload, bestOverload_eq_some hnd]
  simp only [Prod.forall, hmem, ne_eq, Prod.mk.injEq, not_and]
  constructor
  · rintro ⟨⟨hc, hr⟩, hbest⟩
    refine ⟨hc, hr, fun c' hc' hne n' hr' => ?_⟩
    obtain ⟨k', hk'⟩ := exists_mem_initializer.2 hc'
    exact hbest c' k' n' ⟨hk', hr'⟩ fun h => absurd h.1 hne
  · rintro ⟨hc, hr, hbest⟩
    refine ⟨⟨hc, hr⟩, fun c' k' n' ⟨hk', hr'⟩ hne => ?_⟩
    by_cases hcc : c' = c
    · subst hcc
      rw [hr] at hr'
      cases hr'
      exact absurd rfl (hne ⟨rfl, initializer_level_unique hk' hc⟩)
    · exact hbest c' (exists_mem_initializer.1 ⟨k', hk'⟩) hcc n' hr'

/-- An argument of type `a` takes no overload of an alternative of another type that it
does not convert to. -/
theorem Members.rank_plain_eq_none {a : Ty} {c : Alt Ty} (hb : c.base ≠ a)
    (hc : M.conv a c.base = none) : M.rank (.plain a) c = none := by
  have hab : a ≠ c.base := Ne.symm hb
  cases c <;> simp_all [Members.rank]

/-- Two lists with the same alternatives at every position, among those an argument
converts to, resolve it alike. -/
theorem initializeOverload_congr {Ts' : List (Alt Ty)} {a : Alt Ty}
    (h : ∀ c, (M.rank a c).isSome → ∀ j : Nat, Ts'[j]? = some c ↔ Ts[j]? = some c) :
    initializeOverload Ts' M a = initializeOverload Ts M a := by
  have key : ∀ {L L' : List (Alt Ty)},
      (∀ c, (M.rank a c).isSome → ∀ j : Nat, L[j]? = some c ↔ L'[j]? = some c) →
        ∀ {q}, initializeOverload L M a = some q → initializeOverload L' M a = some q := by
    rintro L L' h ⟨⟨c, k⟩, n⟩ hq
    obtain ⟨hc, hr, hbest⟩ := initializeOverload_eq_some.1 hq
    have hs : (M.rank a c).isSome := by simp [hr]
    obtain ⟨j, rfl, hj, hfirst⟩ := mem_initializer.1 hc
    refine initializeOverload_eq_some.2 ⟨mem_initializer.2 ⟨j, rfl, (h c hs j).1 hj,
      fun l hl hl' => hfirst l hl ((h c hs l).2 hl')⟩, hr, fun c' hc' hne n' hr' => ?_⟩
    obtain ⟨l, hl⟩ := List.mem_iff_getElem?.1 hc'
    exact hbest c' (List.mem_iff_getElem?.2 ⟨l, (h c' (by simp [hr']) l).2 hl⟩) hne n' hr'
  ext q
  simp only [Option.mem_def]
  exact ⟨key h, key fun c hc j => (h c hc j).symm⟩

/-- An argument of an alternative's type calls that alternative's first overloads. -/
theorem initializeOverload_self {c : Alt Ty} {k : Nat} (hc : (c, k) ∈ initializer 0 Ts) :
    initializeOverload Ts M c = some ((c, k), 0) :=
  initializeOverload_eq_some.2 ⟨hc, M.rank_self c, fun _ _ hne _ h => M.rank_pos (Ne.symm hne) h⟩

end overload

/-- The body of the chosen `initialize(v, x)`: construct from `x`, moving from an
rvalue and copying an lvalue, then `v.active = static_cast<tag>(TT)`. Returns what the
argument is left holding. -/
def initializeAt (TT : Nat) (x : Obj Ty Val) (rvalue : Bool) :
    Cxx Exn (Variant Ty Val) (Obj Ty Val) :=
  if rvalue then do
    construct (x.move M).1 false
    Cxx.modify fun v => { v with active := TT }
    pure (x.move M).2
  else do
    let o ← Cxx.lift (x.copy M)
    construct o true
    Cxx.modify fun v => { v with active := TT }
    pure x

/-- `variant(T&& x)`: `initializer<0, Ts...>::initialize(*this, std::forward<T>(x))`.
The overload called takes the argument itself when it is of its alternative's type;
otherwise it takes a temporary converted from the argument, and moves it in. For
`recursive_wrapper<U>` the temporary is a box its converting constructor makes: it
allocates, then builds the `U` from the argument, moving or copying a `U` and
converting anything else. With no overload, or no best one, the call is ill-formed.
Returns what the argument is left holding. -/
def variantValue (x : Obj Ty Val) (rvalue : Bool) :
    Cxx Exn (Variant Ty Val) (Obj Ty Val) :=
  match initializeOverload Ts M x.type with
  | none => Cxx.lift (.ub .illFormed)
  | some ((c, TT), _) =>
    if c = x.type then initializeAt M TT x rvalue
    else
      match x, c with
      | .plain a v, .plain t => do
        let y ← Cxx.lift (M.convert a t v)
        let _ ← initializeAt M TT (.plain t y) true
        pure x
      | .plain a v, .wrapper u =>
        if a = u then do
          let p ← Cxx.lift (Obj.box M u v rvalue)
          let _ ← initializeAt M TT p.1 true
          pure p.2
        else do
          Cxx.lift M.alloc
          let y ← Cxx.lift (M.convert a u v)
          let _ ← initializeAt M TT (.wrapper u (some y)) true
          pure x
      | .wrapper _ _, _ => Cxx.lift (.ub .illFormed)

/-- `variant(const variant& other)`:
`other.apply_visitor_internal(copy_ctor(*this)); active = other.active;`. -/
def variantCopy (other : Variant Ty Val) : Cxx Exn (Variant Ty Val) Unit := do
  let view ← Cxx.lift (other.apply Ts true)
  copyCtor M other view
  Cxx.modify fun v => { v with active := other.active }

/-- `variant(variant&& other)`:
`other.apply_visitor_internal(move_ctor(*this)); active = other.active;`. Returns
the donor. -/
def variantMove (other : Variant Ty Val) : Cxx Exn (Variant Ty Val) (Variant Ty Val) := do
  let view ← Cxx.lift (other.apply Ts true)
  let other' ← moveCtor M other view
  Cxx.modify fun v => { v with active := other.active }
  pure other'

/-- `variant(factory, tag t) : active(t) { apply<std::false_type>(default_ctor(*this)); }`:
unlike every other lifecycle path it dispatches in external mode. -/
def variantFactory (t : Nat) : Cxx Exn (Variant Ty Val) Unit := do
  Cxx.modify fun v => { v with active := t }
  let self ← Cxx.get
  let view ← Cxx.lift (self.apply Ts false)
  defaultCtor M view

/-- `make(t)`: `return {factory{}, t};`, which list-initialises the result in place. -/
def make (t : Nat) : Result (Exn × Variant Ty Val) (Unit × Variant Ty Val) :=
  variantFactory Ts M t Variant.fresh

/-! ## Assignment -/

/-- `operator=(const variant& rhs)`:
`rhs.apply_visitor_internal(assigner(*this, rhs.active)); active = rhs.active;`.
`rhs` is a variant apart from `*this`: no variant here lives inside another's value, so
the final read of `rhs.active`, which follows `self.destruct()`, reads a live variant. -/
def opAssign (rhs : Variant Ty Val) : Cxx Exn (Variant Ty Val) Unit := do
  let view ← Cxx.lift (rhs.apply Ts true)
  assigner Ts M rhs.active rhs view
  Cxx.modify fun v => { v with active := rhs.active }

/-- `operator=(variant&& rhs)`:
`rhs.apply_visitor_internal(move_assigner(*this, rhs.active)); active = rhs.active;`.
The jump table of `visit_impl` instantiates `move_assigner::operator()` at every
alternative, and each instantiation asserts
`std::is_nothrow_move_assignable<rhs_type>`, so a list that holds a `recursive_wrapper`
has no move assignment at all. Returns the donor. -/
def opMoveAssign (rhs : Variant Ty Val) : Cxx Exn (Variant Ty Val) (Variant Ty Val) :=
  if Ts.all Alt.nothrowMoveAssignable then do
    let view ← Cxx.lift (rhs.apply Ts true)
    let rhs' ← moveAssigner Ts M rhs.active rhs view
    Cxx.modify fun v => { v with active := rhs.active }
    pure rhs'
  else Cxx.lift (.ub .illFormed)

end Broker.Util
