import BrokerVariant.Access

/-!
# The invariant, and what each operation does on variants that keep it

`variant` keeps one invariant by hand: exactly one object is live in the storage,
and it is an object of the alternative the discriminator names. On a variant that
keeps it, dispatch reaches the live object at its own type, so every operation
reduces to what it does to objects. This file states that reduction once per
operation; the files after it reason about objects and never unfold the dispatch.
-/

namespace Broker.Util

variable {Ty Val Exn : Type} (Ts : List (Alt Ty))

/-- The invariant of `variant`: one object is live in the storage, of the alternative
the discriminator names. -/
def Consistent (v : Variant Ty Val) : Prop :=
  ∃ o, v.storage = some o ∧ Ts[v.active]? = some o.type

/-- `v` keeps the invariant and stands for the value `x` of type `t`: its object is a
`t`, or a `recursive_wrapper<t>` that owns one. -/
def Holds (v : Variant Ty Val) (t : Ty) (x : Val) : Prop :=
  ∃ o, v.storage = some o ∧ Ts[v.active]? = some o.type ∧ o.value = some (t, x)

/-- `v` keeps the invariant and stands for some value: it is not a wrapper left empty
by a move. -/
def Valid (v : Variant Ty Val) : Prop := ∃ t x, Holds Ts v t x

variable {Ts} {v w : Variant Ty Val} {o l r : Obj Ty Val}

theorem Valid.consistent (h : Valid Ts v) : Consistent Ts v :=
  let ⟨_, _, o, hv, ht, _⟩ := h; ⟨o, hv, ht⟩

@[simp] theorem valid_mk {k : Nat} {c : Bool} :
    Valid Ts ⟨some o, k, c⟩ ↔ Ts[k]? = some o.type ∧ ∃ t x, o.value = some (t, x) := by
  constructor
  · rintro ⟨t, x, o', h, ht, hx⟩
    cases h
    exact ⟨ht, t, x, hx⟩
  · rintro ⟨ht, t, x, hx⟩
    exact ⟨t, x, o, rfl, ht, hx⟩

@[simp] theorem consistent_mk {o : Obj Ty Val} {k : Nat} {c : Bool} :
    Consistent Ts ⟨some o, k, c⟩ ↔ Ts[k]? = some o.type := by
  simp [Consistent]

/-- Consistent variants with one discriminator hold objects of one type. -/
theorem type_eq_of_active (hvt : Ts[v.active]? = some l.type) (hwt : Ts[w.active]? = some r.type)
    (he : v.active = w.active) : l.type = r.type :=
  Option.some.inj (hvt.symm.trans (he ▸ hwt))

theorem Holds.consistent {t : Ty} {x : Val} (h : Holds Ts v t x) : Consistent Ts v :=
  let ⟨o, hv, ht, _⟩ := h; ⟨o, hv, ht⟩

/-- The value of a consistent variant is of the type its alternative holds. -/
theorem Holds.base {t : Ty} {x : Val} (h : Holds Ts v t x) :
    ∃ c, Ts[v.active]? = some c ∧ c.base = t :=
  let ⟨o, _, ht, hx⟩ := h; ⟨o.type, ht, Obj.base_of_value hx⟩

/-- Variants with one discriminator hold values of one type. -/
theorem Holds.type_eq {t t' : Ty} {x x' : Val} (h : Holds Ts v t x) (h' : Holds Ts w t' x')
    (he : v.active = w.active) : t = t' := by
  obtain ⟨c, hc, rfl⟩ := h.base
  obtain ⟨c', hc', rfl⟩ := h'.base
  rw [he, hc'] at hc
  cases hc; rfl

theorem Holds.mem {t : Ty} {x : Val} (h : Holds Ts v t x) : ∃ c ∈ Ts, c.base = t := by
  obtain ⟨c, hc, rfl⟩ := h.base
  exact ⟨c, List.getElem?_mem hc, rfl⟩

/-- Whether moving from `w` writes its object: a box hands over its pointer, and an
ordinary value is written when its move constructor writes its source. -/
def Variant.moveWrites (M : Members Ty Val Exn) (w : Variant Ty Val) : Bool :=
  match w.storage with
  | some o => o.moveWrites M
  | none => false

/-- Whether assigning into `v` in place writes its object: an ordinary value is
overwritten, while a box writes its pointee. -/
def Variant.assignWrites (v : Variant Ty Val) : Bool :=
  match v.storage with
  | some o => o.assignWrites
  | none => false

theorem Variant.moveWrites_of_storage (M : Members Ty Val Exn) (h : w.storage = some r) :
    w.moveWrites M = r.moveWrites M := by
  simp [Variant.moveWrites, h]

theorem Variant.assignWrites_of_storage (h : v.storage = some l) : v.assignWrites = l.assignWrites := by
  simp [Variant.assignWrites, h]

variable [DecidableEq Ty]

/-! ## Dispatch on a consistent variant -/

@[simp] theorem readAs_type (o : Obj Ty Val) : (readAs o.type (some o) : Result Exn _) = .ok o := by
  simp [readAs]

theorem apply_internal (ht : Ts[v.active]? = some o.type) :
    (v.apply Ts true : Result Exn (View Ty Val)) = .ok (.storage o.type) := by
  simp [Variant.apply, visitImpl, ht, getValue]

variable (Exn) in
/-- In external mode a consistent variant hands over the value its object stands for. -/
theorem apply_external {t : Ty} {x : Val} (hv : v.storage = some o)
    (ht : Ts[v.active]? = some o.type) (hx : o.value = some (t, x)) :
    ∃ view, (v.apply Ts false : Result Exn (View Ty Val)) = .ok view ∧
      view.type = .plain t ∧ (view.present v.storage : Result Exn _) = .ok (t, x) := by
  cases o with
  | plain t' x' =>
    simp only [Obj.value_plain, Option.some.injEq, Prod.mk.injEq] at hx
    obtain ⟨rfl, rfl⟩ := hx
    exact ⟨.storage (.plain t'), by simp [Variant.apply, visitImpl, ht, getValue], rfl,
      by simp [View.present, hv, readAs]⟩
  | wrapper t' item =>
    cases item with
    | none => cases hx
    | some u =>
      simp only [Obj.value_wrapper, Option.map_some', Option.some.injEq, Prod.mk.injEq] at hx
      obtain ⟨rfl, rfl⟩ := hx
      exact ⟨.pointee t' u, by simp [Variant.apply, visitImpl, ht, getValue, hv], rfl, rfl⟩

/-- A wrapper that was moved from cannot be visited in external mode: `x.get()`
dereferences its null `item`. -/
theorem apply_external_null {t : Ty} (hv : v.storage = some (.wrapper t none))
    (ht : Ts[v.active]? = some (.wrapper t)) :
    (v.apply Ts false : Result Exn (View Ty Val)) = .ub .nullItem := by
  simp [Variant.apply, visitImpl, ht, getValue, hv]

/-! ## The lifecycle on consistent variants -/

theorem destruct_eq (hv : v.storage = some o) (ht : Ts[v.active]? = some o.type) :
    (destruct Ts v : Result (Exn × Variant Ty Val) _) = .ok ((), { v with storage := none }) := by
  simp [destruct, dtor, apply_internal ht, hv]

variable (M : Members Ty Val Exn)

/-- The copy constructor copies the object of `w` into the empty storage, as a const
object. -/
theorem variantCopy_eq (hs : v.storage = none) (hw : w.storage = some r)
    (ht : Ts[w.active]? = some r.type) :
    variantCopy Ts M w v = (r.copy M).settle v fun o => ((), ⟨some o, w.active, true⟩) := by
  cases hc : r.copy M <;>
    simp [variantCopy, copyCtor, apply_internal ht, hw, hc, construct, hs]

/-- The move constructor moves the object of `w` into the empty storage, unless the
move writes a const source. -/
theorem variantMove_eq (hs : v.storage = none) (hw : w.storage = some r)
    (ht : Ts[w.active]? = some r.type) :
    variantMove Ts M w v =
      if w.isConst ∧ w.moveWrites M then .ub .constWrite
      else .ok ({ w with storage := some (r.move M).2 }, ⟨some (r.move M).1, w.active, false⟩) := by
  rw [Variant.moveWrites_of_storage M hw]
  by_cases hm : w.isConst = true ∧ r.moveWrites M = true <;>
    simp [variantMove, moveCtor, apply_internal ht, hw, hm, construct, hs]

/-- Copy assignment: in place between objects of one alternative, which is undefined
when that writes a const object; otherwise a copy moved into the storage after the old
object is destroyed. An exception leaves `v`. -/
theorem opAssign_eq (hv : v.storage = some l) (hvt : Ts[v.active]? = some l.type)
    (hw : w.storage = some r) (hwt : Ts[w.active]? = some r.type) :
    opAssign Ts M w v =
      if v.active = w.active ∧ v.isConst ∧ v.assignWrites then .ub .constWrite
      else (if v.active = w.active then l.copyAssign M r
        else (fun o => (o.move M).1) <$> r.copy M).settle
          v fun o => ((), ⟨some o, w.active, v.active = w.active && v.isConst⟩) := by
  rw [Variant.assignWrites_of_storage hv]
  by_cases he : v.active = w.active
  · have hlr : l.type = r.type := by rw [he] at hvt; simpa [hvt] using hwt
    by_cases hm : v.isConst = true ∧ l.assignWrites = true <;>
      simp [opAssign, assigner, apply_internal hwt, hw, he, hv, hlr, hm, readAs]
  · cases hc : r.copy M <;>
      simp [opAssign, assigner, apply_internal hwt, hw, he, hc, destruct_eq hv hvt, construct]

/-- Move assignment of a list of alternatives that all move-assign without throwing:
in place between objects of one alternative, otherwise the old object is destroyed and
`w`'s moved in; undefined when either writes a const object. Returns the donor. -/
theorem opMoveAssign_eq (hn : Ts.all Alt.nothrowMoveAssignable)
    (hv : v.storage = some l) (hvt : Ts[v.active]? = some l.type)
    (hw : w.storage = some r) (hwt : Ts[w.active]? = some r.type) :
    opMoveAssign Ts M w v =
      if v.active = w.active ∧ v.isConst ∨ w.isConst ∧ w.moveWrites M then .ub .constWrite
      else (if v.active = w.active then l.moveAssign M r else .ok (r.move M)).settle
        v fun p => ({ w with storage := some p.2 }, ⟨some p.1, w.active, false⟩) := by
  rw [Variant.moveWrites_of_storage M hw]
  by_cases hm : w.isConst = true ∧ r.moveWrites M = true
  · by_cases he : v.active = w.active
    · have hlr : l.type = r.type := by rw [he] at hvt; simpa [hvt] using hwt
      simp [opMoveAssign, moveAssigner, apply_internal hwt, hn, hw, he, hv, hlr, readAs, hm]
    · simp [opMoveAssign, moveAssigner, apply_internal hwt, hn, hw, he, hm, destruct_eq hv hvt]
  · by_cases he : v.active = w.active
    · have hlr : l.type = r.type := by rw [he] at hvt; simpa [hvt] using hwt
      cases hc : v.isConst <;>
        simp [opMoveAssign, moveAssigner, apply_internal hwt, hn, hw, he, hv, hlr, readAs, hm, hc]
    · simp [opMoveAssign, moveAssigner, apply_internal hwt, hn, hw, he, hm, destruct_eq hv hvt,
        construct]

/-- A list holding a `recursive_wrapper` has no move assignment. -/
theorem opMoveAssign_illFormed (hn : Ts.all Alt.nothrowMoveAssignable = false) :
    opMoveAssign Ts M w v = .ub .illFormed := by
  simp [opMoveAssign, hn]

/-! ## Constructors from a value, by default, and by tag -/

/-- Construction from an argument of an alternative's type: the object is moved from
an rvalue and copied, as a const object, from an lvalue, into the first slot of that
type. Returns the argument as it is left. -/
theorem variantValue_eq {x : Obj Ty Val} {TT : Nat} (rvalue : Bool) (hs : v.storage = none)
    (hi : (x.type, TT) ∈ initializer 0 Ts) :
    variantValue Ts M x rvalue v =
      (if rvalue then .ok (x.move M) else (fun o => (o, x)) <$> x.copy M).settle
        v fun p => (p.2, ⟨some p.1, TT, !rvalue⟩) := by
  have h := initializeOverload_self (M := M) hi
  cases rvalue
  · cases hc : x.copy M <;> simp [variantValue, h, initializeAt, hc, construct, hs]
  · simp [variantValue, h, initializeAt, construct, hs]

/-- Construction from a `T` that resolution sends to another ordinary alternative: the
converted temporary is moved in, and the argument is left as it was. -/
theorem variantValue_convert {a t : Ty} {x : Val} {TT n : Nat} (rvalue : Bool)
    (hs : v.storage = none) (hi : initializeOverload Ts M (.plain a) = some ((.plain t, TT), n))
    (hne : t ≠ a) :
    variantValue Ts M (.plain a x) rvalue v =
      (M.convert a t x).settle v fun y => (.plain a x, ⟨some (.plain t (M.move t y).1), TT, false⟩) := by
  cases hc : M.convert a t x <;>
    simp [variantValue, hi, hne, hc, initializeAt, construct, hs, Obj.move]

/-- Construction from a `U` that resolution sends to `recursive_wrapper<U>`: the
temporary box the converting constructor makes is moved into the storage. -/
theorem variantValue_box {t : Ty} {a : Val} {TT n : Nat} (rvalue : Bool) (hs : v.storage = none)
    (hi : initializeOverload Ts M (.plain t) = some ((.wrapper t, TT), n)) :
    variantValue Ts M (.plain t a) rvalue v =
      (Obj.box M t a rvalue).settle v fun p => (p.2, ⟨some p.1, TT, false⟩) := by
  cases hb : Obj.box M t a rvalue with
  | ok p =>
    obtain ⟨a', hp1⟩ := Obj.box_eq_ok M hb
    simp [variantValue, hi, hb, initializeAt, construct, hs, hp1, Obj.move]
  | throw _ | ub _ => simp [variantValue, hi, hb]

/-- Construction from a `T` that resolution sends to `recursive_wrapper<U>` for another
`U`: the converting constructor allocates and converts the argument into the box,
which is moved in. -/
theorem variantValue_convert_box {a u : Ty} {x : Val} {TT n : Nat} (rvalue : Bool)
    (hs : v.storage = none) (hi : initializeOverload Ts M (.plain a) = some ((.wrapper u, TT), n))
    (hne : a ≠ u) :
    variantValue Ts M (.plain a x) rvalue v =
      (M.alloc >>= fun _ => M.convert a u x).settle
        v fun y => (.plain a x, ⟨some (.wrapper u (some y)), TT, false⟩) := by
  cases ha : M.alloc with
  | ok _ =>
    cases hc : M.convert a u x <;>
      simp [variantValue, hi, hne, Ne.symm hne, ha, hc, initializeAt, construct, hs, Obj.move]
  | throw _ | ub _ => simp [variantValue, hi, hne, Ne.symm hne, ha]

/-- With no overload, or no best one, construction from a value is ill-formed. -/
theorem variantValue_none {x : Obj Ty Val} (rvalue : Bool) (hi : initializeOverload Ts M x.type = none) :
    variantValue Ts M x rvalue v = .ub .illFormed := by
  simp [variantValue, hi]

/-- Construction from a value through the overloads of alternative `c` at level `TT`,
whichever conversion the argument takes: an object of type `c`, which holds a value when
the argument does, is placed in the storage with discriminator `TT`, or an exception
leaves the storage as it was. -/
theorem variantValue_settle {X : Obj Ty Val} {c : Alt Ty} {TT n : Nat} (rvalue : Bool)
    (hs : v.storage = none) (hi : initializeOverload Ts M X.type = some ((c, TT), n)) :
    ∃ r : Result Exn (Obj Ty Val × Obj Ty Val × Bool),
      variantValue Ts M X rvalue v = r.settle v (fun p => (p.2.1, ⟨some p.1, TT, p.2.2⟩)) ∧
      ∀ p, r = .ok p → p.1.type = c ∧
        ((∃ t x, X.value = some (t, x)) → ∃ t y, p.1.value = some (t, y)) := by
  obtain ⟨hc, hr, -⟩ := initializeOverload_eq_some.1 hi
  by_cases hcx : c = X.type
  · subst hcx
    refine ⟨(fun p => (p.1, p.2, !rvalue)) <$>
      (if rvalue then .ok (X.move M) else (fun o => (o, X)) <$> X.copy M), ?_, fun p hp => ?_⟩
    · rw [variantValue_eq M rvalue hs hc, Result.settle_map]
    · cases rvalue
      · simp only [Bool.false_eq_true, if_false] at hp
        obtain ⟨q, hq, rfl⟩ := Result.map_eq_ok.1 hp
        obtain ⟨o, ho, rfl⟩ := Result.map_eq_ok.1 hq
        exact ⟨Obj.type_of_copy M ho, fun _ => Obj.value_of_copy_ok M ho⟩
      · cases hp
        exact ⟨Obj.type_move_fst M X, fun ⟨t, x, hx⟩ => ⟨t, _, (Obj.value_move_fst M hx).choose_spec⟩⟩
  · obtain ⟨a, x⟩ | ⟨t, _⟩ := X
    · cases c with
      | plain t =>
        have hta : t ≠ a := fun h => hcx (by rw [h]; rfl)
        refine ⟨(fun y => (.plain t (M.move t y).1, .plain a x, false)) <$> M.convert a t x,
          by rw [variantValue_convert M rvalue hs hi hta, Result.settle_map], fun p hp => ?_⟩
        obtain ⟨y, -, rfl⟩ := Result.map_eq_ok.1 hp
        exact ⟨rfl, fun _ => ⟨t, _, rfl⟩⟩
      | wrapper u =>
        by_cases hau : a = u
        · subst hau
          refine ⟨(fun p => (p.1, p.2, false)) <$> Obj.box M a x rvalue,
            by rw [variantValue_box M rvalue hs hi, Result.settle_map], fun p hp => ?_⟩
          obtain ⟨q, hq, rfl⟩ := Result.map_eq_ok.1 hp
          obtain ⟨a', ha'⟩ := Obj.box_eq_ok M hq
          exact ⟨by rw [ha']; rfl, fun _ => ⟨a, a', by rw [ha']; rfl⟩⟩
        · refine ⟨(fun y => (.wrapper u (some y), .plain a x, false)) <$>
            (M.alloc >>= fun _ => M.convert a u x),
            by rw [variantValue_convert_box M rvalue hs hi hau, Result.settle_map], fun p hp => ?_⟩
          obtain ⟨y, -, rfl⟩ := Result.map_eq_ok.1 hp
          exact ⟨rfl, fun _ => ⟨u, y, rfl⟩⟩
    · exact absurd (M.rank_wrapper hr) hcx

omit [DecidableEq Ty] in
/-- Default construction value-initialises the front alternative. -/
theorem variantDefault_eq {t : Ty} {rest : List (Alt Ty)} (hs : v.storage = none) :
    variantDefault (.plain t :: rest) M v =
      .ok ((), ⟨some (.plain t (M.move t (M.valueInit t)).1), 0, false⟩) := by
  simp [variantDefault, construct, hs]

/-- `make(t)` of an ordinary alternative value-initialises it. -/
theorem make_plain {t : Nat} {u : Ty} (ht : Ts[t]? = some (.plain u)) :
    make Ts M t = .ok ((), ⟨some (.plain u (M.move u (M.valueInit u)).1), t, false⟩) := by
  simp [make, variantFactory, Variant.apply, visitImpl, ht, getValue, defaultCtor, construct,
    Variant.fresh]

/-- `make(t)` of a `recursive_wrapper<U>` alternative: `variant(factory, t)` dispatches
in external mode, so `get_value` calls `get()` on a wrapper that was never constructed
in the empty storage. -/
theorem make_wrapper {t : Nat} {u : Ty} (ht : Ts[t]? = some (.wrapper u)) :
    make Ts M t = .ub .emptyStorage := by
  simp [make, variantFactory, Variant.apply, visitImpl, ht, getValue, Variant.fresh]

/-- `make(0)` of the list `recursive_wrapper<U>`: the factory constructor reads the
empty storage as a wrapper. -/
theorem make_recursive_wrapper (u : Ty) : make [Alt.wrapper u] M 0 = .ub .emptyStorage :=
  make_wrapper M rfl

/-! ## Comparison and access on consistent variants -/

/-- Equality compares discriminators, then the two objects at their common type. -/
theorem opEq_eq (hv : v.storage = some l) (hvt : Ts[v.active]? = some l.type)
    (hw : w.storage = some r) (hwt : Ts[w.active]? = some r.type) :
    opEq Ts M v w = if v.active = w.active then l.eq M r else .ok false := by
  by_cases he : v.active = w.active
  · have hlr : l.type = r.type := by rw [he] at hvt; simpa [hvt] using hwt
    simp [opEq, he, apply_internal hwt, equals, hv, hw, hlr, readAs]
  · simp [opEq, he]

/-- Ordering compares discriminators, then the two objects at their common type. -/
theorem opLt_eq (hv : v.storage = some l) (hvt : Ts[v.active]? = some l.type)
    (hw : w.storage = some r) (hwt : Ts[w.active]? = some r.type) :
    opLt Ts M v w =
      if v.active = w.active then l.lt M r else .ok (decide (v.active < w.active)) := by
  by_cases he : v.active = w.active
  · have hlr : l.type = r.type := by rw [he] at hvt; simpa [hvt] using hwt
    simp [opLt, he, apply_internal hwt, lessThan, hv, hw, hlr, readAs]
  · simp [opLt, he]

section access
variable {t : Ty} {x : Val} (hv : v.storage = some o) (ht : Ts[v.active]? = some o.type)
  (hx : o.value = some (t, x))
include hv ht hx

/-- `get<S>` finds the value exactly when `S` is its unwrapped type. -/
theorem get_eq (S : Alt Ty) :
    (get Ts S v : Result Exn (Option Val)) = .ok (if Alt.plain t = S then some x else none) := by
  obtain ⟨view, hview, htype, hpres⟩ := apply_external Exn hv ht hx
  by_cases hS : Alt.plain t = S <;> simp [get, hview, getter, htype, hpres, hS]

theorem is_eq (S : Alt Ty) : (is Ts S v : Result Exn Bool) = .ok (decide (Alt.plain t = S)) := by
  by_cases hS : Alt.plain t = S <;> simp [is, get_eq hv ht hx, hS]

/-- The hash is that of the value, whatever the discriminator. -/
theorem hash_eq : hash Ts M v = .ok (M.hash t x) := by
  obtain ⟨view, hview, -, hpres⟩ := apply_external Exn hv ht hx
  simp [hash, hview, hasher, hpres]

end access

theorem get_holds {t : Ty} {x : Val} (h : Holds Ts v t x) (S : Alt Ty) :
    (get Ts S v : Result Exn (Option Val)) = .ok (if Alt.plain t = S then some x else none) :=
  let ⟨_, hv, ht, hx⟩ := h; get_eq hv ht hx S

theorem is_holds {t : Ty} {x : Val} (h : Holds Ts v t x) (S : Alt Ty) :
    (is Ts S v : Result Exn Bool) = .ok (decide (Alt.plain t = S)) :=
  let ⟨_, hv, ht, hx⟩ := h; is_eq hv ht hx S

theorem hash_holds {t : Ty} {x : Val} (h : Holds Ts v t x) : hash Ts M v = .ok (M.hash t x) :=
  let ⟨_, hv, ht, hx⟩ := h; hash_eq M hv ht hx

end Broker.Util
