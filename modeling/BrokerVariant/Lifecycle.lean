import BrokerVariant.Consistent

/-!
# Assignment carries values; a failed copy changes nothing

Copies and moves of a variant reproduce their source when the alternatives' own
copies and moves do: the object is copied, moved or assigned at its own type, and a
`recursive_wrapper` passes the work on to its pointee. Some paths do not: copy
assignment into a box that was moved from writes through its null `item`; a variant
made by copying, or from an lvalue, holds a const object, which an assignment in place
must not write; and a list that holds a box has no move assignment, since
`recursive_wrapper`'s is not `noexcept`. The two sides of an assignment are separate
variants here: `w` is never stored inside the value of `v`.

`assigner` copies the right-hand side into a temporary before it destroys anything,
so a copy that throws leaves the left-hand side as it was, and a constructor whose
copy throws leaves no object behind.
-/

namespace Broker.Util

variable {Ty Val Exn : Type}

/-- What is asked of the alternatives for copies and moves to carry values: their
copy and move constructors and assignments produce a value equal to their source, and
the `new T` of a `recursive_wrapper` copy does not run out of memory. -/
structure Members.Faithful (M : Members Ty Val Exn) : Prop where
  copy : ∀ t x, M.copy t x = .ok x
  move : ∀ t x, (M.move t x).1 = x
  copyAssign : ∀ t x y, M.copyAssign t x y = .ok y
  moveAssign : ∀ t x y, (M.moveAssign t x y).1 = y
  alloc : M.alloc = .ok ()

theorem Members.regular_faithful (init : Ty → Val) (eq lt : Ty → Val → Val → Bool)
    (hash : Ty → Val → Nat) : (Members.regular init eq lt hash : Members Ty Val Exn).Faithful :=
  ⟨fun _ _ => rfl, fun _ _ => rfl, fun _ _ _ => rfl, fun _ _ _ => rfl, rfl⟩

/-- `Members.nat` with a move that writes its source, as `std::string`'s does. -/
def Members.natMoveWrites : Members Nat Nat Unit := { Members.nat with moveWrites := fun _ => true }

/-- `Members.nat` with an `operator new` that always throws `std::bad_alloc`. -/
def Members.natOutOfMemory : Members Nat Nat Unit := { Members.nat with alloc := .throw () }

/-! ## Objects -/

namespace Obj

variable {M : Members Ty Val Exn} (hM : M.Faithful) {l r : Obj Ty Val} {t t' : Ty} {x y : Val}
include hM

theorem copy_faithful (h : r.value = some (t, x)) : r.copy M = .ok r := by
  cases r with
  | plain _ _ => simp [copy, hM.copy]
  | wrapper _ item => cases item <;> cases h; simp [copy, hM.alloc, hM.copy]

theorem move_fst_faithful (r : Obj Ty Val) : (r.move M).1 = r := by
  cases r <;> simp [move, hM.move]

theorem copyAssign_faithful (hlr : l.type = r.type) (hl : l.value = some (t, x))
    (hr : r.value = some (t', y)) : l.copyAssign M r = .ok r := by
  cases l with
  | plain _ _ =>
    cases r with
    | plain _ _ => cases hlr; simp [copyAssign, hM.copyAssign]
    | wrapper _ _ => cases hlr
  | wrapper _ item =>
    cases r with
    | plain _ _ => cases hlr
    | wrapper _ item' =>
      cases hlr
      cases item <;> cases hl
      cases item' <;> cases hr
      simp [copyAssign, hM.copyAssign]

theorem moveAssign_faithful {u : Ty} (hl : l.type = .plain u) (hr : r.type = .plain u) :
    ∃ q, l.moveAssign M r = .ok (r, q) := by
  cases l <;> cases r <;> simp only [type_plain, type_wrapper, reduceCtorEq, Alt.plain.injEq] at hl hr
  subst hl hr
  simp [moveAssign, hM.moveAssign]

end Obj

variable [DecidableEq Ty] (M : Members Ty Val Exn) (Ts : List (Alt Ty))

/-! ## The invariant

Every operation that returns leaves its variants consistent, and every variant it
builds holds a value, but the one a move built from a box that was itself moved from.
The one constructor that could leave the invariant, `make(t)` of a box, does not
return.
-/

section invariant
variable {M Ts} {v w v' w' : Variant Ty Val}

omit [DecidableEq Ty] in
theorem variantDefault_valid (h : variantDefault Ts M Variant.fresh = .ok ((), v')) :
    Valid Ts v' := by
  cases Ts with
  | nil => simp [variantDefault] at h
  | cons T rest =>
    cases T with
    | plain t =>
      rw [variantDefault_eq M rfl] at h
      cases h
      simp
    | wrapper _ => simp [variantDefault] at h

theorem make_valid {t : Nat} (h : make Ts M t = .ok ((), v')) : Valid Ts v' := by
  cases ht : Ts[t]? with
  | none => simp [make, variantFactory, Variant.apply, visitImpl, ht] at h
  | some c =>
    cases c with
    | plain u =>
      rw [make_plain M ht] at h
      cases h
      simp [ht]
    | wrapper u => rw [make_wrapper M ht] at h; cases h

theorem variantValue_valid {X left : Obj Ty Val} {rvalue : Bool}
    (h : variantValue Ts M X rvalue Variant.fresh = .ok (left, v'))
    (hX : ∃ t x, X.value = some (t, x)) : Valid Ts v' := by
  cases hi : initializeOverload Ts M X.type with
  | none => rw [variantValue_none M rvalue hi] at h; cases h
  | some q =>
    obtain ⟨⟨c, TT⟩, n⟩ := q
    obtain ⟨r, hr, hok⟩ := variantValue_settle M rvalue Variant.fresh_storage hi
    rw [hr] at h
    obtain ⟨p, hp, ⟨⟩⟩ := Result.settle_eq_ok.1 h
    obtain ⟨hty, hval⟩ := hok p hp
    obtain ⟨i, rfl, hc, -⟩ := mem_initializer.1 (initializeOverload_eq_some.1 hi).1
    rw [valid_mk, hty, Nat.zero_add]
    exact ⟨hc, hval hX⟩

theorem variantCopy_valid (hw : Consistent Ts w)
    (h : variantCopy Ts M w Variant.fresh = .ok ((), v')) : Valid Ts v' := by
  obtain ⟨r, hwr, hwt⟩ := hw
  rw [variantCopy_eq M rfl hwr hwt] at h
  obtain ⟨o, ho, ⟨⟩⟩ := Result.settle_eq_ok.1 h
  rw [valid_mk, Obj.type_of_copy M ho]
  exact ⟨hwt, Obj.value_of_copy_ok M ho⟩

theorem variantMove_consistent (hw : Consistent Ts w)
    (h : variantMove Ts M w Variant.fresh = .ok (w', v')) :
    Consistent Ts v' ∧ Consistent Ts w' ∧ (Valid Ts w → Valid Ts v') := by
  obtain ⟨r, hwr, hwt⟩ := hw
  rw [variantMove_eq M rfl hwr hwt] at h
  split_ifs at h
  obtain ⟨rfl, rfl⟩ := Prod.mk.inj (Result.ok.inj h)
  refine ⟨by simpa using hwt, by simpa using hwt, fun ⟨t, x, r', hwr', _, hx⟩ => ?_⟩
  obtain rfl : r = r' := Option.some.inj (hwr.symm.trans hwr')
  obtain ⟨y, hy⟩ := Obj.value_move_fst M hx
  simpa [hwt] using ⟨t, y, hy⟩

theorem opAssign_valid (hv : Consistent Ts v) (hw : Consistent Ts w)
    (h : opAssign Ts M w v = .ok ((), v')) : Valid Ts v' := by
  obtain ⟨l, hvl, hvt⟩ := hv
  obtain ⟨r, hwr, hwt⟩ := hw
  rw [opAssign_eq M hvl hvt hwr hwt] at h
  by_cases hc : v.active = w.active ∧ v.isConst ∧ v.assignWrites
  · rw [if_pos hc] at h; cases h
  rw [if_neg hc] at h
  obtain ⟨o, ho, ⟨⟩⟩ := Result.settle_eq_ok.1 h
  rw [valid_mk, hwt]
  split_ifs at ho with he
  · rw [Obj.type_of_copyAssign M ho, type_eq_of_active hvt hwt he]
    exact ⟨rfl, Obj.value_of_copyAssign M ho⟩
  · obtain ⟨o', ho', rfl⟩ := Result.map_eq_ok.1 ho
    obtain ⟨t, x, hx⟩ := Obj.value_of_copy_ok M ho'
    obtain ⟨y, hy⟩ := Obj.value_move_fst M hx
    rw [Obj.type_move_fst, Obj.type_of_copy M ho']
    exact ⟨rfl, t, y, hy⟩

theorem opMoveAssign_consistent (hv : Consistent Ts v) (hw : Consistent Ts w)
    (h : opMoveAssign Ts M w v = .ok (w', v')) :
    Consistent Ts v' ∧ Consistent Ts w' ∧ (Valid Ts w → Valid Ts v') := by
  obtain ⟨l, hvl, hvt⟩ := hv
  obtain ⟨r, hwr, hwt⟩ := hw
  cases hn : Ts.all Alt.nothrowMoveAssignable
  · rw [opMoveAssign_illFormed M hn] at h; cases h
  rw [opMoveAssign_eq M hn hvl hvt hwr hwt] at h
  by_cases hc : v.active = w.active ∧ v.isConst ∨ w.isConst ∧ w.moveWrites M
  · rw [if_pos hc] at h; cases h
  rw [if_neg hc] at h
  obtain ⟨p, hp, h⟩ := Result.settle_eq_ok.1 h
  simp only [Prod.mk.injEq] at h
  obtain ⟨rfl, rfl⟩ := h
  simp only [consistent_mk, valid_mk, hwt]
  split_ifs at hp with he
  · obtain ⟨h1, h2⟩ := Obj.type_of_moveAssign M hp
    rw [h1, h2, type_eq_of_active hvt hwt he]
    exact ⟨rfl, rfl, fun _ => ⟨rfl, Obj.value_of_moveAssign M hp⟩⟩
  · cases hp
    refine ⟨by simp, by simp, fun ⟨t, x, r', hwr', _, hx⟩ => ?_⟩
    obtain rfl : r = r' := Option.some.inj (hwr.symm.trans hwr')
    obtain ⟨y, hy⟩ := Obj.value_move_fst M hx
    exact ⟨by simp, t, y, hy⟩

end invariant

/-! ## Copies and moves -/

/-- Construction from a value that throws, whichever overload it took, leaves no
object in the storage. -/
theorem variantValue_throw_fresh {X : Obj Ty Val} {rvalue : Bool} {e : Exn}
    {s : Variant Ty Val} (h : variantValue Ts M X rvalue Variant.fresh = .throw (e, s)) :
    s = Variant.fresh := by
  cases hi : initializeOverload Ts M X.type with
  | none => rw [variantValue_none M rvalue hi] at h; cases h
  | some q =>
    obtain ⟨r, hr, -⟩ := variantValue_settle M rvalue Variant.fresh_storage hi
    rw [hr] at h
    obtain ⟨_, -, h⟩ := Result.settle_eq_throw.1 h
    exact (Prod.mk.inj h).2.symm

/-- **A failed copy changes nothing.** When the copy of `w`'s object throws, `v = w`
between different alternatives rethrows with `v` as it was, and `variant(w)` rethrows
with no object in its storage; a construction from a value that throws leaves none
either. -/
theorem opAssign_copy_throw (w : Variant Ty Val) (r : Obj Ty Val) (hw : w.storage = some r)
    (hwt : Ts[w.active]? = some r.type) (e : Exn) (hc : r.copy M = .throw e) :
    (∀ v : Variant Ty Val, v.active ≠ w.active → opAssign Ts M w v = .throw (e, v)) ∧
      variantCopy Ts M w Variant.fresh = .throw (e, Variant.fresh) ∧
      ∀ (X : Obj Ty Val) (rvalue : Bool) (e' : Exn) (s : Variant Ty Val),
        variantValue Ts M X rvalue Variant.fresh = .throw (e', s) → s = Variant.fresh := by
  refine ⟨fun v he => ?_, ?_, fun X rvalue e' s h => variantValue_throw_fresh M Ts h⟩
  · simp [opAssign, assigner, apply_internal hwt, hw, he, hc]
  · rw [variantCopy_eq M rfl hw hwt, hc, Result.settle_throw]

/-- With no memory left, copying a box throws `std::bad_alloc` out of an assignment
over a number and out of a copy constructor, and boxing a number for construction
throws it too. -/
theorem opAssign_copy_throw_alloc :
    opAssign [.plain 0, .wrapper 1] Members.natOutOfMemory ⟨some (.wrapper 1 (some 5)), 1, false⟩
        ⟨some (.plain 0 4), 0, false⟩ = .throw ((), ⟨some (.plain 0 4), 0, false⟩) ∧
      variantCopy [.plain 0, .wrapper 1] Members.natOutOfMemory
        ⟨some (.wrapper 1 (some 5)), 1, false⟩ Variant.fresh = .throw ((), Variant.fresh) ∧
      variantValue [.plain 0, .wrapper 1] Members.natOutOfMemory (.plain 1 5) true
        Variant.fresh = .throw ((), Variant.fresh) :=
  have h := opAssign_copy_throw Members.natOutOfMemory [.plain 0, .wrapper 1]
    ⟨some (.wrapper 1 (some 5)), 1, false⟩ (.wrapper 1 (some 5)) rfl rfl () rfl
  ⟨h.1 _ (by decide), h.2.1, rfl⟩

end Broker.Util
