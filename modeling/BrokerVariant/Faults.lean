import BrokerVariant.Visit

/-!
# Where each operation goes wrong

On variants that keep the invariant, every operation of the header returns or throws,
except in a few cases that this module names, each with its cause: the alternatives'
own members aside, a run goes wrong only by dereferencing the null pointer a move
leaves in a `recursive_wrapper`, by writing a const object, or in the paths that never
had a well-defined meaning (`make` of a box, or of a discriminator out of range, and
the constructions and move assignments the instantiation does not allow). Each lemma
is an equivalence, so it also says that nothing else goes wrong.

## Main definitions

* `Members.Defined` — the alternatives' members return or throw.
* `Obj.isNull`, `Variant.isNull` — a box whose pointer a move left null.
-/

namespace Broker.Util

variable {Ty Val Exn : Type}

/-- The members `variant` and `recursive_wrapper` call are defined: copies, copy
assignments, conversions and allocation return or throw. -/
structure Members.Defined (M : Members Ty Val Exn) : Prop where
  copy : ∀ t x w, M.copy t x ≠ .ub w
  copyAssign : ∀ t x y w, M.copyAssign t x y ≠ .ub w
  convert : ∀ a t x w, M.convert a t x ≠ .ub w
  alloc : ∀ w, M.alloc ≠ .ub w

theorem Members.regular_defined (init : Ty → Val) (eq lt : Ty → Val → Val → Bool)
    (hash : Ty → Val → Nat) : (Members.regular init eq lt hash : Members Ty Val Exn).Defined :=
  ⟨fun _ _ _ => nofun, fun _ _ _ _ => nofun, fun _ _ _ _ => nofun, fun _ => nofun⟩

/-- A `recursive_wrapper` whose `item` a move left null. -/
def Obj.isNull : Obj Ty Val → Bool
  | .wrapper _ none => true
  | _ => false

/-- A variant whose object is a box left null by a move. -/
def Variant.isNull (v : Variant Ty Val) : Bool :=
  match v.storage with
  | some o => o.isNull
  | none => false

@[simp] theorem Obj.isNull_plain (t : Ty) (x : Val) : (Obj.plain t x).isNull = false := rfl
@[simp] theorem Obj.isNull_wrapper (t : Ty) (item : Option Val) :
    (Obj.wrapper t item).isNull = item.isNone := by
  cases item <;> rfl

@[simp] theorem Variant.isNull_mk (o : Obj Ty Val) (k : Nat) (c : Bool) :
    (⟨some o, k, c⟩ : Variant Ty Val).isNull = o.isNull := rfl

/-! ## Objects -/

namespace Obj
variable (M : Members Ty Val Exn) {o l r : Obj Ty Val} {w : Undefined}

/-- A copy goes wrong only on a null box, whose `other.get()` dereferences it. -/
theorem copy_eq_ub (hM : M.Defined) : o.copy M = .ub w ↔ o.isNull ∧ w = .nullItem := by
  rcases o with ⟨t, x⟩ | ⟨t, _ | u⟩
  · simp [copy, hM.copy]
  · simp [copy, eq_comm]
  · simp [copy, hM.alloc, hM.copy]

/-- A copy assignment between objects of one type goes wrong only when one of them is
a null box: `assign(rhs.get())` dereferences both pointers. -/
theorem copyAssign_eq_ub (hM : M.Defined) (hlr : l.type = r.type) :
    l.copyAssign M r = .ub w ↔ (l.isNull ∨ r.isNull) ∧ w = .nullItem := by
  rcases l with ⟨t, x⟩ | ⟨t, _ | a⟩ <;> rcases r with ⟨t', y⟩ | ⟨t', _ | b⟩ <;>
    simp_all [copyAssign, hM.copyAssign] <;> exact eq_comm

/-- A move assignment between objects of one ordinary type never goes wrong. -/
theorem moveAssign_ne_ub {t : Ty} (hl : l.type = .plain t) (hr : r.type = .plain t) :
    l.moveAssign M r ≠ .ub w := by
  rcases l with ⟨t, x⟩ | ⟨t, a⟩ <;> rcases r with ⟨t', y⟩ | ⟨t', b⟩ <;> simp_all [moveAssign]

theorem eq_eq_ub (hlr : l.type = r.type) :
    l.eq M r = .ub w ↔ (l.isNull ∨ r.isNull) ∧ w = .nullItem := by
  rcases l with ⟨t, x⟩ | ⟨t, _ | a⟩ <;> rcases r with ⟨t', y⟩ | ⟨t', _ | b⟩ <;>
    simp_all [Obj.eq, eq_comm]

theorem lt_eq_ub (hlr : l.type = r.type) :
    l.lt M r = .ub w ↔ (l.isNull ∨ r.isNull) ∧ w = .nullItem := by
  rcases l with ⟨t, x⟩ | ⟨t, _ | a⟩ <;> rcases r with ⟨t', y⟩ | ⟨t', _ | b⟩ <;>
    simp_all [Obj.lt, eq_comm]

/-- The converting constructor of a box never goes wrong. -/
theorem box_ne_ub (hM : M.Defined) (t : Ty) (a : Val) (rvalue : Bool) :
    box M t a rvalue ≠ .ub w := by
  cases rvalue <;> simp [box, hM.alloc, hM.copy]

end Obj

/-! ## Variants -/

variable [DecidableEq Ty] {Ts : List (Alt Ty)} {v w : Variant Ty Val} {e : Undefined}

/-- A consistent variant is a null box, which external dispatch dereferences, or holds a
value. -/
theorem Consistent.null_or_holds (h : Consistent Ts v) :
    (v.isNull = true ∧ ∀ {Exn : Type}, (v.apply Ts false : Result Exn _) = .ub .nullItem) ∨
      (v.isNull = false ∧ ∃ t x, Holds Ts v t x) := by
  obtain ⟨o, hv, ht⟩ := h
  obtain ⟨s, k, c⟩ := v
  cases hv
  rcases o with ⟨t, x⟩ | ⟨t, _ | u⟩
  · exact .inr ⟨rfl, t, x, _, rfl, ht, rfl⟩
  · exact .inl ⟨rfl, apply_external_null rfl ht⟩
  · exact .inr ⟨rfl, t, u, _, rfl, ht, rfl⟩

omit [DecidableEq Ty] in
theorem Consistent.valid_iff (h : Consistent Ts v) : Valid Ts v ↔ v.isNull = false := by
  obtain ⟨o, hv, ht⟩ := h
  obtain ⟨s, k, c⟩ := v
  cases hv
  rcases o with ⟨t, x⟩ | ⟨t, _ | u⟩ <;> simp [ht]

section access
variable (hv : Consistent Ts v)
include hv

theorem get_eq_ub (S : Alt Ty) :
    (get Ts S v : Result Exn (Option Val)) = .ub e ↔ v.isNull ∧ e = .nullItem := by
  rcases hv.null_or_holds with ⟨hn, ha⟩ | ⟨hn, t, x, hx⟩
  · simp [get, ha, hn, eq_comm]
  · simp [get_holds hx, hn]

theorem is_eq_ub (S : Alt Ty) :
    (is Ts S v : Result Exn Bool) = .ub e ↔ v.isNull ∧ e = .nullItem := by
  rw [is, Result.map_eq_ub, get_eq_ub hv]

theorem hash_eq_ub (M : Members Ty Val Exn) : hash Ts M v = .ub e ↔ v.isNull ∧ e = .nullItem := by
  rcases hv.null_or_holds with ⟨hn, ha⟩ | ⟨hn, t, x, hx⟩
  · simp [hash, ha, hn, eq_comm]
  · simp [hash_holds M hx, hn]

end access

variable (M : Members Ty Val Exn)

/-- `==` goes wrong only between variants of one alternative, one of them a null box. -/
theorem opEq_eq_ub (hv : Consistent Ts v) (hw : Consistent Ts w) :
    opEq Ts M v w = .ub e ↔ v.active = w.active ∧ (v.isNull ∨ w.isNull) ∧ e = .nullItem := by
  obtain ⟨l, hl, hlt⟩ := hv
  obtain ⟨r, hr, hrt⟩ := hw
  rw [opEq_eq M hl hlt hr hrt]
  by_cases he : v.active = w.active
  · have hlr := type_eq_of_active hlt hrt he
    simp [he, Obj.eq_eq_ub M hlr, Variant.isNull, hl, hr]
  · simp [he]

theorem opLt_eq_ub (hv : Consistent Ts v) (hw : Consistent Ts w) :
    opLt Ts M v w = .ub e ↔ v.active = w.active ∧ (v.isNull ∨ w.isNull) ∧ e = .nullItem := by
  obtain ⟨l, hl, hlt⟩ := hv
  obtain ⟨r, hr, hrt⟩ := hw
  rw [opLt_eq M hl hlt hr hrt]
  by_cases he : v.active = w.active
  · have hlr := type_eq_of_active hlt hrt he
    simp [he, Obj.lt_eq_ub M hlr, Variant.isNull, hl, hr]
  · simp [he]

/-! ## Visitation -/

section visit
variable {S R : Type}

/-- The variants a visitor curries, innermost first. -/
def Visitor.visitables : Visitor Ty Val S R → List (Variant Ty Val)
  | .client _ => []
  | .binary vis v => vis.visitables ++ [v]

/-- Calling a curried visitor goes wrong exactly when one of its variants is a null box. -/
theorem Visitor.call_eq_ub : ∀ (vis : Visitor Ty Val S R), (∀ u ∈ vis.visitables, Consistent Ts u) →
    ∀ (xs : List (Ty × Val)) (s : S),
      (vis.call Ts xs s : Result Exn (R × S)) = .ub e ↔ (∃ u ∈ vis.visitables, u.isNull) ∧ e = .nullItem
  | .client _, _, _, _ => by simp [Visitor.call, Visitor.visitables]
  | .binary vis v, h, xs, s => by
    have hv := h v (by simp [Visitor.visitables])
    have ih := Visitor.call_eq_ub vis fun u hu => h u (by simp [Visitor.visitables, hu])
    rcases hv.null_or_holds with ⟨hn, ha⟩ | ⟨hn, t, x, hx⟩
    · rw [Visitor.call, ha]
      simp [Visitor.visitables, hn, or_and_right, exists_or]
      exact eq_comm
    · rw [call_binary vis hx, ih]
      simp [Visitor.visitables, hn, or_and_right, exists_or]

/-- `apply_visitor(visitor, v, vs...)` goes wrong exactly when one of the variants is a
null box. -/
theorem applyVisitor_eq_ub : ∀ (vis : Visitor Ty Val S R) (v : Variant Ty Val)
    (vs : List (Variant Ty Val)), (∀ u ∈ vis.visitables ++ v :: vs, Consistent Ts u) → ∀ s : S,
      (applyVisitor Ts vis v vs s : Result Exn (R × S)) = .ub e ↔
        (∃ u ∈ vis.visitables ++ v :: vs, u.isNull) ∧ e = .nullItem
  | vis, v, [], h, s => by
    change ((Visitor.binary vis v).call Ts [] s : Result Exn (R × S)) = .ub e ↔ _
    rw [Visitor.call_eq_ub _ (by simpa [Visitor.visitables] using h)]
    simp [Visitor.visitables]
  | vis, v, w :: ws, h, s => by
    rw [applyVisitor, applyVisitor_eq_ub (.binary vis v) w ws (by simpa [Visitor.visitables] using h)]
    simp [Visitor.visitables]

end visit

/-! ## Construction and assignment -/

omit [DecidableEq Ty] in
/-- The default constructor goes wrong exactly when the front alternative is not an
ordinary type: there is then no `front{}`. -/
theorem variantDefault_eq_ub :
    variantDefault Ts M Variant.fresh = .ub e ↔
      (∀ t, Ts.head? ≠ some (.plain t)) ∧ e = .illFormed := by
  rcases Ts with _ | ⟨_ | _, rest⟩
  · simp [variantDefault, eq_comm]
  · rw [variantDefault_eq M rfl]
    simp
  · simp [variantDefault, eq_comm]

/-- Construction from a value of type `t` goes wrong exactly when overload resolution
finds no overload, or no best one. -/
theorem variantValue_eq_ub (hM : M.Defined) {t : Ty} (a : Val) (rvalue : Bool) :
    variantValue Ts M (.plain t a) rvalue Variant.fresh = .ub e ↔
      initializeOverload Ts M (.plain t) = none ∧ e = .illFormed := by
  cases hi : initializeOverload Ts M (.plain t) with
  | none => simp [variantValue_none M (x := .plain t a) rvalue hi, eq_comm]
  | some q =>
    obtain ⟨⟨c, TT⟩, n⟩ := q
    simp only [reduceCtorEq, false_and, iff_false]
    by_cases hc : c = .plain t
    · subst hc
      rw [variantValue_eq M (x := .plain t a) rvalue rfl (initializeOverload_eq_some.1 hi).1]
      cases rvalue <;> simp [Obj.copy, hM.copy]
    cases c with
    | plain t' =>
      rw [variantValue_convert M rvalue rfl hi fun h => hc (h ▸ rfl)]
      simp [hM.convert]
    | wrapper u =>
      by_cases htu : t = u
      · subst htu
        rw [variantValue_box M rvalue rfl hi]
        simpa using Obj.box_ne_ub M hM t a rvalue
      · rw [variantValue_convert_box M rvalue rfl hi htu]
        simp [hM.alloc, hM.convert]

/-- `make(t)` goes wrong exactly when `t` is out of range or names a box. -/
theorem make_eq_ub {t : Nat} :
    make Ts M t = .ub e ↔ (Ts.length ≤ t ∧ e = .badTag) ∨
      ((∃ u, Ts[t]? = some (.wrapper u)) ∧ e = .emptyStorage) := by
  cases ht : Ts[t]? with
  | none =>
    have hl : Ts.length ≤ t := List.getElem?_eq_none_iff.1 ht
    simp [make, variantFactory, Variant.apply, visitImpl, ht, hl, eq_comm]
  | some c =>
    have hl : ¬Ts.length ≤ t := fun hl => by simp [List.getElem?_eq_none_iff.2 hl] at ht
    cases c with
    | plain u => simp [make_plain M ht, hl]
    | wrapper u => simp [make_wrapper M ht, hl, eq_comm]

/-- The copy constructor goes wrong exactly on a null box. -/
theorem variantCopy_eq_ub (hM : M.Defined) (hw : Consistent Ts w) :
    variantCopy Ts M w Variant.fresh = .ub e ↔ w.isNull ∧ e = .nullItem := by
  obtain ⟨r, hr, hrt⟩ := hw
  rw [variantCopy_eq M rfl hr hrt, Result.settle_eq_ub, Obj.copy_eq_ub M hM]
  simp [Variant.isNull, hr]

/-- The move constructor goes wrong exactly when it writes a const source: it hands a
box's pointer over without reading it. -/
theorem variantMove_eq_ub (hw : Consistent Ts w) :
    variantMove Ts M w Variant.fresh = .ub e ↔
      w.isConst ∧ w.moveWrites M ∧ e = .constWrite := by
  obtain ⟨r, hr, hrt⟩ := hw
  rw [variantMove_eq M rfl hr hrt]
  by_cases hc : w.isConst ∧ w.moveWrites M
  · simp [hc, eq_comm]
  · simp only [if_neg hc, reduceCtorEq, false_iff]
    exact fun h => hc ⟨h.1, h.2.1⟩

/-- Copy assignment goes wrong exactly when it assigns in place over a const object, or
when the right-hand side is a null box, or the left-hand side is one of the same
alternative. -/
theorem opAssign_eq_ub (hM : M.Defined) (hv : Consistent Ts v) (hw : Consistent Ts w) :
    opAssign Ts M w v = .ub e ↔
      (v.active = w.active ∧ v.isConst ∧ v.assignWrites ∧ e = .constWrite) ∨
        (w.isNull ∨ (v.active = w.active ∧ v.isNull)) ∧ e = .nullItem := by
  obtain ⟨l, hl, hlt⟩ := hv
  obtain ⟨r, hr, hrt⟩ := hw
  rw [opAssign_eq M hl hlt hr hrt]
  by_cases hc : v.active = w.active ∧ v.isConst ∧ v.assignWrites
  · rw [if_pos hc]
    obtain ⟨he, hcst, hwr⟩ := hc
    have hlp : l.assignWrites = true := Variant.assignWrites_of_storage hl ▸ hwr
    obtain ⟨t, x, rfl⟩ : ∃ t x, l = .plain t x := by
      cases l with
      | plain t x => exact ⟨t, x, rfl⟩
      | wrapper _ _ => cases hlp
    obtain ⟨y, rfl⟩ : ∃ y, r = .plain t y := by
      cases r with
      | plain t' y => cases type_eq_of_active hlt hrt he; exact ⟨y, rfl⟩
      | wrapper _ _ => cases type_eq_of_active hlt hrt he
    simp only [he, hcst, hwr, Variant.isNull, hl, hr, Obj.isNull_plain, true_and, Bool.false_eq_true,
      and_false, or_self, false_and, or_false, Result.ub.injEq]
    exact eq_comm
  have hnc : ¬(v.active = w.active ∧ v.isConst ∧ v.assignWrites ∧ e = .constWrite) :=
    fun h => hc ⟨h.1, h.2.1, h.2.2.1⟩
  rw [if_neg hc, Result.settle_eq_ub, or_iff_right hnc]
  by_cases he : v.active = w.active
  · have hlr := type_eq_of_active hlt hrt he
    simp [he, Obj.copyAssign_eq_ub M hM hlr, Variant.isNull, hl, hr, or_comm]
  · simp [he, Obj.copy_eq_ub M hM, Variant.isNull, hr]

/-- Move assignment goes wrong exactly when the list holds a box, where it is
ill-formed, or when it writes a const object: the target, of the same alternative, or a
source whose move writes it. -/
theorem opMoveAssign_eq_ub (hv : Consistent Ts v) (hw : Consistent Ts w) :
    opMoveAssign Ts M w v = .ub e ↔
      (Ts.all Alt.nothrowMoveAssignable = false ∧ e = .illFormed) ∨
        (Ts.all Alt.nothrowMoveAssignable = true ∧
          (v.active = w.active ∧ v.isConst ∨ w.isConst ∧ w.moveWrites M) ∧ e = .constWrite) := by
  cases hn : Ts.all Alt.nothrowMoveAssignable
  · simp only [opMoveAssign_illFormed M hn, Result.ub.injEq, true_and, Bool.false_eq_true,
      false_and, or_false]
    exact eq_comm
  obtain ⟨l, hl, hlt⟩ := hv
  obtain ⟨r, hr, hrt⟩ := hw
  rw [opMoveAssign_eq M hn hl hlt hr hrt]
  simp only [Bool.true_eq_false, false_and, true_and, false_or]
  by_cases hc : v.active = w.active ∧ v.isConst ∨ w.isConst ∧ w.moveWrites M
  · rw [if_pos hc]
    simp only [Result.ub.injEq, hc, true_and]
    exact eq_comm
  have hnc : ¬((v.active = w.active ∧ v.isConst ∨ w.isConst ∧ w.moveWrites M) ∧
      e = .constWrite) := fun h => hc h.1
  rw [if_neg hc, Result.settle_eq_ub, iff_false_intro hnc, iff_false]
  split_ifs with he
  · obtain ⟨t, ht⟩ := Alt.plain_of_nothrow hn (List.getElem?_mem hrt)
    exact Obj.moveAssign_ne_ub M ((type_eq_of_active hlt hrt he).trans ht) ht
  · nofun

end Broker.Util
