import BrokerVariant.Program
import BrokerVariant.Visit

/-!
# Boxing an alternative: the two instantiations side by side

Let `V` have `U` in slot `i` and `V'` the same list with `recursive_wrapper<U>` there.
The same client program runs on both. A variable of `V` and the same variable of
`V'` are twins: the same variant outside slot `i`, and in it a `U` holding `x` against a
box owning `x`, or, once moved from, against a box owning nothing. Lifecycle code sees
the box and must treat it as `U` treats itself; client code sees through it.

This file relates what each operation does to twins. It needs `U`'s move constructor
to reproduce its source, since moving a box moves its pointer and not the `U`;
`operator new` to succeed, since copying a box allocates; and no conversion into `U`
or out of it, since the box's converting constructor is a user-defined conversion, which
ranks below every standard one. A `U` constructed from an lvalue is const, while its box
is a converted temporary moved in, so a box is const only where its `U` is. Each lemma
whose hypotheses a run could break is followed by a run that breaks it.
-/

namespace Broker.Util

variable {Ty Val Exn : Type}

/-- The alternative list with slot `i` boxed: `recursive_wrapper<U>` in place of `U`. -/
def boxed (Ts : List (Alt Ty)) (i : Nat) (u : Ty) : List (Alt Ty) := Ts.set i (.wrapper u)

/-- The objects of a variable in slot `i` of `V` and of `V'`: a `U` holding `x` and a box
owning `x`; once the variable was moved from, the box may own nothing while the `U`
holds what its move left in it. -/
inductive Boxes (u : Ty) : Bool → Obj Ty Val → Obj Ty Val → Prop
  | full {moved : Bool} (x : Val) : Boxes u moved (.plain u x) (.wrapper u (some x))
  | empty (x : Val) : Boxes u true (.plain u x) (.wrapper u none)

/-- A variable of `V` and the same variable of `V'`: one variant outside slot `i`, boxes
of each other in it, the box const only where the `U` is. -/
inductive Corr (i : Nat) (u : Ty) (moved : Bool) : Variant Ty Val → Variant Ty Val → Prop
  | same {v : Variant Ty Val} : v.active ≠ i → Corr i u moved v v
  | boxed {o o' : Obj Ty Val} {c c' : Bool} : Boxes u moved o o' → (c' = true → c = true) →
      Corr i u moved ⟨some o, i, c⟩ ⟨some o', i, c'⟩

/-- Twins: a variable of `V`, consistent and holding a value unless moved from, and the
same variable of `V'`. -/
structure Twin (Ts : List (Alt Ty)) (i : Nat) (u : Ty) (moved : Bool)
    (v v' : Variant Ty Val) : Prop where
  consistent : Consistent Ts v
  valid : moved = false → Valid Ts v
  corr : Corr i u moved v v'

/-- The stores of `V` and `V'` at one point of a program: the same variables alive, as
twins; `mv` flags those moved from. -/
def Related (Ts : List (Alt Ty)) (i : Nat) (u : Ty) (mv : Nat → Bool)
    (st st' : Store Ty Val) : Prop :=
  ∀ x, Option.Rel (Twin Ts i u (mv x)) (st x) (st' x)

variable {Ts : List (Alt Ty)} {i : Nat} {u : Ty} {m : Bool}
variable {v v' w w' : Variant Ty Val} {o o' l l' r r' : Obj Ty Val}

@[simp] theorem getElem?_boxed_ne {j : Nat} (h : j ≠ i) : (boxed Ts i u)[j]? = Ts[j]? :=
  List.getElem?_set_ne (Ne.symm h)

theorem getElem?_boxed_self (hi : Ts[i]? = some (.plain u)) :
    (boxed Ts i u)[i]? = some (.wrapper u) := by
  obtain ⟨hlt, -⟩ := List.getElem?_eq_some_iff.1 hi
  simp [boxed, hlt]

/-- An alternative other than `U` and its box sits at the same places in both lists. -/
theorem getElem?_boxed_iff (hi : Ts[i]? = some (.plain u)) {c : Alt Ty} (hp : c ≠ .plain u)
    (hw : c ≠ .wrapper u) (j : Nat) : (boxed Ts i u)[j]? = some c ↔ Ts[j]? = some c := by
  by_cases hj : j = i
  · subst hj
    rw [getElem?_boxed_self hi, hi]
    simp [Ne.symm hp, Ne.symm hw]
  · rw [getElem?_boxed_ne hj]

theorem Boxes.left (h : Boxes u m o o') : ∃ x, o = .plain u x := by
  cases h <;> exact ⟨_, rfl⟩

theorem Boxes.type_right (h : Boxes u m o o') : o'.type = .wrapper u := by
  cases h <;> rfl

theorem Corr.active (h : Corr i u m v v') : v'.active = v.active := by
  cases h <;> rfl

/-- Twins outside slot `i` are one variant. -/
theorem Twin.same (hv : Consistent Ts v) (hval : m = false → Valid Ts v) (hne : v.active ≠ i) :
    Twin Ts i u m v v :=
  ⟨hv, hval, .same hne⟩

/-- Twins in slot `i`. The `U` holds a value even when moved from. -/
theorem Twin.ofBoxes (hi : Ts[i]? = some (.plain u)) (h : Boxes u m o o') {c c' : Bool}
    (hc : c' = true → c = true) : Twin Ts i u m ⟨some o, i, c⟩ ⟨some o', i, c'⟩ := by
  obtain ⟨x, rfl⟩ := h.left
  exact ⟨by simpa using hi, fun _ => by simpa using hi, .boxed h hc⟩

theorem Twin.consistent_boxed (hi : Ts[i]? = some (.plain u)) (h : Twin Ts i u m v v') :
    Consistent (boxed Ts i u) v' := by
  cases h.corr with
  | same hne =>
    obtain ⟨o, hv, ht⟩ := h.consistent
    exact ⟨o, hv, by rw [getElem?_boxed_ne hne, ht]⟩
  | boxed hb _ => simp [getElem?_boxed_self hi, hb.type_right]

/-- Twins not moved from stand for one value, each in its own list. -/
theorem Twin.holds (hi : Ts[i]? = some (.plain u)) (h : Twin Ts i u false v v') :
    ∃ t x, Holds Ts v t x ∧ Holds (boxed Ts i u) v' t x := by
  obtain ⟨t, x, hx⟩ := h.valid rfl
  refine ⟨t, x, hx, ?_⟩
  cases h.corr with
  | same hne =>
    obtain ⟨o, hv, ht, hxv⟩ := hx
    exact ⟨o, hv, by rw [getElem?_boxed_ne hne, ht], hxv⟩
  | boxed hb _ =>
    cases hb with
    | full y =>
      obtain ⟨o, hv, -, hxv⟩ := hx
      cases hv
      exact ⟨_, rfl, getElem?_boxed_self hi, hxv⟩

/-- A variant that keeps the invariant in both lists is not in slot `i`, which holds `U`
in one and its box in the other. -/
theorem active_ne_of_boxed (hi : Ts[i]? = some (.plain u)) (hv : Consistent Ts v)
    (hv' : Consistent (boxed Ts i u) v) : v.active ≠ i := by
  intro he
  obtain ⟨o, hvo, ht⟩ := hv
  obtain ⟨o', hvo', ht'⟩ := hv'
  rw [hvo, Option.some.injEq] at hvo'
  subst hvo'
  rw [he, hi] at ht
  rw [he, getElem?_boxed_self hi] at ht'
  simpa using ht.trans ht'.symm

/-- An operation that computes the same in `V` and `V'` leaves twins. -/
theorem rel_twin_self {α : Type} {r r' : Result Exn (α × Variant Ty Val)}
    (hi : Ts[i]? = some (.plain u)) (heq : r' = r) (hV : ∀ a, r = .ok a → Valid Ts a.2)
    (hV' : ∀ a, r' = .ok a → Consistent (boxed Ts i u) a.2) :
    Result.Rel (fun p p' => Twin Ts i u false p.2 p'.2) r r' := by
  subst heq
  exact Result.Rel.self fun a ha =>
    Twin.same (hV a ha).consistent (fun _ => hV a ha)
      (active_ne_of_boxed hi (hV a ha).consistent (hV' a ha))

/-- `Members.nat` with a move constructor that adds one to the value it moves. -/
def Members.natMoveBumps : Members Nat Nat Unit := { Members.nat with move := fun _ x => (x + 1, x) }

/-! ## Objects -/

section members
variable (M : Members Ty Val Exn)

theorem Boxes.copy (halloc : M.alloc = .ok ()) (h : Boxes u false o o') :
    Result.Rel (Boxes u false) (o.copy M) (o'.copy M) := by
  cases h with
  | full x =>
    have h' : (Obj.wrapper u (some x)).copy M = (fun y => Obj.wrapper u (some y)) <$> M.copy u x := by
      cases hc : M.copy u x <;> simp [Obj.copy, halloc, hc]
    rw [h']
    exact Result.Rel.map_same (M.copy u x) fun y => .full y

theorem Boxes.move (hmove : ∀ x, (M.move u x).1 = x) (h : Boxes u false o o') :
    Boxes u false (o.move M).1 (o'.move M).1 ∧ Boxes u true (o.move M).2 (o'.move M).2 := by
  cases h with
  | full x =>
    refine ⟨?_, .empty _⟩
    show Boxes u false (.plain u (M.move u x).1) (.wrapper u (some x))
    rw [hmove]
    exact .full x

theorem Boxes.copyAssign (hl : Boxes u false l l') (hr : Boxes u false r r') :
    Result.Rel (Boxes u false) (l.copyAssign M r) (l'.copyAssign M r') := by
  cases hl with
  | full a =>
    cases hr with
    | full b =>
      have h' : (Obj.wrapper u (some a)).copyAssign M (.wrapper u (some b)) =
          (fun z => Obj.wrapper u (some z)) <$> M.copyAssign u a b := by
        cases hc : M.copyAssign u a b <;> simp [Obj.copyAssign, hc]
      rw [h']
      exact Result.Rel.map_same (M.copyAssign u a b) fun z => .full z

/-- Construction from a `U`: `V` constructs it in place, `V'` boxes it first. -/
theorem Boxes.box (halloc : M.alloc = .ok ()) (a : Val) (rvalue : Bool) :
    Result.Rel (fun p p' => Boxes u false p.1 p'.1)
      (if rvalue then .ok ((Obj.plain u a).move M)
        else (fun o => (o, Obj.plain u a)) <$> (Obj.plain u a).copy M)
      (Obj.box M u a rvalue) := by
  cases rvalue
  · have h' : Obj.box M u a false = (fun y => (Obj.wrapper u (some y), Obj.plain u a)) <$> M.copy u a := by
      cases hc : M.copy u a <;> simp [Obj.box, halloc, hc]
    have h : (fun o => (o, Obj.plain u a)) <$> (Obj.plain u a).copy M =
        (fun y => (Obj.plain u y, Obj.plain u a)) <$> M.copy u a := by
      cases hc : M.copy u a <;> simp [Obj.copy, hc]
    rw [h', if_neg Bool.false_ne_true, h]
    exact Result.Rel.map_same (M.copy u a) fun y => .full y
  · simp only [Obj.box, halloc, if_true]
    exact .ok (.full _)

end members

variable [DecidableEq Ty]

/-- Dispatch outside slot `i` reads the same alternative in both lists. -/
theorem apply_boxed_ne (h : v.active ≠ i) (internal : Bool) :
    (v.apply (boxed Ts i u) internal : Result Exn (View Ty Val)) = v.apply Ts internal := by
  simp [Variant.apply, visitImpl, h]

/-! ## Constructors -/

section constructors
variable (M : Members Ty Val Exn)

omit [DecidableEq Ty] in
theorem variantDefault_boxed (h0 : i ≠ 0) (s : Variant Ty Val) :
    variantDefault (boxed Ts i u) M s = variantDefault Ts M s := by
  obtain ⟨j, rfl⟩ := Nat.exists_eq_succ_of_ne_zero h0
  cases Ts with
  | nil => rfl
  | cons T rest => cases T <;> rfl

/-- With slot `0` boxed there is no `front{}`. -/
example : run (boxed [.plain 0] 0 0) Members.nat ([.default 0] : List (Stmt Nat Nat Unit))
      (fun _ => none) = ([], .ub .illFormed) ∧
    run [.plain 0] Members.nat ([.default 0] : List (Stmt Nat Nat Unit)) (fun _ => none) =
      ([], .ok ()) := ⟨rfl, rfl⟩

theorem make_boxed {t : Nat} (ht : t ≠ i) : make (boxed Ts i u) M t = make Ts M t := by
  simp [make, variantFactory, Variant.apply, visitImpl, getElem?_boxed_ne ht]

/-- `make(i)` of the boxed slot reads the empty storage as a box. -/
example : run (boxed [.plain 0] 0 0) Members.nat ([.make 0 0] : List (Stmt Nat Nat Unit))
      (fun _ => none) = ([], .ub .emptyStorage) ∧
    run [.plain 0] Members.nat ([.make 0 0] : List (Stmt Nat Nat Unit)) (fun _ => none) =
      ([], .ok ()) := ⟨rfl, rfl⟩

/-- Construction from a value of another type than `U`, which converts to neither `U`
nor its box, takes the same overload in both lists. -/
theorem variantValue_boxed_ne (hi : Ts[i]? = some (.plain u)) (hconv : ∀ t, t ≠ u → M.conv t u = none)
    {t : Ty} (htu : t ≠ u) (a : Val) (rvalue : Bool) (s : Variant Ty Val) :
    variantValue (boxed Ts i u) M (.plain t a) rvalue s = variantValue Ts M (.plain t a) rvalue s := by
  have hnone : ∀ {c : Alt Ty}, c.base = u → M.rank (.plain t) c = none := fun hc =>
    M.rank_plain_eq_none (by rw [hc]; exact Ne.symm htu) (by rw [hc]; exact hconv t htu)
  have h : initializeOverload (boxed Ts i u) M (.plain t) = initializeOverload Ts M (.plain t) :=
    initializeOverload_congr fun c hc => getElem?_boxed_iff hi
      (by rintro rfl; simp [hnone (Alt.base_plain u)] at hc)
      (by rintro rfl; simp [hnone (Alt.base_wrapper u)] at hc)
  simp only [variantValue, Obj.type_plain, h]

/-- Construction from a `U`: the exact overload of slot `i` in `V`, the converting
constructor of its box in `V'`, when `U` converts to no other alternative's type. -/
theorem variantValue_boxed_self (hi : Ts[i]? = some (.plain u))
    (hu : ∀ j, j ≠ i → Ts[j]? ≠ some (.plain u)) (hw : ∀ j < i, Ts[j]? ≠ some (.wrapper u))
    (hconv' : ∀ c ∈ Ts, c.base ≠ u → M.conv u c.base = none)
    (halloc : M.alloc = .ok ()) (a : Val) (rvalue : Bool) :
    Result.Rel (fun p p' => Twin Ts i u false p.2 p'.2)
      (variantValue Ts M (.plain u a) rvalue Variant.fresh).uncaught
      (variantValue (boxed Ts i u) M (.plain u a) rvalue Variant.fresh).uncaught := by
  have h1 : (Alt.plain u, i) ∈ initializer 0 Ts :=
    mem_initializer.2 ⟨i, (Nat.zero_add i).symm, hi, fun j hj => hu j (Nat.ne_of_lt hj)⟩
  have h2 : initializeOverload (boxed Ts i u) M (.plain u) =
      some ((.wrapper u, i), Rank.userDefined.key) := by
    refine initializeOverload_eq_some.2 ⟨mem_initializer.2 ⟨i, (Nat.zero_add i).symm,
      getElem?_boxed_self hi, fun j hj => ?_⟩, by simp [Members.rank], fun c hc hne n hr => ?_⟩
    · rw [getElem?_boxed_ne (Nat.ne_of_lt hj)]
      exact hw j hj
    · obtain ⟨j, hj⟩ := List.mem_iff_getElem?.1 hc
      have hj' : j ≠ i := by rintro rfl; simp [getElem?_boxed_self hi, Ne.symm hne] at hj
      rw [getElem?_boxed_ne hj'] at hj
      have hb : c.base ≠ u := by
        rcases c with t | t <;> rintro rfl
        exacts [hu j hj' hj, hne rfl]
      rw [M.rank_plain_eq_none hb (hconv' c (List.getElem?_mem hj) hb)] at hr
      cases hr
  rw [variantValue_eq M (x := .plain u a) rvalue rfl h1, variantValue_box M rvalue rfl h2,
    Result.uncaught_settle, Result.uncaught_settle]
  exact (Boxes.box M halloc a rvalue).map fun _ _ h => Twin.ofBoxes hi h fun h => nomatch h

/-- The cases this needs: `U` in a second slot takes the argument on `V'`; a box of `U`
before slot `i` takes it on `V'`; `operator new` fails on `V'` only. -/
example : run (boxed [.plain 0, .plain 0] 0 0) Members.nat
        ([.value 0 0 1 true, .observe (.which 0)] : List (Stmt Nat Nat Unit)) (fun _ => none) =
      ([.which 1], .ok ()) ∧
    run [.plain 0, .plain 0] Members.nat
        ([.value 0 0 1 true, .observe (.which 0)] : List (Stmt Nat Nat Unit)) (fun _ => none) =
      ([.which 0], .ok ()) := ⟨rfl, rfl⟩

example : run (boxed [.wrapper 0, .plain 0] 1 0) Members.nat
        ([.value 0 0 1 true, .observe (.which 0)] : List (Stmt Nat Nat Unit)) (fun _ => none) =
      ([.which 0], .ok ()) ∧
    run [.wrapper 0, .plain 0] Members.nat
        ([.value 0 0 1 true, .observe (.which 0)] : List (Stmt Nat Nat Unit)) (fun _ => none) =
      ([.which 1], .ok ()) := ⟨rfl, rfl⟩

example : run (boxed [.plain 0] 0 0) Members.natOutOfMemory
        ([.value 0 0 1 true] : List (Stmt Nat Nat Unit)) (fun _ => none) = ([], .throw ()) ∧
    run [.plain 0] Members.natOutOfMemory
        ([.value 0 0 1 true] : List (Stmt Nat Nat Unit)) (fun _ => none) = ([], .ok ()) :=
  ⟨rfl, rfl⟩

theorem variantCopy_boxed (hi : Ts[i]? = some (.plain u)) (halloc : M.alloc = .ok ())
    (htw : Twin Ts i u false w w') :
    Result.Rel (fun p p' => Twin Ts i u false p.2 p'.2)
      (variantCopy Ts M w Variant.fresh).uncaught
      (variantCopy (boxed Ts i u) M w' Variant.fresh).uncaught := by
  have hc' := htw.consistent_boxed hi
  obtain ⟨hc, -, hcorr⟩ := htw
  cases hcorr with
  | same hne =>
    refine rel_twin_self hi (by simp only [variantCopy, apply_boxed_ne hne])
      (fun _ h => variantCopy_valid hc (Result.uncaught_eq_ok.1 h))
      (fun _ h => (variantCopy_valid hc' (Result.uncaught_eq_ok.1 h)).consistent)
  | boxed hb _ =>
    rw [variantCopy_eq M rfl rfl (consistent_mk.1 hc), variantCopy_eq M rfl rfl (consistent_mk.1 hc'),
      Result.uncaught_settle, Result.uncaught_settle]
    exact (Boxes.copy M halloc hb).map fun _ _ h => Twin.ofBoxes hi h fun _ => rfl

/-- A move from a twin not moved from, and not a const `U`: a box hands over its pointer,
which writes it. -/
theorem variantMove_boxed (hi : Ts[i]? = some (.plain u)) (hmove : ∀ x, (M.move u x).1 = x)
    (htw : Twin Ts i u false w w') (hconst : w.active = i → w.isConst = false) :
    Result.Rel (fun p p' => Twin Ts i u false p.2 p'.2 ∧ Twin Ts i u true p.1 p'.1)
      (variantMove Ts M w Variant.fresh).uncaught
      (variantMove (boxed Ts i u) M w' Variant.fresh).uncaught := by
  have hc' := htw.consistent_boxed hi
  obtain ⟨hc, hval, hcorr⟩ := htw
  obtain ⟨r, hwr, hwt⟩ := hc
  cases hcorr with
  | same hne =>
    obtain ⟨r', hwr', hwt'⟩ := hc'
    obtain rfl : r = r' := Option.some.inj (hwr.symm.trans hwr')
    rw [show variantMove (boxed Ts i u) M w Variant.fresh = variantMove Ts M w Variant.fresh by
      rw [variantMove_eq M rfl hwr hwt, variantMove_eq M rfl hwr hwt']]
    refine Result.Rel.self fun p hp => ?_
    have hp' := Result.uncaught_eq_ok.1 hp
    obtain ⟨hv, hd, hvv⟩ := variantMove_consistent ⟨r, hwr, hwt⟩ hp'
    have hact : p.2.active = w.active ∧ p.1.active = w.active := by
      rw [variantMove_eq M rfl hwr hwt] at hp'
      split_ifs at hp'
      cases hp'
      exact ⟨rfl, rfl⟩
    exact ⟨Twin.same hv (fun _ => hvv (hval rfl)) (hact.1 ▸ hne),
      Twin.same hd (fun h => nomatch h) (hact.2 ▸ hne)⟩
  | @boxed o o' c c' hb hcc =>
    cases hwr
    obtain rfl : c = false := hconst rfl
    obtain rfl : c' = false := Bool.eq_false_iff.2 fun h => Bool.false_ne_true (hcc h)
    rw [variantMove_eq M rfl rfl hwt, variantMove_eq M rfl rfl (consistent_mk.1 hc')]
    simp only [Bool.false_eq_true, false_and, if_false, Result.uncaught_ok]
    exact .ok ⟨Twin.ofBoxes hi (hb.move M hmove).1 fun h => h,
      Twin.ofBoxes hi (hb.move M hmove).2 fun h => h⟩

/-- The cases this needs: a move constructor that changes the value is seen on `V` only;
a move from a const copy writes it on `V'` only. -/
example : run (boxed [.plain 0] 0 0) Members.natMoveBumps
        ([.value 0 0 1 true, .move 1 0, .observe (.get 1 (.plain 0))] : List (Stmt Nat Nat Unit))
        (fun _ => none) = ([.get (some 2)], .ok ()) ∧
    run [.plain 0] Members.natMoveBumps
        ([.value 0 0 1 true, .move 1 0, .observe (.get 1 (.plain 0))] : List (Stmt Nat Nat Unit))
        (fun _ => none) = ([.get (some 3)], .ok ()) := ⟨rfl, rfl⟩

example : run (boxed [.plain 0] 0 0) Members.nat
        ([.value 0 0 1 true, .copy 1 0, .move 2 1] : List (Stmt Nat Nat Unit)) (fun _ => none) =
      ([], .ub .constWrite) ∧
    run [.plain 0] Members.nat
        ([.value 0 0 1 true, .copy 1 0, .move 2 1] : List (Stmt Nat Nat Unit)) (fun _ => none) =
      ([], .ok ()) := ⟨rfl, rfl⟩

/-! ## Assignment -/

/-- Copy assignment to a twin from a twin not moved from. A twin moved from, or a const
`U`, may only be assigned a variant of another alternative than `U`'s box. -/
theorem opAssign_boxed (hi : Ts[i]? = some (.plain u)) (halloc : M.alloc = .ok ())
    (hmove : ∀ x, (M.move u x).1 = x) (hv : Twin Ts i u m v v') (hw : Twin Ts i u false w w')
    (hok : m = true ∨ v.isConst = true → ¬(v.active = i ∧ w.active = i)) :
    Result.Rel (fun p p' => Twin Ts i u false p.2 p'.2)
      (opAssign Ts M w v).uncaught (opAssign (boxed Ts i u) M w' v').uncaught := by
  have hvc' := hv.consistent_boxed hi
  have hwc' := hw.consistent_boxed hi
  obtain ⟨l, hvl, hvt⟩ := hv.consistent
  obtain ⟨r, hwr, hwt⟩ := hw.consistent
  obtain ⟨l', hvl', hvt'⟩ := hvc'
  obtain ⟨r', hwr', hwt'⟩ := hwc'
  have hV : ∀ a, (opAssign Ts M w v).uncaught = .ok a → Valid Ts a.2 :=
    fun _ h => opAssign_valid hv.consistent hw.consistent (Result.uncaught_eq_ok.1 h)
  have hV' : ∀ a, (opAssign (boxed Ts i u) M w' v').uncaught = .ok a → Consistent (boxed Ts i u) a.2 :=
    fun _ h => (opAssign_valid ⟨l', hvl', hvt'⟩ ⟨r', hwr', hwt'⟩ (Result.uncaught_eq_ok.1 h)).consistent
  have hsame : (opAssign (boxed Ts i u) M w' v').uncaught = (opAssign Ts M w v).uncaught →
      Result.Rel (fun p p' => Twin Ts i u false p.2 p'.2)
        (opAssign Ts M w v).uncaught (opAssign (boxed Ts i u) M w' v').uncaught :=
    fun heq => rel_twin_self hi heq hV hV'
  rw [opAssign_eq M hvl hvt hwr hwt, opAssign_eq M hvl' hvt' hwr' hwt'] at hsame ⊢
  cases hw.corr with
  | same hne =>
    obtain rfl : r' = r := Option.some.inj (hwr'.symm.trans hwr)
    cases hv.corr with
    | same _ =>
      obtain rfl : l' = l := Option.some.inj (hvl'.symm.trans hvl)
      exact hsame rfl
    | boxed _ _ => exact hsame (by simp [Ne.symm hne])
  | boxed hb _ =>
    cases hwr; cases hwr'
    cases hv.corr with
    | same hne =>
      simp only [hne, false_and, if_false, decide_False, Bool.false_and, Result.uncaught_settle]
      exact ((hb.copy M halloc).map fun _ _ h => (h.move M hmove).1).map
        fun _ _ h => Twin.ofBoxes hi h fun h => by simp at h
    | @boxed o o' c c' hb' hcc =>
      cases hvl; cases hvl'
      have hc : m = false ∧ c = false := by
        constructor <;> exact Bool.eq_false_iff.2 fun h => hok (by simp [h]) ⟨rfl, rfl⟩
      obtain ⟨rfl, rfl⟩ := hc
      obtain rfl : c' = false := Bool.eq_false_iff.2 fun h => Bool.false_ne_true (hcc h)
      simp only [Bool.false_eq_true, false_and, and_false, if_false, if_true,
        Result.uncaught_settle, Bool.and_false]
      exact (hb'.copyAssign M hb).map fun _ _ h => Twin.ofBoxes hi h fun h => by simp at h

/-- The cases this needs: assigning to a box moved from writes through its null `item`
on `V'`; assigning in place to a const `U` writes it on `V`, while its box is not
const. -/
example : run (boxed [.plain 0] 0 0) Members.nat
        ([.value 0 0 1 true, .move 1 0, .assign 0 1] : List (Stmt Nat Nat Unit)) (fun _ => none) =
      ([], .ub .nullItem) ∧
    run [.plain 0] Members.nat
        ([.value 0 0 1 true, .move 1 0, .assign 0 1] : List (Stmt Nat Nat Unit)) (fun _ => none) =
      ([], .ok ()) := ⟨rfl, rfl⟩

example : run (boxed [.plain 0] 0 0) Members.nat
        ([.value 0 0 1 false, .value 1 0 2 true, .assign 0 1] : List (Stmt Nat Nat Unit))
        (fun _ => none) = ([], .ok ()) ∧
    run [.plain 0] Members.nat
        ([.value 0 0 1 false, .value 1 0 2 true, .assign 0 1] : List (Stmt Nat Nat Unit))
        (fun _ => none) = ([], .ub .constWrite) := ⟨rfl, rfl⟩

/-- `V'` has no move assignment: its list holds a box. -/
theorem opMoveAssign_boxed (hi : Ts[i]? = some (.plain u)) :
    opMoveAssign (boxed Ts i u) M w' v' = .ub .illFormed :=
  opMoveAssign_illFormed M (List.all_eq_false.2 ⟨_, List.getElem?_mem (getElem?_boxed_self hi), by
    simp [Alt.nothrowMoveAssignable]⟩)

example : run (boxed [.plain 0] 0 0) Members.nat
        ([.value 0 0 1 true, .value 1 0 2 true, .moveAssign 0 1] : List (Stmt Nat Nat Unit))
        (fun _ => none) = ([], .ub .illFormed) ∧
    run [.plain 0] Members.nat
        ([.value 0 0 1 true, .value 1 0 2 true, .moveAssign 0 1] : List (Stmt Nat Nat Unit))
        (fun _ => none) = ([], .ok ()) := ⟨rfl, rfl⟩

end constructors

end Broker.Util
