import BrokerVariant.Boxing
import BrokerVariant.Compare

/-!
# Boxing is invisible to clients

A client program that keeps to a discipline sees the same run on `V` and on `V'`:
the same observations, and the same end. The discipline is checked along the run on
`V`: no variable moved from is read, compared, copied or moved from; `make(i)` is not
called, nor the default constructor when slot `0` is `U`'s; no variable is move-assigned,
since `V'` has no move assignment; a const `U` is not moved from; and `U`'s boxes are
not assigned in place where `V'` would dereference an empty box or `V` write a const
`U`. Nothing but `U` converts to `U`, and `U` to no other alternative's type.

The proof is a simulation. Stores of `V` and `V'` are related when the same variables
are alive, as twins. Each statement keeps the relation and makes the same observation,
and by induction so does every run.
-/

namespace Broker.Util

variable {Ty Val Exn R : Type}

/-! ## Related stores -/

section stores
variable {Ts : List (Alt Ty)} {i : Nat} {u : Ty} {mv : Nat → Bool} {st st' : Store Ty Val}

theorem Related.cases (hst : Related Ts i u mv st st') (x : Nat) :
    (st x = none ∧ st' x = none) ∨
      ∃ v v', st x = some v ∧ st' x = some v' ∧ Twin Ts i u (mv x) v v' := by
  have h := hst x
  revert h
  generalize st x = a
  generalize st' x = b
  intro h
  cases h with
  | none => exact .inl ⟨rfl, rfl⟩
  | some h => exact .inr ⟨_, _, rfl, rfl, h⟩

theorem Related.update (hst : Related Ts i u mv st st') (x : Nat) {m : Bool}
    {v v' : Variant Ty Val} (h : Twin Ts i u m v v') :
    Related Ts i u (Function.update mv x m) (Function.update st x (some v))
      (Function.update st' x (some v')) := by
  intro y
  by_cases hy : y = x
  · subst hy
    rw [Function.update_same, Function.update_same, Function.update_same]
    exact .some h
  · rw [Function.update_noteq hy, Function.update_noteq hy, Function.update_noteq hy]
    exact hst y

theorem Related.erase (hst : Related Ts i u mv st st') (x : Nat) (m : Bool) :
    Related Ts i u (Function.update mv x m) (Function.update st x none)
      (Function.update st' x none) := by
  intro y
  by_cases hy : y = x
  · subst hy
    rw [Function.update_same, Function.update_same, Function.update_same]
    exact .none
  · rw [Function.update_noteq hy, Function.update_noteq hy, Function.update_noteq hy]
    exact hst y

theorem load_boxed (hst : Related Ts i u mv st st') (x : Nat) :
    Result.Rel (fun v v' => st x = some v ∧ Twin Ts i u (mv x) v v')
      (load st x : Result Exn _) (load st' x) := by
  rcases hst.cases x with ⟨h, h'⟩ | ⟨v, v', h, h', htw⟩ <;> simp only [load, h, h']
  · exact .ub _
  · exact .ok ⟨rfl, htw⟩

theorem loadAll_boxed (hst : Related Ts i u mv st st') :
    ∀ ys : List Nat, (∀ y ∈ ys, mv y = false) →
      Result.Rel (List.Forall₂ (Twin Ts i u false)) (loadAll st ys : Result Exn _) (loadAll st' ys)
  | [], _ => .ok .nil
  | y :: ys, h =>
    (load_boxed hst y).bind fun _ _ hv =>
      (loadAll_boxed hst ys fun z hz => h z (List.mem_cons_of_mem y hz)).bind fun _ _ hvs =>
        .ok (.cons (h y (List.mem_cons_self y ys) ▸ hv.2) hvs)

/-- Declaring a variable with twins built by one constructor on each side. -/
theorem declare_boxed {α : Type} (P : α → α → Prop) {x : Nat}
    {r r' : Result (Exn × Variant Ty Val) (α × Variant Ty Val)} (hst : Related Ts i u mv st st')
    (hr : Result.Rel (fun p p' => Twin Ts i u false p.2 p'.2 ∧ P p.1 p'.1) r.uncaught r'.uncaught) :
    Result.Rel (fun q q' => Related Ts i u (Function.update mv x false) q.2 q'.2 ∧ P q.1 q'.1)
      (declare st x r) (declare st' x r') := by
  rcases hst.cases x with ⟨h, h'⟩ | ⟨v, v', h, h', -⟩ <;> simp only [declare, h, h']
  · exact hr.map fun _ _ hp => ⟨hst.update x hp.1, hp.2⟩
  · exact .ub _

/-- A declaration that builds twins observes nothing, on either side. -/
theorem declare_twins {α : Type} {x : Nat}
    {r r' : Result (Exn × Variant Ty Val) (α × Variant Ty Val)} (hst : Related Ts i u mv st st')
    (hr : Result.Rel (fun p p' => Twin Ts i u false p.2 p'.2) r.uncaught r'.uncaught) :
    Result.Rel (fun q q' => q'.1 = q.1 ∧ Related Ts i u (Function.update mv x false) q.2 q'.2)
      ((fun p => ((none : Option (Obs Val R)), p.2)) <$> declare st x r)
      ((fun p => ((none : Option (Obs Val R)), p.2)) <$> declare st' x r') :=
  (declare_boxed (fun _ _ => True) hst (hr.mono fun _ _ h => ⟨h, trivial⟩)).map
    fun _ _ h => ⟨rfl, h.1⟩

end stores

/-! ## Queries -/

/-- The variables whose values a query reads; `which` reads only the discriminator. -/
def Query.reads : Query Ty Val R → List Nat
  | .which _ => []
  | .get x _ | .is x _ | .hash x => [x]
  | .eq x y | .lt x y => [x, y]
  | .visit _ x ys => x :: ys

section queries
variable [DecidableEq Ty] {Ts : List (Alt Ty)} {i : Nat} {u : Ty} (M : Members Ty Val Exn)
variable {mv : Nat → Bool} {st st' : Store Ty Val}

omit [DecidableEq Ty] in
/-- Twins not moved from, one list of each, stand for one list of values. -/
theorem Twin.holds_all (hi : Ts[i]? = some (.plain u)) :
    ∀ {vs vs' : List (Variant Ty Val)}, List.Forall₂ (Twin Ts i u false) vs vs' →
      ∃ xs : List (Ty × Val), List.Forall₂ (fun w p => Holds Ts w p.1 p.2) vs xs ∧
        List.Forall₂ (fun w p => Holds (boxed Ts i u) w p.1 p.2) vs' xs
  | [], [], .nil => ⟨[], .nil, .nil⟩
  | _ :: _, _ :: _, .cons h hs =>
    let ⟨t, x, hx, hx'⟩ := h.holds hi
    let ⟨xs, hxs, hxs'⟩ := Twin.holds_all hi hs
    ⟨(t, x) :: xs, .cons hx hxs, .cons hx' hxs'⟩

/-- A query that reads no variable moved from has one answer on `V` and `V'`. -/
theorem query_boxed (hi : Ts[i]? = some (.plain u)) (hst : Related Ts i u mv st st')
    (q : Query Ty Val R) (hq : ∀ z ∈ q.reads, mv z = false) :
    query (boxed Ts i u) M q st' = query Ts M q st := by
  have twin : ∀ {z v v'}, z ∈ q.reads → st z = some v ∧ Twin Ts i u (mv z) v v' →
      ∃ t x, Holds Ts v t x ∧ Holds (boxed Ts i u) v' t x ∧ v'.active = v.active :=
    fun hz h => let ⟨t, x, hx, hx'⟩ := (hq _ hz ▸ h.2).holds hi; ⟨t, x, hx, hx', h.2.corr.active⟩
  refine Result.Rel.eq ?_
  cases q with
  | which x => exact (load_boxed hst x).bind fun _ _ h => .ok (by rw [which, which, h.2.corr.active])
  | get x S =>
    refine (load_boxed hst x).bind fun _ _ h => ?_
    obtain ⟨t, a, hx, hx', -⟩ := twin (by simp [Query.reads]) h
    rw [get_holds hx, get_holds hx']
    exact .ok rfl
  | is x S =>
    refine (load_boxed hst x).bind fun _ _ h => ?_
    obtain ⟨t, a, hx, hx', -⟩ := twin (by simp [Query.reads]) h
    rw [is_holds hx, is_holds hx']
    exact .ok rfl
  | hash x =>
    refine (load_boxed hst x).bind fun _ _ h => ?_
    obtain ⟨t, a, hx, hx', -⟩ := twin (by simp [Query.reads]) h
    rw [hash_holds M hx, hash_holds M hx']
    exact .ok rfl
  | eq x y =>
    refine (load_boxed hst x).bind fun _ _ h => (load_boxed hst y).bind fun _ _ h' => ?_
    obtain ⟨t, a, hx, hx', hact⟩ := twin (by simp [Query.reads]) h
    obtain ⟨t', b, hy, hy', hact'⟩ := twin (by simp [Query.reads]) h'
    rw [opEq_holds M hx hy, opEq_holds M hx' hy', hact, hact']
    exact .ok rfl
  | lt x y =>
    refine (load_boxed hst x).bind fun _ _ h => (load_boxed hst y).bind fun _ _ h' => ?_
    obtain ⟨t, a, hx, hx', hact⟩ := twin (by simp [Query.reads]) h
    obtain ⟨t', b, hy, hy', hact'⟩ := twin (by simp [Query.reads]) h'
    rw [opLt_holds M hx hy, opLt_holds M hx' hy', hact, hact']
    exact .ok rfl
  | visit f x ys =>
    refine (load_boxed hst x).bind fun v v' h => ?_
    refine (loadAll_boxed hst ys fun z hz => hq z (List.mem_cons_of_mem x hz)).bind
      fun vs vs' hvs => ?_
    obtain ⟨xs, hxs, hxs'⟩ := Twin.holds_all hi (.cons (hq x (List.mem_cons_self x ys) ▸ h.2) hvs)
    rw [visit_eq_applyVisitor, visit_eq_applyVisitor, applyVisitor_eq _ vs xs hxs,
      applyVisitor_eq _ vs' xs hxs']
    exact .ok rfl

end queries

/-! ## The discipline, and the simulation -/

/-- The slot of a live variable. -/
def slot (st : Store Ty Val) (x : Nat) : Option Nat := (st x).map Variant.active

/-- Whether a live variable holds a const object. -/
def constVar (st : Store Ty Val) (x : Nat) : Bool := (st x).any Variant.isConst

/-- Whether a client may run `s` in the store `st` of `V`, with `mv` the variables moved
from: it reads nothing moved from; it calls neither `make(i)` nor, when `i` is `0`, the
default constructor; it move-assigns nothing; it moves from no const variant of slot
`i`; and it assigns no variant of slot `i` to a variant of slot `i` that was moved from
or is const. -/
def allowed (i : Nat) (mv : Nat → Bool) (st : Store Ty Val) : Stmt Ty Val R → Bool
  | .default _ => i != 0
  | .make _ t => t != i
  | .value .. => true
  | .copy _ y => !mv y
  | .move _ y => !mv y && !(slot st y == some i && constVar st y)
  | .assign x y => !mv y && !((mv x || constVar st x) && slot st x == some i && slot st y == some i)
  | .moveAssign .. => false
  | .destroy _ => true
  | .observe q => q.reads.all fun z => !mv z

/-- The variables moved from after `s`. -/
def moves (mv : Nat → Bool) : Stmt Ty Val R → Nat → Bool
  | .move x y | .moveAssign x y => Function.update (Function.update mv x false) y true
  | .default x | .value x .. | .make x _ | .copy x _ | .assign x _ | .destroy x =>
    Function.update mv x false
  | .observe _ => mv

variable [DecidableEq Ty]

/-- The discipline along the run of a program on `V`, from the store `st` with `mv` the
variables moved from. -/
def clean (Ts : List (Alt Ty)) (M : Members Ty Val Exn) (i : Nat) :
    List (Stmt Ty Val R) → Store Ty Val → (Nat → Bool) → Bool
  | [], _, _ => true
  | s :: p, st, mv =>
    allowed i mv st s &&
      match step Ts M s st with
      | .ok (_, st') => clean Ts M i p st' (moves mv s)
      | _ => true

section simulation
variable {Ts : List (Alt Ty)} {i : Nat} {u : Ty} (M : Members Ty Val Exn)
variable (hi : Ts[i]? = some (.plain u)) (hu : ∀ j, j ≠ i → Ts[j]? ≠ some (.plain u))
  (hw : ∀ j < i, Ts[j]? ≠ some (.wrapper u)) (hconv : ∀ t, t ≠ u → M.conv t u = none)
  (hconv' : ∀ c ∈ Ts, c.base ≠ u → M.conv u c.base = none) (halloc : M.alloc = .ok ())
  (hmove : ∀ x, (M.move u x).1 = x)
include hi hu hw hconv hconv' halloc hmove

/-- **One statement** that keeps to the discipline makes the same observation on `V` and
`V'` and leaves related stores, or fails alike. -/
theorem step_boxed {mv : Nat → Bool} {st st' : Store Ty Val} (hst : Related Ts i u mv st st')
    (s : Stmt Ty Val R) (hs : allowed i mv st s = true) :
    Result.Rel (fun p p' => p'.1 = p.1 ∧ Related Ts i u (moves mv s) p.2 p'.2)
      (step Ts M s st) (step (boxed Ts i u) M s st') := by
  cases s with
  | default x =>
    have h0 : i ≠ 0 := by simpa [allowed] using hs
    exact declare_twins hst (rel_twin_self hi (by rw [variantDefault_boxed M h0])
      (fun _ h => variantDefault_valid (Result.uncaught_eq_ok.1 h))
      (fun _ h => (variantDefault_valid (Result.uncaught_eq_ok.1 h)).consistent))
  | value x t a rvalue =>
    refine declare_twins hst ?_
    by_cases htu : t = u
    · subst htu
      exact variantValue_boxed_self M hi hu hw hconv' halloc a rvalue
    · exact rel_twin_self hi (by rw [variantValue_boxed_ne M hi hconv htu])
        (fun _ h => variantValue_valid (Result.uncaught_eq_ok.1 h) (by exact ⟨t, a, rfl⟩))
        (fun _ h => (variantValue_valid (Result.uncaught_eq_ok.1 h) (by exact ⟨t, a, rfl⟩)).consistent)
  | make x t =>
    have ht : t ≠ i := by simpa [allowed] using hs
    exact declare_twins hst (rel_twin_self hi (by rw [make_boxed M ht])
      (fun _ h => make_valid (Result.uncaught_eq_ok.1 h))
      (fun _ h => (make_valid (Result.uncaught_eq_ok.1 h)).consistent))
  | copy x y =>
    have hy : mv y = false := by simpa [allowed] using hs
    exact (load_boxed hst y).bind fun _ _ hw' =>
      (declare_boxed (fun _ _ => True) hst ((variantCopy_boxed M hi halloc (hy ▸ hw'.2)).mono
        fun _ _ h => ⟨h, trivial⟩)).bind fun _ _ h => .ok ⟨rfl, h.1⟩
  | move x y =>
    have hy : mv y = false := by simp_all [allowed]
    have hc : ¬(slot st y = some i ∧ constVar st y = true) := by
      rintro ⟨h1, h2⟩
      simp [allowed, h1, h2] at hs
    exact (load_boxed hst y).bind fun _ _ hw' =>
      (declare_boxed (Twin Ts i u true) hst (variantMove_boxed M hi hmove (hy ▸ hw'.2)
        fun h => Bool.eq_false_iff.2 fun hc' =>
          hc ⟨by simp [slot, hw'.1, h], by simp [constVar, hw'.1, hc']⟩)).bind
        fun _ _ h => .ok ⟨rfl, h.1.update y h.2⟩
  | assign x y =>
    have hy : mv y = false := by simp_all [allowed]
    have hxy : ¬((mv x = true ∨ constVar st x = true) ∧ slot st x = some i ∧ slot st y = some i) := by
      rintro ⟨h1, h2, h3⟩
      rcases h1 with h1 | h1 <;> simp [allowed, h1, h2, h3] at hs
    exact (load_boxed hst y).bind fun _ _ hw' => (load_boxed hst x).bind fun _ _ hv' =>
      (opAssign_boxed M hi halloc hmove hv'.2 (hy ▸ hw'.2) fun hm ⟨h1, h2⟩ =>
        hxy ⟨by simpa [constVar, hv'.1] using hm, by simp [slot, hv'.1, h1],
          by simp [slot, hw'.1, h2]⟩).bind
          fun _ _ h => .ok ⟨rfl, hst.update x h⟩
  | moveAssign x y => simp [allowed] at hs
  | destroy x =>
    refine (load_boxed hst x).bind fun v v' hv' => ?_
    obtain ⟨o, hvo, hvt⟩ := hv'.2.consistent
    obtain ⟨o', hvo', hvt'⟩ := hv'.2.consistent_boxed hi
    simp only [destruct_eq hvo hvt, destruct_eq hvo' hvt', Result.uncaught_ok, Result.ok_bind]
    exact .ok ⟨rfl, hst.erase x false⟩
  | observe q =>
    have hq : ∀ z ∈ q.reads, mv z = false := by simpa [allowed] using hs
    simp only [step]
    rw [query_boxed M hi hst q hq]
    exact Result.Rel.map_same _ fun _ => ⟨rfl, hst⟩

/-- **Every run** that keeps to the discipline is the same on `V` and on `V'`. -/
theorem run_boxed : ∀ (p : List (Stmt Ty Val R)) {mv : Nat → Bool} {st st' : Store Ty Val},
    Related Ts i u mv st st' → clean Ts M i p st mv = true →
      run (boxed Ts i u) M p st' = run Ts M p st
  | [], _, _, _, _, _ => rfl
  | s :: p, mv, st, st', hst, hp => by
    rw [clean, Bool.and_eq_true] at hp
    obtain ⟨hs, hp⟩ := hp
    have hrel := step_boxed M hi hu hw hconv hconv' halloc hmove hst s hs
    rw [run, run]
    revert hp
    generalize step Ts M s st = r at hrel ⊢
    generalize step (boxed Ts i u) M s st' = r' at hrel ⊢
    intro hp
    cases hrel with
    | @ok a b h =>
      obtain ⟨o, st1⟩ := a
      obtain ⟨o', st1'⟩ := b
      obtain ⟨rfl, h⟩ := h
      simp only at hp ⊢
      rw [run_boxed p h hp]
    | throw e => rfl
    | ub w => rfl

end simulation

/-- `bool` (type `0`) and `int` (type `1`) as numbers: an `int` converts to `bool` by a
boolean conversion, and a `bool` to `int` by an integral promotion. -/
def Members.boolInt : Members Nat Nat Unit :=
  { Members.nat with
    conv := fun a t =>
      if a = 1 ∧ t = 0 then some .conversion else if a = 0 ∧ t = 1 then some .promotion else none
    convert := fun a t x => .ok (if a = 1 ∧ t = 0 then min x 1 else x) }

end Broker.Util
