import BrokerVariant.Faults
import BrokerVariant.Program

/-!
# What a variant is for: a tagged union

A variant stands for one value of one of its alternatives, tagged with the index of
that alternative. The rest of the header is how it does so: the aligned storage, the
jump table of `visit_impl`, internal and external dispatch, the `initializer` chain, the
heap object of a `recursive_wrapper`. Here client programs run on tagged values directly,
with none of that, under the semantics a tagged union is meant to have:

* default construction and `make(t)` value-initialise the front alternative, or
  alternative `t`, whichever kind it is;
* construction from a value holds it, converted, in the alternative that the language's
  ranking of implicit conversions (`Members.rank`) finds better for it than every other,
  at the first place of that alternative in the list;
* a copy, and an assignment, hold what their source holds; a move hands the value over.

The model of the header refines this semantics. With alternatives whose copies and
moves carry values, a statement on variants that is defined yields what the statement
yields on the tagged values the variants stand for: the same observation, the same
exception, and variables that stand for the tagged values the tagged union leaves. So a
client program that runs without undefined behaviour observes, and ends, as it does on
tagged values. Where the header is undefined and the tagged union is not (`make` of a
box, the move assignment of a list with a box, a write to a const object), `Safety`
names the cause.

One thing of the header shows through: a `recursive_wrapper` that was moved from is
null, so a tagged value may hold no value, and reading it is undefined.

## Main definitions

* `Tagged`, `Variant.tagged`: a tagged value, and the one a variant stands for.
* `Tagged.beats`, `Tagged.ofValue`: the alternative a value is best held in.
* `Tagged.step`, `Tagged.run`: client programs over tagged values.
-/

namespace Broker.Util

variable {Ty Val Exn R : Type}

/-- What a variant stands for: the index of its alternative, and the value it holds with
its type, or `none` once a move left its box null. -/
structure Tagged (Ty Val : Type) where
  which : Nat
  value : Option (Ty × Val)
  deriving DecidableEq, Repr

/-- The tagged value a variant stands for. -/
def Variant.tagged (v : Variant Ty Val) : Tagged Ty Val := ⟨v.active, v.storage.bind Obj.value⟩

@[simp] theorem Variant.tagged_mk (o : Obj Ty Val) (k : Nat) (c : Bool) :
    (⟨some o, k, c⟩ : Variant Ty Val).tagged = ⟨k, o.value⟩ := rfl

theorem Variant.tagged_of_storage {v : Variant Ty Val} {o : Obj Ty Val} (h : v.storage = some o) :
    v.tagged = ⟨v.active, o.value⟩ := by
  simp [Variant.tagged, h]

theorem Variant.tagged_of_holds {Ts : List (Alt Ty)} {v : Variant Ty Val} {t : Ty} {x : Val}
    (h : Holds Ts v t x) : v.tagged = ⟨v.active, some (t, x)⟩ := by
  obtain ⟨o, ho, -, hx⟩ := h
  rw [Variant.tagged_of_storage ho, hx]

/-- The variables of a program over tagged values. -/
abbrev TStore (Ty Val : Type) := Nat → Option (Tagged Ty Val)

/-- The tagged values the variables of a store stand for. -/
def Store.tagged (st : Store Ty Val) : TStore Ty Val := fun x => (st x).map Variant.tagged

@[simp] theorem Store.tagged_apply (st : Store Ty Val) (x : Nat) :
    Store.tagged st x = (st x).map Variant.tagged := rfl

theorem Store.tagged_update (st : Store Ty Val) (x : Nat) (v : Option (Variant Ty Val)) :
    Store.tagged (Function.update st x v) = Function.update (Store.tagged st) x (v.map Variant.tagged) := by
  funext z
  by_cases hz : z = x
  · subst hz; simp
  · simp [Function.update_noteq hz]

namespace Tagged

/-! ## The semantics of tagged values -/

section ops
variable [DecidableEq Ty] (Ts : List (Alt Ty)) (M : Members Ty Val Exn)

/-- The value held, which must not be that of a null box. -/
def read (a : Tagged Ty Val) : Result Exn (Ty × Val) :=
  match a.value with
  | some p => .ok p
  | none => .ub .nullItem

/-- The values held, in order. -/
def readAll : List (Tagged Ty Val) → Result Exn (List (Ty × Val))
  | [] => .ok []
  | a :: as => do
    let p ← read a
    let ps ← readAll as
    pure (p :: ps)

/-- Whether the alternative of `a` is a box. -/
def boxed (a : Tagged Ty Val) : Bool :=
  match Ts[a.which]? with
  | some (.wrapper _) => true
  | _ => false

/-- What a move leaves behind: a box null, an ordinary value as its move constructor
leaves it. -/
def moved (a : Tagged Ty Val) : Tagged Ty Val :=
  if boxed Ts a then ⟨a.which, none⟩ else ⟨a.which, a.value.map fun p => (p.1, (M.move p.1 p.2).2)⟩

/-- Default construction: the front alternative, holding its type's value-initialised
value. A list has at least one alternative. -/
def front : Result Exn (Tagged Ty Val) :=
  match Ts with
  | c :: _ => .ok ⟨0, some (c.base, M.valueInit c.base)⟩
  | [] => .ub .illFormed

/-- Whether alternative `c` takes a value of type `a` better than every other
alternative of the list: `a` converts to `c`, and to each other alternative worse or not
at all. -/
def beats (a : Ty) (c : Alt Ty) : Bool :=
  match M.rank (.plain a) c with
  | some n => Ts.all fun c' => decide (c' = c) || (M.rank (.plain a) c').all (n < ·)
  | none => false

/-- Construction from a value `x` of type `a`: the alternative that takes it better
than every other, at its first place in the list, holding `x` converted to its type.
With no such alternative the construction is ill-formed. -/
def ofValue (a : Ty) (x : Val) : Result Exn (Tagged Ty Val) :=
  match Ts.find? (beats Ts M a) with
  | some c =>
    if c.base = a then .ok ⟨Ts.indexOf c, some (a, x)⟩
    else (fun y => ⟨Ts.indexOf c, some (c.base, y)⟩) <$> M.convert a c.base x
  | none => .ub .illFormed

/-- `make(t)`: alternative `t`, holding its type's value-initialised value. -/
def make (t : Nat) : Result Exn (Tagged Ty Val) :=
  match Ts[t]? with
  | some c => .ok ⟨t, some (c.base, M.valueInit c.base)⟩
  | none => .ub .badTag

/-- A copy, and the target of an assignment, hold what the source holds. -/
def copy (b : Tagged Ty Val) : Result Exn (Tagged Ty Val) := do
  let _ ← read b
  pure b

/-- Move assignment `a = std::move(b)`: `a` comes to hold what `b` holds; the result is
what `b` and `a` are left holding. Between values of one ordinary alternative `b` keeps
what the alternative's move assignment leaves it, and otherwise what a move leaves. -/
def moveAssign (a b : Tagged Ty Val) : Result Exn (Tagged Ty Val × Tagged Ty Val) :=
  if a.which = b.which ∧ boxed Ts b = false then do
    let p ← read a
    let q ← read b
    pure (⟨b.which, some (q.1, (M.moveAssign p.1 p.2 q.2).2)⟩, b)
  else .ok (moved Ts M b, b)

/-- `get<S>`: the value, when `S` is its type. -/
def get (S : Alt Ty) (a : Tagged Ty Val) : Result Exn (Option Val) := do
  let p ← read a
  pure (if Alt.plain p.1 = S then some p.2 else none)

/-- `is<S>`: whether the value is of type `S`. -/
def is (S : Alt Ty) (a : Tagged Ty Val) : Result Exn Bool := do
  let p ← read a
  pure (decide (Alt.plain p.1 = S))

/-- `std::hash`: the hash of the value. -/
def hash (a : Tagged Ty Val) : Result Exn Nat := do
  let p ← read a
  pure (M.hash p.1 p.2)

/-- `==`: equal alternatives, then equal values. -/
def eq (a b : Tagged Ty Val) : Result Exn Bool :=
  if a.which = b.which then do
    let p ← read a
    let q ← read b
    pure (M.eq p.1 p.2 q.2)
  else pure false

/-- `<`: the lexicographic order of alternative, then value. -/
def lt (a b : Tagged Ty Val) : Result Exn Bool :=
  if a.which = b.which then do
    let p ← read a
    let q ← read b
    pure (M.lt p.1 p.2 q.2)
  else pure (decide (a.which < b.which))

end ops

/-! ## Client programs over tagged values -/

section programs
variable [DecidableEq Ty] (Ts : List (Alt Ty)) (M : Members Ty Val Exn)

/-- Using variable `x`, which must be alive. -/
def load (σ : TStore Ty Val) (x : Nat) : Result Exn (Tagged Ty Val) :=
  match σ x with
  | some a => .ok a
  | none => .ub .noObject

/-- Using variables `ys`, all alive. -/
def loadAll (σ : TStore Ty Val) : List Nat → Result Exn (List (Tagged Ty Val))
  | [] => .ok []
  | y :: ys => do
    let a ← load σ y
    let as ← loadAll σ ys
    pure (a :: as)

/-- Declaring variable `x`, which must not be alive, with what a constructor made. -/
def declare (σ : TStore Ty Val) (x : Nat) (r : Result Exn (Tagged Ty Val)) :
    Result Exn (TStore Ty Val) :=
  match σ x with
  | some _ => .ub .occupied
  | none => (fun a => Function.update σ x (some a)) <$> r

/-- The answer to a query. -/
def query : Query Ty Val R → TStore Ty Val → Result Exn (Obs Val R)
  | .which x, σ => do
    let a ← load σ x
    pure (.which a.which)
  | .get x S, σ => do
    let a ← load σ x
    let p ← get S a
    pure (.get p)
  | .is x S, σ => do
    let a ← load σ x
    let b ← is S a
    pure (.is b)
  | .hash x, σ => do
    let a ← load σ x
    let n ← hash M a
    pure (.hash n)
  | .eq x y, σ => do
    let a ← load σ x
    let b ← load σ y
    let r ← eq M a b
    pure (.eq r)
  | .lt x y, σ => do
    let a ← load σ x
    let b ← load σ y
    let r ← lt M a b
    pure (.lt r)
  | .visit f x ys, σ => do
    let a ← load σ x
    let bs ← loadAll σ ys
    let ps ← readAll (a :: bs)
    pure (.visit (f ps))

/-- One statement: its observation, if it makes one, and the variables after it. An
assignment `x = y` makes `x` a copy of `y`. -/
def step : Stmt Ty Val R → TStore Ty Val → Result Exn (Option (Obs Val R) × TStore Ty Val)
  | .default x, σ => (none, ·) <$> declare σ x (front Ts M)
  | .value x t a _, σ => (none, ·) <$> declare σ x (ofValue Ts M t a)
  | .make x t, σ => (none, ·) <$> declare σ x (make Ts M t)
  | .copy x y, σ => do
    let b ← load σ y
    let σ' ← declare σ x (copy b)
    pure (none, σ')
  | .move x y, σ => do
    let b ← load σ y
    let σ' ← declare σ x (pure b)
    pure (none, Function.update σ' y (some (moved Ts M b)))
  | .assign x y, σ => do
    let b ← load σ y
    let _ ← load σ x
    let a' ← copy b
    pure (none, Function.update σ x (some a'))
  | .moveAssign x y, σ => do
    let b ← load σ y
    let a ← load σ x
    let p ← moveAssign Ts M a b
    pure (none, Function.update (Function.update σ x (some p.2)) y (some p.1))
  | .destroy x, σ => do
    let _ ← load σ x
    pure (none, Function.update σ x none)
  | .observe q, σ => (fun o => (some o, σ)) <$> query M q σ

/-- A run: the observations made, and how it ended. -/
def run : List (Stmt Ty Val R) → TStore Ty Val → List (Obs Val R) × Result Exn Unit
  | [], _ => ([], .ok ())
  | s :: p, σ =>
    match step Ts M s σ with
    | .ok (o, σ') => (o.toList ++ (run p σ').1, (run p σ').2)
    | .throw e => ([], .throw e)
    | .ub w => ([], .ub w)

end programs

end Tagged

/-! ## The header refines the tagged union -/

section refinement
variable [DecidableEq Ty] {Ts : List (Alt Ty)} (M : Members Ty Val Exn) {v w : Variant Ty Val}

omit [DecidableEq Ty] in
variable (Exn) in
theorem Consistent.read_tagged (hv : Consistent Ts v) :
    (∃ t x, Holds Ts v t x ∧ (Tagged.read v.tagged : Result Exn _) = .ok (t, x)) ∨
      (v.isNull = true ∧ (Tagged.read v.tagged : Result Exn _) = .ub .nullItem) := by
  obtain ⟨o, ho, hot⟩ := hv
  rw [Variant.tagged_of_storage ho]
  rcases o with ⟨t, x⟩ | ⟨t, _ | x⟩
  · exact .inl ⟨t, x, ⟨_, ho, hot, rfl⟩, rfl⟩
  · exact .inr ⟨by simp [Variant.isNull, ho], rfl⟩
  · exact .inl ⟨t, x, ⟨_, ho, hot, rfl⟩, rfl⟩

omit [DecidableEq Ty] in
variable (Exn) in
/-- The values of consistent variants are read in order, or a null box among them makes
the reading undefined. -/
theorem readAll_tagged : ∀ {us : List (Variant Ty Val)}, (∀ u ∈ us, Consistent Ts u) →
    (∃ xs, List.Forall₂ (fun u p => Holds Ts u p.1 p.2) us xs ∧
      (Tagged.readAll (us.map Variant.tagged) : Result Exn _) = .ok xs) ∨
    ((∃ u ∈ us, u.isNull = true) ∧
      (Tagged.readAll (us.map Variant.tagged) : Result Exn _) = .ub .nullItem)
  | [], _ => .inl ⟨[], .nil, rfl⟩
  | u :: us, h => by
    have ih := readAll_tagged fun u' hu' => h u' (.tail _ hu')
    rcases (h u (.head _)).read_tagged Exn with ⟨t, x, hu, hr⟩ | ⟨hn, hr⟩
    · rcases ih with ⟨xs, hxs, hrs⟩ | ⟨hn, hrs⟩
      · exact .inl ⟨(t, x) :: xs, .cons hu hxs, by simp [Tagged.readAll, hr, hrs]⟩
      · exact .inr ⟨by simpa using .inr hn, by simp [Tagged.readAll, hr, hrs]⟩
    · exact .inr ⟨⟨u, .head _, hn⟩, by simp [Tagged.readAll, hr]⟩

/-! ### The alternative a value is held in -/

/-- The overloads of an alternative type in the `initializer` chain are numbered with
its first place in the list. -/
theorem mem_initializer_iff_indexOf {TT k : Nat} {c : Alt Ty} {L : List (Alt Ty)} :
    (c, k) ∈ initializer TT L ↔ c ∈ L ∧ k = TT + L.indexOf c := by
  induction L generalizing TT with
  | nil => simp [initializer]
  | cons T L ih =>
    simp only [initializer, List.mem_cons, Prod.mk.injEq, List.mem_filter, ih, decide_eq_true_eq]
    by_cases h : c = T
    · subst h
      simp
    · simp only [h, false_and, false_or, ne_eq, not_false_eq_true, and_true,
        List.indexOf_cons_ne _ (Ne.symm h)]
      exact and_congr_right fun _ => by omega

theorem Tagged.beats_iff {a : Ty} {c : Alt Ty} :
    Tagged.beats Ts M a c = true ↔ ∃ n, M.rank (.plain a) c = some n ∧
      ∀ c' ∈ Ts, c' ≠ c → ∀ n', M.rank (.plain a) c' = some n' → n < n' := by
  unfold Tagged.beats
  cases M.rank (.plain a) c with
  | none => simp
  | some n =>
    simp only [List.all_eq_true, Bool.or_eq_true, decide_eq_true_eq, Option.some.injEq,
      exists_eq_left']
    refine forall₂_congr fun c' _ => ?_
    cases M.rank (.plain a) c' <;> simp [or_iff_not_imp_left]

/-- The alternative the tagged union holds a value in is the one whose overload the
header's resolution calls, and its place in the list is that overload's level. -/
theorem find?_beats {a : Ty} {c : Alt Ty} {k n : Nat}
    (hi : initializeOverload Ts M (.plain a) = some ((c, k), n)) :
    Ts.find? (Tagged.beats Ts M a) = some c ∧ Ts.indexOf c = k := by
  obtain ⟨hc, hr, hbest⟩ := initializeOverload_eq_some.1 hi
  obtain ⟨hmem, rfl⟩ := mem_initializer_iff_indexOf.1 hc
  refine ⟨?_, (Nat.zero_add _).symm⟩
  cases hf : Ts.find? (Tagged.beats Ts M a) with
  | none => exact absurd ((Tagged.beats_iff M).2 ⟨n, hr, hbest⟩) (List.find?_eq_none.1 hf c hmem)
  | some c' =>
    obtain ⟨n', hr', hbest'⟩ := (Tagged.beats_iff M).1 (List.find?_some hf)
    by_contra hne
    have hcc : c' ≠ c := fun h => hne (by rw [h])
    exact Nat.lt_asymm (hbest c' (List.mem_of_find?_eq_some hf) hcc n' hr')
      (hbest' c hmem (Ne.symm hcc) n hr)

/-! ### One operation at a time -/

section faithful
variable (hM : M.Faithful)
include hM

omit [DecidableEq Ty] in
theorem variantDefault_tagged :
    Result.Agrees (fun p a => p.2.tagged = a) (variantDefault Ts M Variant.fresh).uncaught
      (Tagged.front Ts M) := by
  rcases Ts with _ | ⟨_ | t, rest⟩
  · exact .ub _ _
  · simp [variantDefault_eq M Variant.fresh_storage, Tagged.front, hM.move]
  · exact .ub _ _

/-- Construction from a value holds it where the tagged union does, through whichever
conversion resolution picks. -/
theorem variantValue_tagged (a : Ty) (x : Val) (rvalue : Bool) :
    Result.Agrees (fun p b => p.2.tagged = b)
      (variantValue Ts M (.plain a x) rvalue Variant.fresh).uncaught (Tagged.ofValue Ts M a x) := by
  cases hi : initializeOverload Ts M (.plain a) with
  | none => simp [variantValue_none M (x := .plain a x) rvalue hi]
  | some q =>
    obtain ⟨⟨c, k⟩, n⟩ := q
    obtain ⟨hf, rfl⟩ := find?_beats M hi
    have hc := (initializeOverload_eq_some.1 hi).1
    rw [Tagged.ofValue, hf]
    rcases c with t | t <;> by_cases hta : t = a
    · subst hta
      rw [variantValue_eq M (x := .plain t x) rvalue rfl hc]
      cases rvalue <;> simp [Obj.copy, Obj.move, hM.copy, hM.move]
    · rw [variantValue_convert M rvalue rfl hi hta, Result.uncaught_settle]
      simp only [Alt.base_plain, hta, if_false]
      exact Result.Rel.agrees (Result.Rel.map_same _ fun y => by simp [hM.move])
    · subst hta
      rw [variantValue_box M rvalue rfl hi]
      cases rvalue <;> simp [Obj.box, hM.alloc, hM.copy, hM.move]
    · rw [variantValue_convert_box M rvalue rfl hi (Ne.symm hta), hM.alloc, Result.ok_bind,
        Result.uncaught_settle]
      simp only [Alt.base_wrapper, hta, if_false]
      exact Result.Rel.agrees (Result.Rel.map_same _ fun y => rfl)

theorem make_tagged (t : Nat) :
    Result.Agrees (fun p a => p.2.tagged = a) (make Ts M t).uncaught (Tagged.make Ts M t) := by
  cases ht : Ts[t]? with
  | none => simp [make, variantFactory, Variant.apply, visitImpl, ht]
  | some c =>
    cases c with
    | plain u => simp [make_plain M ht, Tagged.make, ht, hM.move]
    | wrapper u => simp [make_wrapper M ht]

theorem variantCopy_tagged (hw : Consistent Ts w) :
    (fun p => p.2.tagged) <$> (variantCopy Ts M w Variant.fresh).uncaught = Tagged.copy w.tagged := by
  obtain ⟨o, ho, hot⟩ := hw
  rw [variantCopy_eq M rfl ho hot, Variant.tagged_of_storage ho]
  rcases o with ⟨t, x⟩ | ⟨t, _ | u⟩ <;> simp [Tagged.copy, Tagged.read, Obj.copy, hM.copy, hM.alloc]

/-- A move, where defined, hands over the value and leaves its donor as `Tagged.moved`
says. -/
theorem variantMove_tagged (hw : Consistent Ts w) :
    Result.Agrees (fun p a => p.2.tagged = a ∧ p.1.tagged = Tagged.moved Ts M w.tagged)
      (variantMove Ts M w Variant.fresh).uncaught (pure w.tagged) := by
  obtain ⟨o, ho, hot⟩ := hw
  rw [variantMove_eq M rfl ho hot, Variant.tagged_of_storage ho]
  split_ifs
  · exact .ub _ _
  · refine .ok ⟨?_, ?_⟩ <;> rcases o with ⟨t, x⟩ | ⟨t, item⟩ <;>
      simp [Tagged.moved, Tagged.boxed, hot, Obj.move, hM.move]

/-- Copy assignment, where defined, leaves its target holding what the source holds. -/
theorem opAssign_tagged (hv : Consistent Ts v) (hw : Consistent Ts w) :
    Result.Agrees (fun p a => p.2.tagged = a) (opAssign Ts M w v).uncaught (Tagged.copy w.tagged) := by
  obtain ⟨l, hl, hlt⟩ := hv
  obtain ⟨r, hr, hrt⟩ := hw
  rw [opAssign_eq M hl hlt hr hrt, Variant.tagged_of_storage hr]
  split_ifs with hc he
  · exact .ub _ _
  · have hlr := type_eq_of_active hlt hrt he
    rcases l with ⟨t, x⟩ | ⟨t, _ | x⟩ <;> rcases r with ⟨t', y⟩ | ⟨t', _ | y⟩ <;>
      simp_all [Tagged.copy, Tagged.read, Obj.copyAssign, hM.copyAssign]
  · rcases r with ⟨t', y⟩ | ⟨t', _ | y⟩ <;>
      simp [Tagged.copy, Tagged.read, Obj.copy, Obj.move, hM.copy, hM.alloc, hM.move]

/-- Move assignment, where defined, hands over the value as the tagged union does. -/
theorem opMoveAssign_tagged (hv : Consistent Ts v) (hw : Consistent Ts w) :
    Result.Agrees (fun p q => (p.1.tagged, p.2.tagged) = q) (opMoveAssign Ts M w v).uncaught
      (Tagged.moveAssign Ts M v.tagged w.tagged) := by
  cases hn : Ts.all Alt.nothrowMoveAssignable
  · simp [opMoveAssign_illFormed M hn]
  have plain : ∀ {u : Nat} {o : Obj Ty Val}, Ts[u]? = some o.type → ∃ t x, o = .plain t x := by
    rintro u (⟨t, x⟩ | ⟨t, _⟩) h
    · exact ⟨t, x, rfl⟩
    · obtain ⟨_, h'⟩ := Alt.plain_of_nothrow hn (List.getElem?_mem h)
      cases h'
  obtain ⟨l, hl, hlt⟩ := hv
  obtain ⟨r, hr, hrt⟩ := hw
  rw [opMoveAssign_eq M hn hl hlt hr hrt, Variant.tagged_of_storage hl, Variant.tagged_of_storage hr]
  obtain ⟨t, x, rfl⟩ := plain hlt
  obtain ⟨t', y, rfl⟩ := plain hrt
  split_ifs with hc he
  · exact .ub _ _
  · have hlr := type_eq_of_active hlt hrt he
    simp_all [Tagged.moveAssign, Tagged.boxed, Tagged.read, Obj.moveAssign, Obj.type, hM.moveAssign]
  · simp [he, Tagged.moveAssign, Tagged.moved, Tagged.boxed, hrt, Obj.type, Obj.move, hM.move]

end faithful

theorem get_tagged (hv : Consistent Ts v) (S : Alt Ty) :
    (get Ts S v : Result Exn (Option Val)) = Tagged.get S v.tagged := by
  rcases hv.read_tagged Exn with ⟨t, x, h, hr⟩ | ⟨hn, hr⟩
  · simp [Tagged.get, hr, get_holds h S]
  · simp [Tagged.get, hr, (get_eq_ub hv S).2 ⟨hn, rfl⟩]

theorem is_tagged (hv : Consistent Ts v) (S : Alt Ty) :
    (is Ts S v : Result Exn Bool) = Tagged.is S v.tagged := by
  rcases hv.read_tagged Exn with ⟨t, x, h, hr⟩ | ⟨hn, hr⟩
  · simp [Tagged.is, hr, is_holds h S]
  · simp [Tagged.is, hr, (is_eq_ub hv S).2 ⟨hn, rfl⟩]

theorem hash_tagged (hv : Consistent Ts v) : hash Ts M v = Tagged.hash M v.tagged := by
  rcases hv.read_tagged Exn with ⟨t, x, h, hr⟩ | ⟨hn, hr⟩
  · simp [Tagged.hash, hr, hash_holds M h]
  · simp [Tagged.hash, hr, (hash_eq_ub hv M).2 ⟨hn, rfl⟩]

theorem opEq_tagged (hv : Consistent Ts v) (hw : Consistent Ts w) :
    opEq Ts M v w = Tagged.eq M v.tagged w.tagged := by
  obtain ⟨l, hl, hlt⟩ := hv
  obtain ⟨r, hr, hrt⟩ := hw
  rw [opEq_eq M hl hlt hr hrt, Variant.tagged_of_storage hl, Variant.tagged_of_storage hr]
  by_cases he : v.active = w.active
  · have hlr := type_eq_of_active hlt hrt he
    rcases l with ⟨t, x⟩ | ⟨t, _ | x⟩ <;> rcases r with ⟨t', y⟩ | ⟨t', _ | y⟩ <;>
      simp_all [Tagged.eq, Tagged.read, Obj.eq]
  · simp [he, Tagged.eq]

theorem opLt_tagged (hv : Consistent Ts v) (hw : Consistent Ts w) :
    opLt Ts M v w = Tagged.lt M v.tagged w.tagged := by
  obtain ⟨l, hl, hlt⟩ := hv
  obtain ⟨r, hr, hrt⟩ := hw
  rw [opLt_eq M hl hlt hr hrt, Variant.tagged_of_storage hl, Variant.tagged_of_storage hr]
  by_cases he : v.active = w.active
  · have hlr := type_eq_of_active hlt hrt he
    rcases l with ⟨t, x⟩ | ⟨t, _ | x⟩ <;> rcases r with ⟨t', y⟩ | ⟨t', _ | y⟩ <;>
      simp_all [Tagged.lt, Tagged.read, Obj.lt]
  · simp [he, Tagged.lt]

/-- Visitation hands the client's function the values of the variants, in order. -/
theorem visit_tagged (f : List (Ty × Val) → R) {vs : List (Variant Ty Val)}
    (h : ∀ u ∈ v :: vs, Consistent Ts u) :
    Result.Rel (fun p ps => p.1 = f ps)
      (visit Ts (.client fun xs (s : Unit) => (f xs, s)) v vs () : Result Exn (R × Unit))
      (Tagged.readAll (v.tagged :: vs.map Variant.tagged)) := by
  rw [visit_eq_applyVisitor]
  rcases readAll_tagged Exn h with ⟨xs, hxs, hr⟩ | ⟨⟨u, hu, hn⟩, hr⟩
  · rw [List.map_cons] at hr
    rw [applyVisitor_eq _ vs xs hxs, hr]
    exact .ok rfl
  · rw [List.map_cons] at hr
    rw [hr, (applyVisitor_eq_ub _ v vs (by simpa [Visitor.visitables] using h) ()).2
      ⟨⟨u, by simpa [Visitor.visitables] using hu, hn⟩, rfl⟩]
    exact .ub _

/-! ### Statements and runs -/

variable {st : Store Ty Val}

omit [DecidableEq Ty] in
theorem load_tagged (st : Store Ty Val) (x : Nat) :
    Result.Rel (fun v a => st x = some v ∧ v.tagged = a) (load st x : Result Exn _)
      (Tagged.load (Store.tagged st) x) := by
  simp only [load, Tagged.load, Store.tagged_apply]
  cases h : st x with
  | none => exact .ub _
  | some v => exact .ok ⟨rfl, rfl⟩

omit [DecidableEq Ty] in
theorem loadAll_tagged (st : Store Ty Val) : ∀ ys : List Nat,
    Result.Rel (fun vs as => (∀ u ∈ vs, ∃ y, st y = some u) ∧ vs.map Variant.tagged = as)
      (loadAll st ys : Result Exn _) (Tagged.loadAll (Store.tagged st) ys)
  | [] => .ok ⟨by simp, rfl⟩
  | y :: ys => (load_tagged st y).bind fun v _ ⟨hv, hva⟩ => (loadAll_tagged st ys).bind
      fun vs _ ⟨hvs, hvsa⟩ => .ok ⟨by simpa using ⟨⟨y, hv⟩, hvs⟩, by simp [hva, hvsa]⟩

omit [DecidableEq Ty] in
/-- Declaring a variable with what a constructor made, where the constructor, when
defined, makes what the tagged union makes and leaves its other result `a` with property
`Q`. -/
theorem declare_tagged {α : Type} (Q : α → Prop) {x : Nat}
    {r : Result (Exn × Variant Ty Val) (α × Variant Ty Val)} {ra : Result Exn (Tagged Ty Val)}
    (h : Result.Agrees (fun p a => p.2.tagged = a ∧ Q p.1) r.uncaught ra) :
    Result.Agrees (fun p σ' => Store.tagged p.2 = σ' ∧ Q p.1) (declare st x r)
      (Tagged.declare (Store.tagged st) x ra) := by
  simp only [declare, Tagged.declare, Store.tagged_apply]
  cases st x with
  | some _ => exact .ub _ _
  | none => exact h.map fun p a ⟨hp, hq⟩ => ⟨by rw [Store.tagged_update, Option.map_some', hp], hq⟩

/-- A query answers on variants what it answers on the tagged values they stand for. -/
theorem query_tagged (hst : Sound Ts st) (q : Query Ty Val R) :
    query Ts M q st = Tagged.query M q (Store.tagged st) := by
  have live : ∀ {x v}, st x = some v → Consistent Ts v := fun h => hst _ _ h
  refine (Result.Rel.eq ?_).symm
  cases q with
  | which x => exact (load_tagged st x).bind fun v _ ⟨_, hva⟩ => .ok (by rw [← hva]; rfl)
  | get x S =>
    refine (load_tagged st x).bind fun v _ ⟨hv, hva⟩ => ?_
    rw [← hva, get_tagged (live hv) S]
    exact .self fun _ _ => rfl
  | is x S =>
    refine (load_tagged st x).bind fun v _ ⟨hv, hva⟩ => ?_
    rw [← hva, is_tagged (live hv) S]
    exact .self fun _ _ => rfl
  | hash x =>
    refine (load_tagged st x).bind fun v _ ⟨hv, hva⟩ => ?_
    rw [← hva, hash_tagged M (live hv)]
    exact .self fun _ _ => rfl
  | eq x y =>
    refine (load_tagged st x).bind fun v _ ⟨hv, hva⟩ => (load_tagged st y).bind fun w _ ⟨hw, hwa⟩ => ?_
    rw [← hva, ← hwa, opEq_tagged M (live hv) (live hw)]
    exact .self fun _ _ => rfl
  | lt x y =>
    refine (load_tagged st x).bind fun v _ ⟨hv, hva⟩ => (load_tagged st y).bind fun w _ ⟨hw, hwa⟩ => ?_
    rw [← hva, ← hwa, opLt_tagged M (live hv) (live hw)]
    exact .self fun _ _ => rfl
  | visit f x ys =>
    refine (load_tagged st x).bind fun v _ ⟨hv, hva⟩ =>
      (loadAll_tagged st ys).bind fun vs _ ⟨hvs, hvsa⟩ => ?_
    have h : ∀ u ∈ v :: vs, Consistent Ts u := by
      rintro u (_ | ⟨_, hu⟩)
      · exact live hv
      · obtain ⟨y, hy⟩ := hvs u hu
        exact live hy
    rw [← hva, ← hvsa]
    exact (visit_tagged f h).bind fun p ps hp => .ok (by rw [hp])

/-- One statement on variants, where defined, does what the same statement does on
tagged values. -/
theorem step_tagged_agrees (hM : M.Faithful) (hst : Sound Ts st) (s : Stmt Ty Val R) :
    Result.Agrees (fun p q => (p.1, Store.tagged p.2) = q) (step Ts M s st)
      (Tagged.step Ts M s (Store.tagged st)) := by
  have live : ∀ {x v}, st x = some v → Consistent Ts v := fun h => hst _ _ h
  have declared : ∀ {α : Type} {x : Nat} {r : Result (Exn × Variant Ty Val) (α × Variant Ty Val)} {ra},
      Result.Agrees (fun p a => p.2.tagged = a) r.uncaught ra →
        Result.Agrees (fun p σ' => Store.tagged p.2 = σ' ∧ True) (declare st x r)
          (Tagged.declare (Store.tagged st) x ra) :=
    fun h => declare_tagged (fun _ => True) (h.mono fun _ _ h => ⟨h, trivial⟩)
  cases s with
  | default x =>
    rw [step, Tagged.step]
    exact (declared (variantDefault_tagged M hM)).map fun _ _ ⟨h, _⟩ => by rw [h]
  | value x t a rvalue =>
    rw [step, Tagged.step]
    exact (declared (variantValue_tagged M hM t a rvalue)).map fun _ _ ⟨h, _⟩ => by rw [h]
  | make x t =>
    rw [step, Tagged.step]
    exact (declared (make_tagged M hM t)).map fun _ _ ⟨h, _⟩ => by rw [h]
  | copy x y =>
    refine (load_tagged st y).agrees.bind fun w _ ⟨hw, hwa⟩ => ?_
    subst hwa
    exact (declared (Result.Rel.of_map_eq (variantCopy_tagged M hM (live hw))).agrees).bind
      fun _ _ ⟨h, _⟩ => .ok (by rw [h])
  | move x y =>
    refine (load_tagged st y).agrees.bind fun w _ ⟨hw, hwa⟩ => ?_
    subst hwa
    exact (declare_tagged (fun d => d.tagged = Tagged.moved Ts M w.tagged)
      (variantMove_tagged M hM (live hw))).bind fun p _ ⟨h, hd⟩ =>
        .ok (by rw [Store.tagged_update, h, Option.map_some', hd])
  | assign x y =>
    refine (load_tagged st y).agrees.bind fun w _ ⟨hw, hwa⟩ =>
      (load_tagged st x).agrees.bind fun v _ ⟨hv, _⟩ => ?_
    subst hwa
    exact (opAssign_tagged M hM (live hv) (live hw)).bind
      fun _ _ h => .ok (by rw [Store.tagged_update, Option.map_some', h])
  | moveAssign x y =>
    refine (load_tagged st y).agrees.bind fun w _ ⟨hw, hwa⟩ =>
      (load_tagged st x).agrees.bind fun v _ ⟨hv, hva⟩ => ?_
    subst hwa hva
    exact (opMoveAssign_tagged M hM (live hv) (live hw)).bind
      fun _ _ h => .ok (by rw [← h, Store.tagged_update, Store.tagged_update]; rfl)
  | destroy x =>
    refine (load_tagged st x).agrees.bind fun v _ ⟨hv, _⟩ => ?_
    obtain ⟨o, ho, hot⟩ := live hv
    rw [destruct_eq ho hot]
    exact .ok (by rw [Store.tagged_update]; rfl)
  | observe q =>
    rw [step, Tagged.step, query_tagged M hst q]
    exact Result.Rel.agrees (Result.Rel.map_same _ fun _ => rfl)

/-- **One statement on variants is the same statement on the tagged values they stand
for.** On a store of consistent variants, with alternatives whose copies and moves carry
values, a statement that is defined makes the observation, ends the same way, and
leaves the variables standing for the tagged values, that the tagged union
prescribes. -/
theorem step_tagged (hM : M.Faithful) (hst : Sound Ts st) (s : Stmt Ty Val R)
    (hs : ∀ e, step Ts M s st ≠ .ub e) :
    (fun p => (p.1, Store.tagged p.2)) <$> step Ts M s st = Tagged.step Ts M s (Store.tagged st) :=
  (step_tagged_agrees M hM hst s).map_eq hs

/-- Construction of a box from a value, on variants and on tagged values. -/
theorem step_tagged_box :
    Members.nat.Faithful ∧ Sound [Alt.wrapper 0] (fun _ => none : Store Nat Nat) ∧
      (∀ e, step [.wrapper 0] Members.nat (.value 0 0 1 true : Stmt Nat Nat Unit) (fun _ => none) ≠
        .ub e) ∧
      (fun p => (p.1, Store.tagged p.2)) <$>
          step [.wrapper 0] Members.nat (.value 0 0 1 true : Stmt Nat Nat Unit) (fun _ => none) =
        Tagged.step [.wrapper 0] Members.nat (.value 0 0 1 true) (Store.tagged fun _ => none) :=
  have hM : Members.nat.Faithful := Members.regular_faithful _ _ _ _
  have hst : Sound [Alt.wrapper 0] (fun _ => none : Store Nat Nat) := fun _ _ h => nomatch h
  have hs : ∀ e, step [.wrapper 0] Members.nat (.value 0 0 1 true : Stmt Nat Nat Unit)
      (fun _ => none) ≠ .ub e := fun _ h => nomatch h
  ⟨hM, hst, hs, step_tagged Members.nat hM hst _ hs⟩

theorem run_tagged (hM : M.Faithful) : ∀ (p : List (Stmt Ty Val R)) {st : Store Ty Val},
    Sound Ts st → (∀ e, (run Ts M p st).2 ≠ .ub e) → run Ts M p st = Tagged.run Ts M p (Store.tagged st)
  | [], _, _, _ => rfl
  | s :: p, st, hst, hp => by
    have hs : ∀ e, step Ts M s st ≠ .ub e := fun e h => hp e (by rw [run, h])
    rw [run, Tagged.run, ← (step_tagged_agrees M hM hst s).map_eq hs]
    cases hc : step Ts M s st with
    | ok q =>
      obtain ⟨o, st'⟩ := q
      have hp' : ∀ e, (run Ts M p st').2 ≠ .ub e := fun e h => hp e (by rw [run, hc]; exact h)
      simp only [Result.map_ok]
      rw [run_tagged hM p (step_sound hst hc) hp']
    | throw e => rfl
    | ub w => exact absurd hc (hs w)

/-- **Every client program that the header runs without undefined behaviour observes
what the tagged union prescribes.** With alternatives whose copies and moves carry
values, such a program run from no variables makes the observations, and ends the way,
that its run on tagged values does. -/
theorem run_eq_tagged (hM : M.Faithful) (p : List (Stmt Ty Val R))
    (hp : ∀ e, (run Ts M p fun _ => none).2 ≠ .ub e) :
    run Ts M p (fun _ => none) = Tagged.run Ts M p fun _ => none :=
  run_tagged M hM p (fun _ _ h => nomatch h) hp

/-- A box copied, moved from, compared and read after the move, with the moved-from
variable still telling its alternative. -/
theorem run_eq_tagged_boxes :
    Members.nat.Faithful ∧
      (∀ e, (run [.plain 0, .wrapper 1] Members.nat
          ([.value 0 1 5 true, .copy 1 0, .move 2 0, .observe (.eq 1 2),
            .observe (.get 2 (.plain 1)), .observe (.which 0)] : List (Stmt Nat Nat Unit))
          fun _ => none).2 ≠ .ub e) ∧
      run [.plain 0, .wrapper 1] Members.nat
          ([.value 0 1 5 true, .copy 1 0, .move 2 0, .observe (.eq 1 2),
            .observe (.get 2 (.plain 1)), .observe (.which 0)] : List (Stmt Nat Nat Unit))
          (fun _ => none) =
        Tagged.run [.plain 0, .wrapper 1] Members.nat
          [.value 0 1 5 true, .copy 1 0, .move 2 0, .observe (.eq 1 2),
            .observe (.get 2 (.plain 1)), .observe (.which 0)]
          fun _ => none :=
  have hM : Members.nat.Faithful := Members.regular_faithful _ _ _ _
  have hp : ∀ e, (run [.plain 0, .wrapper 1] Members.nat
      ([.value 0 1 5 true, .copy 1 0, .move 2 0, .observe (.eq 1 2),
        .observe (.get 2 (.plain 1)), .observe (.which 0)] : List (Stmt Nat Nat Unit))
      fun _ => none).2 ≠ .ub e := fun _ h => nomatch h
  ⟨hM, hp, run_eq_tagged Members.nat hM _ hp⟩

end refinement

end Broker.Util
