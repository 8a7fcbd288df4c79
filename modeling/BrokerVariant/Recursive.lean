import BrokerVariant.Compare
import BrokerVariant.Tagged

/-!
# A recursive alternative list

`recursive_wrapper` exists so that an alternative may contain the variant itself. The
smallest such list is `variant<Tag, count, recursive_wrapper<vector>>` with
`vector = std::vector<variant<...>>`: a value is a count, or a vector of such variants.
The `==` and `<` of `vector` are those of `std::vector`, element by element with the
variant's own `==` and `<`, so the members of this instance are defined by a recursion
through the variant.

The members here are the structural functions `Value.beq` and `Value.lt`. That they are
the members C++ defines is the pair of fixpoint equations `members_eq_vector` and
`members_lt_vector`: `std::vector`'s `==` and `std::lexicographical_compare`, run with
the variant's `operator==` and `operator<` on the elements, compute them. The list then
meets the step of the induction over the nesting depth, `variantLaws_of_depth`: where the
variant's laws hold on values nested less than `n` deep, the alternatives' hold up to
depth `n` (`orderLaws_le`). So the variant's laws hold at every depth; and `==` of two
variants holds exactly when they stand for the same tagged value.

## Main definitions

* `Value` — the values of the two alternatives; a vector holds the values of its elements.
* `vectorEq`, `lexicographicalCompare` — `operator==` and `operator<` of `std::vector`.
* `Value.members` — the members of the instance, with `Value.alts` its alternative list.
-/

namespace Broker.Util

/-! ## Values and their comparison -/

/-- The value of an alternative: a count, or a vector of variants, each given by the
value it holds. -/
inductive Value where
  | count (n : Nat)
  | vector (xs : List Value)
  deriving Repr

namespace Value

/-- The alternative list `count, recursive_wrapper<vector>`, with `count` type `0` and
`vector` type `1`. -/
def alts : List (Alt Nat) := [.plain 0, .wrapper 1]

/-- The variant that holds a value: a count in place, a vector in a box. -/
def toVariant : Value → Variant Nat Value
  | count n => ⟨some (.plain 0 (count n)), 0, false⟩
  | vector xs => ⟨some (.wrapper 1 (some (vector xs))), 1, false⟩

mutual
/-- `==` of two values, structurally: counts as numbers, vectors element by element. -/
def beq : Value → Value → Bool
  | count a, count b => a == b
  | vector xs, vector ys => beqList xs ys
  | _, _ => false

/-- `==` of two vectors: same length, and `==` at every position. -/
def beqList : List Value → List Value → Bool
  | [], [] => true
  | x :: xs, y :: ys => beq x y && beqList xs ys
  | _, _ => false
end

mutual
/-- The three-way comparison of two values: counts as numbers, vectors
lexicographically with a proper prefix first, and a count before a vector, as their
discriminators are. -/
def cmp : Value → Value → Ordering
  | count a, count b => compare a b
  | vector xs, vector ys => cmpList xs ys
  | count _, vector _ => .lt
  | vector _, count _ => .gt

/-- The lexicographic comparison of two vectors. -/
def cmpList : List Value → List Value → Ordering
  | [], [] => .eq
  | [], _ :: _ => .lt
  | _ :: _, [] => .gt
  | x :: xs, y :: ys => (cmp x y).then (cmpList xs ys)
end

/-- `<` of two values. -/
def lt (a b : Value) : Bool := decide (a.cmp b = .lt)

mutual
theorem cmp_swap : ∀ a b : Value, (a.cmp b).swap = b.cmp a
  | count a, count b => Nat.compare_swap a b
  | vector xs, vector ys => cmpList_swap xs ys
  | count _, vector _ | vector _, count _ => rfl

theorem cmpList_swap : ∀ xs ys : List Value, (cmpList xs ys).swap = cmpList ys xs
  | [], [] | [], _ :: _ | _ :: _, [] => rfl
  | x :: xs, y :: ys => by
    rw [cmpList, cmpList, Ordering.swap_then, cmp_swap x y, cmpList_swap xs ys]
end

/-- The members of the instance: value types with the structural `==` and `<`, and
value-initialised `count{}` and `vector{}`; nothing throws. `std::vector` has no
`std::hash`, so the variant's hash is never instantiated here and its field is
constant. -/
def members : Members Nat Value Unit :=
  .regular (fun t => if t = 0 then count 0 else vector []) (fun _ => beq) (fun _ => lt)
    (fun _ _ => 0)

@[simp] theorem members_eq (t : Nat) (a b : Value) :
    members.eq t a b = a.beq b := rfl
@[simp] theorem members_lt (t : Nat) (a b : Value) :
    members.lt t a b = a.lt b := rfl

/-- The type of the alternative a value belongs to. -/
def type : Value → Nat
  | count _ => 0
  | vector _ => 1

theorem holds_toVariant : ∀ a : Value, Holds alts a.toVariant a.type a
  | count _ | vector _ => ⟨_, rfl, rfl, rfl⟩

/-- The variant's `==` on the variants holding two values is their `==`. -/
theorem opEq_toVariant (a b : Value) :
    opEq alts members a.toVariant b.toVariant = .ok (a.beq b) := by
  rw [opEq_holds members (holds_toVariant a) (holds_toVariant b)]
  cases a <;> cases b <;> simp [toVariant, type, beq]

/-- The variant's `<` on the variants holding two values is their `<`. -/
theorem opLt_toVariant (a b : Value) :
    opLt alts members a.toVariant b.toVariant = .ok (a.lt b) := by
  rw [opLt_holds members (holds_toVariant a) (holds_toVariant b)]
  cases a <;> cases b <;> simp [toVariant, type, lt, cmp, Nat.compare_eq_lt]

end Value

/-! ## The comparisons of `std::vector` -/

section vector
variable {α Exn : Type}

/-- `std::equal(first1, last1, first2)`: `==` at each position, stopping at the first
pair that differs. -/
def equal (eq : α → α → Result Exn Bool) : List α → List α → Result Exn Bool
  | x :: xs, y :: ys => do
    let b ← eq x y
    if b then equal eq xs ys else pure false
  | _, _ => pure true

/-- `operator==` of `std::vector`: `a.size() == b.size() && std::equal(...)`. -/
def vectorEq (eq : α → α → Result Exn Bool) (xs ys : List α) : Result Exn Bool :=
  if xs.length = ys.length then equal eq xs ys else pure false

/-- `std::lexicographical_compare`, which is `operator<` of `std::vector`: at the first
position where one element is `<` the other, that decides; otherwise the shorter range
comes first. -/
def lexicographicalCompare (lt : α → α → Result Exn Bool) : List α → List α → Result Exn Bool
  | [], [] => pure false
  | [], _ :: _ => pure true
  | _ :: _, [] => pure false
  | x :: xs, y :: ys => do
    let b ← lt x y
    if b then pure true else do
      let b' ← lt y x
      if b' then pure false else lexicographicalCompare lt xs ys

end vector

namespace Value
variable {Exn : Type}

theorem equal_beq : ∀ xs ys : List Value, xs.length = ys.length →
    equal (fun x y => (.ok (beq x y) : Result Exn Bool)) xs ys = .ok (beqList xs ys)
  | [], [], _ => rfl
  | x :: xs, y :: ys, h => by
    cases hxy : beq x y <;>
      simp [equal, hxy, beqList, equal_beq xs ys (Nat.succ.inj h)]

theorem beqList_of_length_ne : ∀ {xs ys : List Value}, xs.length ≠ ys.length →
    beqList xs ys = false
  | [], [], h => absurd rfl h
  | _ :: _, _ :: _, h => by
    rw [beqList, beqList_of_length_ne fun e => h (congrArg Nat.succ e), Bool.and_false]
  | [], _ :: _, _ | _ :: _, [], _ => rfl

/-- One position of `std::lexicographical_compare` decides as `Ordering.then` does. -/
theorem lexicographicalCompare_step (o l : Ordering) :
    (if o = .lt then (pure true : Result Exn Bool)
      else if o.swap = .lt then pure false else .ok (decide (l = .lt))) =
      .ok (decide (o.then l = .lt)) := by
  cases o <;> rfl

theorem lexicographicalCompare_lt : ∀ xs ys : List Value,
    lexicographicalCompare (fun x y => (.ok (lt x y) : Result Exn Bool)) xs ys =
      .ok (decide (cmpList xs ys = .lt))
  | [], [] | [], _ :: _ | _ :: _, [] => rfl
  | x :: xs, y :: ys => by
    simp only [lexicographicalCompare, Result.ok_bind]
    rw [lexicographicalCompare_lt xs ys]
    simp only [lt, cmpList, decide_eq_true_eq, ← cmp_swap x y]
    exact lexicographicalCompare_step _ _

/-- **The members are the ones C++ defines.** `==` of two vectors is `std::vector`'s:
equal sizes, then the variant's `operator==` on the elements in order. -/
theorem members_eq_vector (xs ys : List Value) :
    (.ok (members.eq 1 (vector xs) (vector ys)) : Result Unit Bool) =
      vectorEq (fun x y => opEq alts members x.toVariant y.toVariant) xs ys := by
  have h : (fun x y : Value => opEq alts members x.toVariant y.toVariant) =
      fun x y => .ok (beq x y) := funext fun x => funext fun y => opEq_toVariant x y
  rw [vectorEq, h]
  by_cases hl : xs.length = ys.length
  · rw [if_pos hl, equal_beq xs ys hl]
    rfl
  · rw [if_neg hl]
    exact congrArg _ (beqList_of_length_ne hl)

/-- **The members are the ones C++ defines.** `<` of two vectors is
`std::lexicographical_compare` with the variant's `operator<` on the elements. -/
theorem members_lt_vector (xs ys : List Value) :
    (.ok (members.lt 1 (vector xs) (vector ys)) : Result Unit Bool) =
      lexicographicalCompare (fun x y => opLt alts members x.toVariant y.toVariant) xs ys := by
  have h : (fun x y : Value => opLt alts members x.toVariant y.toVariant) =
      fun x y => .ok (lt x y) := funext fun x => funext fun y => opLt_toVariant x y
  rw [h, lexicographicalCompare_lt]
  rfl

/-- A proper prefix comes first. -/
example : lexicographicalCompare (fun x y => opLt alts members x.toVariant y.toVariant)
    [count 1] [count 1, vector []] = .ok true := rfl

/-! ## The order laws, by induction over the nesting depth

`cmp` is antisymmetric by structural induction, and it finds two values equal only
when they are. What needs the nesting depth is transitivity, and it comes from the
induction of `variantLaws_of_depth`: three vectors nested at most `n` deep compare
through their elements, nested less than `n` deep, where the variant's `<` is
transitive by the induction hypothesis. Transitivity at a position of three vectors uses
the elements there in all three rotations. -/

mutual
/-- How deeply vectors nest in a value. -/
def depth : Value → Nat
  | count _ => 0
  | vector xs => depthList xs + 1

/-- How deeply vectors nest in the elements of a vector. -/
def depthList : List Value → Nat
  | [] => 0
  | x :: xs => max x.depth (depthList xs)
end

theorem depth_le_of_mem {x : Value} : ∀ {xs : List Value}, x ∈ xs → x.depth ≤ depthList xs
  | _ :: _, .head _ => Nat.le_max_left _ _
  | _ :: _, .tail _ h => Nat.le_trans (depth_le_of_mem h) (Nat.le_max_right _ _)

mutual
theorem beq_iff : ∀ a b : Value, a.beq b = true ↔ a.cmp b = .eq
  | count a, count b => by simp [beq, cmp, Nat.compare_eq_eq]
  | vector xs, vector ys => beqList_iff xs ys
  | count _, vector _ | vector _, count _ => iff_of_false nofun nofun

theorem beqList_iff : ∀ xs ys : List Value, beqList xs ys = true ↔ cmpList xs ys = .eq
  | [], [] => iff_of_true rfl rfl
  | [], _ :: _ | _ :: _, [] => iff_of_false nofun nofun
  | x :: xs, y :: ys => by
    rw [beqList, cmpList, Bool.and_eq_true, Ordering.then_eq_eq, beq_iff x y, beqList_iff xs ys]
end

mutual
theorem eq_of_cmp_eq : ∀ {a b : Value}, a.cmp b = .eq → a = b
  | count _, count _, h => congrArg count (Nat.compare_eq_eq.1 h)
  | vector _, vector _, h => congrArg vector (eq_of_cmpList_eq h)
  | count _, vector _, h | vector _, count _, h => nomatch h

theorem eq_of_cmpList_eq : ∀ {xs ys : List Value}, cmpList xs ys = .eq → xs = ys
  | [], [], _ => rfl
  | [], _ :: _, h | _ :: _, [], h => nomatch h
  | _ :: _, _ :: _, h => by
    rw [cmpList, Ordering.then_eq_eq] at h
    rw [eq_of_cmp_eq h.1, eq_of_cmpList_eq h.2]
end

theorem cmp_self (a : Value) : a.cmp a = .eq := by
  have h := cmp_swap a a
  cases hc : a.cmp a <;> simp_all [Ordering.swap]

/-- The structural `==` of values is their equality. -/
theorem beq_true_iff_eq {a b : Value} : a.beq b = true ↔ a = b := by
  rw [beq_iff]
  exact ⟨eq_of_cmp_eq, fun h => h ▸ cmp_self a⟩

/-- `≤` chains from `a` through `b` to `c`. -/
def LeTrans (a b c : Value) : Prop := a.cmp b ≠ .gt → b.cmp c ≠ .gt → a.cmp c ≠ .gt

theorem cmp_eq_of_ne_gt {a b : Value} (h : a.cmp b ≠ .gt) (h' : b.cmp a ≠ .gt) :
    a.cmp b = .eq := by
  rw [← cmp_swap] at h'
  cases hc : a.cmp b <;> simp_all [Ordering.swap]

theorem cmpList_le_trans : ∀ {xs ys zs : List Value},
    (∀ x ∈ xs, ∀ y ∈ ys, ∀ z ∈ zs, LeTrans x y z ∧ LeTrans y z x ∧ LeTrans z x y) →
      LeTrans (vector xs) (vector ys) (vector zs)
  | [], _, [], _, _, _ | [], _, _ :: _, _, _, _ => by simp [cmp, cmpList]
  | _ :: _, [], _, _, h, _ | _ :: _, _ :: _, [], _, _, h => absurd rfl h
  | x :: xs, y :: ys, z :: zs, H, h1, h2 => by
    obtain ⟨hxyz, hyzx, hzxy⟩ := H x (.head _) y (.head _) z (.head _)
    simp only [cmp, cmpList, ne_eq, Ordering.then_eq_gt, not_or, not_and] at h1 h2 ⊢
    refine ⟨hxyz h1.1 h2.1, fun hxz => ?_⟩
    have hzx : z.cmp x ≠ .gt := by rw [← cmp_swap, hxz]; decide
    have hxy : x.cmp y = .eq := cmp_eq_of_ne_gt h1.1 (hyzx h2.1 hzx)
    have hyz : y.cmp z = .eq := cmp_eq_of_ne_gt h2.1 (hzxy hzx h1.1)
    exact cmpList_le_trans (fun x hx y hy z hz => H x (.tail _ hx) y (.tail _ hy) z (.tail _ hz))
      (h1.2 hxy) (h2.2 hyz)

theorem leTrans_of_elements (a b c : Value)
    (H : ∀ xs ys zs, a = vector xs → b = vector ys → c = vector zs →
      ∀ x ∈ xs, ∀ y ∈ ys, ∀ z ∈ zs, LeTrans x y z ∧ LeTrans y z x ∧ LeTrans z x y) :
    LeTrans a b c := by
  cases a <;> cases b <;> cases c
  case count.count.count a b c => simp only [LeTrans, cmp, Nat.compare_ne_gt]; omega
  case vector.vector.vector xs ys zs => exact cmpList_le_trans (H xs ys zs rfl rfl rfl)
  all_goals simp [LeTrans, cmp]

section depth
variable {n : Nat} (h : VariantLaws members alts fun a => a.depth < n)
include h

/-- Below depth `n`, where the variant's `<` is transitive, `≤` chains. -/
theorem leTrans_of_lt {a b c : Value} (ha : a.depth < n) (hb : b.depth < n) (hc : c.depth < n) :
    LeTrans a b c := fun hab hbc => by
  cases hab' : a.cmp b with
  | gt => exact absurd hab' hab
  | eq => rwa [eq_of_cmp_eq hab']
  | lt =>
    cases hbc' : b.cmp c with
    | gt => exact absurd hbc' hbc
    | eq => rwa [← eq_of_cmp_eq hbc']
    | lt =>
      have hac := h.lt_trans _ _ _ _ _ _ a b c (holds_toVariant a) (holds_toVariant b)
        (holds_toVariant c) ha hb hc (by simp [opLt_toVariant, lt, hab'])
        (by simp [opLt_toVariant, lt, hbc'])
      simp only [opLt_toVariant, Result.ok.injEq, lt, decide_eq_true_eq] at hac
      rw [hac]
      decide

/-- Nested at most `n` deep, `≤` chains: vectors through their elements, nested less
deep. -/
theorem leTrans_of_le {a b c : Value} (ha : a.depth ≤ n) (hb : b.depth ≤ n) (hc : c.depth ≤ n) :
    LeTrans a b c :=
  leTrans_of_elements a b c fun xs ys zs hx hy hz x hx' y hy' z hz' => by
    subst hx hy hz
    have dx : x.depth < n := Nat.lt_of_le_of_lt (depth_le_of_mem hx') ha
    have dy : y.depth < n := Nat.lt_of_le_of_lt (depth_le_of_mem hy') hb
    have dz : z.depth < n := Nat.lt_of_le_of_lt (depth_le_of_mem hz') hc
    exact ⟨leTrans_of_lt h dx dy dz, leTrans_of_lt h dy dz dx, leTrans_of_lt h dz dx dy⟩

/-- **One level of the recursive list.** Where the variant's laws hold on values nested
less than `n` deep, the `==` and `<` of both alternatives obey the order laws on values
nested at most `n` deep. -/
theorem orderLaws_le (t : Nat) : OrderLaws members (fun a => a.depth ≤ n) t where
  eq_refl a _ := by simp [beq_true_iff_eq]
  eq_symm a b _ _ hab := by
    rw [members_eq, beq_true_iff_eq] at hab ⊢
    exact hab.symm
  eq_trans a b c _ _ _ h1 h2 := by
    rw [members_eq, beq_true_iff_eq] at h1 h2 ⊢
    exact h1.trans h2
  lt_irrefl a _ := by simp [lt, cmp_self]
  lt_trans a b c ha hb hc h1 h2 := by
    simp only [members_lt, lt, decide_eq_true_eq] at h1 h2 ⊢
    have hac := leTrans_of_le h ha hb hc (by rw [h1]; decide) (by rw [h2]; decide)
    cases hc' : a.cmp c with
    | lt => rfl
    | eq =>
      obtain rfl := eq_of_cmp_eq hc'
      rw [← cmp_swap, h2] at h1
      exact absurd h1 (by decide)
    | gt => exact absurd hc' hac
  trichotomy a b _ _ := by
    have hb : a.beq b = decide (a.cmp b = .eq) := by
      rw [Bool.eq_iff_iff, beq_iff, decide_eq_true_iff]
    simp only [members_eq, members_lt, lt, hb, ← cmp_swap a b]
    cases a.cmp b <;> rfl

end depth

/-- **The variant of the recursive list is totally ordered.** On variants that hold
values, with vectors nested to any depth, `==` is an equivalence, `<` is irreflexive
and transitive, and exactly one of `x < y`, `x == y`, `y < x` holds. -/
theorem variant_totalOrder :
    (∀ x : Variant Nat Value, Valid alts x →
      opEq alts members x x = .ok true ∧ opLt alts members x x = .ok false) ∧
    (∀ x y : Variant Nat Value, Valid alts x → Valid alts y →
      opEq alts members x y = .ok true → opEq alts members y x = .ok true) ∧
    (∀ x y z : Variant Nat Value, Valid alts x → Valid alts y → Valid alts z →
      opEq alts members x y = .ok true → opEq alts members y z = .ok true →
        opEq alts members x z = .ok true) ∧
    (∀ x y z : Variant Nat Value, Valid alts x → Valid alts y → Valid alts z →
      opLt alts members x y = .ok true → opLt alts members y z = .ok true →
        opLt alts members x z = .ok true) ∧
    (∀ x y : Variant Nat Value, Valid alts x → Valid alts y →
      ∃ p q r, opLt alts members x y = .ok p ∧ opEq alts members x y = .ok q ∧
        opLt alts members y x = .ok r ∧ exactlyOne p q r = true) := by
  have h := variantLaws_of_depth depth fun _ h c _ => orderLaws_le h c.base
  exact ⟨fun x ⟨_, _, hx⟩ => ⟨h.eq_refl x _ _ hx trivial, h.lt_irrefl x _ _ hx trivial⟩,
    fun x y ⟨_, _, hx⟩ ⟨_, _, hy⟩ => h.eq_symm x y _ _ _ _ hx hy trivial trivial,
    fun x y z ⟨_, _, hx⟩ ⟨_, _, hy⟩ ⟨_, _, hz⟩ =>
      h.eq_trans x y z _ _ _ _ _ _ hx hy hz trivial trivial trivial,
    fun x y z ⟨_, _, hx⟩ ⟨_, _, hy⟩ ⟨_, _, hz⟩ =>
      h.lt_trans x y z _ _ _ _ _ _ hx hy hz trivial trivial trivial,
    fun x y ⟨_, _, hx⟩ ⟨_, _, hy⟩ => h.trichotomy x y _ _ _ _ hx hy trivial trivial⟩

/-- **`==` of the recursive variant decides what the variants stand for.** Two variants
that hold values, with vectors nested to any depth, compare equal exactly when they
stand for the same tagged value: the same alternative, and equal values in it. -/
theorem opEq_iff_tagged {x y : Variant Nat Value} (hx : Valid alts x) (hy : Valid alts y) :
    opEq alts members x y = .ok true ↔ x.tagged = y.tagged := by
  obtain ⟨t, a, hxa⟩ := hx
  obtain ⟨t', b, hyb⟩ := hy
  rw [opEq_holds members hxa hyb, Variant.tagged_of_holds hxa, Variant.tagged_of_holds hyb]
  simp only [Result.ok.injEq, Bool.and_eq_true, decide_eq_true_eq, members_eq, beq_true_iff_eq,
    Tagged.mk.injEq, Option.some.injEq, Prod.mk.injEq]
  constructor
  · rintro ⟨he, rfl⟩
    exact ⟨he, hxa.type_eq hyb he, rfl⟩
  · rintro ⟨he, -, rfl⟩
    exact ⟨he, rfl⟩

/-- A vector nested twice against a vector nested once. -/
theorem opEq_iff_tagged_nested :
    Valid alts (vector [vector [count 1]]).toVariant ∧ Valid alts (vector [count 1]).toVariant ∧
      (opEq alts members (vector [vector [count 1]]).toVariant (vector [count 1]).toVariant =
          .ok true ↔
        (vector [vector [count 1]]).toVariant.tagged = (vector [count 1]).toVariant.tagged) :=
  have hx : Valid alts (vector [vector [count 1]]).toVariant := ⟨_, _, holds_toVariant _⟩
  have hy : Valid alts (vector [count 1]).toVariant := ⟨_, _, holds_toVariant _⟩
  ⟨hx, hy, opEq_iff_tagged hx hy⟩

end Value

end Broker.Util
