import BrokerVariant.Consistent

/-!
# Equality, ordering and hashing

`operator==` and `operator<` of a variant compare discriminators first and the
values of the common alternative after: variants are ordered by alternative, then by
value. On variants that hold values that is all they do, so the order laws of the
alternatives lift to the variant.

An alternative may reach the variant again through a `recursive_wrapper`, and then its
`==` and `<` are made of the variant's own, one level of nesting down. The laws are
therefore lifted for the values that satisfy a predicate, and for a recursive list by
induction over the nesting depth: when the variant's laws below depth `n` give the
alternatives' laws up to depth `n`, the variant's laws hold at every depth.

`std::hash` of a variant is the hash of its value alone, computed in external mode,
while `==` runs in internal mode. They agree because a true `==` has already read a
value on each side, of one alternative.

## Main definitions

* `OrderLaws` — the laws of an alternative's `==` and `<`, on the values satisfying `P`.
* `VariantLaws` — the same laws of the variant's, on the variants whose values satisfy `P`.
-/

namespace Broker.Util

variable {Ty Val Exn : Type} [DecidableEq Ty] {Ts : List (Alt Ty)} (M : Members Ty Val Exn)

/-- Exactly one of three tests holds. -/
def exactlyOne (p q r : Bool) : Bool :=
  (p && !q && !r) || (!p && q && !r) || (!p && !q && r)

/-- What is asked of an alternative's `==` and `<` on the values that satisfy `P`: an
equivalence, and a strict order trichotomous with it. -/
structure OrderLaws (P : Val → Prop) (t : Ty) : Prop where
  eq_refl : ∀ a, P a → M.eq t a a = true
  eq_symm : ∀ a b, P a → P b → M.eq t a b = true → M.eq t b a = true
  eq_trans : ∀ a b c, P a → P b → P c → M.eq t a b = true → M.eq t b c = true → M.eq t a c = true
  lt_irrefl : ∀ a, P a → M.lt t a a = false
  lt_trans : ∀ a b c, P a → P b → P c → M.lt t a b = true → M.lt t b c = true → M.lt t a c = true
  trichotomy : ∀ a b, P a → P b → exactlyOne (M.lt t a b) (M.eq t a b) (M.lt t b a) = true

/-- The laws of a variant's `==` and `<`, on the variants that hold values satisfying
`P`: `==` is an equivalence, `<` is irreflexive and transitive, and exactly one of
`x < y`, `x == y`, `y < x` holds. -/
structure VariantLaws (Ts : List (Alt Ty)) (P : Val → Prop) : Prop where
  eq_refl : ∀ x t a, Holds Ts x t a → P a → opEq Ts M x x = .ok true
  lt_irrefl : ∀ x t a, Holds Ts x t a → P a → opLt Ts M x x = .ok false
  eq_symm : ∀ x y t t' a b, Holds Ts x t a → Holds Ts y t' b → P a → P b →
    opEq Ts M x y = .ok true → opEq Ts M y x = .ok true
  eq_trans : ∀ x y z t t' t'' a b c, Holds Ts x t a → Holds Ts y t' b → Holds Ts z t'' c →
    P a → P b → P c → opEq Ts M x y = .ok true → opEq Ts M y z = .ok true →
      opEq Ts M x z = .ok true
  lt_trans : ∀ x y z t t' t'' a b c, Holds Ts x t a → Holds Ts y t' b → Holds Ts z t'' c →
    P a → P b → P c → opLt Ts M x y = .ok true → opLt Ts M y z = .ok true →
      opLt Ts M x z = .ok true
  trichotomy : ∀ x y t t' a b, Holds Ts x t a → Holds Ts y t' b → P a → P b →
    ∃ p q r, opLt Ts M x y = .ok p ∧ opEq Ts M x y = .ok q ∧ opLt Ts M y x = .ok r ∧
      exactlyOne p q r = true

variable {x y z : Variant Ty Val} {t t' t'' : Ty} {a b c : Val}

/-! ## One level: discriminator, then value -/

theorem opEq_holds (hx : Holds Ts x t a) (hy : Holds Ts y t' b) :
    opEq Ts M x y = .ok (decide (x.active = y.active) && M.eq t a b) := by
  obtain ⟨l, hl, hlt, hlv⟩ := hx
  obtain ⟨r, hr, hrt, hrv⟩ := hy
  rw [opEq_eq M hl hlt hr hrt]
  by_cases he : x.active = y.active
  · have hlr : l.type = r.type := by rw [he] at hlt; simpa [hlt] using hrt
    simp [he, Obj.eq_of_value M hlr hlv hrv]
  · simp [he]

theorem opLt_holds (hx : Holds Ts x t a) (hy : Holds Ts y t' b) :
    opLt Ts M x y =
      .ok (if x.active = y.active then M.lt t a b else decide (x.active < y.active)) := by
  obtain ⟨l, hl, hlt, hlv⟩ := hx
  obtain ⟨r, hr, hrt, hrv⟩ := hy
  rw [opLt_eq M hl hlt hr hrt]
  by_cases he : x.active = y.active
  · have hlr : l.type = r.type := by rw [he] at hlt; simpa [hlt] using hrt
    simp [he, Obj.lt_of_value M hlr hlv hrv]
  · simp [he]

/-! ## The laws, lifted from the alternatives -/

section laws
variable {M} {P : Val → Prop} (hlaws : ∀ c ∈ Ts, OrderLaws M P c.base)
include hlaws

omit [DecidableEq Ty] in
theorem Holds.laws (hx : Holds Ts x t a) : OrderLaws M P t := by
  obtain ⟨c, hc, rfl⟩ := hx.mem
  exact hlaws c hc

theorem opEq_refl (hx : Holds Ts x t a) (ha : P a) : opEq Ts M x x = .ok true := by
  simp [opEq_holds M hx hx, (hx.laws hlaws).eq_refl a ha]

theorem opLt_irrefl (hx : Holds Ts x t a) (ha : P a) : opLt Ts M x x = .ok false := by
  simp [opLt_holds M hx hx, (hx.laws hlaws).lt_irrefl a ha]

theorem opEq_symm (hx : Holds Ts x t a) (hy : Holds Ts y t' b) (ha : P a) (hb : P b)
    (h : opEq Ts M x y = .ok true) : opEq Ts M y x = .ok true := by
  simp only [opEq_holds M hx hy, Result.ok.injEq, Bool.and_eq_true, decide_eq_true_eq] at h
  obtain ⟨he, hab⟩ := h
  obtain rfl := hx.type_eq hy he
  simp [opEq_holds M hy hx, he, (hx.laws hlaws).eq_symm a b ha hb hab]

theorem opEq_trans (hx : Holds Ts x t a) (hy : Holds Ts y t' b) (hz : Holds Ts z t'' c)
    (ha : P a) (hb : P b) (hc : P c)
    (hxy : opEq Ts M x y = .ok true) (hyz : opEq Ts M y z = .ok true) :
    opEq Ts M x z = .ok true := by
  simp only [opEq_holds M hx hy, opEq_holds M hy hz, Result.ok.injEq, Bool.and_eq_true,
    decide_eq_true_eq] at hxy hyz
  obtain rfl := hx.type_eq hy hxy.1
  obtain rfl := hy.type_eq hz hyz.1
  simp [opEq_holds M hx hz, hxy.1, hyz.1, (hx.laws hlaws).eq_trans a b c ha hb hc hxy.2 hyz.2]

theorem opLt_trans (hx : Holds Ts x t a) (hy : Holds Ts y t' b) (hz : Holds Ts z t'' c)
    (ha : P a) (hb : P b) (hc : P c)
    (hxy : opLt Ts M x y = .ok true) (hyz : opLt Ts M y z = .ok true) :
    opLt Ts M x z = .ok true := by
  rw [opLt_holds M hx hy, Result.ok.injEq] at hxy
  rw [opLt_holds M hy hz, Result.ok.injEq] at hyz
  rw [opLt_holds M hx hz, Result.ok.injEq]
  by_cases h1 : x.active = y.active <;> by_cases h2 : y.active = z.active
  · rw [if_pos h1] at hxy
    rw [if_pos h2] at hyz
    obtain rfl := hx.type_eq hy h1
    obtain rfl := hy.type_eq hz h2
    rw [if_pos (h1.trans h2)]
    exact (hx.laws hlaws).lt_trans a b c ha hb hc hxy hyz
  · rw [if_neg h2, decide_eq_true_eq] at hyz
    rwa [h1, if_neg h2, decide_eq_true_eq]
  · rw [if_neg h1, decide_eq_true_eq] at hxy
    rwa [← h2, if_neg h1, decide_eq_true_eq]
  · rw [if_neg h1, decide_eq_true_eq] at hxy
    rw [if_neg h2, decide_eq_true_eq] at hyz
    have hxz : x.active < z.active := Nat.lt_trans hxy hyz
    rw [if_neg (Nat.ne_of_lt hxz), decide_eq_true_eq]
    exact hxz

theorem opLt_trichotomy (hx : Holds Ts x t a) (hy : Holds Ts y t' b) (ha : P a) (hb : P b) :
    ∃ p q r, opLt Ts M x y = .ok p ∧ opEq Ts M x y = .ok q ∧ opLt Ts M y x = .ok r ∧
      exactlyOne p q r = true := by
  refine ⟨_, _, _, opLt_holds M hx hy, opEq_holds M hx hy, opLt_holds M hy hx, ?_⟩
  by_cases he : x.active = y.active
  · obtain rfl := hx.type_eq hy he
    simpa [he] using (hx.laws hlaws).trichotomy a b ha hb
  · rcases Nat.lt_or_gt_of_ne he with h | h <;>
      simp [exactlyOne, he, Ne.symm he, h, Nat.lt_asymm h]

/-- The laws of the alternatives on the values satisfying `P` are the variant's on the
variants holding such values. -/
theorem variantLaws_of_orderLaws : VariantLaws M Ts P where
  eq_refl _ _ _ hx ha := opEq_refl hlaws hx ha
  lt_irrefl _ _ _ hx ha := opLt_irrefl hlaws hx ha
  eq_symm _ _ _ _ _ _ hx hy ha hb := opEq_symm hlaws hx hy ha hb
  eq_trans _ _ _ _ _ _ _ _ _ hx hy hz ha hb hc := opEq_trans hlaws hx hy hz ha hb hc
  lt_trans _ _ _ _ _ _ _ _ _ hx hy hz ha hb hc := opLt_trans hlaws hx hy hz ha hb hc
  trichotomy _ _ _ _ _ _ hx hy ha hb := opLt_trichotomy hlaws hx hy ha hb

end laws

/-! ## Recursive lists, by induction over the nesting depth -/

section depth
variable {M} (depth : Val → Nat)

/-- Below depth `0` there are no values, and nothing to ask of them. -/
theorem variantLaws_zero : VariantLaws M Ts fun a => depth a < 0 where
  eq_refl _ _ _ _ h := absurd h (Nat.not_lt_zero _)
  lt_irrefl _ _ _ _ h := absurd h (Nat.not_lt_zero _)
  eq_symm _ _ _ _ _ _ _ _ h := absurd h (Nat.not_lt_zero _)
  eq_trans _ _ _ _ _ _ _ _ _ _ _ _ h := absurd h (Nat.not_lt_zero _)
  lt_trans _ _ _ _ _ _ _ _ _ _ _ _ h := absurd h (Nat.not_lt_zero _)
  trichotomy _ _ _ _ _ _ _ _ h := absurd h (Nat.not_lt_zero _)

/-- Laws at every depth are laws for all values: any three sit below a common depth. -/
theorem VariantLaws.of_depth (h : ∀ n, VariantLaws M Ts fun a => depth a < n) :
    VariantLaws M Ts fun _ => True where
  eq_refl x _ a hx _ := (h (depth a + 1)).eq_refl x _ a hx (Nat.lt_succ_self _)
  lt_irrefl x _ a hx _ := (h (depth a + 1)).lt_irrefl x _ a hx (Nat.lt_succ_self _)
  eq_symm x y _ _ a b hx hy _ _ := (h (depth a + depth b + 1)).eq_symm x y _ _ a b hx hy
    (by omega) (by omega)
  eq_trans x y z _ _ _ a b c hx hy hz _ _ _ :=
    (h (depth a + depth b + depth c + 1)).eq_trans x y z _ _ _ a b c hx hy hz
      (by omega) (by omega) (by omega)
  lt_trans x y z _ _ _ a b c hx hy hz _ _ _ :=
    (h (depth a + depth b + depth c + 1)).lt_trans x y z _ _ _ a b c hx hy hz
      (by omega) (by omega) (by omega)
  trichotomy x y _ _ a b hx hy _ _ := (h (depth a + depth b + 1)).trichotomy x y _ _ a b hx hy
    (by omega) (by omega)

/-- When the variant's laws below depth `n` give every alternative's laws up to depth
`n`, the variant's laws hold at every depth. -/
theorem variantLaws_of_depth
    (hstep : ∀ n, VariantLaws M Ts (fun a => depth a < n) →
      ∀ c ∈ Ts, OrderLaws M (fun a => depth a ≤ n) c.base) :
    VariantLaws M Ts fun _ => True := by
  refine VariantLaws.of_depth depth fun n => ?_
  induction n with
  | zero => exact variantLaws_zero depth
  | succ n ih =>
    have h := variantLaws_of_orderLaws (hstep n ih)
    simpa only [Nat.lt_succ_iff] using h

end depth

/-- **`==` and `<` of a variant.** On variants that hold values, `x == y` is
`which(x) == which(y)` and then `==` of the two values, and `x < y` is
`which(x) < which(y)` when the discriminators differ and `<` of the two values when
they agree, for every alternative list. And for every alternative list, recursive ones
included: when, for every depth `n`, the variant's laws on values nested less than `n`
deep give every alternative's `==` the laws of an equivalence and its `<` those of a
strict order trichotomous with it on values nested at most `n` deep, then the variant's
`==` is an equivalence, its `<` is irreflexive and transitive, and exactly one of
`x < y`, `x == y`, `y < x` holds, on all variants that hold values. A list without
recursion takes the depth `0` for every value. -/
theorem opEq_opLt_lexicographic (M : Members Ty Val Exn) (Ts : List (Alt Ty)) :
    (∀ (x y : Variant Ty Val) t t' a b, Holds Ts x t a → Holds Ts y t' b →
      opEq Ts M x y = .ok (decide (x.active = y.active) && M.eq t a b) ∧
      opLt Ts M x y =
        .ok (if x.active = y.active then M.lt t a b else decide (x.active < y.active))) ∧
    ∀ depth : Val → Nat,
      (∀ n, VariantLaws M Ts (fun a => depth a < n) →
        ∀ c ∈ Ts, OrderLaws M (fun a => depth a ≤ n) c.base) →
      VariantLaws M Ts fun _ => True :=
  ⟨fun _ _ _ _ _ _ hx hy => ⟨opEq_holds M hx hy, opLt_holds M hx hy⟩,
    fun depth hstep => variantLaws_of_depth depth hstep⟩

/-- The numbers, with their own `==` and `<`, satisfy the laws. -/
theorem Members.nat_orderLaws (P : Nat → Prop) (t : Nat) : OrderLaws Members.nat P t where
  eq_refl a _ := by simp [Members.nat, Members.regular]
  eq_symm a b _ _ := by simp only [Members.nat, Members.regular, beq_iff_eq]; exact Eq.symm
  eq_trans a b c _ _ _ := by simp only [Members.nat, Members.regular, beq_iff_eq]; omega
  lt_irrefl a _ := by simp [Members.nat, Members.regular]
  lt_trans a b c _ _ _ := by simp only [Members.nat, Members.regular, decide_eq_true_eq]; omega
  trichotomy a b _ _ := by
    simp only [Members.nat, Members.regular, exactlyOne]
    rcases Nat.lt_trichotomy a b with h | rfl | h
    · simp [h, Nat.ne_of_lt h, Nat.lt_asymm h]
    · simp
    · simp [h, Nat.ne_of_gt h, Nat.lt_asymm h]

/-- A variant whose `recursive_wrapper<U>` was moved from keeps the invariant, but
`==` on it dereferences the box's null pointer, even when `U`'s `==` obeys the laws. -/
theorem opEq_moved_box :
    OrderLaws Members.nat (fun _ => True) 0 ∧
      Consistent [.wrapper 0] (⟨some (.wrapper 0 none), 0, false⟩ : Variant Nat Nat) ∧
      opEq [.wrapper 0] Members.nat ⟨some (.wrapper 0 none), 0, false⟩
          ⟨some (.wrapper 0 none), 0, false⟩ = .ub .nullItem :=
  ⟨Members.nat_orderLaws _ 0, ⟨_, rfl, rfl⟩, rfl⟩

/-! ## Hashing -/

/-- A `==` that comes out true read a value of one alternative on each side. -/
theorem holds_of_opEq (h : opEq Ts M x y = .ok true) :
    ∃ t a b, Holds Ts x t a ∧ Holds Ts y t b ∧ M.eq t a b = true := by
  by_cases he : x.active = y.active
  · simp only [opEq, he, if_true] at h
    obtain ⟨view, happ, h⟩ := Result.bind_eq_ok.1 h
    obtain ⟨c, hc, rfl⟩ := (Variant.apply_true_eq_ok Ts).1 happ
    obtain ⟨l, hl, h⟩ := Result.bind_eq_ok.1 h
    obtain ⟨r, hr, h⟩ := Result.bind_eq_ok.1 h
    obtain ⟨hxl, hlc⟩ := readAs_eq_ok.1 hl
    obtain ⟨hyr, hrc⟩ := readAs_eq_ok.1 hr
    rw [View.type_storage] at hlc
    obtain ⟨t, t', a, b, hla, hrb, hab⟩ := Obj.value_of_eq M h
    obtain rfl : t = t' := by
      rw [← Obj.base_of_value hla, ← Obj.base_of_value hrb, hlc, hrc]
    exact ⟨t, a, b, ⟨l, hxl, by rw [he, hc, hlc], hla⟩, ⟨r, hyr, by rw [hc, hrc], hrb⟩, hab⟩
  · simp [opEq, he] at h

/-- **Equal variants hash alike**, when each alternative's `std::hash` agrees with its
`==`: `==` compares in internal mode and the hash reads the value in external mode,
but a true `==` leaves one alternative and two equal values. -/
theorem hash_eq_of_opEq (M : Members Ty Val Exn) (Ts : List (Alt Ty))
    (hhash : ∀ c ∈ Ts, ∀ a b, M.eq c.base a b = true → M.hash c.base a = M.hash c.base b)
    (x y : Variant Ty Val) (h : opEq Ts M x y = .ok true) :
    ∃ n, hash Ts M x = .ok n ∧ hash Ts M y = .ok n := by
  obtain ⟨t, a, b, hx, hy, hab⟩ := holds_of_opEq M h
  obtain ⟨cx, hcx, rfl⟩ := hx.mem
  obtain ⟨o, hv, ht, hval⟩ := hx
  obtain ⟨o', hv', ht', hval'⟩ := hy
  exact ⟨_, hash_eq M hv ht hval, by rw [hash_eq M hv' ht' hval', hhash cx hcx a b hab]⟩

/-- A box holding 3 and a const copy of it, in the boxed slot of `0, recursive_wrapper<1>`,
are equal and hash alike. -/
theorem hash_eq_of_opEq_box :
    opEq [.plain 0, .wrapper 1] Members.nat ⟨some (.wrapper 1 (some 3)), 1, false⟩
        ⟨some (.wrapper 1 (some 3)), 1, true⟩ = .ok true ∧
      ∃ n, hash [.plain 0, .wrapper 1] Members.nat ⟨some (.wrapper 1 (some 3)), 1, false⟩ = .ok n ∧
        hash [.plain 0, .wrapper 1] Members.nat ⟨some (.wrapper 1 (some 3)), 1, true⟩ = .ok n :=
  ⟨rfl, hash_eq_of_opEq Members.nat [.plain 0, .wrapper 1] (fun _ _ a b h => by
    simpa [Members.nat, Members.regular] using h) _ _ rfl⟩

end Broker.Util
