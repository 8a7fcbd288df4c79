import BrokerVariant.Consistent
import Mathlib.Data.List.Forall2

/-!
# Visitation and construction from a value

`apply_visitor(f, v₁, ..., vₖ)` curries from the left and dispatches from the right:
it wraps `f` and `v₁` in a `binary_visitor`, that and `v₂` in another, and so on, and
dispatches on `vₖ`. Each `binary_visitor`, when called, dispatches on its own variant
and puts that value in front of the arguments it was called with, so the values reach
`f` in the order of the variants, and `f` runs once. The induction is over the number
of variants still to curry, with the visitor built so far as the accumulator.

Construction from a value goes through the `initializer` chain, which numbers the
alternatives as it inherits; for a list of distinct alternatives an argument of type
`Tᵢ` binds the overloads of level `i` exactly. `get` and `is` then look at the value in
external mode, where a `recursive_wrapper<U>` is replaced by its `U`.
-/

namespace Broker.Util

variable {Ty Val Exn S R : Type} [DecidableEq Ty] {Ts : List (Alt Ty)}
variable {v : Variant Ty Val} {t : Ty} {x : Val}

/-! ## N-ary visitation -/

/-- A `binary_visitor` around a variant that holds a value puts the value in front of
its arguments. -/
theorem call_binary (vis : Visitor Ty Val S R) (hv : Holds Ts v t x) (args : List (Ty × Val))
    (s : S) : (Visitor.binary vis v).call Ts args s =
      (vis.call Ts ((t, x) :: args) s : Result Exn (R × S)) := by
  obtain ⟨o, hvs, ht, hx⟩ := hv
  obtain ⟨view, hview, -, hpres⟩ := apply_external Exn hvs ht hx
  simp [Visitor.call, hview, hpres]

/-- `apply_visitor(visitor, v, vs...)` calls the visitor once, on the values of
`v, vs...` in order. -/
theorem applyVisitor_eq (vis : Visitor Ty Val S R) (vs : List (Variant Ty Val))
    (xs : List (Ty × Val)) (h : List.Forall₂ (fun w p => Holds Ts w p.1 p.2) (v :: vs) xs)
    (s : S) : applyVisitor Ts vis v vs s = (vis.call Ts xs s : Result Exn (R × S)) := by
  induction vs generalizing vis v xs with
  | nil =>
    obtain ⟨p, rfl⟩ : ∃ p, xs = [p] := by
      cases h with
      | cons _ hrest => cases hrest; exact ⟨_, rfl⟩
    have hv : Holds Ts v p.1 p.2 := List.forall₂_cons.1 h |>.1
    rw [← call_binary vis hv]
    rfl
  | cons w ws ih =>
    cases h with
    | cons hv hrest =>
      rw [applyVisitor, ih (.binary vis v) _ hrest, call_binary vis hv]

theorem visit_eq_applyVisitor (vis : Visitor Ty Val S R) (vs : List (Variant Ty Val)) (s : S) :
    (visit Ts vis v vs s : Result Exn (R × S)) = applyVisitor Ts vis v vs s := by
  simp [visit, expose]

/-- **N-ary visitation.** For every `k ≥ 1`, every visitor `f` with state and variants
`v₁, ..., vₖ` that hold values `x₁, ..., xₖ`: `apply_visitor(f, v₁, ..., vₖ)` runs `f`
exactly once, on `x₁, ..., xₖ` in order, and returns its result; so do the
`delayed_visitor` of `apply_visitor(f)` and `visit(f, v₁, ..., vₖ)`. -/
theorem applyVisitor_client (f : List (Ty × Val) → S → R × S) (v : Variant Ty Val)
    (vs : List (Variant Ty Val)) (xs : List (Ty × Val))
    (h : List.Forall₂ (fun w p => Holds Ts w p.1 p.2) (v :: vs) xs) (s : S) :
    applyVisitor Ts (.client f) v vs s = (.ok (f xs s) : Result Exn (R × S)) ∧
      (applyVisitorDelayed (.client f)).call Ts v vs s = (.ok (f xs s) : Result Exn (R × S)) ∧
      visit Ts (.client f) v vs s = (.ok (f xs s) : Result Exn (R × S)) := by
  have happ : applyVisitor Ts (.client f) v vs s = (.ok (f xs s) : Result Exn (R × S)) :=
    applyVisitor_eq (.client f) vs xs h s
  exact ⟨happ, happ, by simpa [visit, expose, map_expose] using happ⟩

/-- Two variants of `[0, 1]` holding 3 and 4 are handed to a counting visitor in order. -/
theorem applyVisitor_client_pair :
    applyVisitor [.plain 0, .plain 1] (.client fun xs (s : Nat) => (xs, s + 1))
        ⟨some (.plain 0 3), 0, false⟩ [⟨some (.plain 1 4), 1, false⟩] 0 =
      (.ok ([(0, 3), (1, 4)], 1) : Result Unit _) ∧
    (applyVisitorDelayed (.client fun xs (s : Nat) => (xs, s + 1))).call [.plain 0, .plain 1]
        ⟨some (.plain 0 3), 0, false⟩ [⟨some (.plain 1 4), 1, false⟩] 0 =
      (.ok ([(0, 3), (1, 4)], 1) : Result Unit _) ∧
    visit [.plain 0, .plain 1] (.client fun xs (s : Nat) => (xs, s + 1))
        ⟨some (.plain 0 3), 0, false⟩ [⟨some (.plain 1 4), 1, false⟩] 0 =
      (.ok ([(0, 3), (1, 4)], 1) : Result Unit _) :=
  applyVisitor_client _ _ _ [(0, 3), (1, 4)]
    (.cons ⟨.plain 0 3, rfl, rfl, rfl⟩ (.cons ⟨.plain 1 4, rfl, rfl, rfl⟩ .nil)) 0

/-- The donor of a move out of a `recursive_wrapper<U>` keeps the invariant, and
visiting it dereferences the box's null pointer instead of calling the visitor. -/
theorem applyVisitor_moved_box :
    variantMove [.wrapper 0] Members.nat ⟨some (.wrapper 0 (some 3)), 0, false⟩ Variant.fresh =
        .ok (⟨some (.wrapper 0 none), 0, false⟩, ⟨some (.wrapper 0 (some 3)), 0, false⟩) ∧
      Consistent [.wrapper 0] (⟨some (.wrapper 0 none), 0, false⟩ : Variant Nat Nat) ∧
      applyVisitor [.wrapper 0] (.client fun (_ : List (Nat × Nat)) (s : Unit) => ((), s))
        ⟨some (.wrapper 0 none), 0, false⟩ [] () = (.ub .nullItem : Result Unit (Unit × Unit)) :=
  ⟨rfl, ⟨_, rfl, rfl⟩, rfl⟩

/-! ## Construction from a value -/

/-- In a list of distinct alternatives, each alternative's overloads are those of the
level of its position. -/
theorem mem_initializer_of_nodup {c : Alt Ty} {i : Nat} (hnd : Ts.Nodup) (h : Ts[i]? = some c) :
    (c, i) ∈ initializer 0 Ts :=
  mem_initializer.2 ⟨i, (Nat.zero_add i).symm, h, fun j hj hj' =>
    List.nodup_iff_getElem?_ne_getElem?.1 hnd j i hj (List.getElem?_eq_some_iff.1 h).1
      (hj'.trans h.symm)⟩

variable (M : Members Ty Val Exn)

/-- What a variant built from `x` holds, when it is built: the object `T`'s move or
copy constructor made from `x`, in slot `i`; `get` and `is` find its value under the
unwrapped type and under no other. -/
theorem variantValue_get {i : Nat} {X : Obj Ty Val} (hnd : Ts.Nodup) (hi : Ts[i]? = some X.type)
    (hX : X.value = some (t, x)) (rvalue : Bool) (left : Obj Ty Val) (v' : Variant Ty Val)
    (h : variantValue Ts M X rvalue Variant.fresh = .ok (left, v')) :
    which v' = i ∧
      (∃ o y, v'.storage = some o ∧ (rvalue = true → o = (X.move M).1) ∧
        (rvalue = false → X.copy M = .ok o) ∧ o.value = some (t, y) ∧
        get Ts (.plain t) v' = (.ok (some y) : Result Exn _) ∧
        is Ts (.plain t) v' = (.ok true : Result Exn _)) ∧
      ∀ S, S ≠ .plain t → get Ts S v' = (.ok none : Result Exn _) ∧
        is Ts S v' = (.ok false : Result Exn _) := by
  rw [variantValue_eq M rvalue rfl (mem_initializer_of_nodup hnd hi)] at h
  obtain ⟨o, hmv, hcp, hty, ⟨y, hy⟩, rfl⟩ : ∃ o, (rvalue = true → o = (X.move M).1) ∧
      (rvalue = false → X.copy M = .ok o) ∧ o.type = X.type ∧ (∃ y, o.value = some (t, y)) ∧
      v' = ⟨some o, i, !rvalue⟩ := by
    cases rvalue
    · obtain ⟨o, hc, h⟩ := Result.settle_eq_ok.1 (by simpa using h)
      exact ⟨o, nofun, fun _ => hc, Obj.type_of_copy M hc, Obj.value_of_copy M hc hX,
        (Prod.mk.inj h).2.symm⟩
    · simp only [if_true, Result.settle_ok, Result.ok.injEq, Prod.mk.injEq, Nat.zero_add] at h
      exact ⟨_, fun _ => rfl, nofun, Obj.type_move_fst M X, Obj.value_move_fst M hX, h.2.symm⟩
  have hv : (⟨some o, i, !rvalue⟩ : Variant Ty Val).storage = some o := rfl
  have hot : Ts[(⟨some o, i, !rvalue⟩ : Variant Ty Val).active]? = some o.type := by
    rw [hty]; exact hi
  refine ⟨rfl, ⟨o, y, rfl, hmv, hcp, hy, ?_, ?_⟩, fun S hS => ⟨?_, ?_⟩⟩
  · simp [get_eq hv hot hy]
  · simp [is_eq hv hot hy]
  · simp [get_eq hv hot hy, Ne.symm hS]
  · simp [is_eq hv hot hy, Ne.symm hS]

/-- Copying the number 7 into slot 1 of `[0, 1]`. -/
theorem variantValue_get_copy :
    variantValue [.plain 0, .plain 1] Members.nat (.plain 1 7) false Variant.fresh =
        .ok (.plain 1 7, ⟨some (.plain 1 7), 1, true⟩) ∧
      which (⟨some (.plain 1 7), 1, true⟩ : Variant Nat Nat) = 1 ∧
      get [.plain 0, .plain 1] (.plain 0) ⟨some (.plain 1 7), 1, true⟩ = (.ok none : Result Unit _) :=
  have h := variantValue_get Members.nat (by decide)
    (show [Alt.plain 0, .plain 1][1]? = some (Obj.plain 1 7 : Obj Nat Nat).type from rfl)
    (show (Obj.plain 1 7 : Obj Nat Nat).value = some (1, 7) from rfl) false _ _ rfl
  ⟨rfl, h.1, (h.2.2 _ (by decide)).1⟩

/-- In `[U, recursive_wrapper<U>]` a variant built from a box holding 5 is in slot 1, and
`get<U>`, which names slot 0, finds the 5. -/
theorem get_unwrapped_twin :
    [Alt.plain 0, Alt.wrapper 0].Nodup ∧
      variantValue [.plain 0, .wrapper 0] Members.nat (.wrapper 0 (some 5)) true Variant.fresh =
        .ok (.wrapper 0 none, ⟨some (.wrapper 0 (some 5)), 1, false⟩) ∧
      get [.plain 0, .wrapper 0] (.plain 0) ⟨some (.wrapper 0 (some 5)), 1, false⟩ =
        (.ok (some 5) : Result Unit _) :=
  ⟨by decide, rfl, rfl⟩

end Broker.Util
