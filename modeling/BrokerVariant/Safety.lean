import BrokerVariant.Faults
import BrokerVariant.Invisible

/-!
# When a client program goes wrong

A statement of a client program, run in a store of consistent variants, goes wrong
exactly when one of the faults below is present, and then with the cause of one of
them. The faults are about the client's variables, the alternative list and the
alternatives' members only: a variable used outside its lifetime or declared while
alive, a construction or move assignment the instantiation does not allow, `make` of a
box or out of range, the value of a null box read, and a const object written. In
particular no run reads the storage at a wrong type or constructs into a live object,
and the storage is read while empty only by `make` of a box. Since every reachable
store is consistent, the same holds at every step of every run.

Null boxes come from moves only. With the variables that hold what a move left behind
kept as ghost state along the run, a null box is read only through one of them.
-/

namespace Broker.Util

variable {Ty Val Exn R : Type}

/-! ## What a statement touches -/

/-- The variables a query uses, each of which must be alive. -/
def Query.uses : Query Ty Val R → List Nat
  | .which x => [x]
  | q => q.reads

/-- The variables a statement uses, each of which must be alive. -/
def Stmt.uses : Stmt Ty Val R → List Nat
  | .default _ | .value .. | .make .. => []
  | .copy _ y | .move _ y => [y]
  | .assign x y | .moveAssign x y => [y, x]
  | .destroy x => [x]
  | .observe q => q.uses

/-- The variable a statement declares, which must not be alive. -/
def Stmt.declares : Stmt Ty Val R → Option Nat
  | .default x | .value x .. | .make x _ | .copy x _ | .move x _ => some x
  | _ => none

/-- The variables whose values a statement reads, through the pointer of a box if it
holds one: the source of a copy; the right-hand side of an assignment, and its
left-hand side too when both are of one alternative; the argument of `get`, `is` and
`std::hash`; both sides of `==` and `<` of one alternative; every visited variant. -/
def Stmt.derefs (st : Store Ty Val) : Stmt Ty Val R → List Nat
  | .copy _ y => [y]
  | .assign x y => if slot st x = slot st y then [y, x] else [y]
  | .observe (.get x _) | .observe (.is x _) | .observe (.hash x) => [x]
  | .observe (.eq x y) | .observe (.lt x y) => if slot st x = slot st y then [x, y] else []
  | .observe (.visit _ x ys) => x :: ys
  | _ => []

section loads
variable {st : Store Ty Val}

/-! ## Loading and declaring -/

theorem load_eq_ub {x : Nat} {e : Undefined} :
    (load st x : Result Exn _) = .ub e ↔ st x = none ∧ e = .noObject := by
  unfold load
  cases st x <;> simp [eq_comm]

theorem loadAll_eq_ub {e : Undefined} : ∀ {ys : List Nat},
    (loadAll st ys : Result Exn _) = .ub e ↔ (∃ y ∈ ys, st y = none) ∧ e = .noObject
  | [] => by simp [loadAll]
  | y :: ys => by
    cases hy : st y with
    | none => simp only [loadAll, load, hy, Result.ub_bind, Result.ub.injEq]; aesop
    | some v => simp [loadAll, load, hy, loadAll_eq_ub]

theorem loadAll_eq_ok {vs : List (Variant Ty Val)} : ∀ {ys : List Nat},
    (loadAll st ys : Result Exn _) = .ok vs ↔ ys.map st = vs.map some
  | [] => by cases vs <;> simp [loadAll]
  | y :: ys => by
    cases vs with
    | nil => cases hy : st y <;> simp [loadAll, load, hy, Result.bind_eq_ok]
    | cons v vs =>
      cases hy : st y <;> simp [loadAll, load, hy, Result.bind_eq_ok, loadAll_eq_ok]
      aesop

theorem loadAll_of_live : ∀ {ys : List Nat}, (∀ y ∈ ys, st y ≠ none) →
    ∃ vs, (loadAll st ys : Result Exn _) = .ok vs
  | [], _ => ⟨[], rfl⟩
  | y :: ys, h => by
    obtain ⟨v, hv⟩ := Option.ne_none_iff_exists'.1 (h y (.head _))
    obtain ⟨vs, hvs⟩ := loadAll_of_live fun z hz => h z (.tail _ hz)
    exact ⟨v :: vs, by simp [loadAll, load, hv, hvs]⟩

theorem mem_of_loadAll {ys : List Nat} {vs : List (Variant Ty Val)} {u : Variant Ty Val}
    (h : (loadAll st ys : Result Exn _) = .ok vs) : u ∈ vs ↔ ∃ y ∈ ys, st y = some u := by
  have : some u ∈ vs.map some ↔ some u ∈ ys.map st := by rw [loadAll_eq_ok.1 h]
  simpa using this

theorem declare_eq_ub {α : Type} {x : Nat} {r : Result (Exn × Variant Ty Val) (α × Variant Ty Val)}
    {e : Undefined} :
    declare st x r = .ub e ↔ (∃ v, st x = some v) ∧ e = .occupied ∨ st x = none ∧ r = .ub e := by
  unfold declare
  cases st x <;> simp
  exact eq_comm

end loads

variable [DecidableEq Ty] (Ts : List (Alt Ty)) (M : Members Ty Val Exn) (st : Store Ty Val)

/-- The ways a statement goes wrong in a store, each with its cause. -/
inductive Fault : Stmt Ty Val R → Undefined → Prop
  /-- It uses a variable outside its lifetime. -/
  | dead {s : Stmt Ty Val R} {z : Nat} : z ∈ s.uses → st z = none → Fault s .noObject
  /-- It declares a variable that is alive. -/
  | live {s : Stmt Ty Val R} {x : Nat} {v : Variant Ty Val} :
      s.declares = some x → st x = some v → Fault s .occupied
  /-- The default constructor, with no ordinary alternative in front. -/
  | noFront {x : Nat} : (∀ t, Ts.head? ≠ some (.plain t)) → Fault (.default x) .illFormed
  /-- Construction from a value that overload resolution sends nowhere: no alternative
  takes it, or two take it equally well. -/
  | noOverload {x : Nat} {t : Ty} {a : Val} {rvalue : Bool} :
      initializeOverload Ts M (.plain t) = none → Fault (.value x t a rvalue) .illFormed
  /-- `make(t)` with `t` out of range. -/
  | makeRange {x t : Nat} : Ts.length ≤ t → Fault (.make x t) .badTag
  /-- `make(t)` of a box. -/
  | makeBox {x t : Nat} {u : Ty} : Ts[t]? = some (.wrapper u) → Fault (.make x t) .emptyStorage
  /-- It reads the value of a null box. -/
  | nullRead {s : Stmt Ty Val R} {z : Nat} {v : Variant Ty Val} :
      z ∈ s.derefs st → st z = some v → v.isNull = true → Fault s .nullItem
  /-- Move assignment in a list that holds a box, which has none. -/
  | moveAssignBox {x y : Nat} :
      Ts.all Alt.nothrowMoveAssignable = false → Fault (.moveAssign x y) .illFormed
  /-- A move out of a const object that writes it. -/
  | constMove {x y : Nat} {w : Variant Ty Val} :
      st y = some w → w.isConst → w.moveWrites M → Fault (.move x y) .constWrite
  /-- An assignment in place over a const object. -/
  | constAssign {x y : Nat} {v w : Variant Ty Val} : st x = some v → st y = some w →
      v.active = w.active → v.isConst → v.assignWrites → Fault (.assign x y) .constWrite
  /-- A move assignment that writes a const object: the target, in place, or a source
  whose move writes it. -/
  | constMoveAssign {x y : Nat} {v w : Variant Ty Val} : st x = some v → st y = some w →
      Ts.all Alt.nothrowMoveAssignable →
      (v.active = w.active ∧ v.isConst ∨ w.isConst ∧ w.moveWrites M) →
      Fault (.moveAssign x y) .constWrite

variable {Ts M st}

/-! ## Every undefined behaviour of a step is a fault -/

section faults
variable {e : Undefined} {s : Stmt Ty Val R}

omit [DecidableEq Ty] in
theorem slot_eq_iff {x y : Nat} {v : Variant Ty Val} (hx : st x = some v) :
    slot st x = slot st y ↔ ∃ w, st y = some w ∧ v.active = w.active := by
  cases hy : st y <;> simp [slot, hx, hy]

theorem Fault.of_load {β : Type} {y : Nat} {f : Variant Ty Val → Result Exn β} (hy : y ∈ s.uses)
    (h : (load st y >>= f) = .ub e) (hf : ∀ w, st y = some w → f w = .ub e → Fault Ts M st s e) :
    Fault Ts M st s e := by
  rcases Result.bind_eq_ub.1 h with h | ⟨w, hw, h⟩
  · obtain ⟨hy', rfl⟩ := load_eq_ub.1 h
    exact .dead hy hy'
  · exact hf w (load_eq_ok.1 hw) h

theorem Fault.of_declare {α : Type} {x : Nat} {r : Result (Exn × Variant Ty Val) (α × Variant Ty Val)}
    (hx : s.declares = some x) (h : declare st x r = .ub e) (hr : r = .ub e → Fault Ts M st s e) :
    Fault Ts M st s e := by
  rcases declare_eq_ub.1 h with ⟨⟨v, hv⟩, rfl⟩ | ⟨-, h⟩
  · exact .live hx hv
  · exact hr h

omit [DecidableEq Ty] in
theorem Sound.visitables {S : Type} {g : List (Ty × Val) → S → R × S} (hst : Sound Ts st)
    {x : Nat} {ys : List Nat} {v : Variant Ty Val} {vs : List (Variant Ty Val)}
    (hv : st x = some v) (hvs : (loadAll st ys : Result Exn _) = .ok vs) :
    ∀ u ∈ (Visitor.client g).visitables ++ v :: vs, Consistent Ts u := by
  simp only [Visitor.visitables, List.nil_append, List.mem_cons]
  rintro u (rfl | hu)
  · exact hst _ _ hv
  · obtain ⟨y, -, hy⟩ := (mem_of_loadAll hvs).1 hu
    exact hst _ _ hy

variable (M)

/-- A query goes wrong only on a fault, with its cause. -/
theorem query_fault (hst : Sound Ts st) (q : Query Ty Val R) (h : query Ts M q st = .ub e) :
    Fault Ts M st (.observe q) e := by
  have live : ∀ {z v}, st z = some v → Consistent Ts v := fun hz => hst _ _ hz
  have hx : ∀ {x}, x ∈ q.reads → x ∈ (Stmt.observe q).uses := fun hx => by
    cases q <;> simp_all [Stmt.uses, Query.uses, Query.reads]
  cases q with
  | which x => exact .of_load (by simp [Stmt.uses, Query.uses]) h fun _ _ h => by simp at h
  | get x S =>
    refine .of_load (hx (by simp [Query.reads])) h fun v hv h => ?_
    obtain ⟨hn, rfl⟩ := (get_eq_ub (live hv) S).1 (Result.bind_pure_eq_ub.1 h)
    exact .nullRead (by simp [Stmt.derefs]) hv hn
  | is x S =>
    refine .of_load (hx (by simp [Query.reads])) h fun v hv h => ?_
    obtain ⟨hn, rfl⟩ := (is_eq_ub (live hv) S).1 (Result.bind_pure_eq_ub.1 h)
    exact .nullRead (by simp [Stmt.derefs]) hv hn
  | hash x =>
    refine .of_load (hx (by simp [Query.reads])) h fun v hv h => ?_
    obtain ⟨hn, rfl⟩ := (hash_eq_ub (live hv) M).1 (Result.bind_pure_eq_ub.1 h)
    exact .nullRead (by simp [Stmt.derefs]) hv hn
  | eq x y =>
    refine .of_load (hx (by simp [Query.reads])) h fun v hv h =>
      .of_load (hx (by simp [Query.reads])) h fun w hw h => ?_
    obtain ⟨he, hn, rfl⟩ := (opEq_eq_ub M (live hv) (live hw)).1 (Result.bind_pure_eq_ub.1 h)
    have hs := (slot_eq_iff hv).2 ⟨w, hw, he⟩
    rcases hn with hn | hn
    · exact .nullRead (by simp [Stmt.derefs, hs]) hv hn
    · exact .nullRead (by simp [Stmt.derefs, hs]) hw hn
  | lt x y =>
    refine .of_load (hx (by simp [Query.reads])) h fun v hv h =>
      .of_load (hx (by simp [Query.reads])) h fun w hw h => ?_
    obtain ⟨he, hn, rfl⟩ := (opLt_eq_ub M (live hv) (live hw)).1 (Result.bind_pure_eq_ub.1 h)
    have hs := (slot_eq_iff hv).2 ⟨w, hw, he⟩
    rcases hn with hn | hn
    · exact .nullRead (by simp [Stmt.derefs, hs]) hv hn
    · exact .nullRead (by simp [Stmt.derefs, hs]) hw hn
  | visit f x ys =>
    refine .of_load (hx (by simp [Query.reads])) h fun v hv h => ?_
    rcases Result.bind_eq_ub.1 h with h | ⟨vs, hvs, hc⟩
    · obtain ⟨⟨y, hy, hy'⟩, rfl⟩ := loadAll_eq_ub.1 h
      exact .dead (hx (by simp [Query.reads, hy])) hy'
    rw [Result.bind_pure_eq_ub, visit_eq_applyVisitor,
      applyVisitor_eq_ub _ v vs (hst.visitables hv hvs)] at hc
    obtain ⟨⟨u, hu, hn⟩, rfl⟩ := hc
    simp only [Visitor.visitables, List.nil_append, List.mem_cons] at hu
    rcases hu with rfl | hu
    · exact .nullRead (by simp [Stmt.derefs]) hv hn
    · obtain ⟨y, hy, hyu⟩ := (mem_of_loadAll hvs).1 hu
      exact .nullRead (by simp [Stmt.derefs, hy]) hyu hn

/-- **A statement run in a store of consistent variants goes wrong only on a fault, and
with its cause.** -/
theorem step_fault (hM : M.Defined) (hst : Sound Ts st) (h : step Ts M s st = .ub e) :
    Fault Ts M st s e := by
  have live : ∀ {z v}, st z = some v → Consistent Ts v := fun hz => hst _ _ hz
  cases s with
  | default x =>
    refine .of_declare rfl (Result.map_eq_ub.1 h) fun h => ?_
    obtain ⟨hn, rfl⟩ := (variantDefault_eq_ub M).1 h
    exact .noFront hn
  | value x t a rvalue =>
    refine .of_declare rfl (Result.map_eq_ub.1 h) fun h => ?_
    obtain ⟨h1, rfl⟩ := (variantValue_eq_ub M hM a rvalue).1 h
    exact .noOverload h1
  | make x t =>
    refine .of_declare rfl (Result.map_eq_ub.1 h) fun h => ?_
    rcases (make_eq_ub M).1 h with ⟨ht, rfl⟩ | ⟨⟨u, hu⟩, rfl⟩
    · exact .makeRange ht
    · exact .makeBox hu
  | copy x y =>
    refine .of_load (by simp [Stmt.uses]) h fun w hw h =>
      .of_declare rfl (Result.bind_pure_eq_ub.1 h) fun h => ?_
    obtain ⟨hn, rfl⟩ := (variantCopy_eq_ub M hM (live hw)).1 h
    exact .nullRead (by simp [Stmt.derefs]) hw hn
  | move x y =>
    refine .of_load (by simp [Stmt.uses]) h fun w hw h =>
      .of_declare rfl (Result.bind_pure_eq_ub.1 h) fun h => ?_
    obtain ⟨h1, h2, rfl⟩ := (variantMove_eq_ub M (live hw)).1 h
    exact .constMove hw h1 h2
  | assign x y =>
    refine .of_load (by simp [Stmt.uses]) h fun w hw h =>
      .of_load (by simp [Stmt.uses]) h fun v hv h => ?_
    rw [Result.bind_pure_eq_ub, Result.uncaught_eq_ub, opAssign_eq_ub M hM (live hv) (live hw)] at h
    rcases h with ⟨he, h1, h2, rfl⟩ | ⟨hn | ⟨he, hn⟩, rfl⟩
    · exact .constAssign hv hw he h1 h2
    · exact .nullRead (by simp only [Stmt.derefs]; split_ifs <;> simp) hw hn
    · exact .nullRead (by simp [Stmt.derefs, (slot_eq_iff hv).2 ⟨w, hw, he⟩]) hv hn
  | moveAssign x y =>
    refine .of_load (by simp [Stmt.uses]) h fun w hw h =>
      .of_load (by simp [Stmt.uses]) h fun v hv h => ?_
    rw [Result.bind_pure_eq_ub, Result.uncaught_eq_ub, opMoveAssign_eq_ub M (live hv) (live hw)] at h
    rcases h with ⟨hn, rfl⟩ | ⟨hn, hc, rfl⟩
    · exact .moveAssignBox hn
    · exact .constMoveAssign hv hw hn hc
  | destroy x =>
    refine .of_load (by simp [Stmt.uses]) h fun v hv h => ?_
    obtain ⟨o, ho, hot⟩ := live hv
    simp [Result.bind_pure_eq_ub, destruct_eq ho hot] at h
  | observe q => exact query_fault M hst q (Result.map_eq_ub.1 h)

end faults

/-! ## Every fault makes its statement go wrong -/

section wrong
variable (M) {s : Stmt Ty Val R}

omit [DecidableEq Ty] in
theorem declare_of_ub {α : Type} {x : Nat} {r : Result (Exn × Variant Ty Val) (α × Variant Ty Val)}
    {e : Undefined} (h : r = .ub e) : ∃ e', declare st x r = .ub e' := by
  unfold declare
  cases st x <;> simp [h]

/-- A query that uses a variable outside its lifetime goes wrong with that cause: a query
loads all its variables before it reads any. -/
theorem query_of_dead {q : Query Ty Val R} {z : Nat} (hz : z ∈ q.uses) (hd : st z = none) :
    query Ts M q st = .ub .noObject := by
  cases q with
  | which x | get x _ | is x _ | hash x =>
    obtain rfl : z = x := by simpa [Query.uses, Query.reads] using hz
    simp [query, load, hd]
  | eq x y | lt x y =>
    obtain rfl | rfl : z = x ∨ z = y := by simpa [Query.uses, Query.reads] using hz
    · simp [query, load, hd]
    · cases hx : st x <;> simp [query, load, hx, hd]
  | visit f x ys =>
    obtain rfl | hz : z = x ∨ z ∈ ys := by simpa [Query.uses, Query.reads] using hz
    · simp [query, load, hd]
    · have hl : (loadAll st ys : Result Exn _) = .ub .noObject := loadAll_eq_ub.2 ⟨⟨z, hz, hd⟩, rfl⟩
      cases hx : st x <;> simp [query, load, hx, hl]

/-- A statement that uses a variable outside its lifetime goes wrong with that cause. -/
theorem step_of_dead {z : Nat} (hz : z ∈ s.uses) (hd : st z = none) :
    step Ts M s st = .ub .noObject := by
  cases s with
  | default _ | value _ _ _ _ | make _ _ => simp [Stmt.uses] at hz
  | copy x y | move x y | destroy y =>
    obtain rfl : z = y := by simpa [Stmt.uses] using hz
    simp [step, load, hd]
  | assign x y | moveAssign x y =>
    obtain rfl | rfl : z = y ∨ z = x := by simpa [Stmt.uses] using hz
    · simp [step, load, hd]
    · cases hy : st y <;> simp [step, load, hy, hd]
  | observe q => simp [step, query_of_dead M hz hd]

/-- A query that reads a null box goes wrong. -/
theorem query_of_null (hst : Sound Ts st) {q : Query Ty Val R} {z : Nat} {v : Variant Ty Val}
    (hz : z ∈ (Stmt.observe q).derefs st) (hv : st z = some v) (hn : v.isNull = true) :
    ∃ e, query Ts M q st = .ub e := by
  have live : ∀ {z v}, st z = some v → Consistent Ts v := fun hz => hst _ _ hz
  cases q with
  | which _ => simp [Stmt.derefs] at hz
  | get x S =>
    obtain rfl : z = x := by simpa [Stmt.derefs] using hz
    simp [query, load, hv, (get_eq_ub (live hv) S).2 ⟨hn, rfl⟩]
  | is x S =>
    obtain rfl : z = x := by simpa [Stmt.derefs] using hz
    simp [query, load, hv, (is_eq_ub (live hv) S).2 ⟨hn, rfl⟩]
  | hash x =>
    obtain rfl : z = x := by simpa [Stmt.derefs] using hz
    simp [query, load, hv, (hash_eq_ub (live hv) M).2 ⟨hn, rfl⟩]
  | eq x y =>
    obtain ⟨hs, rfl | rfl⟩ : slot st x = slot st y ∧ (z = x ∨ z = y) := by
      simpa [Stmt.derefs] using hz
    · obtain ⟨w, hw, he⟩ := (slot_eq_iff hv).1 hs
      simp [query, load, hv, hw, (opEq_eq_ub M (live hv) (live hw)).2 ⟨he, .inl hn, rfl⟩]
    · obtain ⟨w, hw, he⟩ := (slot_eq_iff hv).1 hs.symm
      simp [query, load, hv, hw, (opEq_eq_ub M (live hw) (live hv)).2 ⟨he.symm, .inr hn, rfl⟩]
  | lt x y =>
    obtain ⟨hs, rfl | rfl⟩ : slot st x = slot st y ∧ (z = x ∨ z = y) := by
      simpa [Stmt.derefs] using hz
    · obtain ⟨w, hw, he⟩ := (slot_eq_iff hv).1 hs
      simp [query, load, hv, hw, (opLt_eq_ub M (live hv) (live hw)).2 ⟨he, .inl hn, rfl⟩]
    · obtain ⟨w, hw, he⟩ := (slot_eq_iff hv).1 hs.symm
      simp [query, load, hv, hw, (opLt_eq_ub M (live hw) (live hv)).2 ⟨he.symm, .inr hn, rfl⟩]
  | visit f x ys =>
    by_cases hd : ∃ y ∈ x :: ys, st y = none
    · obtain ⟨y, hy, hd⟩ := hd
      exact ⟨_, query_of_dead M (by simpa [Query.uses, Query.reads] using hy) hd⟩
    push_neg at hd
    obtain ⟨v0, hv0⟩ := Option.ne_none_iff_exists'.1 (hd x (.head _))
    obtain ⟨vs, hvs⟩ : ∃ vs, (loadAll st ys : Result Exn _) = .ok vs :=
      loadAll_of_live fun y hy => hd y (.tail _ hy)
    have hnull : ∃ u ∈ (Visitor.client fun xs (s : Unit) => (f xs, s)).visitables ++ v0 :: vs,
        u.isNull := by
      refine ⟨v, ?_, hn⟩
      obtain rfl | hz : z = x ∨ z ∈ ys := by simpa [Stmt.derefs] using hz
      · simp [Visitor.visitables, Option.some.inj (hv.symm.trans hv0)]
      · simp [Visitor.visitables, (mem_of_loadAll hvs).2 ⟨z, hz, hv⟩]
    simp [query, load, hv0, hvs, visit_eq_applyVisitor,
      (applyVisitor_eq_ub _ v0 vs (hst.visitables hv0 hvs) ()).2 ⟨hnull, rfl⟩]

/-- **Every fault makes its statement go wrong.** -/
theorem step_of_fault (hM : M.Defined) (hst : Sound Ts st) {e : Undefined}
    (h : Fault Ts M st s e) : ∃ e', step Ts M s st = .ub e' := by
  have live : ∀ {z v}, st z = some v → Consistent Ts v := fun hz => hst _ _ hz
  cases h with
  | dead hz hd => exact ⟨_, step_of_dead M hz hd⟩
  | live hx hv =>
    cases s with
    | copy x y | move x y =>
      cases hx
      cases hy : st y <;> simp [step, declare, load, hv, hy]
    | default x | value x _ _ _ | make x _ =>
      cases hx
      simp [step, declare, hv]
    | _ => simp [Stmt.declares] at hx
  | noFront hn => simpa [step] using declare_of_ub ((variantDefault_eq_ub M).2 ⟨hn, rfl⟩)
  | noOverload h1 => simpa [step] using declare_of_ub ((variantValue_eq_ub M hM _ _).2 ⟨h1, rfl⟩)
  | makeRange ht => simpa [step] using declare_of_ub ((make_eq_ub M).2 (.inl ⟨ht, rfl⟩))
  | makeBox hu => simpa [step] using declare_of_ub ((make_eq_ub M).2 (.inr ⟨⟨_, hu⟩, rfl⟩))
  | @nullRead s z v hz hv hn =>
    cases s with
    | copy x y =>
      obtain rfl : z = y := by simpa [Stmt.derefs] using hz
      simpa [step, load, hv] using declare_of_ub ((variantCopy_eq_ub M hM (live hv)).2 ⟨hn, rfl⟩)
    | assign x y =>
      obtain rfl | ⟨rfl, hs⟩ : z = y ∨ z = x ∧ slot st x = slot st y := by
        simp only [Stmt.derefs] at hz
        split_ifs at hz with hs <;> simp_all
      · cases hx : st x with
        | none => simp [step, load, hv, hx]
        | some w =>
          simp [step, load, hv, hx, (opAssign_eq_ub M hM (live hx) (live hv)).2 (.inr ⟨.inl hn, rfl⟩)]
      · obtain ⟨w, hw, he⟩ := (slot_eq_iff hv).1 hs
        simp [step, load, hv, hw,
          (opAssign_eq_ub M hM (live hv) (live hw)).2 (.inr ⟨.inr ⟨he, hn⟩, rfl⟩)]
    | observe q => simpa [step] using query_of_null M hst hz hv hn
    | _ => simp [Stmt.derefs] at hz
  | @moveAssignBox x y hn =>
    cases hy : st y <;> cases hx : st x <;> simp [step, load, hx, hy, opMoveAssign_illFormed M hn]
  | constMove hw h1 h2 =>
    simpa [step, load, hw] using declare_of_ub ((variantMove_eq_ub M (live hw)).2 ⟨h1, h2, rfl⟩)
  | constAssign hx hy he h1 h2 =>
    simp [step, load, hx, hy, (opAssign_eq_ub M hM (live hx) (live hy)).2 (.inl ⟨he, h1, h2, rfl⟩)]
  | constMoveAssign hx hy hn hc =>
    simp [step, load, hx, hy, (opMoveAssign_eq_ub M (live hx) (live hy)).2 (.inr ⟨hn, hc, rfl⟩)]

end wrong

/-! ## Along every run -/

section runs
variable {M : Members Ty Val Exn} {s : Stmt Ty Val R} {e : Undefined}

/-- **Every variable of a store a run reaches holds a live object of the alternative its
discriminator names**, a box a move left null included. -/
theorem reachable_live_object (h : Reachable Ts M R st) {x : Nat} {v : Variant Ty Val}
    (hx : st x = some v) : ∃ o, v.storage = some o ∧ Ts[v.active]? = some o.type :=
  h.sound x v hx

/-- After a construction of a box and a move from it, the variable moved from still holds
a live object: the null box. -/
theorem reachable_live_object_moved :
    ∃ (st : Store Nat Nat) (v : Variant Nat Nat), Reachable [.wrapper 0] Members.nat Unit st ∧
      st 0 = some v ∧ ∃ o, v.storage = some o ∧ [Alt.wrapper 0][v.active]? = some o.type :=
  have h : Reachable [.wrapper 0] Members.nat Unit _ :=
    .step (.move 1 0) (.step (.value 0 0 1 true) .empty rfl) rfl
  ⟨_, _, h, rfl, reachable_live_object h (x := 0) rfl⟩

/-- **On every store a run reaches, a statement goes wrong only on a fault, and with the
cause of one.** -/
theorem reachable_ub_fault (hM : M.Defined) (h : Reachable Ts M R st)
    (hs : step Ts M s st = .ub e) : Fault Ts M st s e :=
  step_fault M hM h.sound hs

/-- A box moved from and then read through `get`: the null read is the fault. -/
theorem reachable_ub_fault_moved_box :
    ∃ st : Store Nat Nat, Members.nat.Defined ∧ Reachable [.wrapper 0] Members.nat Unit st ∧
      step [.wrapper 0] Members.nat (.observe (.get 0 (.plain 0)) : Stmt Nat Nat Unit) st =
        .ub .nullItem ∧
      Fault [.wrapper 0] Members.nat st (.observe (.get 0 (.plain 0)) : Stmt Nat Nat Unit) .nullItem :=
  have hM : Members.nat.Defined := Members.regular_defined _ _ _ _
  have h : Reachable [.wrapper 0] Members.nat Unit _ :=
    .step (.move 1 0) (.step (.value 0 0 1 true) .empty rfl) rfl
  ⟨_, hM, h, rfl, reachable_ub_fault hM h rfl⟩

/-- **No run uses the storage at a type other than its object's**; one constructs into a
live object only when the client declares a variable that is alive, and reads empty
storage only in `make` of a box. -/
theorem reachable_storage_safe (hM : M.Defined) (h : Reachable Ts M R st)
    (hs : step Ts M s st = .ub e) :
    e ≠ .wrongType ∧ (e = .occupied → ∃ x v, s.declares = some x ∧ st x = some v) ∧
      (e = .emptyStorage → ∃ x t u, s = .make x t ∧ Ts[t]? = some (.wrapper u)) := by
  cases step_fault M hM h.sound hs with
  | live hx hv => exact ⟨nofun, fun _ => ⟨_, _, hx, hv⟩, nofun⟩
  | makeBox hu => exact ⟨nofun, nofun, fun _ => ⟨_, _, _, rfl, hu⟩⟩
  | dead | noFront | noOverload | makeRange | nullRead | moveAssignBox | constMove | constAssign
    | constMoveAssign => exact ⟨nofun, nofun, nofun⟩

/-- `make(0)` of `recursive_wrapper<0>` reads empty storage, and is `make` of a box. -/
theorem reachable_storage_safe_make_box :
    Members.nat.Defined ∧ Reachable [.wrapper 0] Members.nat Unit (fun _ => none) ∧
      step [.wrapper 0] Members.nat (.make 0 0 : Stmt Nat Nat Unit) (fun _ => none) =
        .ub .emptyStorage ∧
      Undefined.emptyStorage ≠ .wrongType ∧
      (Undefined.emptyStorage = .occupied → ∃ x v, (Stmt.make 0 0 : Stmt Nat Nat Unit).declares = some x ∧
        (fun _ => none : Store Nat Nat) x = some v) ∧
      (Undefined.emptyStorage = .emptyStorage → ∃ x t u, (Stmt.make 0 0 : Stmt Nat Nat Unit) = .make x t ∧
        [Alt.wrapper 0][t]? = some (.wrapper u)) :=
  have hM : Members.nat.Defined := Members.regular_defined _ _ _ _
  ⟨hM, .empty, rfl, reachable_storage_safe hM .empty rfl⟩

end runs

/-! ## Where null boxes come from -/

/-- The variables that may hold what a move left behind, after `s`: a move leaves its
source so and hands its target what the source held; every other statement that writes a
variable leaves a value there, or no object. -/
def emptied (mv : Nat → Bool) : Stmt Ty Val R → Nat → Bool
  | .move x y | .moveAssign x y => Function.update (Function.update mv x (mv y)) y true
  | .default x | .value x .. | .make x _ | .copy x _ | .assign x _ | .destroy x =>
    Function.update mv x false
  | .observe _ => mv

variable (Ts) (M : Members Ty Val Exn) in
/-- The stores a run reaches, each with the variables that may hold what a move left
behind. -/
inductive Traced (R : Type) : Store Ty Val → (Nat → Bool) → Prop
  | empty : Traced R (fun _ => none) fun _ => false
  | step {st st' : Store Ty Val} {mv : Nat → Bool} {o : Option (Obs Val R)} (s : Stmt Ty Val R) :
      Traced R st mv → step Ts M s st = .ok (o, st') → Traced R st' (emptied mv s)

/-- Every null box sits in a variable that may hold what a move left behind. -/
def NullsMoved (st : Store Ty Val) (mv : Nat → Bool) : Prop :=
  ∀ x v, st x = some v → v.isNull = true → mv x = true

section nulls
variable {M : Members Ty Val Exn} {s : Stmt Ty Val R} {mv : Nat → Bool}

theorem Traced.reachable (h : Traced Ts M R st mv) : Reachable Ts M R st := by
  induction h with
  | empty => exact .empty
  | step s _ hs ih => exact .step s ih hs

omit [DecidableEq Ty] in
theorem Valid.isNull_eq_false {v : Variant Ty Val} (h : Valid Ts v) : v.isNull = false :=
  h.consistent.valid_iff.1 h

omit [DecidableEq Ty] in
/-- A move that keeps a value keeps a null box null, and makes no other. -/
theorem Consistent.null_of_valid_imp {v w : Variant Ty Val} (hv : Consistent Ts v)
    (hw : Consistent Ts w) (h : Valid Ts w → Valid Ts v) : v.isNull = true → w.isNull = true := by
  simpa [hv.valid_iff, hw.valid_iff] using mt h

omit [DecidableEq Ty] in
theorem NullsMoved.update (h : NullsMoved st mv) (x : Nat) {v : Variant Ty Val} {b : Bool}
    (hv : v.isNull = true → b = true) :
    NullsMoved (Function.update st x (some v)) (Function.update mv x b) := by
  intro z w hz hn
  by_cases hzx : z = x
  · subst hzx
    simp only [Function.update_same, Option.some.injEq] at hz ⊢
    exact hv (hz ▸ hn)
  · rw [Function.update_noteq hzx] at hz ⊢
    exact h z w hz hn

omit [DecidableEq Ty] in
theorem NullsMoved.update_valid (h : NullsMoved st mv) (x : Nat) {v : Variant Ty Val}
    (hv : Valid Ts v) : NullsMoved (Function.update st x (some v)) (Function.update mv x false) :=
  h.update x fun hn => hv.isNull_eq_false ▸ hn

omit [DecidableEq Ty] in
theorem NullsMoved.erase (h : NullsMoved st mv) (x : Nat) :
    NullsMoved (Function.update st x none) (Function.update mv x false) := by
  intro z w hz hn
  by_cases hzx : z = x
  · subst hzx
    simp at hz
  · rw [Function.update_noteq hzx] at hz ⊢
    exact h z w hz hn

omit [DecidableEq Ty] in
theorem NullsMoved.declare (h : NullsMoved st mv) {α : Type} {x : Nat} {a : α}
    {st' : Store Ty Val} {r : Result (Exn × Variant Ty Val) (α × Variant Ty Val)}
    (hd : declare st x r = .ok (a, st')) (hr : ∀ v, r = .ok (a, v) → Valid Ts v) :
    NullsMoved st' (Function.update mv x false) := by
  obtain ⟨-, v, hv, rfl⟩ := declare_eq_ok.1 hd
  exact h.update_valid x (hr v hv)

omit [DecidableEq Ty] in
/-- A move that keeps a value marks its donor, and the target may hold a null box only
where the donor could. -/
theorem NullsMoved.move (h : NullsMoved st mv) {x y : Nat} {w v w' : Variant Ty Val}
    (hw : st y = some w) (hwc : Consistent Ts w) (hv : Consistent Ts v)
    (hval : Valid Ts w → Valid Ts v) :
    NullsMoved (Function.update (Function.update st x (some v)) y (some w'))
      (Function.update (Function.update mv x (mv y)) y true) :=
  (h.update x fun hn => h y w hw (hv.null_of_valid_imp hwc hval hn)).update y fun _ => rfl

/-- One statement keeps every null box in a variable that may hold what a move left
behind. -/
theorem step_nullsMoved {o : Option (Obs Val R)} {st' : Store Ty Val} (hst : Sound Ts st)
    (hI : NullsMoved st mv) (h : step Ts M s st = .ok (o, st')) : NullsMoved st' (emptied mv s) := by
  have live : ∀ {x v}, (load st x : Result Exn _) = .ok v → Consistent Ts v :=
    fun hx => hst _ _ (load_eq_ok.1 hx)
  cases s with
  | default x =>
    obtain ⟨⟨_, st1⟩, hp, ⟨⟩⟩ := Result.map_eq_ok.1 h
    exact hI.declare hp fun _ => variantDefault_valid
  | value x t a rvalue =>
    obtain ⟨⟨_, st1⟩, hp, ⟨⟩⟩ := Result.map_eq_ok.1 h
    exact hI.declare hp fun _ hv => variantValue_valid hv ⟨t, a, rfl⟩
  | make x t =>
    obtain ⟨⟨_, st1⟩, hp, ⟨⟩⟩ := Result.map_eq_ok.1 h
    exact hI.declare hp fun _ => make_valid
  | copy x y =>
    obtain ⟨w, hw, h⟩ := Result.bind_eq_ok.1 h
    obtain ⟨⟨_, st1⟩, hp, ⟨⟩⟩ := Result.bind_eq_ok.1 h
    exact hI.declare hp fun _ => variantCopy_valid (live hw)
  | move x y =>
    obtain ⟨w, hw, h⟩ := Result.bind_eq_ok.1 h
    obtain ⟨⟨w', st1⟩, hp, ⟨⟩⟩ := Result.bind_eq_ok.1 h
    obtain ⟨-, v', hv', rfl⟩ := declare_eq_ok.1 hp
    obtain ⟨hc, -, hval⟩ := variantMove_consistent (live hw) hv'
    exact hI.move (load_eq_ok.1 hw) (live hw) hc hval
  | assign x y =>
    obtain ⟨w, hw, h⟩ := Result.bind_eq_ok.1 h
    obtain ⟨v, hv, h⟩ := Result.bind_eq_ok.1 h
    obtain ⟨⟨_, v'⟩, hp, ⟨⟩⟩ := Result.bind_eq_ok.1 h
    exact hI.update_valid x (opAssign_valid (live hv) (live hw) (Result.uncaught_eq_ok.1 hp))
  | moveAssign x y =>
    obtain ⟨w, hw, h⟩ := Result.bind_eq_ok.1 h
    obtain ⟨v, hv, h⟩ := Result.bind_eq_ok.1 h
    obtain ⟨⟨w', v'⟩, hp, ⟨⟩⟩ := Result.bind_eq_ok.1 h
    obtain ⟨hc, -, hval⟩ := opMoveAssign_consistent (live hv) (live hw) (Result.uncaught_eq_ok.1 hp)
    exact hI.move (load_eq_ok.1 hw) (live hw) hc hval
  | destroy x =>
    obtain ⟨v, -, h⟩ := Result.bind_eq_ok.1 h
    obtain ⟨_, -, ⟨⟩⟩ := Result.bind_eq_ok.1 h
    exact hI.erase x
  | observe q =>
    obtain ⟨_, -, ⟨⟩⟩ := Result.map_eq_ok.1 h
    exact hI

/-- Along every run, every null box sits in a variable that may hold what a move left
behind. -/
theorem Traced.nullsMoved (h : Traced Ts M R st mv) : NullsMoved st mv := by
  induction h with
  | empty => intro _ _ h; cases h
  | step s hr hs ih => exact step_nullsMoved hr.reachable.sound ih hs

theorem NullsMoved.null_read (hI : NullsMoved st mv) (hM : M.Defined) (hst : Sound Ts st)
    (hs : step Ts M s st = .ub .nullItem) : ∃ z ∈ s.derefs st, mv z = true := by
  cases step_fault M hM hst hs with
  | nullRead hz hv hn => exact ⟨_, hz, hI _ _ hv hn⟩

/-- **A run reads a null box only through a variable that may hold what a move left
behind.** -/
theorem traced_null_read_moved (hM : M.Defined) (h : Traced Ts M R st mv)
    (hs : step Ts M s st = .ub .nullItem) : ∃ z ∈ s.derefs st, mv z = true :=
  h.nullsMoved.null_read hM h.reachable.sound hs

/-- Reading a box moved from goes wrong through the variable moved from. -/
theorem traced_null_read_moved_get :
    ∃ (st : Store Nat Nat) (mv : Nat → Bool), Members.nat.Defined ∧
      Traced [.wrapper 0] Members.nat Unit st mv ∧
      step [.wrapper 0] Members.nat (.observe (.get 0 (.plain 0)) : Stmt Nat Nat Unit) st =
        .ub .nullItem ∧
      ∃ z ∈ (Stmt.observe (.get 0 (.plain 0)) : Stmt Nat Nat Unit).derefs st, mv z = true :=
  have hM : Members.nat.Defined := Members.regular_defined _ _ _ _
  have h : Traced [.wrapper 0] Members.nat Unit _ _ :=
    .step (.move 1 0) (.step (.value 0 0 1 true) .empty rfl) rfl
  ⟨_, _, hM, h, rfl, traced_null_read_moved hM h rfl⟩

/-- Whether a statement moves from a variable. -/
def Stmt.isMove : Stmt Ty Val R → Bool
  | .move .. | .moveAssign .. => true
  | _ => false

omit [DecidableEq Ty] in
theorem emptied_of_not_isMove (hs : s.isMove = false) :
    emptied (fun _ => false) s = fun _ => false := by
  cases s <;> simp_all [emptied, Stmt.isMove]

theorem run_of_traced (hM : M.Defined) : ∀ (p : List (Stmt Ty Val R)) {st : Store Ty Val},
    Traced Ts M R st (fun _ => false) → (∀ s ∈ p, s.isMove = false) →
      (run Ts M p st).2 ≠ .ub .nullItem
  | [], _, _, _ => by simp [run]
  | s :: p, st, ht, hp => by
    cases hs : step Ts M s st with
    | ok r =>
      simp only [run, hs]
      exact run_of_traced hM p (emptied_of_not_isMove (hp s (.head _)) ▸ ht.step s hs)
        fun s' h => hp s' (.tail _ h)
    | throw e => simp [run, hs]
    | ub w =>
      simp only [run, hs, ne_eq, Result.ub.injEq]
      rintro rfl
      obtain ⟨z, -, hz⟩ := ht.nullsMoved.null_read hM ht.reachable.sound hs
      exact Bool.false_ne_true hz

/-- **A program that moves from no variable never reads a null box.** -/
theorem run_never_null (hM : M.Defined) (p : List (Stmt Ty Val R))
    (hp : ∀ s ∈ p, s.isMove = false) : (run Ts M p fun _ => none).2 ≠ .ub .nullItem :=
  run_of_traced hM p .empty hp

/-- Copies, copy assignments and reads of boxes, with no move. -/
theorem run_never_null_copies :
    Members.nat.Defined ∧
      (∀ s ∈ ([.value 0 0 1 true, .copy 1 0, .assign 0 1, .observe (.get 1 (.plain 0))] :
        List (Stmt Nat Nat Unit)), s.isMove = false) ∧
      (run [.wrapper 0] Members.nat
        ([.value 0 0 1 true, .copy 1 0, .assign 0 1, .observe (.get 1 (.plain 0))] :
          List (Stmt Nat Nat Unit)) fun _ => none).2 ≠ .ub .nullItem :=
  have hM : Members.nat.Defined := Members.regular_defined _ _ _ _
  ⟨hM, by decide, run_never_null hM _ (by decide)⟩

end nulls

end Broker.Util
