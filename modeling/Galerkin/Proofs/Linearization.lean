import Mathlib
import Galerkin.Linearization
import Galerkin.Proofs.Entries
import Galerkin.Proofs.Formula.Laws
import Galerkin.Proofs.SymbolTable

/-!
The densities of a linearized form: the residual by an unknown is the sum of the derivatives of the test
sides by it times the trial sides, and the tangent holds the derivatives of the residual.
-/

namespace Galerkin

namespace Linearization

open Formula

/-- The value of a formula. -/
noncomputable abbrev valueAt (v : Quantity → ℝ) (e : Formula Quantity) : ℝ := e.eval v

theorem eval_of_isZero {ν : Type} {e : Formula ν} (vanishes : e.isZero = true) (v : ν → ℝ) :
    e.eval v = 0 := by
  cases e with
  | const c =>
      have zero : c = .zero := of_decide_eq_true vanishes
      rw [zero]
      exact eval_zero v
  | _ => cases vanishes

/-- A property of formulas that sums, products and multiplying out keep. -/
structure Closed (rules : Calculus Quantity) (P : Formula Quantity → Prop) : Prop where
  add : ∀ {a b}, P a → P b → P (rules.add a b)
  mul : ∀ {a b}, P a → P b → P (rules.mul a b)
  expand : ∀ {e}, P e → P (rules.expand e)

section Laws

variable {rules : Calculus Quantity} (lawful : rules.Lawful)

include lawful

theorem closed_defined (v : Quantity → ℝ) : Closed rules (·.Defined v) where
  add := fun left right => (lawful.add _ _).defined v ⟨left, right⟩
  mul := fun left right => (lawful.mul _ _).defined v ⟨left, right⟩
  expand := fun inner => (lawful.expand _).defined v inner

theorem closed_smooth (varies : Quantity → Prop) (v : Quantity → ℝ) :
    Closed rules (·.Smooth varies v) where
  add := fun left right => (lawful.add _ _).smooth varies v (.add left right)
  mul := fun left right => (lawful.mul _ _).smooth varies v (.mul left right)
  expand := fun inner => (lawful.expand _).smooth varies v inner

theorem closed_atoms (known : Quantity → Prop) : Closed rules fun e => ∀ q ∈ e.atoms, known q where
  add := fun left right q member =>
    (List.mem_append.mp ((lawful.add _ _).atoms q member)).elim (left q) (right q)
  mul := fun left right q member =>
    (List.mem_append.mp ((lawful.mul _ _).atoms q member)).elim (left q) (right q)
  expand := fun inner q member => inner q ((lawful.expand _).atoms q member)

end Laws

variable {rules : Calculus Quantity} {unknowns : List Quantity}

/-! ### Gradients -/

theorem mem_gradient {e : Formula Quantity} {t : Nat × Formula Quantity}
    (member : t ∈ gradient rules unknowns e) :
    ∃ q, unknowns[t.1]? = some q ∧ t.2 = rules.derivative q e := by
  rcases List.mem_filter.mp member with ⟨inside, _⟩
  rcases List.mem_mapIdx.mp inside with ⟨k, bound, rfl⟩
  exact ⟨unknowns[k], List.getElem?_eq_getElem bound, rfl⟩

theorem nodup_gradient (e : Formula Quantity) :
    ((gradient rules unknowns e).map (·.1)).Nodup := by
  have positions : (unknowns.mapIdx fun k q => (k, rules.derivative q e)).map (·.1) =
      List.range unknowns.length :=
    List.ext_getElem (by simp) fun k left right => by simp
  have sub := (List.filter_sublist (p := fun t : Nat × Formula Quantity => !t.2.isZero)
    (l := unknowns.mapIdx fun k q => (k, rules.derivative q e))).map (·.1)
  rw [positions] at sub
  exact List.nodup_range.sublist sub

theorem sumAt_gradient {e : Formula Quantity} {k : Nat} {q : Quantity} (here : unknowns[k]? = some q)
    (v : Quantity → ℝ) :
    sumAt (valueAt v) (gradient rules unknowns e) k = (rules.derivative q e).eval v := by
  have value : ∀ t : Nat × Formula Quantity, (!t.2.isZero) = false → valueAt v t.2 = 0 := by
    intro t vanishes
    exact eval_of_isZero (by simpa using vanishes) v
  by_cases zero : (rules.derivative q e).isZero
  · rw [eval_of_isZero zero v]
    refine sumAt_of_notMem fun inside => ?_
    rcases List.mem_map.mp inside with ⟨t, member, rfl⟩
    rcases mem_gradient member with ⟨r, there, same⟩
    rw [here, Option.some.injEq] at there
    subst there
    have kept := (List.mem_filter.mp member).2
    rw [same, zero] at kept
    cases kept
  · refine sumAt_of_mem (nodup_gradient e) (List.mem_filter.mpr ⟨?_, by simpa using zero⟩)
    rcases List.getElem?_eq_some_iff.mp here with ⟨bound, rfl⟩
    exact List.mem_mapIdx.mpr ⟨k, bound, rfl⟩

/-! ### Totals -/

theorem mem_keys_accumulate {k j : Nat} {term : Formula Quantity} {totals : Gradient} :
    j ∈ (accumulate rules k term totals).map (·.1) ↔ j = k ∨ j ∈ totals.map (·.1) := by
  induction totals with
  | nil => simp [accumulate]
  | cons head tail ih =>
      rw [accumulate]
      split
      · next same => simp [same]
      · rw [List.map_cons, List.mem_cons, ih, List.map_cons, List.mem_cons]
        tauto

theorem nodup_accumulate {k : Nat} {term : Formula Quantity} {totals : Gradient}
    (distinct : (totals.map (·.1)).Nodup) : ((accumulate rules k term totals).map (·.1)).Nodup := by
  induction totals with
  | nil => exact List.nodup_singleton k
  | cons head tail ih =>
      rw [accumulate]
      rw [List.map_cons, List.nodup_cons] at distinct
      split
      · exact List.nodup_cons.mpr distinct
      · next apart =>
          refine List.nodup_cons.mpr ⟨fun inside => ?_, ih distinct.2⟩
          rcases mem_keys_accumulate.mp inside with same | later
          · exact apart same
          · exact distinct.1 later

theorem forall_accumulate {P : Formula Quantity → Prop} (closed : Closed rules P) {k : Nat}
    {term : Formula Quantity} {totals : Gradient} (all : ∀ t ∈ totals, P t.2) (new : P term) :
    ∀ t ∈ accumulate rules k term totals, P t.2 := by
  induction totals with
  | nil =>
      intro t member
      rw [List.mem_singleton.mp member]
      exact new
  | cons head tail ih =>
      have first := all head List.mem_cons_self
      have rest := fun t member => all t (List.mem_cons_of_mem head member)
      intro t member
      rw [accumulate] at member
      split at member
      · rcases List.mem_cons.mp member with rfl | later
        · exact closed.add first new
        · exact rest t later
      · rcases List.mem_cons.mp member with rfl | later
        · exact first
        · exact ih rest t later

section Values

variable (lawful : rules.Lawful) {v : Quantity → ℝ}

include lawful

theorem sumAt_accumulate {k : Nat} {term : Formula Quantity} {totals : Gradient}
    (all : ∀ t ∈ totals, t.2.Defined v) (new : term.Defined v) (j : Nat) :
    sumAt (valueAt v) (accumulate rules k term totals) j =
      sumAt (valueAt v) totals j + if k = j then term.eval v else 0 := by
  induction totals with
  | nil => rw [accumulate, sumAt_cons, sumAt_nil, zero_add, add_zero]
  | cons head tail ih =>
      have first := all head List.mem_cons_self
      rw [accumulate]
      split
      · next same =>
          have value := (lawful.add head.2 term).value v ⟨first, new⟩
          rw [sumAt_cons, sumAt_cons, ← same]
          simp only [valueAt, value, eval_add]
          split <;> ring
      · rw [sumAt_cons, sumAt_cons, ih fun t member => all t (List.mem_cons_of_mem head member),
          add_assoc]

theorem sumAt_accumulate_all {slopes totals : Gradient} {b : Formula Quantity}
    (all : ∀ t ∈ totals, t.2.Defined v) (defined : ∀ t ∈ slopes, t.2.Defined v) (other : b.Defined v)
    (j : Nat) :
    sumAt (valueAt v) (slopes.foldl (fun totals t => accumulate rules t.1 (rules.mul t.2 b) totals) totals) j =
      sumAt (valueAt v) totals j + sumAt (valueAt v) slopes j * b.eval v := by
  induction slopes generalizing totals with
  | nil => rw [List.foldl_nil, sumAt_nil, zero_mul, add_zero]
  | cons head tail ih =>
      have first := defined head List.mem_cons_self
      have product : (rules.mul head.2 b).Defined v := (lawful.mul head.2 b).defined v ⟨first, other⟩
      have value := (lawful.mul head.2 b).value v ⟨first, other⟩
      rw [List.foldl_cons, ih (forall_accumulate (closed_defined lawful v) all product)
        fun t member => defined t (List.mem_cons_of_mem head member),
        sumAt_accumulate lawful all product, sumAt_cons, value, eval_mul]
      split <;> ring

theorem derivative_of_isZero {varies : Quantity → Prop} {q : Quantity} (moving : varies q)
    {e : Formula Quantity} (vanishes : e.isZero) : (rules.derivative q e).eval v = 0 := by
  have defined : e.Defined v := by
    cases e with
    | const c =>
        have zero : c = .zero := of_decide_eq_true vanishes
        rw [zero]
        rfl
    | _ => cases vanishes
  have fixed : e.Fixed varies := by
    intro r member
    cases e with
    | const c => cases member
    | _ => cases vanishes
  have slope := lawful.hasDerivAt moving (Smooth.fixed fixed defined)
  simp only [eval_of_isZero vanishes] at slope
  exact slope.unique (hasDerivAt_const _ _)

end Values

/-! ### All pairs -/

/-- What the totals of some pairs are. -/
structure Totals (rules : Calculus Quantity) (unknowns : List Quantity)
    (pairs : List (Formula Quantity × Formula Quantity)) (totals : Gradient) : Prop where
  distinct : (totals.map (·.1)).Nodup
  bounded : ∀ k ∈ totals.map (·.1), k < unknowns.length
  closed : ∀ {P}, Closed rules P →
    (∀ p ∈ pairs, (∀ q ∈ unknowns, P (rules.derivative q p.1)) ∧ P p.2) → ∀ t ∈ totals, P t.2
  value : ∀ {v} {varies : Quantity → Prop}, (∀ q ∈ unknowns, varies q) →
    (∀ p ∈ pairs, p.1.Smooth varies v ∧ p.2.Defined v) → ∀ {k q}, unknowns[k]? = some q →
    sumAt (valueAt v) totals k = (pairs.map fun p => (rules.derivative q p.1).eval v * p.2.eval v).sum

theorem Totals.nil : Totals rules unknowns [] [] where
  distinct := List.nodup_nil
  bounded := fun _ member => (List.not_mem_nil member).elim
  closed := fun _ _ _ member => (List.not_mem_nil member).elim
  value := fun _ _ _ _ _ => rfl

theorem addPair_eq_ok {name : String} {table : SymbolTable} {totals totals' : Gradient}
    {p : Formula Quantity × Formula Quantity}
    (done : addPair rules name table unknowns totals p = .ok totals') :
    ((p.1.isZero ∨ p.2.isZero) ∧ totals' = totals) ∨
      totals' = (gradient rules unknowns p.1).foldl
        (fun totals t => accumulate rules t.1 (rules.mul t.2 p.2) totals) totals := by
  simp only [addPair] at done
  split at done
  · next vanishes =>
      cases done
      exact Or.inl ⟨by simpa using vanishes, rfl⟩
  · split at done
    · cases done
    · cases done
      exact Or.inr rfl

theorem Totals.add (lawful : rules.Lawful) {name : String} {table : SymbolTable}
    {totals totals' : Gradient} {pairs : List (Formula Quantity × Formula Quantity)}
    {p : Formula Quantity × Formula Quantity} (before : Totals rules unknowns pairs totals)
    (done : addPair rules name table unknowns totals p = .ok totals') :
    Totals rules unknowns (pairs ++ [p]) totals' := by
  have earlier {Q : Formula Quantity × Formula Quantity → Prop} (all : ∀ r ∈ pairs ++ [p], Q r) :
      (∀ r ∈ pairs, Q r) ∧ Q p :=
    ⟨fun r member => all r (List.mem_append_left _ member), all p (by simp)⟩
  rcases addPair_eq_ok done with ⟨vanishes, rfl⟩ | rfl
  · refine ⟨before.distinct, before.bounded, fun closed all => before.closed closed (earlier all).1, ?_⟩
    intro v varies moving all k q here
    have none : (rules.derivative q p.1).eval v * p.2.eval v = 0 := by
      rcases vanishes with test | trial
      · rw [derivative_of_isZero lawful (moving q (List.mem_of_getElem? here)) test, zero_mul]
      · rw [eval_of_isZero trial, mul_zero]
    rw [List.map_append, List.sum_append, before.value moving (earlier all).1 here]
    simp [none]
  · constructor
    · exact List.foldlRecOn (motive := fun totals : Gradient => (totals.map (·.1)).Nodup) _ _
        before.distinct fun totals distinct t _ => nodup_accumulate distinct
    · refine List.foldlRecOn (motive := fun totals : Gradient =>
        ∀ k ∈ totals.map (·.1), k < unknowns.length) _ _ before.bounded ?_
      intro totals bounded t member k inside
      rcases mem_keys_accumulate.mp inside with rfl | old
      · rcases mem_gradient member with ⟨q, here, _⟩
        exact (List.getElem?_eq_some_iff.mp here).1
      · exact bounded k old
    · intro P closed all
      refine List.foldlRecOn (motive := fun totals : Gradient => ∀ t ∈ totals, P t.2) _ _
        (before.closed closed (earlier all).1) ?_
      intro totals kept t member
      rcases mem_gradient member with ⟨q, here, same⟩
      have slope : P t.2 := same ▸ (earlier all).2.1 q (List.mem_of_getElem? here)
      exact forall_accumulate closed kept (closed.mul slope (earlier all).2.2)
    · intro v varies moving all k q here
      have smooth := (earlier all).2.1
      have slopes {e : Formula Quantity} (inside : e.Smooth varies v) (r : Quantity)
          (member : r ∈ unknowns) : (rules.derivative r e).Defined v :=
        (lawful.derivative_smooth (moving r member) inside).defined
      have defined := before.closed (closed_defined lawful v) fun r member =>
        ⟨slopes ((earlier all).1 r member).1, ((earlier all).1 r member).2⟩
      rw [sumAt_accumulate_all lawful defined ?_ (earlier all).2.2, sumAt_gradient here,
        before.value moving (earlier all).1 here, List.map_append, List.sum_append]
      · simp
      · intro t member
        rcases mem_gradient member with ⟨r, there, same⟩
        exact same ▸ slopes smooth r (List.mem_of_getElem? there)

theorem foldlM_addPair_eq_ok (lawful : rules.Lawful) {name : String} {table : SymbolTable}
    {pairs : List (Formula Quantity × Formula Quantity)} {totals : Gradient}
    (done : pairs.foldlM (addPair rules name table unknowns) [] = .ok totals) :
    Totals rules unknowns pairs totals :=
  Outcome.foldlM_induction done .nil fun _ _ _ _ _ before added => before.add lawful added

/-! ### Forms -/

/-- The unknowns vary from state to state; all else is given. -/
abbrev Moving (q : Quantity) : Prop := q.isUnknown = true

/-- The unknowns of a form in slot order. -/
def unknownList (l : Linearization) : List Quantity := l.table.unknowns.map (·.1)

/-- The derivative of a formula is found from its normal form. -/
theorem hasDerivAt_normal (lawful : rules.Lawful) {varies : Quantity → Prop} {v : Quantity → ℝ}
    {q : Quantity} (moving : varies q) {e : Formula Quantity} (smooth : e.Smooth varies v) :
    HasDerivAt (fun t => e.eval (Function.update v q t))
      ((rules.derivative q (rules.normal e)).eval v) (v q) := by
  have slope := lawful.hasDerivAt moving ((lawful.normal e).smooth varies v smooth)
  have start : e.Smooth varies (Function.update v q (v q)) := by
    rw [Function.update_eq_self]
    exact smooth
  refine slope.congr_of_eventuallyEq ?_
  filter_upwards [eventually_smooth (moves_update moving (v q)) start] with t near
  exact ((lawful.normal e).value _ near.defined).symm

/-- What linearizing a form with the given pairs yields. -/
structure Spec (rules : Calculus Quantity) (s : Setting)
    (pairs : List (Formula Quantity × Formula Quantity)) (l : Linearization) : Prop where
  dim : l.table.dim = s.dim
  internal : l.table.internal = s.internal
  external : l.table.external = s.external
  frozen : l.table.frozen = true
  distinct : l.table.quantities.Nodup
  members : ∀ q, q ∈ l.table.quantities ↔ ∃ p ∈ pairs, q ∈ p.1.atoms ∨ q ∈ p.2.atoms
  totals : ∃ totals, Totals rules l.unknownList
      (pairs.map fun p => (rules.normal p.1, rules.normal p.2)) totals ∧
    l.residual = (totals.map fun t => (t.1, rules.expand t.2)).filter (!·.2.isZero)
  tangent : l.tangent = l.residual.flatMap (tangentRow rules l.unknownList)

theorem ofForm_eq_ok (lawful : rules.Lawful) {s : Setting} {name : String} {boundary : Bool} {e : Expr}
    {l : Linearization} (done : ofForm rules s name boundary e = .ok l) :
    ∃ pairs, WeakForm.expand s name e = .ok pairs ∧ Spec rules s pairs l := by
  rcases Outcome.bind_eq_ok.mp done with ⟨pairs, expanded, rest⟩
  rcases Outcome.bind_eq_ok.mp rest with ⟨table, asked, rest⟩
  refine ⟨pairs, expanded, ?_⟩
  have held := SymbolTable.requestAll_eq_ok asked
  dsimp only at rest
  split at rest
  · cases rest
  · rcases Outcome.bind_eq_ok.mp rest with ⟨totals, folded, result⟩
    cases result
    refine ⟨held.dim, held.internal, held.external, rfl, held.distinct List.nodup_nil, ?_,
      ⟨totals, foldlM_addPair_eq_ok lawful folded, rfl⟩, rfl⟩
    intro q
    have here := held.members q
    simp only [SymbolTable.quantities, SymbolTable.empty, List.map_nil, List.not_mem_nil, false_or,
      List.mem_flatMap, List.mem_append] at here
    exact here

namespace Spec

variable {s : Setting} {pairs : List (Formula Quantity × Formula Quantity)} {l : Linearization}

theorem mem_unknownList (spec : Spec rules s pairs l) (q : Quantity) :
    q ∈ l.unknownList ↔ q ∈ l.table.quantities ∧ Moving q :=
  SymbolTable.mem_unknowns spec.frozen

theorem length_unknownList (l : Linearization) : l.unknownList.length = l.unknownCount :=
  List.length_map ..

theorem moving_of_getElem? (spec : Spec rules s pairs l) {k : Nat} {q : Quantity}
    (here : l.unknownList[k]? = some q) : Moving q :=
  ((spec.mem_unknownList q).mp (List.mem_of_getElem? here)).2

theorem residual_keys (spec : Spec rules s pairs l) :
    (l.residual.map (·.1)).Nodup ∧ ∀ k ∈ l.residual.map (·.1), k < l.unknownCount := by
  rcases spec.totals with ⟨totals, sums, residual⟩
  have part : (l.residual.map (·.1)).Sublist (totals.map (·.1)) := by
    have keys : (totals.map fun t => (t.1, rules.expand t.2)).map (·.1) = totals.map (·.1) := by
      rw [List.map_map]
      rfl
    rw [residual, ← keys]
    exact List.filter_sublist.map _
  refine ⟨sums.distinct.sublist part, fun k member => ?_⟩
  rw [← length_unknownList]
  exact sums.bounded k (part.subset member)

/-- What the sides of all pairs and their derivatives have, the residual densities have. -/
theorem residual_closed (spec : Spec rules s pairs l) {P : Formula Quantity → Prop}
    (closed : Closed rules P)
    (all : ∀ p ∈ pairs, (∀ q, Moving q → P (rules.derivative q (rules.normal p.1))) ∧ P (rules.normal p.2)) :
    ∀ t ∈ l.residual, P t.2 := by
  rcases spec.totals with ⟨totals, sums, residual⟩
  intro t member
  rw [residual] at member
  rcases List.mem_map.mp (List.mem_filter.mp member).1 with ⟨total, inside, rfl⟩
  refine closed.expand (sums.closed closed (fun p member => ?_) total inside)
  rcases List.mem_map.mp member with ⟨pair, present, rfl⟩
  exact ⟨fun q unknown => (all pair present).1 q ((spec.mem_unknownList q).mp unknown).2,
    (all pair present).2⟩

section Laws

variable (lawful : rules.Lawful)

include lawful

theorem residual_atoms (spec : Spec rules s pairs l) :
    ∀ t ∈ l.residual, ∀ q ∈ t.2.atoms, q ∈ l.table.quantities := by
  refine spec.residual_closed (closed_atoms lawful (· ∈ l.table.quantities)) fun p present => ⟨?_, ?_⟩
  · intro r _ q member
    have inside := (lawful.normal p.1).atoms q (lawful.derivative_atoms r _ q member)
    exact (spec.members q).mpr ⟨p, present, Or.inl inside⟩
  · intro q member
    exact (spec.members q).mpr ⟨p, present, Or.inr ((lawful.normal p.2).atoms q member)⟩

theorem residual_defined (spec : Spec rules s pairs l) {v : Quantity → ℝ}
    (regular : ∀ p ∈ pairs, p.1.Smooth Moving v ∧ p.2.Defined v) : ∀ t ∈ l.residual, t.2.Defined v := by
  refine spec.residual_closed (closed_defined lawful v) fun p present => ⟨?_, ?_⟩
  · intro q unknown
    have normal := (lawful.normal p.1).smooth Moving v (regular p present).1
    exact (lawful.derivative_smooth unknown normal).defined
  · exact (lawful.normal p.2).defined v (regular p present).2

theorem residual_smooth (spec : Spec rules s pairs l) {v : Quantity → ℝ}
    (regular : ∀ p ∈ pairs, p.1.Smooth Moving v ∧ p.2.Smooth Moving v) :
    ∀ t ∈ l.residual, t.2.Smooth Moving v := by
  refine spec.residual_closed (closed_smooth lawful Moving v) fun p present => ⟨?_, ?_⟩
  · intro q unknown
    exact lawful.derivative_smooth unknown ((lawful.normal p.1).smooth Moving v (regular p present).1)
  · exact (lawful.normal p.2).smooth Moving v (regular p present).2

/-- The residual by an unknown is the sum of the derivatives of the test sides times the trial sides. -/
theorem residual_value (spec : Spec rules s pairs l) {v : Quantity → ℝ}
    (regular : ∀ p ∈ pairs, p.1.Smooth Moving v ∧ p.2.Defined v) {k : Nat} {q : Quantity}
    (here : l.unknownList[k]? = some q) :
    sumAt (valueAt v) l.residual k =
      (pairs.map fun p => deriv (fun t => p.1.eval (Function.update v q t)) (v q) * p.2.eval v).sum := by
  rcases spec.totals with ⟨totals, sums, residual⟩
  have moving : ∀ q ∈ l.unknownList, Moving q := fun q member => ((spec.mem_unknownList q).mp member).2
  have normal : ∀ p ∈ pairs.map fun p => (rules.normal p.1, rules.normal p.2),
      p.1.Smooth Moving v ∧ p.2.Defined v := by
    intro p member
    rcases List.mem_map.mp member with ⟨pair, present, rfl⟩
    exact ⟨(lawful.normal pair.1).smooth Moving v (regular pair present).1,
      (lawful.normal pair.2).defined v (regular pair present).2⟩
  have defined : ∀ t ∈ totals, t.2.Defined v :=
    sums.closed (closed_defined lawful v) fun p member => ⟨fun r unknown =>
      (lawful.derivative_smooth (moving r unknown) (normal p member).1).defined, (normal p member).2⟩
  calc sumAt (valueAt v) l.residual k
      = sumAt (valueAt v) (totals.map fun t => (t.1, rules.expand t.2)) k := by
        rw [residual]
        exact sumAt_filter (fun t _ vanishes => eval_of_isZero (by simpa using vanishes) v) k
    _ = sumAt (valueAt v) totals k := by
        refine sumAt_matched (List.forall₂_map_left_iff.mpr (List.forall₂_same.mpr fun t member => ?_)) k
        exact ⟨rfl, (lawful.expand t.2).value v (defined t member)⟩
    _ = ((pairs.map fun p => (rules.normal p.1, rules.normal p.2)).map fun p =>
          (rules.derivative q p.1).eval v * p.2.eval v).sum := sums.value moving normal here
    _ = _ := by
        rw [List.map_map]
        refine congrArg List.sum (List.map_congr_left fun p present => ?_)
        have slope := hasDerivAt_normal lawful (spec.moving_of_getElem? here) (regular p present).1
        show (rules.derivative q (rules.normal p.1)).eval v * (rules.normal p.2).eval v = _
        rw [slope.deriv, (lawful.normal p.2).value v (regular p present).2]

end Laws

/-! ### Tangents -/

theorem mem_tangent (spec : Spec rules s pairs l) {t : (Nat × Nat) × Formula Quantity}
    (member : t ∈ l.tangent) : ∃ r ∈ l.residual, t.1.1 = r.1 ∧
      ∃ q, l.unknownList[t.1.2]? = some q ∧ t.2 = rules.derivative q r.2 := by
  rw [spec.tangent] at member
  rcases List.mem_flatMap.mp member with ⟨r, present, inside⟩
  rcases List.mem_map.mp inside with ⟨g, inGradient, rfl⟩
  exact ⟨r, present, rfl, mem_gradient inGradient⟩

theorem tangent_atoms (lawful : rules.Lawful) (spec : Spec rules s pairs l) :
    ∀ t ∈ l.tangent, ∀ q ∈ t.2.atoms, q ∈ l.table.quantities := by
  intro t member q inside
  rcases spec.mem_tangent member with ⟨r, present, _, p, _, slope⟩
  rw [slope] at inside
  exact spec.residual_atoms lawful r present q (lawful.derivative_atoms p _ q inside)

theorem tangent_defined (lawful : rules.Lawful) (spec : Spec rules s pairs l) {v : Quantity → ℝ}
    (smooth : ∀ t ∈ l.residual, t.2.Smooth Moving v) : ∀ t ∈ l.tangent, t.2.Defined v := by
  intro t member
  rcases spec.mem_tangent member with ⟨r, present, _, q, here, slope⟩
  rw [slope]
  exact (lawful.derivative_smooth (spec.moving_of_getElem? here) (smooth r present)).defined

theorem tangent_keys (spec : Spec rules s pairs l) : (l.tangent.map (·.1)).Nodup ∧
    ∀ k ∈ l.tangent.map (·.1), k.1 < l.unknownCount ∧ k.2 < l.unknownCount := by
  constructor
  · rw [spec.tangent, List.map_flatMap]
    refine List.nodup_flatMap.mpr ⟨fun r _ => ?_, ?_⟩
    · have keys : (tangentRow rules l.unknownList r).map (·.1) =
          ((gradient rules l.unknownList r.2).map (·.1)).map fun j => (r.1, j) := by
        simp [tangentRow]
      rw [keys]
      exact (nodup_gradient r.2).map fun i j same => (Prod.mk.inj same).2
    · refine (List.pairwise_map.mp spec.residual_keys.1).imp fun {r t} apart => ?_
      intro key left right
      simp only [tangentRow, List.map_map, List.mem_map, Function.comp_apply] at left right
      rcases left with ⟨g, _, rfl⟩
      rcases right with ⟨h, _, same⟩
      exact apart (Prod.mk.inj same).1.symm
  · intro k member
    rcases List.mem_map.mp member with ⟨t, present, rfl⟩
    rcases spec.mem_tangent present with ⟨r, inside, same, q, here, _⟩
    have bound := (List.getElem?_eq_some_iff.mp here).1
    rw [length_unknownList] at bound
    exact ⟨same ▸ spec.residual_keys.2 r.1 (List.mem_map_of_mem inside), bound⟩

/-- The tangent holds the derivatives of the residual. -/
theorem tangent_value (spec : Spec rules s pairs l) (v : Quantity → ℝ) (i : Nat) {j : Nat} {q : Quantity}
    (here : l.unknownList[j]? = some q) :
    sumAt (valueAt v) l.tangent (i, j) =
      sumAt (fun e => (rules.derivative q e).eval v) l.residual i := by
  rw [spec.tangent]
  induction l.residual with
  | nil => rfl
  | cons head tail ih =>
      rw [List.flatMap_cons, sumAt_append, ih, sumAt_cons]
      congr 1
      rw [← sumAt_gradient here v, tangentRow]
      by_cases same : head.1 = i
      · subst same
        simp [sumAt, Function.comp_def]
      · simp [sumAt, Function.comp_def, same]

end Spec

end Linearization

end Galerkin
