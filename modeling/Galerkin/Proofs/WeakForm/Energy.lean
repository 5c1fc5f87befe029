import Mathlib
import Galerkin.Proofs.Linearization
import Galerkin.Proofs.WeakForm.Ranges
import Galerkin.Proofs.WeakForm.Scaling

/-!
Energies: forms that pair an expression with itself, with a number or a parameter in front. Where the components of the
expression are linear, each pair of such a form is a linear formula and a multiple of it.
-/

namespace Galerkin

open Linearization (Moving)

/-! ### Linear formulas -/

/-- The value of an unknown, or a derivative of it in space. -/
def Quantity.IsCurrent : Quantity → Prop
  | .unknown _ _ timeOrder _ => timeOrder = 0
  | _ => False

theorem Quantity.IsCurrent.moving {q : Quantity} (current : q.IsCurrent) : Moving q := by
  cases q with
  | unknown name comps timeOrder axis => rfl
  | _ => cases current

theorem Quantity.IsCurrent.isNormal {q : Quantity} (current : q.IsCurrent) : q.isNormal = false := by
  cases q with
  | normal comp => cases current
  | _ => rfl

theorem Quantity.IsCurrent.source {q : Quantity} (current : q.IsCurrent) : q.source ≠ .rate := by
  cases q with
  | unknown name comps timeOrder axis =>
      cases current
      simp [Quantity.source]
  | _ => cases current

namespace Formula

/-- A formula that is linear in values and derivatives of unknowns, and mentions nothing else. -/
structure IsLinear (f : Formula Quantity) : Prop where
  atoms : ∀ q ∈ f.atoms, q.IsCurrent
  smooth : ∀ v, f.Smooth Moving v
  linear : IsLinearMap ℝ fun v : Quantity → ℝ => f.eval v

/-- A formula in values and derivatives of unknowns that is constant if the degree is zero, and linear if it is one. -/
structure OfDegree (d : Nat) (f : Formula Quantity) : Prop where
  atoms : ∀ q ∈ f.atoms, q.IsCurrent
  smooth : ∀ v, f.Smooth Moving v
  constant : d = 0 → ∀ v w : Quantity → ℝ, f.eval v = f.eval w
  linear : d = 1 → IsLinearMap ℝ fun v : Quantity → ℝ => f.eval v

variable {f g : Formula Quantity} {d d' : Nat}

theorem OfDegree.isLinear (degree : OfDegree 1 f) : f.IsLinear := ⟨degree.atoms, degree.smooth, degree.linear rfl⟩

theorem ofDegree_const {c : Coeff} (finite : c.isFinite = true) : OfDegree 0 (const c) where
  atoms := List.forall_mem_nil _
  smooth := fun _ => .fixed (List.forall_mem_nil _) finite
  constant := fun _ _ _ => rfl
  linear := fun impossible => nomatch impossible

theorem ofDegree_zero (d : Nat) : OfDegree d zero where
  atoms := List.forall_mem_nil _
  smooth := fun v => smooth_ofRat Moving v 0
  constant := fun _ _ _ => rfl
  linear := fun _ => ⟨fun v w => by simp, fun c v => by simp⟩

theorem ofDegree_var {q : Quantity} (current : q.IsCurrent) : OfDegree 1 (var q) where
  atoms := fun _ member => List.mem_singleton.mp member ▸ current
  smooth := fun _ => .var q
  constant := fun impossible => nomatch impossible
  linear := fun _ => ⟨fun _ _ => rfl, fun _ _ => rfl⟩

theorem OfDegree.add (left : OfDegree d f) (right : OfDegree d g) : OfDegree d (add f g) where
  atoms := List.forall_mem_append.mpr ⟨left.atoms, right.atoms⟩
  smooth := fun v => .add (left.smooth v) (right.smooth v)
  constant := fun zero v w => congrArg₂ (· + ·) (left.constant zero v w) (right.constant zero v w)
  linear := fun one => by
    obtain ⟨additive, scales⟩ := left.linear one
    obtain ⟨additive', scales'⟩ := right.linear one
    constructor
    · intro v w
      simp only [eval_add, additive v w, additive' v w]
      ring
    · intro c v
      simp only [eval_add, scales c v, scales' c v, smul_add]

theorem OfDegree.mul (left : OfDegree d f) (right : OfDegree d' g) : OfDegree (d + d') (mul f g) where
  atoms := List.forall_mem_append.mpr ⟨left.atoms, right.atoms⟩
  smooth := fun v => .mul (left.smooth v) (right.smooth v)
  constant := fun zero v w => congrArg₂ (· * ·) (left.constant (by omega) v w) (right.constant (by omega) v w)
  linear := fun one => by
    rcases Nat.add_eq_one_iff.mp one with ⟨rfl, rfl⟩ | ⟨rfl, rfl⟩
    · obtain ⟨additive, scales⟩ := right.linear rfl
      have fixed := left.constant rfl
      constructor
      · intro v w
        simp only [eval_mul, additive v w, fixed (v + w) v, fixed w v, mul_add]
      · intro c v
        simp only [eval_mul, scales c v, fixed (c • v) v, smul_eq_mul]
        ring
    · obtain ⟨additive, scales⟩ := left.linear rfl
      have fixed := right.constant rfl
      constructor
      · intro v w
        simp only [eval_mul, additive v w, fixed (v + w) v, fixed w v, add_mul]
      · intro c v
        simp only [eval_mul, scales c v, fixed (c • v) v, smul_eq_mul]
        ring

theorem OfDegree.inverse (degree : OfDegree 0 f) (nonzero : ∀ v : Quantity → ℝ, f.eval v ≠ 0) : OfDegree 0 (inverse f) where
  atoms := List.forall_mem_append.mpr ⟨degree.atoms, List.forall_mem_nil _⟩
  smooth := fun v => smooth_inverse (degree.smooth v) (nonzero v)
  constant := fun _ v w => by rw [eval_inverse, eval_inverse, degree.constant rfl v w]
  linear := fun impossible => nomatch impossible

theorem ofNumber_eq_const (n : Number) : ∃ c, (ofNumber n : Formula Quantity) = const c := by
  unfold ofNumber
  split
  · exact ⟨_, rfl⟩
  · exact ⟨_, rfl⟩
  · split
    · dsimp only
      split <;> exact ⟨_, rfl⟩
    · split <;> exact ⟨_, rfl⟩

end Formula

/-- Is a number neither infinite nor undefined? -/
def Number.IsFinite (n : Number) : Prop := (Formula.ofNumber n : Formula Quantity).Defined fun _ => 0

theorem Number.IsFinite.ofDegree {n : Number} (finite : n.IsFinite) : Formula.OfDegree 0 (Formula.ofNumber n) := by
  obtain ⟨c, same⟩ := Formula.ofNumber_eq_const n
  unfold Number.IsFinite at finite
  rw [same] at finite ⊢
  exact Formula.ofDegree_const finite

/-! ### Linear expressions -/

/-- Sums of products of numbers, deltas and as many values or derivatives of internal fields as the degree says. Numbers
may divide them. -/
inductive Expr.Homogeneous : Nat → Expr → Prop
  | const {n : Number} : n.IsFinite → Homogeneous 0 (.const n)
  | delta (i j : Index) : Homogeneous 0 (.delta i j)
  | field {f : Field} (comps derivs : List Index) : f.external = false → Homogeneous 1 (.field f comps derivs 0)
  | bare {f : Field} : f.external = false → Homogeneous 1 (.bare f)
  | sum {d : Nat} {a b : Expr} : Homogeneous d a → Homogeneous d b → Homogeneous d (.sum a b)
  | prod {d d' : Nat} {a b : Expr} : Homogeneous d a → Homogeneous d' b → Homogeneous (d + d') (.prod a b)
  | quot {d : Nat} {a : Expr} {n : Number} : Homogeneous d a → n.IsFinite → (n.value : ℝ) ≠ 0 →
    Homogeneous d (.quot a (.const n))

namespace Expansion

open Formula (OfDegree)

variable {s : Setting} {env : Assignment} {d m : Nat} {product : Option Scalars} {x : Scalars}

theorem ofDegree_collect (start : product = none → m = 0) (before : ∀ p, product = some p → OfDegree m p)
    (new : OfDegree d x) : OfDegree (m + d) (collect product x) := by
  cases product with
  | none =>
      rw [start rfl, Nat.zero_add]
      exact new
  | some p => exact (before p rfl).mul new

theorem ofDegree_access {f : Field} (inner : f.external = false) {comps derivs : List Index}
    (found : access s env f comps derivs 0 = .ok x) : OfDegree 1 x := by
  refine summed_induction found (fun values _ y made => ?_) (Formula.ofDegree_zero 1) Formula.OfDegree.add
  obtain ⟨components, -, rest⟩ := Outcome.bind_eq_ok.mp made
  have parts : ∃ axis q, Quantity.ofField s.internal s.external f components axis 0 = .ok q ∧ y = .var q := by
    cases derivs with
    | nil =>
        obtain ⟨axis, -, rest⟩ := Outcome.bind_eq_ok.mp rest
        obtain ⟨q, placed, last⟩ := Outcome.bind_eq_ok.mp rest
        exact ⟨axis, q, placed, (Except.ok.inj last).symm⟩
    | cons i others =>
        obtain ⟨axis, -, rest⟩ := Outcome.bind_eq_ok.mp rest
        obtain ⟨q, placed, last⟩ := Outcome.bind_eq_ok.mp rest
        exact ⟨axis, q, placed, (Except.ok.inj last).symm⟩
  obtain ⟨axis, q, placed, rfl⟩ := parts
  refine Formula.ofDegree_var ?_
  unfold Quantity.ofField at placed
  rw [if_neg (by simp [inner])] at placed
  split at placed
  · cases placed
    rfl
  · cases placed

/-- An expansion has the degree of the expression, and multiplied onto a product it raises the degree by that. -/
theorem ofDegree_expandOnto {e : Expr} (homogeneous : e.Homogeneous d) (start : product = none → m = 0)
    (before : ∀ p, product = some p → OfDegree m p) (found : expandOnto s product env e = .ok x) :
    OfDegree (m + d) x := by
  have absent : ∀ p : Scalars, none = some p → OfDegree 0 p := by simp
  induction homogeneous generalizing m product env x with
  | const finite =>
      cases found
      exact ofDegree_collect start before finite.ofDegree
  | delta i j =>
      rw [Expansion.expandOnto] at found
      split at found
      · cases found
        exact ofDegree_collect start before (Formula.ofDegree_const rfl)
      · obtain ⟨a, -, rest⟩ := Outcome.bind_eq_ok.mp found
        obtain ⟨b, -, last⟩ := Outcome.bind_eq_ok.mp rest
        cases last
        refine ofDegree_collect start before ?_
        split <;> exact Formula.ofDegree_const rfl
  | field comps derivs inner =>
      obtain ⟨y, made, last⟩ := Outcome.bind_eq_ok.mp found
      cases last
      exact ofDegree_collect start before (ofDegree_access inner made)
  | bare inner =>
      obtain ⟨y, made, last⟩ := Outcome.bind_eq_ok.mp found
      cases last
      exact ofDegree_collect start before (ofDegree_access inner made)
  | sum _ _ iha ihb =>
      obtain ⟨y, first, rest⟩ := Outcome.bind_eq_ok.mp found
      obtain ⟨z, second, last⟩ := Outcome.bind_eq_ok.mp rest
      cases last
      have left := iha (fun _ => rfl) absent first
      have right := ihb (fun _ => rfl) absent second
      rw [Nat.zero_add] at left right
      exact ofDegree_collect start before (left.add right)
  | @prod d d' a b _ _ iha ihb =>
      have both {m : Nat} {p : Scalars} (before : OfDegree m p) {env : Assignment} {y : Scalars}
          (made : (do
            let p ← Expansion.expandOnto s (some p) env a
            Expansion.expandOnto s (some p) env b) = .ok y) : OfDegree (m + (d + d')) y := by
        obtain ⟨q, first, second⟩ := Outcome.bind_eq_ok.mp made
        have given {k : Nat} (r : Scalars) (missing : some r = none) : k = 0 := absurd missing (Option.some_ne_none r)
        have left := iha (given p) (fun r same => Option.some.inj same ▸ before) first
        rw [← Nat.add_assoc]
        exact ihb (given q) (fun r same => Option.some.inj same ▸ left) second
      cases product with
      | some p => exact both (before p rfl) found
      | none =>
          obtain ⟨occurrences, -, rest⟩ := Outcome.bind_eq_ok.mp found
          rw [start rfl]
          refine summed_induction rest (fun values _ y made => ?_) (Formula.ofDegree_zero _) Formula.OfDegree.add
          exact both (Formula.ofDegree_const rfl) made
  | quot _ finite nonzero ih =>
      obtain ⟨y, first, rest⟩ := Outcome.bind_eq_ok.mp found
      obtain ⟨z, second, last⟩ := Outcome.bind_eq_ok.mp rest
      cases second
      cases last
      have numerator := ih (fun _ => rfl) absent first
      rw [Nat.zero_add] at numerator
      have divisor := finite.ofDegree.inverse fun v => by
        rw [Formula.eval_ofNumber]
        exact nonzero
      exact ofDegree_collect start before (numerator.mul divisor)

/-- Expressions of degree one have linear components. -/
theorem isLinear_of_homogeneous {a : Expr} (homogeneous : a.Homogeneous 1) {comps : List (List Nat × Scalars)}
    (found : components s a = .ok comps) : ∀ t ∈ comps, t.2.IsLinear := by
  obtain ⟨free, -, mapped⟩ := Outcome.bind_eq_ok.mp found
  intro t member
  obtain ⟨env, -, made⟩ := Outcome.exists_of_matched (Outcome.mapM_eq_ok.mp mapped) member
  obtain ⟨x, expanded, last⟩ := Outcome.bind_eq_ok.mp made
  cases last
  have absent : ∀ p : Scalars, none = some p → OfDegree 0 p := by simp
  have degree := ofDegree_expandOnto homogeneous (fun _ => rfl) absent expanded
  rw [Nat.zero_add] at degree
  exact degree.isLinear

/-! ### Multiples of an expansion -/

/-- `y` is `x` with a factor put into each of the products that it is a sum of. -/
inductive Scaled (c : Scalars) : Scalars → Scalars → Prop
  | zero : Scaled c Formula.zero Formula.zero
  | one : Scaled c Formula.one (.mul Formula.one c)
  | onto (x : Scalars) : Scaled c x (.mul (.mul Formula.one c) x)
  | add {x x' y y' : Scalars} : Scaled c x y → Scaled c x' y' → Scaled c (.add x x') (.add y y')
  | mul {x y : Scalars} (z : Scalars) : Scaled c x y → Scaled c (.mul x z) (.mul y z)

namespace Scaled

variable {c x y : Scalars}

theorem eval_eq (scaled : Scaled c x y) (v : Quantity → ℝ) : y.eval v = c.eval v * x.eval v := by
  induction scaled with
  | zero => rw [Formula.eval_zero, mul_zero]
  | one => rw [Formula.eval_mul, Formula.eval_one, one_mul, mul_one]
  | onto x => rw [Formula.eval_mul, Formula.eval_mul, Formula.eval_one, one_mul]
  | add _ _ first second => rw [Formula.eval_add, Formula.eval_add, first, second, mul_add]
  | mul z _ inner => rw [Formula.eval_mul, Formula.eval_mul, inner, mul_assoc]

theorem smooth {v : Quantity → ℝ} (scaled : Scaled c x y) (factor : c.Smooth Moving v) (smooth : x.Smooth Moving v) :
    y.Smooth Moving v := by
  have one : (Formula.one : Scalars).Smooth Moving v := Formula.smooth_ofRat _ _ 1
  induction scaled with
  | zero => exact smooth
  | one => exact .mul one factor
  | onto x => exact .mul (.mul one factor) smooth
  | add _ _ first second => exact .add (first smooth.of_add.1) (second smooth.of_add.2)
  | mul z _ inner => exact .mul (inner smooth.of_mul.1) smooth.of_mul.2

theorem atoms {q : Quantity} (scaled : Scaled c x y) (member : q ∈ y.atoms) : q ∈ c.atoms ∨ q ∈ x.atoms := by
  induction scaled with
  | zero => exact Or.inr member
  | one => exact Or.inl member
  | onto x => exact List.mem_append.mp member
  | add _ _ first second =>
      rcases List.mem_append.mp member with left | right
      · exact (first left).imp_right (List.mem_append_left _)
      · exact (second right).imp_right (List.mem_append_right _)
  | mul z _ inner =>
      rcases List.mem_append.mp member with left | right
      · exact (inner left).imp_right (List.mem_append_left _)
      · exact Or.inr (List.mem_append_right _ right)

end Scaled

variable {c y : Scalars} {e : Expr}

theorem summed_scaled {dim : Nat} {is : List Index} {f g : Assignment → Except Failure Scalars}
    (each : ∀ env x, f env = .ok x → ∃ y, g env = .ok y ∧ Scaled c x y) (found : summed dim is env f = .ok x) :
    ∃ y, summed dim is env g = .ok y ∧ Scaled c x y := by
  cases is with
  | nil => exact each env x found
  | cons i rest =>
      have run {values : List Assignment} {total total' : Scalars} (start : Scaled c total total')
          (found : (values.foldlM (fun total values => do pure (.add total (← f (values ++ env)))) total) = .ok x) :
          ∃ y, (values.foldlM (fun total values => do pure (.add total (← g (values ++ env)))) total') = .ok y ∧
            Scaled c x y := by
        induction values generalizing total total' with
        | nil =>
            cases found
            exact ⟨total', rfl, start⟩
        | cons first others ih =>
            rw [List.foldlM_cons] at found
            obtain ⟨_, added, later⟩ := Outcome.bind_eq_ok.mp found
            obtain ⟨z, made, last⟩ := Outcome.bind_eq_ok.mp added
            cases last
            obtain ⟨z', made', scaled⟩ := each _ z made
            obtain ⟨y, done, result⟩ := ih (start.add scaled) later
            refine ⟨y, ?_, result⟩
            rw [List.foldlM_cons]
            exact Outcome.bind_eq_ok.mpr ⟨_, Outcome.bind_eq_ok.mpr ⟨z', made', rfl⟩, done⟩
      exact run .zero found

/-- What is no product is expanded by itself and then multiplied onto the product so far. -/
theorem expandOnto_single (single : ∀ a b, e ≠ .prod a b) :
    expandOnto s product env e = collect product <$> expandOnto s none env e := by
  have itself (x : Scalars) : collect none x = x := rfl
  cases e with
  | prod a b => exact absurd rfl (single a b)
  | delta i j =>
      simp only [expandOnto]
      split
      · rfl
      · simp [itself]
  | pairing a b => rfl
  | _ => simp [expandOnto, itself]

/-- Where a factor was put in front, the rest of a product comes out the same. -/
theorem expandOnto_scaled {p q : Scalars} (scaled : Scaled c p q) (found : expandOnto s (some p) env e = .ok x) :
    ∃ y, expandOnto s (some q) env e = .ok y ∧ Scaled c x y := by
  have alone {e : Expr} (single : ∀ a b, e ≠ .prod a b) {p q x : Scalars} (scaled : Scaled c p q)
      (found : expandOnto s (some p) env e = .ok x) : ∃ y, expandOnto s (some q) env e = .ok y ∧ Scaled c x y := by
    rw [expandOnto_single single] at found
    obtain ⟨z, made, rfl⟩ := Outcome.map_eq_ok.mp found
    exact ⟨_, (expandOnto_single single).trans (Outcome.map_eq_ok.mpr ⟨z, made, rfl⟩), scaled.mul z⟩
  induction e generalizing p q x with
  | prod a b iha ihb =>
      obtain ⟨r, first, second⟩ := Outcome.bind_eq_ok.mp found
      obtain ⟨r', first', left⟩ := iha scaled first
      obtain ⟨y, second', right⟩ := ihb left second
      exact ⟨y, Outcome.bind_eq_ok.mpr ⟨r', first', second'⟩, right⟩
  | _ => exact alone (fun _ _ => Expr.noConfusion) scaled found

end Expansion

/-! ### Energies -/

/-- A coefficient without indices. -/
inductive Modulus where
  | const (n : Number)
  | param (name : String)

namespace Modulus

def expr : Modulus → Expr
  | const n => .const n
  | param name => .param name

def formula : Modulus → Formula Quantity
  | const n => Formula.ofNumber n
  | param name => .var (.param name)

/-- The value for given values of the parameters. -/
noncomputable def value (parameters : List (String × ℝ)) : Modulus → ℝ
  | const n => n.value
  | param name => (parameters.lookup name).getD 0

/-- Is the number finite, or a value given for the parameter? -/
def Given (parameters : List (String × ℝ)) : Modulus → Prop
  | const n => n.IsFinite
  | param name => (parameters.lookup name).isSome

variable {c : Modulus} {parameters : List (String × ℝ)}

theorem Given.smooth (given : c.Given parameters) (v : Quantity → ℝ) : c.formula.Smooth Moving v := by
  cases c with
  | const n => exact (Number.IsFinite.ofDegree given).smooth v
  | param name => exact .var _

theorem mem_atoms {q : Quantity} (member : q ∈ c.formula.atoms) : ∃ name, c = .param name ∧ q = .param name := by
  cases c with
  | const n =>
      obtain ⟨d, same⟩ := Formula.ofNumber_eq_const n
      rw [formula, same] at member
      cases member
  | param name => exact ⟨name, rfl, List.mem_singleton.mp member⟩

end Modulus

/-- A form that pairs an expression with itself. -/
structure Energy where
  modulus : Modulus
  strain : Expr

/-- The product of an expression for two values of the quantities, summed over its components. -/
noncomputable def Expr.contraction (dim : Nat) (v w : Quantity → ℝ) (a : Expr) : ℝ :=
  sumOver dim (a.freeIn false) (fun _ => 0) fun ρ => a.meaning dim v ρ * a.meaning dim w ρ

theorem sumOver_nonneg {dim : Nat} (is : List Index) (ρ : Index → Nat) {f : (Index → Nat) → ℝ} (nonneg : ∀ σ, 0 ≤ f σ) :
    0 ≤ sumOver dim is ρ f := by
  induction is generalizing ρ with
  | nil => exact nonneg ρ
  | cons i rest ih => exact Finset.sum_nonneg fun c _ => ih _

theorem Expr.contraction_self_nonneg (dim : Nat) (v : Quantity → ℝ) (a : Expr) : 0 ≤ a.contraction dim v v :=
  sumOver_nonneg _ _ fun _ => mul_self_nonneg _

theorem Expr.contraction_comm (dim : Nat) (v w : Quantity → ℝ) (a : Expr) :
    a.contraction dim v w = a.contraction dim w v := by
  simp only [contraction, mul_comm]

namespace Energy

def form (E : Energy) : Expr := .prod E.modulus.expr (.pairing E.strain E.strain)

theorem form_injective {E F : Energy} (same : E.form = F.form) : E = F := by
  obtain ⟨front, inside⟩ := Expr.prod.inj same
  obtain ⟨c, a⟩ := E
  obtain ⟨d, b⟩ := F
  cases (Expr.pairing.inj inside).1
  have moduli : c = d := by
    cases c <;> cases d <;> cases front <;> rfl
  rw [moduli]

/-- Is the energy quadratic in values and derivatives of the fields of a setting? -/
structure Quadratic (s : Setting) (E : Energy) : Prop where
  fits : s.Fits E.form
  plain : E.strain.hasPairing = false
  linear : ∀ comps, Expansion.components s E.strain = .ok comps → ∀ t ∈ comps, t.2.IsLinear

open Expansion (Scaled expandOnto_single expandOnto_scaled summed_scaled)

variable {s : Setting} {E : Energy} {name : String} {pairs : List (Expansion.Scalars × Expansion.Scalars)}

/-- The coefficient goes into the products that the expression expands to, under the same sums. -/
theorem expand_multiple (c : Modulus) {a : Expr} (accepted : a.Scoped false) {env : Assignment} {x : Expansion.Scalars}
    (found : Expansion.expand s env a = .ok x) :
    ∃ y, Expansion.expand s env (.prod c.expr a) = .ok y ∧ Scaled c.formula x y := by
  have inside : a.Scoped true := Expr.scoped_factors.mpr accepted.multipliable.each
  have leaf : c.expr.Scoped true ∧ c.expr.freeIn true = [] ∧
      ∀ env, Expansion.expandOnto s (some Formula.one) env c.expr = .ok (.mul Formula.one c.formula) := by
    cases c <;> exact ⟨trivial, rfl, fun _ => rfl⟩
  obtain ⟨leaf, closed, factor⟩ := leaf
  have occurrences : (Expr.prod c.expr a).occurrences = .ok (a.freeIn true) := by
    have whole : Expr.Scoped true (.prod c.expr a) := ⟨leaf, inside, fun impossible => nomatch impossible⟩
    rw [Expr.occurrences_of_scoped whole, Expr.freeIn, closed]
    rfl
  have start (f : Assignment → Except Failure Expansion.Scalars) {y : Expansion.Scalars}
      (each : ∀ env, f env = Expansion.expandOnto s (some (.mul Formula.one c.formula)) env a)
      (done : Expansion.summed s.dim (Expansion.contracted env (a.freeIn true)) env f = .ok y) :
      Expansion.expand s env (.prod c.expr a) = .ok y := by
    refine Outcome.bind_eq_ok.mpr ⟨_, occurrences, ?_⟩
    have terms : (fun env => do
        let p ← Expansion.expandOnto s (some Formula.one) env c.expr
        Expansion.expandOnto s (some p) env a) = f := by
      funext env
      rw [factor, each]
      rfl
    exact (congrArg _ terms).trans done
  by_cases product : ∃ b d, a = .prod b d
  · obtain ⟨b, d, rfl⟩ := product
    obtain ⟨is, counted, found⟩ := Outcome.bind_eq_ok.mp found
    cases counted.symm.trans (Expr.occurrences_of_scoped inside)
    obtain ⟨y, done, scaled⟩ := summed_scaled
      (f := fun env => Expansion.expandOnto s (some Formula.one) env (.prod b d))
      (g := fun env => Expansion.expandOnto s (some (.mul Formula.one c.formula)) env (.prod b d))
      (fun env x made => expandOnto_scaled .one made) found
    exact ⟨y, start _ (fun _ => rfl) done, scaled⟩
  · have single (b d : Expr) : a ≠ .prod b d := fun same => product ⟨b, d, same⟩
    have same : a.freeIn true = a.freeIn false := by
      cases a with
      | prod b d => exact absurd rfl (single b d)
      | _ => rfl
    have none : Expansion.contracted env (a.freeIn true) = [] := by
      rw [Expansion.contracted, same, Usage.twice_of_nodup (Expr.nodup_freeIn a)]
      rfl
    refine ⟨_, start _ (fun _ => rfl) ?_, .onto x⟩
    rw [none]
    exact (expandOnto_single single).trans (Outcome.map_eq_ok.mpr ⟨x, found, rfl⟩)

/-- An energy has one pairing, with the coefficient on its trial side. -/
theorem pairings_eq_ok {ps : List Pairing} (done : WeakForm.pairings name E.form = .ok ps) :
    E.strain.Scoped false ∧ ps = [⟨E.strain, .prod E.modulus.expr E.strain⟩] := by
  obtain ⟨accepted, -, matched⟩ := WeakForm.pairings_eq_ok done
  have single : WeakForm.splitTerms E.form = [E.form] := by
    refine WeakForm.splitTerms_of_divisible ?_ fun _ _ => Expr.noConfusion
    intro f member split
    rcases List.mem_append.mp member with left | right
    · cases kind : E.modulus <;> simp only [kind, Modulus.expr, Expr.factors, List.mem_singleton] at left <;>
        rw [left] at split <;> cases split
    · rw [List.mem_singleton.mp right] at split
      cases split
  have moved : WeakForm.pairingOf E.form = .ok ⟨E.strain, .prod E.modulus.expr E.strain⟩ := by
    obtain ⟨c, a⟩ := E
    cases c <;> rfl
  rw [single] at matched
  cases matched with
  | cons first rest =>
      cases rest
      cases first.symm.trans moved
      exact ⟨accepted.2.1.1, rfl⟩

/-- The pairs of an energy: the expansions of the expression, and their multiples. -/
theorem expand_eq_ok (done : WeakForm.expand s name E.form = .ok pairs) : E.strain.Scoped false ∧
    List.Forall₂ (fun env pair => Expansion.expand s env E.strain = .ok pair.1 ∧ Scaled E.modulus.formula pair.1 pair.2)
      (Assignment.all s.dim (E.strain.freeIn false)) pairs := by
  obtain ⟨ps, paired, done⟩ := Outcome.bind_eq_ok.mp done
  obtain ⟨parts, expanded, last⟩ := Outcome.bind_eq_ok.mp done
  cases last
  obtain ⟨accepted, rfl⟩ := pairings_eq_ok paired
  refine ⟨accepted, ?_⟩
  obtain ⟨part, made, rfl⟩ : ∃ part, WeakForm.componentPairs s ⟨E.strain, .prod E.modulus.expr E.strain⟩ = .ok part ∧
      parts = [part] := by
    cases Outcome.mapM_eq_ok.mp expanded with
    | cons first rest =>
        cases rest
        exact ⟨_, Outcome.mapError_eq_ok.mp first, rfl⟩
  obtain ⟨free, counted, mapped⟩ := Outcome.bind_eq_ok.mp made
  obtain ⟨-, rfl⟩ := Expr.freeIndices_eq_ok.mp counted
  rw [List.flatten_singleton]
  refine (Outcome.mapM_eq_ok.mp mapped).imp fun env pair sides => ?_
  obtain ⟨x, first, rest⟩ := Outcome.bind_eq_ok.mp sides
  obtain ⟨y, second, last⟩ := Outcome.bind_eq_ok.mp rest
  cases last
  obtain ⟨z, multiple, scaled⟩ := expand_multiple E.modulus accepted first
  cases second.symm.trans multiple
  exact ⟨first, scaled⟩

theorem Quadratic.linear_pairs (quadratic : E.Quadratic s) (done : WeakForm.expand s name E.form = .ok pairs) :
    ∀ pair ∈ pairs, pair.1.IsLinear ∧ Scaled E.modulus.formula pair.1 pair.2 := by
  obtain ⟨accepted, matched⟩ := expand_eq_ok done
  have each : ∀ env ∈ Assignment.all s.dim (E.strain.freeIn false), ∃ entry : List Nat × Expansion.Scalars,
      (do pure (env.map (·.2), ← Expansion.expand s env E.strain)) = Except.ok entry ∧
        Expansion.expand s env E.strain = .ok entry.2 := by
    intro env member
    obtain ⟨pair, -, found, -⟩ := Outcome.exists_of_matched_left matched member
    exact ⟨(env.map (·.2), pair.1), Outcome.bind_eq_ok.mpr ⟨pair.1, found, rfl⟩, found⟩
  obtain ⟨comps, mapped, entries⟩ := Outcome.mapM_of_forall each
  have found : Expansion.components s E.strain = .ok comps :=
    Outcome.bind_eq_ok.mpr ⟨_, Expr.freeIndices_eq_ok.mpr ⟨accepted, rfl⟩, mapped⟩
  intro pair member
  obtain ⟨env, among, expanded, scaled⟩ := Outcome.exists_of_matched matched member
  obtain ⟨entry, present, again⟩ := Outcome.exists_of_matched_left entries among
  have same : pair.1 = entry.2 := Except.ok.inj (expanded.symm.trans again)
  exact ⟨same ▸ quadratic.linear comps found entry present, scaled⟩

theorem knows_of_fits {f : Field} (fits : s.Fits E.form) (own : f ∈ E.strain.fields) : s.Knows f := by
  have has := fits.fields f (List.mem_append_right _ (List.mem_append_left _ own))
  unfold Setting.Has at has
  unfold Setting.Knows
  split
  · next outer =>
      rw [if_pos outer] at has
      exact List.contains_iff_mem.mpr (List.mem_map_of_mem has)
  · next inner =>
      rw [if_neg inner] at has
      exact List.contains_iff_mem.mpr (List.mem_map_of_mem has)

/-- The test sides of the pairs are the components of the expression. -/
theorem Quadratic.sum_pairs (quadratic : E.Quadratic s) (done : WeakForm.expand s name E.form = .ok pairs)
    (v w : Quantity → ℝ) : (pairs.map fun pair => pair.1.eval v * pair.1.eval w).sum = E.strain.contraction s.dim v w := by
  obtain ⟨accepted, matched⟩ := expand_eq_ok done
  have known := fun f own => knows_of_fits (f := f) quadratic.fits own
  have each := (List.forall₂_and_left _ _).mpr ⟨fun _ member => member, matched⟩
  have values : pairs.map (fun pair => pair.1.eval v * pair.1.eval w) =
      (Assignment.all s.dim (E.strain.freeIn false)).map fun env =>
        E.strain.meaning s.dim v env.toFun * E.strain.meaning s.dim w env.toFun := by
    refine Outcome.map_eq_of_matched (each.imp fun env pair own => ?_)
    obtain ⟨x, found, first⟩ := Expansion.expand_value (v := v) accepted quadratic.plain known
      (Assignment.covers_of_mem_all own.1)
    obtain ⟨y, again, second⟩ := Expansion.expand_value (v := w) accepted quadratic.plain known
      (Assignment.covers_of_mem_all own.1)
    cases own.2.1.symm.trans found
    cases own.2.1.symm.trans again
    rw [first, second]
  have sums : E.strain.contraction s.dim v w = _ := Assignment.sumOver_toFun (Expr.nodup_freeIn E.strain) [] _
  simp only [List.append_nil] at sums
  rw [values, sums]

end Energy

end Galerkin
