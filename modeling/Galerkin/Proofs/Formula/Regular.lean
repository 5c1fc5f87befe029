import Mathlib
import Galerkin.Formula.Algebra
import Galerkin.Proofs.Formula.Evaluation

/-!
Formulas over the real numbers: where they have a value, where they are smooth in those variables that
vary, and the chain rule there.
-/

open Topology

namespace Galerkin

namespace Elementary

/-- Where a function has a value. -/
def DefinedAt (f : Elementary) (x : ℝ) : Prop :=
  match f with
  | log => 0 < x
  | impulse | angle => x ≠ 0
  | _ => True

/-- Where a function has a slope. -/
def SmoothAt (f : Elementary) (x : ℝ) : Prop :=
  match f with
  | log => 0 < x
  | abs | sign | impulse | angle => x ≠ 0
  | _ => True

theorem SmoothAt.definedAt {f : Elementary} {x : ℝ} (smooth : f.SmoothAt x) : f.DefinedAt x := by
  cases f <;> first | exact smooth | exact trivial

/-- What depends on the sign of a number only. -/
theorem eval_of_sign {f : Elementary} (flat : f = sign ∨ f = angle) {r s : ℝ}
    (same : SignType.sign r = SignType.sign s) : f.eval r = f.eval s := by
  rcases flat with rfl | rfl
  · exact congrArg (fun t : SignType => (t : ℝ)) same
  · have below : r < 0 ↔ s < 0 := by rw [← sign_eq_neg_one_iff, ← sign_eq_neg_one_iff, same]
    exact if_congr below rfl rfl

end Elementary

namespace Formula

variable {ν : Type}

/-- Where a power has a value. -/
def PowerDefinedAt (x y : ℝ) : Prop := 0 < x ∨ (x = 0 ∧ 0 ≤ y) ∨ (x ≠ 0 ∧ ∃ n : ℤ, y = n)

/-- Has a formula a value where the variables have the values `v`? -/
def Defined (v : ν → ℝ) : Formula ν → Prop
  | const c => c.isFinite
  | var _ => True
  | add a b | mul a b => Defined v a ∧ Defined v b
  | pow a b => Defined v a ∧ Defined v b ∧ PowerDefinedAt (a.eval v) (b.eval v)
  | app f x => Defined v x ∧ f.DefinedAt (x.eval v)

/-- The fraction that a formula is, if it is made of fractions only. -/
def fraction? : Formula ν → Option Rat
  | const c => c.rational?
  | var _ => none
  | add a b => a.fraction?.bind fun x => b.fraction?.map (x + ·)
  | mul a b => a.fraction?.bind fun x => b.fraction?.map (x * ·)
  | pow a b => a.fraction?.bind fun x => b.fraction?.bind fun y =>
    if y.den = 1 ∧ (x ≠ 0 ∨ 0 ≤ y.num) then some (x ^ y.num) else none
  | app _ _ => none

/-- Do none of the variables that vary occur? -/
def Fixed (varies : ν → Prop) (e : Formula ν) : Prop := ∀ q ∈ e.atoms, ¬ varies q

/-- Where a formula is smooth in the variables that vary: no part of it that varies is at a kink, a
pole or the edge of where it has a value. A base of any sign needs an exponent that does not vary. -/
inductive Smooth (varies : ν → Prop) (v : ν → ℝ) : Formula ν → Prop
  | fixed {e : Formula ν} : e.Fixed varies → e.Defined v → Smooth varies v e
  | var (q : ν) : Smooth varies v (var q)
  | add {a b : Formula ν} : Smooth varies v a → Smooth varies v b → Smooth varies v (add a b)
  | mul {a b : Formula ν} : Smooth varies v a → Smooth varies v b → Smooth varies v (mul a b)
  | positive {a b : Formula ν} : Smooth varies v a → Smooth varies v b → 0 < a.eval v →
    Smooth varies v (pow a b)
  | whole {a b : Formula ν} (n : ℤ) : Smooth varies v a → b.Fixed varies → b.Defined v →
    b.eval v = n → a.eval v ≠ 0 → Smooth varies v (pow a b)
  | literal {a b : Formula ν} (n : ℕ) : Smooth varies v a → b.fraction? = some (n : ℚ) →
    Smooth varies v (pow a b)
  | app {f : Elementary} {x : Formula ν} : Smooth varies v x → f.SmoothAt (x.eval v) →
    Smooth varies v (app f x)

/-! ### Values -/

theorem eval_congr {e : Formula ν} {K : Type} [ExactNumbers K] {v w : ν → K}
    (agree : ∀ q ∈ e.atoms, v q = w q) : e.eval v = e.eval w := by
  induction e with
  | const c => rfl
  | var q => exact agree q List.mem_cons_self
  | add a b iha ihb =>
      have left := iha fun q member => agree q (List.mem_append_left _ member)
      have right := ihb fun q member => agree q (List.mem_append_right _ member)
      simp [left, right]
  | mul a b iha ihb =>
      have left := iha fun q member => agree q (List.mem_append_left _ member)
      have right := ihb fun q member => agree q (List.mem_append_right _ member)
      simp [left, right]
  | pow a b iha ihb =>
      have left := iha fun q member => agree q (List.mem_append_left _ member)
      have right := ihb fun q member => agree q (List.mem_append_right _ member)
      simp [left, right]
  | app f x ih =>
      have inner := ih agree
      simp [eval, inner]

theorem defined_congr {e : Formula ν} {v w : ν → ℝ} (agree : ∀ q ∈ e.atoms, v q = w q)
    (defined : e.Defined v) : e.Defined w := by
  induction e with
  | const c => exact defined
  | var q => trivial
  | add a b iha ihb =>
      rcases defined with ⟨left, right⟩
      exact ⟨iha (fun q member => agree q (List.mem_append_left _ member)) left,
        ihb (fun q member => agree q (List.mem_append_right _ member)) right⟩
  | mul a b iha ihb =>
      rcases defined with ⟨left, right⟩
      exact ⟨iha (fun q member => agree q (List.mem_append_left _ member)) left,
        ihb (fun q member => agree q (List.mem_append_right _ member)) right⟩
  | pow a b iha ihb =>
      rcases defined with ⟨left, right, power⟩
      have base : ∀ q ∈ a.atoms, v q = w q := fun q member => agree q (List.mem_append_left _ member)
      have exponent : ∀ q ∈ b.atoms, v q = w q :=
        fun q member => agree q (List.mem_append_right _ member)
      rw [eval_congr base, eval_congr exponent] at power
      exact ⟨iha base left, ihb exponent right, power⟩
  | app f x ih =>
      rcases defined with ⟨inner, outer⟩
      have same : x.eval v = x.eval w := eval_congr agree
      rw [same] at outer
      exact ⟨ih agree inner, outer⟩

theorem eval_of_fraction? {e : Formula ν} {K : Type} [ExactNumbers K] [CharZero K] (v : ν → K) {r : ℚ}
    (fraction : e.fraction? = some r) : e.eval v = (r : K) := by
  induction e generalizing r with
  | const c =>
      cases c with
      | exact s =>
          cases fraction
          rfl
      | decimal d => cases fraction
      | infinite negative => cases fraction
      | unsigned => cases fraction
      | undefined => cases fraction
  | var q => cases fraction
  | add a b iha ihb =>
      rw [fraction?, Option.bind_eq_some_iff] at fraction
      rcases fraction with ⟨x, left, rest⟩
      rcases Option.map_eq_some_iff.mp rest with ⟨y, right, rfl⟩
      rw [eval_add, iha left, ihb right, Rat.cast_add]
  | mul a b iha ihb =>
      rw [fraction?, Option.bind_eq_some_iff] at fraction
      rcases fraction with ⟨x, left, rest⟩
      rcases Option.map_eq_some_iff.mp rest with ⟨y, right, rfl⟩
      rw [eval_mul, iha left, ihb right, Rat.cast_mul]
  | pow a b iha ihb =>
      rw [fraction?, Option.bind_eq_some_iff] at fraction
      rcases fraction with ⟨x, left, rest⟩
      rcases Option.bind_eq_some_iff.mp rest with ⟨y, right, small⟩
      rw [Option.ite_none_right_eq_some, Option.some.injEq] at small
      rcases small with ⟨⟨single, _⟩, rfl⟩
      have whole : y = (y.num : ℚ) := (Rat.den_eq_one_iff y).mp single |>.symm
      rw [eval_pow, iha left, ihb right, whole]
      have power := ExactNumbers.power_intCast (x : K) y.num
      rw [Rat.cast_intCast, Rat.cast_zpow]
      exact power
  | app f x ih => cases fraction

theorem atoms_of_fraction? {e : Formula ν} {r : ℚ} (fraction : e.fraction? = some r) :
    e.atoms = [] := by
  induction e generalizing r with
  | const c => rfl
  | var q => cases fraction
  | add a b iha ihb =>
      rw [fraction?, Option.bind_eq_some_iff] at fraction
      rcases fraction with ⟨x, left, rest⟩
      rcases Option.map_eq_some_iff.mp rest with ⟨y, right, _⟩
      rw [atoms, iha left, ihb right, List.append_nil]
  | mul a b iha ihb =>
      rw [fraction?, Option.bind_eq_some_iff] at fraction
      rcases fraction with ⟨x, left, rest⟩
      rcases Option.map_eq_some_iff.mp rest with ⟨y, right, _⟩
      rw [atoms, iha left, ihb right, List.append_nil]
  | pow a b iha ihb =>
      rw [fraction?, Option.bind_eq_some_iff] at fraction
      rcases fraction with ⟨x, left, rest⟩
      rcases Option.bind_eq_some_iff.mp rest with ⟨y, right, _⟩
      rw [atoms, iha left, ihb right, List.append_nil]
  | app f x ih => cases fraction

theorem defined_of_fraction? {e : Formula ν} (v : ν → ℝ) {r : ℚ} (fraction : e.fraction? = some r) :
    e.Defined v := by
  induction e generalizing r with
  | const c =>
      cases c with
      | exact s => rfl
      | decimal d => rfl
      | infinite negative => cases fraction
      | unsigned => cases fraction
      | undefined => cases fraction
  | var q => cases fraction
  | add a b iha ihb =>
      rw [fraction?, Option.bind_eq_some_iff] at fraction
      rcases fraction with ⟨x, left, rest⟩
      rcases Option.map_eq_some_iff.mp rest with ⟨y, right, _⟩
      exact ⟨iha left, ihb right⟩
  | mul a b iha ihb =>
      rw [fraction?, Option.bind_eq_some_iff] at fraction
      rcases fraction with ⟨x, left, rest⟩
      rcases Option.map_eq_some_iff.mp rest with ⟨y, right, _⟩
      exact ⟨iha left, ihb right⟩
  | pow a b iha ihb =>
      rw [fraction?, Option.bind_eq_some_iff] at fraction
      rcases fraction with ⟨x, left, rest⟩
      rcases Option.bind_eq_some_iff.mp rest with ⟨y, right, small⟩
      rw [Option.ite_none_right_eq_some] at small
      rcases small with ⟨⟨single, nonzero⟩, _⟩
      have whole : (y : ℝ) = (y.num : ℤ) := by
        rw [← Rat.cast_intCast, (Rat.den_eq_one_iff y).mp single]
      refine ⟨iha left, ihb right, ?_⟩
      rw [eval_of_fraction? v left, eval_of_fraction? v right, whole]
      by_cases zero : x = 0
      · have nonneg : 0 ≤ y.num := nonzero.resolve_left fun apart => apart zero
        exact Or.inr (Or.inl ⟨by rw [zero, Rat.cast_zero], by exact_mod_cast nonneg⟩)
      · exact Or.inr (Or.inr ⟨by exact_mod_cast zero, y.num, rfl⟩)
  | app f x ih => cases fraction

theorem fixed_of_fraction? {e : Formula ν} {r : ℚ} (fraction : e.fraction? = some r)
    (varies : ν → Prop) : e.Fixed varies := by
  intro q member
  rw [atoms_of_fraction? fraction] at member
  cases member

variable {varies : ν → Prop} {v : ν → ℝ}

theorem Smooth.defined {e : Formula ν} (smooth : e.Smooth varies v) : e.Defined v := by
  induction smooth with
  | fixed _ defined => exact defined
  | var q => trivial
  | add _ _ left right => exact ⟨left, right⟩
  | mul _ _ left right => exact ⟨left, right⟩
  | positive _ _ above left right => exact ⟨left, right, Or.inl above⟩
  | whole n _ _ defined value nonzero left => exact ⟨left, defined, Or.inr (Or.inr ⟨nonzero, n, value⟩)⟩
  | @literal a b n _ fraction left =>
      refine ⟨left, defined_of_fraction? v fraction, ?_⟩
      rw [eval_of_fraction? v fraction]
      by_cases zero : a.eval v = 0
      · exact Or.inr (Or.inl ⟨zero, by positivity⟩)
      · exact Or.inr (Or.inr ⟨zero, n, by push_cast; rfl⟩)
  | app _ apart inner => exact ⟨inner, apart.definedAt⟩

/-! ### Moving variables -/

section Moving

variable {E : Type} [NormedAddCommGroup E] [NormedSpace ℝ E]

/-- Values of the variables that move smoothly with a point, those that do not vary staying put. -/
structure Moves (varies : ν → Prop) (w : E → ν → ℝ) (y : E) : Prop where
  smooth : ∀ q, varies q → DifferentiableAt ℝ (fun z => w z q) y
  still : ∀ q, ¬ varies q → ∀ z, w z q = w y q

variable {w : E → ν → ℝ} {y : E}

theorem Moves.eval_fixed (moves : Moves varies w y) {e : Formula ν} (fixed : e.Fixed varies) (z : E) :
    e.eval (w z) = e.eval (w y) :=
  eval_congr fun q member => moves.still q (fixed q member) z

omit [NormedSpace ℝ E] in
theorem eventuallyEq_of_sign {g : E → ℝ} {h : ℝ → ℝ}
    (bySign : ∀ r s : ℝ, SignType.sign r = SignType.sign s → h r = h s) (apart : g y ≠ 0)
    (inner : ContinuousAt g y) : (fun z => h (g z)) =ᶠ[𝓝 y] fun _ => h (g y) := by
  rcases lt_or_gt_of_ne apart with below | above
  · filter_upwards [inner.eventually_lt continuousAt_const below] with z small
    exact bySign _ _ (by rw [sign_neg small, sign_neg below])
  · filter_upwards [continuousAt_const.eventually_lt inner above] with z large
    exact bySign _ _ (by rw [sign_pos large, sign_pos above])

theorem differentiableAt_elementary {f : Elementary} {g : E → ℝ} (smooth : f.SmoothAt (g y))
    (inner : DifferentiableAt ℝ g y) : DifferentiableAt ℝ (fun z => f.eval (g z)) y := by
  cases f with
  | exp => exact inner.exp
  | log => exact inner.log (ne_of_gt smooth)
  | sin => exact inner.sin
  | cos => exact inner.cos
  | tanh =>
      have quotient : (fun z => Elementary.tanh.eval (g z)) =
          fun z => Real.sinh (g z) * (Real.cosh (g z))⁻¹ :=
        funext fun z => (Real.tanh_eq_sinh_div_cosh (g z)).trans (div_eq_mul_inv _ _)
      rw [quotient]
      exact inner.sinh.mul (inner.cosh.inv (Real.cosh_pos _).ne')
  | abs => exact inner.abs smooth
  | sign =>
      exact (eventuallyEq_of_sign (fun r s same => Elementary.eval_of_sign (Or.inl rfl) same) smooth
        inner.continuousAt).differentiableAt_iff.mpr (differentiableAt_const _)
  | impulse => exact differentiableAt_const 0
  | realPart => exact inner
  | angle =>
      exact (eventuallyEq_of_sign (fun r s same => Elementary.eval_of_sign (Or.inr rfl) same) smooth
        inner.continuousAt).differentiableAt_iff.mpr (differentiableAt_const _)

theorem differentiableAt_eval (moves : Moves varies w y) {e : Formula ν} (smooth : e.Smooth varies (w y)) :
    DifferentiableAt ℝ (fun z => e.eval (w z)) y := by
  generalize start : w y = v at smooth
  induction smooth with
  | fixed fixed _ =>
      simp only [moves.eval_fixed fixed]
      exact differentiableAt_const _
  | var q =>
      by_cases moving : varies q
      · exact moves.smooth q moving
      · simp only [eval_var, moves.still q moving]
        exact differentiableAt_const _
  | add _ _ left right => exact left.add right
  | mul _ _ left right => exact left.mul right
  | positive _ _ above left right =>
      simp only [eval_pow]
      subst start
      exact left.rpow right (ne_of_gt above)
  | @whole a b n _ fixed _ value nonzero left =>
      subst start
      have power : ∀ z, (pow a b).eval (w z) = a.eval (w z) ^ n := by
        intro z
        rw [eval_pow, moves.eval_fixed fixed, value]
        exact ExactNumbers.power_intCast _ n
      simp only [power]
      exact left.zpow (Or.inl nonzero)
  | @literal a b n _ fraction left =>
      have power : ∀ z, (pow a b).eval (w z) = a.eval (w z) ^ n := by
        intro z
        rw [eval_pow, eval_of_fraction? _ fraction]
        exact (congrArg _ (by push_cast; rfl)).trans (ExactNumbers.power_intCast _ (n : ℤ))
      simp only [power]
      exact left.pow n
  | app _ apart inner =>
      subst start
      exact differentiableAt_elementary apart inner

theorem eventually_smooth (moves : Moves varies w y) {e : Formula ν} (smooth : e.Smooth varies (w y)) :
    ∀ᶠ z in 𝓝 y, e.Smooth varies (w z) := by
  have continuous {a : Formula ν} (inside : a.Smooth varies (w y)) :
      ContinuousAt (fun z => a.eval (w z)) y :=
    (differentiableAt_eval moves inside).continuousAt
  generalize start : w y = v at smooth
  induction smooth with
  | fixed fixed defined =>
      subst start
      refine Filter.Eventually.of_forall fun z => .fixed fixed ?_
      exact defined_congr (fun q member => (moves.still q (fixed q member) z).symm) defined
  | var q => exact Filter.Eventually.of_forall fun z => .var q
  | add _ _ left right =>
      filter_upwards [left, right] with z a b
      exact .add a b
  | mul _ _ left right =>
      filter_upwards [left, right] with z a b
      exact .mul a b
  | positive base _ above left right =>
      subst start
      filter_upwards [left, right, continuousAt_const.eventually_lt (continuous base) above] with z a b c
      exact .positive a b c
  | @whole a b n base fixed defined value nonzero left =>
      subst start
      filter_upwards [left, (continuous base).eventually_ne nonzero] with z near apart
      refine .whole n near fixed ?_ ?_ apart
      · exact defined_congr (fun q member => (moves.still q (fixed q member) z).symm) defined
      · rw [moves.eval_fixed fixed, value]
  | literal n _ fraction left =>
      filter_upwards [left] with z a
      exact .literal n a fraction
  | @app f x inside apart inner =>
      subst start
      have near : ∀ᶠ z in 𝓝 y, f.SmoothAt (x.eval (w z)) := by
        cases f with
        | exp => exact Filter.Eventually.of_forall fun _ => trivial
        | sin => exact Filter.Eventually.of_forall fun _ => trivial
        | cos => exact Filter.Eventually.of_forall fun _ => trivial
        | tanh => exact Filter.Eventually.of_forall fun _ => trivial
        | realPart => exact Filter.Eventually.of_forall fun _ => trivial
        | log => exact continuousAt_const.eventually_lt (continuous inside) apart
        | abs => exact (continuous inside).eventually_ne apart
        | sign => exact (continuous inside).eventually_ne apart
        | impulse => exact (continuous inside).eventually_ne apart
        | angle => exact (continuous inside).eventually_ne apart
      filter_upwards [inner, near] with z a b
      exact .app a b

/-- One variable moves and all others stay. -/
theorem moves_update [DecidableEq ν] {v : ν → ℝ} {q : ν} (moving : varies q) (x : ℝ) :
    Moves varies (fun t => Function.update v q t) x := by
  constructor
  · intro r _
    by_cases same : r = q
    · subst same
      simp only [Function.update_self]
      exact differentiableAt_id
    · simp only [Function.update_of_ne same]
      exact differentiableAt_const _
  · intro r still t
    have apart : r ≠ q := fun same => still (same ▸ moving)
    rw [Function.update_of_ne apart, Function.update_of_ne apart]

/-- The chain rule from partial derivatives. -/
theorem hasFDerivAt_eval [DecidableEq ν] {e : Formula ν} (smooth : e.Smooth varies (w y)) {qs : List ν}
    (distinct : qs.Nodup) (moving : ∀ q ∈ qs, varies q)
    (complete : ∀ q ∈ e.atoms, varies q → q ∈ qs) {D : ν → E →L[ℝ] ℝ}
    (path : ∀ q, varies q → HasFDerivAt (fun z => w z q) (D q) y)
    (still : ∀ q, ¬ varies q → ∀ z, w z q = w y q) {slope : ν → ℝ}
    (slopes : ∀ q ∈ qs,
      HasDerivAt (fun t => e.eval (Function.update (w y) q t)) (slope q) (w y q)) :
    HasFDerivAt (fun z => e.eval (w z)) (qs.map fun q => slope q • D q).sum y := by
  -- the values of the moving variables as a point of a space of their own
  let place := fun (u : Fin qs.length → ℝ) (q : ν) =>
    if member : q ∈ qs then u ⟨qs.idxOf q, List.idxOf_lt_length_of_mem member⟩ else w y q
  let restrict := fun z (i : Fin qs.length) => w z qs[i]
  have placed : ∀ z, e.eval (w z) = e.eval (place (restrict z)) := by
    intro z
    refine eval_congr fun q member => ?_
    by_cases inside : q ∈ qs
    · simp [place, restrict, inside]
    · simp only [place, inside, ↓reduceDIte]
      exact still q (fun varied => inside (complete q member varied)) z
  have home : place (restrict y) = w y := by
    funext q
    by_cases inside : q ∈ qs <;> simp [place, restrict, inside]
  have moves : Moves varies place (restrict y) := by
    constructor
    · intro q _
      by_cases inside : q ∈ qs
      · simp only [place, inside, ↓reduceDIte]
        exact differentiableAt_apply _ _
      · simp only [place, inside, ↓reduceDIte]
        exact differentiableAt_const _
    · intro q fixed u
      have outside : q ∉ qs := fun inside => fixed (moving q inside)
      simp only [place, outside, ↓reduceDIte]
  have total := (differentiableAt_eval moves (home.symm ▸ smooth)).hasFDerivAt
  generalize fderiv ℝ (fun u => e.eval (place u)) (restrict y) = slopeMap at total
  have single : ∀ i : Fin qs.length, slopeMap (Pi.single i 1) = slope qs[i] := by
    intro i
    have line := hasDerivAt_update (restrict y) i (restrict y i)
    have along := HasFDerivAt.comp_hasDerivAt_of_eq (restrict y i) total line
      (Function.update_eq_self i _).symm
    refine along.unique ?_
    have known := slopes qs[i] (List.getElem_mem _)
    refine known.congr_of_eventuallyEq (Filter.Eventually.of_forall fun t => ?_)
    refine congrArg (fun v => e.eval v) (funext fun q => ?_)
    by_cases inside : q ∈ qs
    · by_cases same : q = qs[i]
      · subst same
        simp [place, distinct.idxOf_getElem]
      · have other : (⟨qs.idxOf q, List.idxOf_lt_length_of_mem inside⟩ : Fin qs.length) ≠ i := by
          rintro rfl
          exact same (by simp)
        have kept : Function.update (w y) qs[i] t q = w y q := Function.update_of_ne same _ _
        rw [kept]
        simp [place, restrict, inside, Function.update_of_ne other]
    · have other : q ≠ qs[i] := fun same => inside (same ▸ List.getElem_mem _)
      simp only [place, inside, ↓reduceDIte, Function.update_of_ne other]
  have moved : HasFDerivAt restrict (ContinuousLinearMap.pi fun i : Fin qs.length => D qs[i]) y :=
    hasFDerivAt_pi.mpr fun i => path qs[i] (moving _ (List.getElem_mem _))
  simp only [placed]
  refine (total.comp y moved).congr_fderiv ?_
  ext d
  calc slopeMap (fun i : Fin qs.length => D qs[i] d)
      = ∑ i : Fin qs.length, D qs[i] d • slopeMap (Pi.single i 1) := by
        rw [← ContinuousLinearMap.coe_coe, LinearMap.pi_apply_eq_sum_univ]
        refine Finset.sum_congr rfl fun i _ => ?_
        congr 2
        funext j
        simp [Pi.single_apply, eq_comm]
    _ = ∑ i : Fin qs.length, (slope qs[i] • D qs[i]) d := by
        refine Finset.sum_congr rfl fun i _ => ?_
        rw [single i]
        simp [mul_comm]
    _ = (qs.map fun q => slope q • D q).sum d := by
        rw [← Fin.sum_univ_fun_getElem, sum_apply]
        rfl

end Moving

end Formula

end Galerkin
