import Mathlib
import Galerkin.Proofs.Formula.Laws

/-!
The calculus of a textbook: formulas stay as they are written, but for zeros and ones, and derivatives
follow the usual rules. It obeys the laws of a calculus.
-/

open Topology

namespace Galerkin

namespace Formula

variable {ν : Type}

/-- A sum without zeros. -/
def plus (a b : Formula ν) : Formula ν := if a.isZero then b else if b.isZero then a else add a b

/-- A product without zeros and ones. -/
def times (a b : Formula ν) : Formula ν :=
  if a.isZero || b.isZero then zero
  else if a.isOne then b
  else if b.isOne then a
  else mul a b

theorem eq_zero_of_isZero {e : Formula ν} (vanishes : e.isZero) : e = zero := by
  cases e with
  | const c => exact congrArg const (of_decide_eq_true vanishes)
  | _ => cases vanishes

theorem eq_one_of_isOne {e : Formula ν} (single : e.isOne) : e = one := by
  cases e with
  | const c => exact congrArg const (of_decide_eq_true single)
  | _ => cases single

theorem plus_refines (a b : Formula ν) : Refines (add a b) (plus a b) := by
  unfold plus
  split
  · next vanishes =>
      rw [eq_zero_of_isZero vanishes]
      exact ⟨fun q member => List.mem_append_right _ member, fun v defined => defined.2,
        fun v _ => by simp, fun _ _ smooth => smooth.of_add.2⟩
  · split
    · next vanishes =>
        rw [eq_zero_of_isZero vanishes]
        exact ⟨fun q member => List.mem_append_left _ member, fun v defined => defined.1,
          fun v _ => by simp, fun _ _ smooth => smooth.of_add.1⟩
    · exact .refl _

theorem times_refines (a b : Formula ν) : Refines (mul a b) (times a b) := by
  unfold times
  split
  · next vanishes =>
      refine ⟨fun _ member => (List.not_mem_nil member).elim, fun v _ => rfl, fun v _ => ?_,
        fun varies v _ => smooth_ofRat varies v 0⟩
      rcases Bool.or_eq_true_iff.mp vanishes with left | right
      · simp [eq_zero_of_isZero left]
      · simp [eq_zero_of_isZero right]
  · split
    · next single =>
        rw [eq_one_of_isOne single]
        exact ⟨fun q member => List.mem_append_right _ member, fun v defined => defined.2,
          fun v _ => by simp, fun _ _ smooth => smooth.of_mul.2⟩
    · split
      · next single =>
          rw [eq_one_of_isOne single]
          exact ⟨fun q member => List.mem_append_left _ member, fun v defined => defined.1,
            fun v _ => by simp, fun _ _ smooth => smooth.of_mul.1⟩
      · exact .refl _

theorem atoms_plus {a b : Formula ν} {r : ν} (member : r ∈ (plus a b).atoms) : r ∈ a.atoms ∨ r ∈ b.atoms :=
  List.mem_append.mp ((plus_refines a b).atoms r member)

theorem atoms_times {a b : Formula ν} {r : ν} (member : r ∈ (times a b).atoms) :
    r ∈ a.atoms ∨ r ∈ b.atoms :=
  List.mem_append.mp ((times_refines a b).atoms r member)

section Values

variable (v : ν → ℝ) (a b : Formula ν)

@[simp] theorem eval_plus : (plus a b).eval v = a.eval v + b.eval v := by
  unfold plus
  split
  · next vanishes => simp [eq_zero_of_isZero vanishes]
  · split
    · next vanishes => simp [eq_zero_of_isZero vanishes]
    · rfl

@[simp] theorem eval_times : (times a b).eval v = a.eval v * b.eval v := by
  unfold times
  split
  · next vanishes =>
      rcases Bool.or_eq_true_iff.mp vanishes with left | right
      · simp [eq_zero_of_isZero left]
      · simp [eq_zero_of_isZero right]
  · split
    · next single => simp [eq_one_of_isOne single]
    · split
      · next single => simp [eq_one_of_isOne single]
      · rfl

end Values

variable {varies : ν → Prop} {v : ν → ℝ}

theorem Smooth.plus {a b : Formula ν} (left : a.Smooth varies v) (right : b.Smooth varies v) :
    (a.plus b).Smooth varies v :=
  (plus_refines a b).smooth varies v (.add left right)

theorem Smooth.times {a b : Formula ν} (left : a.Smooth varies v) (right : b.Smooth varies v) :
    (a.times b).Smooth varies v :=
  (times_refines a b).smooth varies v (.mul left right)

/-! ### Derivatives -/

/-- The slope of a function where it has one. -/
def slopeOf (f : Elementary) (x : Formula ν) : Formula ν :=
  match f with
  | .exp => app .exp x
  | .log => inverse x
  | .sin => app .cos x
  | .cos => mul (ofRat (-1)) (app .sin x)
  | .tanh => add one (mul (ofRat (-1)) (pow (app .tanh x) (ofRat 2)))
  | .abs => app .sign x
  | .realPart => one
  | .sign | .impulse | .angle => zero

theorem atoms_slopeOf {f : Elementary} {x : Formula ν} {r : ν} (member : r ∈ (slopeOf f x).atoms) :
    r ∈ x.atoms := by
  cases f <;> simp_all [slopeOf, inverse, atoms, zero, one, ofRat]

theorem smooth_slopeOf {f : Elementary} {x : Formula ν} (inner : x.Smooth varies v)
    (apart : f.SmoothAt (x.eval v)) : (slopeOf f x).Smooth varies v := by
  cases f with
  | exp => exact .app inner trivial
  | log => exact smooth_inverse inner (ne_of_gt apart)
  | sin => exact .app inner trivial
  | cos => exact .mul (smooth_ofRat _ _ _) (.app inner trivial)
  | tanh =>
      exact .add (smooth_ofRat _ _ 1) (.mul (smooth_ofRat _ _ _) (.literal 2 (.app inner trivial) rfl))
  | abs => exact .app inner apart
  | sign => exact smooth_ofRat _ _ 0
  | impulse => exact smooth_ofRat _ _ 0
  | realPart => exact smooth_ofRat _ _ 1
  | angle => exact smooth_ofRat _ _ 0

/-- The derivative of a function along a curve of arguments. -/
theorem hasDerivAt_elementary {f : Elementary} {x : Formula ν} {g : ℝ → ℝ} {slope t : ℝ}
    (value : g t = x.eval v) (apart : f.SmoothAt (g t)) (inner : HasDerivAt g slope t) :
    HasDerivAt (fun t => f.eval (g t)) ((slopeOf f x).eval v * slope) t := by
  have flat (onlySign : f = .sign ∨ f = .angle) (nonzero : g t ≠ 0) :
      HasDerivAt (fun t => f.eval (g t)) ((zero : Formula ν).eval v * slope) t := by
    rw [eval_zero, zero_mul]
    exact (hasDerivAt_const t _).congr_of_eventuallyEq
      (eventuallyEq_of_sign (fun r s same => Elementary.eval_of_sign onlySign same) nonzero
        inner.continuousAt)
  cases f with
  | exp =>
      show HasDerivAt (fun t => Real.exp (g t)) (Real.exp (x.eval v) * slope) t
      rw [← value]
      exact inner.exp
  | log =>
      refine (inner.log (ne_of_gt apart)).congr_deriv ?_
      rw [slopeOf, eval_inverse, ← value, div_eq_inv_mul]
  | sin =>
      show HasDerivAt (fun t => Real.sin (g t)) (Real.cos (x.eval v) * slope) t
      rw [← value]
      exact inner.sin
  | cos =>
      refine inner.cos.congr_deriv ?_
      show -Real.sin (g t) * slope = ((-1 : ℚ) : ℝ) * Real.sin (x.eval v) * slope
      rw [value]
      push_cast
      ring
  | tanh =>
      have quotient : (fun t => Elementary.tanh.eval (g t)) = fun t => Real.sinh (g t) / Real.cosh (g t) :=
        funext fun t => Real.tanh_eq_sinh_div_cosh (g t)
      have nonzero : Real.cosh (g t) ≠ 0 := (Real.cosh_pos _).ne'
      rw [quotient]
      refine (inner.sinh.fun_div inner.cosh nonzero).congr_deriv ?_
      have power : (pow (app .tanh x) (ofRat 2)).eval v = Real.tanh (x.eval v) ^ 2 := by
        rw [eval_pow, eval_ofRat]
        exact (congrArg _ (by norm_num)).trans (Real.rpow_natCast _ 2)
      simp only [slopeOf, eval_add, eval_mul, eval_one, eval_ofRat, power]
      rw [← value, Real.tanh_eq_sinh_div_cosh]
      push_cast
      field_simp
      ring
  | abs =>
      show HasDerivAt (fun t => |g t|) ((SignType.sign (x.eval v) : ℝ) * slope) t
      rw [← value]
      exact (hasDerivAt_abs apart).comp t inner
  | sign => exact flat (Or.inl rfl) apart
  | impulse =>
      show HasDerivAt (fun _ => (0 : ℝ)) ((zero : Formula ν).eval v * slope) t
      rw [eval_zero, zero_mul]
      exact hasDerivAt_const t 0
  | realPart =>
      show HasDerivAt g ((one : Formula ν).eval v * slope) t
      rw [eval_one, one_mul]
      exact inner
  | angle => exact flat (Or.inr rfl) apart

/-- The slope of a power by its base, for an exponent that does not change. -/
def powerSlope (a b : Formula ν) : Formula ν :=
  match b.fraction? with
  | some r =>
    if r = 0 then zero
    else if r.den = 1 ∧ 0 ≤ r.num then times (ofRat r) (pow a (ofRat (r - 1)))
    else mul (pow a b) (mul b (inverse a))
  | none => mul (pow a b) (mul b (inverse a))

theorem atoms_powerSlope {a b : Formula ν} {r : ν} (member : r ∈ (powerSlope a b).atoms) :
    r ∈ (pow a b).atoms := by
  have general : r ∈ (mul (pow a b) (mul b (inverse a))).atoms → r ∈ (pow a b).atoms := by
    simp only [atoms, inverse, ofRat, List.mem_append, List.not_mem_nil]
    tauto
  unfold powerSlope at member
  split at member
  · split at member
    · cases member
    · split at member
      · rcases atoms_times member with left | right
        · cases left
        · rw [atoms, List.mem_append] at right
          exact List.mem_append_left _ (right.resolve_right List.not_mem_nil)
      · exact general member
  · exact general member

theorem exists_succ_of_natural {r : ℚ} (natural : r.den = 1 ∧ 0 ≤ r.num) (positive : r ≠ 0) :
    ∃ n : ℕ, r = (n + 1 : ℕ) := by
  refine ⟨r.num.toNat - 1, ?_⟩
  have whole : (r.num : ℚ) = r := (Rat.den_eq_one_iff r).mp natural.1
  have above : r.num ≠ 0 := fun none => positive (Rat.num_eq_zero.mp none)
  have count : ((r.num.toNat - 1 + 1 : ℕ) : ℤ) = r.num := by omega
  rw [← Int.cast_natCast, count, whole]

/-- The derivative of a power along a curve of bases. -/
theorem hasDerivAt_power {a b : Formula ν} {g : ℝ → ℝ} {slope t : ℝ} (value : g t = a.eval v)
    (apart : (∃ n : ℕ, b.fraction? = some (n : ℚ)) ∨ a.eval v ≠ 0) (inner : HasDerivAt g slope t) :
    HasDerivAt (fun t => g t ^ b.eval v) ((powerSlope a b).eval v * slope) t := by
  have general (nonzero : a.eval v ≠ 0) :
      HasDerivAt (fun t => g t ^ b.eval v)
        ((mul (pow a b) (mul b (inverse a))).eval v * slope) t := by
    refine (inner.rpow_const (Or.inl (value ▸ nonzero))).congr_deriv ?_
    rw [value, Real.rpow_sub_one nonzero, eval_mul, eval_mul, eval_pow, eval_inverse]
    show slope * b.eval v * (a.eval v ^ b.eval v / a.eval v) =
      a.eval v ^ b.eval v * (b.eval v * (a.eval v)⁻¹) * slope
    ring
  have nonzero (fraction : ∀ n : ℕ, b.fraction? ≠ some (n : ℚ)) : a.eval v ≠ 0 :=
    apart.resolve_left fun natural => natural.elim fraction
  unfold powerSlope
  split
  · next r fraction =>
      have exponent : b.eval v = (r : ℝ) := eval_of_fraction? v fraction
      split
      · next zero =>
          rw [exponent, zero, Rat.cast_zero, eval_zero, zero_mul]
          simp only [Real.rpow_zero]
          exact hasDerivAt_const t 1
      · next positive =>
          split
          · next natural =>
              -- a whole power that is not the zeroth loses one factor
              obtain ⟨n, rfl⟩ := exists_succ_of_natural natural positive
              have power : (pow a (ofRat (((n + 1 : ℕ) : ℚ) - 1))).eval v = a.eval v ^ n := by
                rw [eval_pow, eval_ofRat]
                exact (congrArg _ (by push_cast; ring)).trans (Real.rpow_natCast _ n)
              have natPower : (fun t => g t ^ b.eval v) = fun t => g t ^ (n + 1) := by
                funext t
                rw [exponent, Rat.cast_natCast, Real.rpow_natCast]
              rw [natPower, eval_times, eval_ofRat, power, ← value, Rat.cast_natCast]
              exact inner.fun_pow (n + 1)
          · next other =>
              refine general (nonzero fun n natural => other ?_)
              cases fraction.symm.trans natural
              exact ⟨Rat.den_natCast n, by rw [Rat.num_natCast]; omega⟩
  · next none => exact general (nonzero fun n natural => nomatch none.symm.trans natural)

variable [DecidableEq ν]

/-- The partial derivative by the variable `q`. -/
def slopeBy (q : ν) : Formula ν → Formula ν
  | const _ => zero
  | var r => if r = q then one else zero
  | add a b => plus (slopeBy q a) (slopeBy q b)
  | mul a b => plus (times (slopeBy q a) b) (times a (slopeBy q b))
  | pow a b =>
    if q ∈ b.atoms then
      mul (pow a b) (plus (times (slopeBy q b) (app .log a)) (times (slopeBy q a) (mul b (inverse a))))
    else if q ∈ a.atoms then times (powerSlope a b) (slopeBy q a)
    else zero
  | app f x => if q ∈ x.atoms then times (slopeOf f x) (slopeBy q x) else zero

variable {q : ν}

theorem slopeBy_eq_zero {e : Formula ν} (absent : q ∉ e.atoms) : slopeBy q e = zero := by
  induction e with
  | const c => rfl
  | var r =>
      have apart : r ≠ q := fun same => absent (same ▸ List.mem_cons_self)
      rw [slopeBy, if_neg apart]
  | add a b iha ihb =>
      rw [atoms, List.mem_append, not_or] at absent
      rw [slopeBy, iha absent.1, ihb absent.2]
      rfl
  | mul a b iha ihb =>
      rw [atoms, List.mem_append, not_or] at absent
      rw [slopeBy, iha absent.1, ihb absent.2]
      simp [plus, times, isZero, zero, Coeff.isZero]
  | pow a b iha ihb =>
      rw [atoms, List.mem_append, not_or] at absent
      rw [slopeBy, if_neg absent.2, if_neg absent.1]
  | app f x ih =>
      have outside : q ∉ x.atoms := absent
      rw [slopeBy, if_neg outside]

theorem atoms_slopeBy {e : Formula ν} {r : ν} (member : r ∈ (slopeBy q e).atoms) : r ∈ e.atoms := by
  induction e with
  | const c => cases member
  | var s =>
      rw [slopeBy] at member
      split at member <;> cases member
  | add a b iha ihb =>
      exact List.mem_append.mpr ((atoms_plus member).imp iha ihb)
  | mul a b iha ihb =>
      rw [atoms, List.mem_append]
      rcases atoms_plus member with left | right
      · exact (atoms_times left).imp_left iha
      · exact (atoms_times right).imp_right ihb
  | pow a b iha ihb =>
      rw [slopeBy] at member
      split at member
      · rcases List.mem_append.mp member with power | slopes
        · exact power
        · rw [atoms, List.mem_append]
          rcases atoms_plus slopes with inner | outer
          · exact (atoms_times inner).symm.imp_right ihb
          · rcases atoms_times outer with base | rest
            · exact Or.inl (iha base)
            · rw [atoms, inverse, atoms, List.mem_append, List.mem_append] at rest
              rcases rest with exponent | base | none
              · exact Or.inr exponent
              · exact Or.inl base
              · cases none
      · split at member
        · rcases atoms_times member with power | base
          · exact atoms_powerSlope power
          · exact List.mem_append_left _ (iha base)
        · cases member
  | app f x ih =>
      rw [slopeBy] at member
      split at member
      · rcases atoms_times member with outer | inner
        · exact atoms_slopeOf (x := x) outer
        · exact ih inner
      · cases member

omit [DecidableEq ν] in
theorem smooth_powerSlope {a b : Formula ν} (base : a.Smooth varies v) (exponent : b.Smooth varies v)
    (power : (pow a b).Smooth varies v)
    (apart : (∃ n : ℕ, b.fraction? = some (n : ℚ)) ∨ a.eval v ≠ 0) :
    (powerSlope a b).Smooth varies v := by
  have general (nonzero : a.eval v ≠ 0) : (mul (pow a b) (mul b (inverse a))).Smooth varies v :=
    .mul power (.mul exponent (smooth_inverse base nonzero))
  have nonzero (fraction : ∀ n : ℕ, b.fraction? ≠ some (n : ℚ)) : a.eval v ≠ 0 :=
    apart.resolve_left fun natural => natural.elim fraction
  unfold powerSlope
  split
  · next r fraction =>
      split
      · exact smooth_ofRat varies v 0
      · next positive =>
          split
          · next natural =>
              obtain ⟨n, rfl⟩ := exists_succ_of_natural natural positive
              refine (smooth_ofRat varies v _).times (.literal n base ?_)
              show some (((n + 1 : ℕ) : ℚ) - 1) = some (n : ℚ)
              push_cast
              ring_nf
          · next other =>
              refine general (nonzero fun n natural => other ?_)
              cases fraction.symm.trans natural
              exact ⟨Rat.den_natCast n, by rw [Rat.num_natCast]; omega⟩
  · next none => exact general (nonzero fun n natural => nomatch none.symm.trans natural)

/-- Derivatives are smooth where the formula is, and they are the derivatives. -/
theorem slopeBy_spec (moving : varies q) {e : Formula ν} (smooth : e.Smooth varies v) :
    (slopeBy q e).Smooth varies v ∧
      HasDerivAt (fun t => e.eval (Function.update v q t)) ((slopeBy q e).eval v) (v q) := by
  have absent {e : Formula ν} (outside : q ∉ e.atoms) : (slopeBy q e).Smooth varies v ∧
      HasDerivAt (fun t => e.eval (Function.update v q t)) ((slopeBy q e).eval v) (v q) := by
    rw [slopeBy_eq_zero outside, eval_zero]
    refine ⟨smooth_ofRat varies v 0, ?_⟩
    have constant : (fun t => e.eval (Function.update v q t)) = fun _ => e.eval v := by
      funext t
      exact eval_congr fun r member =>
        Function.update_of_ne (fun same : r = q => outside (same ▸ member)) t v
    rw [constant]
    exact hasDerivAt_const _ _
  have here : Function.update v q (v q) = v := Function.update_eq_self q v
  have power {a b : Formula ν} (base : a.Smooth varies v) (exponent : b.Smooth varies v)
      (whole : (pow a b).Smooth varies v)
      (apart : (∃ n : ℕ, b.fraction? = some (n : ℚ)) ∨ a.eval v ≠ 0) (outside : q ∉ b.atoms)
      (left : (slopeBy q a).Smooth varies v ∧
        HasDerivAt (fun t => a.eval (Function.update v q t)) ((slopeBy q a).eval v) (v q)) :
      (slopeBy q (pow a b)).Smooth varies v ∧
        HasDerivAt (fun t => (pow a b).eval (Function.update v q t)) ((slopeBy q (pow a b)).eval v)
          (v q) := by
    by_cases member : q ∈ a.atoms
    · rw [slopeBy, if_neg outside, if_pos member, eval_times]
      refine ⟨(smooth_powerSlope base exponent whole apart).times left.1, ?_⟩
      have constant : ∀ t, b.eval (Function.update v q t) = b.eval v := fun t =>
        eval_congr fun r inside =>
          Function.update_of_ne (fun same : r = q => outside (same ▸ inside)) t v
      simp only [eval_pow, constant]
      exact hasDerivAt_power (by rw [here]) apart left.2
    · refine absent fun inside => ?_
      rcases List.mem_append.mp inside with base | exponent
      · exact member base
      · exact outside exponent
  induction smooth with
  | fixed fixed _ => exact absent fun member => fixed q member moving
  | var r =>
      by_cases same : r = q
      · subst same
        rw [slopeBy, if_pos rfl, eval_one]
        simp only [eval_var, Function.update_self]
        exact ⟨smooth_ofRat varies v 1, hasDerivAt_id _⟩
      · exact absent fun member => same (List.mem_singleton.mp member).symm
  | add _ _ left right =>
      rw [slopeBy, eval_plus]
      exact ⟨left.1.plus right.1, left.2.add right.2⟩
  | mul a b left right =>
      rw [slopeBy, eval_plus, eval_times, eval_times]
      refine ⟨(left.1.times b).plus (a.times right.1), ?_⟩
      refine (left.2.mul right.2).congr_deriv ?_
      simp only [here]
  | @positive a b base exponent above left right =>
      by_cases member : q ∈ b.atoms
      · rw [slopeBy, if_pos member]
        refine ⟨.mul (.positive base exponent above) ((right.1.times (.app (f := .log) base above)).plus
          (left.1.times (.mul exponent (smooth_inverse base above.ne')))), ?_⟩
        simp only [eval_pow]
        refine (left.2.rpow right.2 (by rw [here]; exact above)).congr_deriv ?_
        rw [here, Real.rpow_sub_one above.ne']
        simp only [eval_mul, eval_plus, eval_times, eval_pow, eval_inverse]
        show _ = a.eval v ^ b.eval v * ((slopeBy q b).eval v * Real.log (a.eval v) + _)
        ring
      · exact power base exponent (.positive base exponent above) (Or.inr above.ne') member left
  | @whole a b n base fixed defined value nonzero left =>
      exact power base (.fixed fixed defined) (.whole n base fixed defined value nonzero)
        (Or.inr nonzero) (fun member => fixed q member moving) left
  | @literal a b n base fraction left =>
      have closed : b.Fixed varies := fixed_of_fraction? fraction varies
      exact power base (.fixed closed (defined_of_fraction? v fraction)) (.literal n base fraction)
        (Or.inl ⟨n, fraction⟩) (fun member => closed q member moving) left
  | @app f x inside apart inner =>
      by_cases member : q ∈ x.atoms
      · rw [slopeBy, if_pos member, eval_times]
        refine ⟨(smooth_slopeOf inside apart).times inner.1, ?_⟩
        exact hasDerivAt_elementary (by rw [here]) (by rw [here]; exact apart) inner.2
      · exact absent member

end Formula

namespace Calculus

open Formula

variable {ν : Type} [DecidableEq ν]

/-- Nothing is simplified but zeros and ones, and nothing is shared. -/
def textbook : Calculus ν where
  normal := id
  add := plus
  mul := times
  derivative := slopeBy
  expand := id
  share := fun _ => .apart

theorem textbook_lawful : (textbook : Calculus ν).Lawful where
  normal := .refl
  add := plus_refines
  mul := times_refines
  expand := .refl
  derivative_atoms := fun _ _ _ member => atoms_slopeBy member
  derivative_smooth := fun moving smooth => (slopeBy_spec moving smooth).1
  hasDerivAt := fun moving smooth => (slopeBy_spec moving smooth).2
  share := fun _ _ _ => List.forall₂_same.mpr fun _ _ _ => rfl

theorem textbook_sparse : (textbook : Calculus ν).Sparse := by
  intro q e absent
  exact congrArg Formula.isZero (slopeBy_eq_zero absent)

end Calculus

end Galerkin
