import Mathlib
import Galerkin.Proofs.Exact
import Galerkin.TimeScheme

/-!
The rate of a time scheme is an affine function of the new state, unknown by unknown, and the weight of the
scheme is its slope.
-/

namespace Galerkin

namespace TimeScheme

open Linear

/-- Is the share of the new rate positive and at most one? -/
def Proper : TimeScheme ℝ → Prop
  | theta share => 0 < share ∧ share ≤ 1
  | _ => True

theorem share_pos {s : TimeScheme ℝ} (proper : s.Proper) {share : ℝ} (present : s.share? = some share) :
    0 < share := by
  cases s with
  | static => cases present
  | backwardEuler =>
      cases present
      exact one_pos
  | theta given =>
      cases present
      exact proper.1

/-- The rate of one unknown. -/
noncomputable def rateAt (s : TimeScheme ℝ) (dt x xPrev ratePrev : ℝ) : ℝ :=
  match s.share? with
  | none => 0
  | some share =>
    (x - xPrev) / (share * dt) - if share < 1 then (1 - share) / share * ratePrev else 0

theorem rate_ofFn (s : TimeScheme ℝ) {n : Nat} (x xPrev ratePrev : Fin n → ℝ) (dt : ℝ) :
    s.rate (List.ofFn x) (List.ofFn xPrev) (List.ofFn ratePrev) dt =
      List.ofFn fun i => s.rateAt dt (x i) (xPrev i) (ratePrev i) := by
  unfold rate rateAt
  cases s.share? with
  | none => exact List.ext_getElem (by simp [Vec.zeros]) fun i _ _ => by simp [Vec.zeros]
  | some share =>
      by_cases less : share < 1
      · simp only [if_pos less]
        exact List.ext_getElem (by simp [Vec.sub, Vec.scale]) fun i _ _ => by simp [Vec.sub, Vec.scale]
      · simp only [if_neg less]
        exact List.ext_getElem (by simp [Vec.sub]) fun i _ _ => by simp [Vec.sub]

theorem weight_isOk {s : TimeScheme ℝ} (proper : s.Proper) {dt : ℝ} (positive : 0 < dt) :
    ∃ w, s.weight dt = .ok w := by
  unfold weight
  cases present : s.share? with
  | none => exact ⟨0, rfl⟩
  | some share =>
      have product : 0 < share * dt := mul_pos (share_pos proper present) positive
      exact ⟨_, if_neg fun zero => product.ne' ((isZero_iff _).mp zero)⟩

theorem hasDerivAt_rateAt {s : TimeScheme ℝ} {dt w : ℝ} (done : s.weight dt = .ok w) (x xPrev ratePrev : ℝ) :
    HasDerivAt (fun x => s.rateAt dt x xPrev ratePrev) w x := by
  unfold weight at done
  unfold rateAt
  cases present : s.share? with
  | none =>
      rw [present] at done
      cases done
      exact hasDerivAt_const _ _
  | some share =>
      simp only [present] at done
      split at done
      · cases done
      · cases done
        exact (((hasDerivAt_id x).sub_const xPrev).div_const (share * dt)).sub_const _

section Recurrence

variable {K : Type} [ExactNumbers K] {s : TimeScheme K} {θ dt w : K}

/-- A scheme that has a weight for a step does not divide by zero in it. -/
theorem product_ne_zero (shared : s.share? = some θ) (weighed : s.weight dt = .ok w) : θ * dt ≠ 0 := by
  intro zero
  have vanishes : Arithmetic.isZero (θ * dt) = true := by
    rw [Arithmetic.isZero, Bool.and_eq_true, decide_eq_true_eq, decide_eq_true_eq]
    exact le_antisymm_iff.mp zero
  unfold weight at weighed
  simp only [shared, vanishes, ↓reduceIte] at weighed
  cases weighed

/-- The rate of one unknown in a step with the share `θ`. -/
def shareRate (θ dt x xPrev ratePrev : K) : K :=
  (x - xPrev) / (θ * dt) - if θ < 1 then (1 - θ) / θ * ratePrev else 0

theorem sub_eq_of_shareRate (product : θ * dt ≠ 0) (atMost : θ ≤ 1) (x xPrev ratePrev : K) :
    x - xPrev = dt * (θ * shareRate θ dt x xPrev ratePrev + (1 - θ) * ratePrev) := by
  have share : θ ≠ 0 := left_ne_zero_of_mul product
  have size : dt ≠ 0 := right_ne_zero_of_mul product
  unfold shareRate
  rcases atMost.lt_or_eq with less | rfl
  · rw [if_pos less]
    field_simp
    ring
  · rw [if_neg (lt_irrefl 1)]
    field_simp
    ring

theorem rate_eq_shareRate (shared : s.share? = some θ) {x xPrev ratePrev : Vec K}
    (short : x.length ≤ xPrev.length) (same : xPrev.length = ratePrev.length) :
    (s.rate x xPrev ratePrev dt).length = x.length ∧
      ∀ i (inside : i < x.length) (there : i < (s.rate x xPrev ratePrev dt).length),
        (s.rate x xPrev ratePrev dt)[i] = shareRate θ dt x[i] xPrev[i] ratePrev[i] := by
  unfold rate shareRate
  simp only [shared]
  by_cases less : θ < 1
  · simp only [if_pos less]
    refine ⟨by simp [Vec.sub, Vec.scale]; omega, fun i inside there => ?_⟩
    simp [Vec.sub, Vec.scale]
  · simp only [if_neg less]
    refine ⟨by simp [Vec.sub]; omega, fun i inside there => ?_⟩
    simp [Vec.sub]

/-- The state moves by the size of the step times the shares of both rates. -/
theorem sub_eq_of_rate (shared : s.share? = some θ) (atMost : θ ≤ 1) (weighed : s.weight dt = .ok w)
    {x xPrev ratePrev : Vec K} (short : x.length ≤ xPrev.length) (same : xPrev.length = ratePrev.length) :
    Vec.sub x xPrev = Vec.scale dt
      (Vec.add (Vec.scale θ (s.rate x xPrev ratePrev dt)) (Vec.scale (1 - θ) ratePrev)) := by
  obtain ⟨length, entries⟩ : (s.rate x xPrev ratePrev dt).length = x.length ∧ _ :=
    rate_eq_shareRate shared short same
  refine List.ext_getElem (by simp [Vec.sub, Vec.scale, Vec.add, length]; omega) fun i inside there => ?_
  have here : i < x.length := by
    simp [Vec.sub] at inside
    omega
  simp only [Vec.sub, Vec.scale, Vec.add, List.getElem_zipWith, List.getElem_map]
  rw [entries i here (length ▸ here)]
  exact sub_eq_of_shareRate (product_ne_zero shared weighed) atMost _ _ _

end Recurrence

end TimeScheme

end Galerkin
