import Mathlib
import Galerkin.Proofs.Expr.Renaming
import Galerkin.Proofs.WeakForm.Folding

/-!
Which terms of a weak form are accepted: products in which one factor is a pairing and the others make up a scalar
coefficient, and such products divided by scalars.
-/

namespace Galerkin

open Usage Galerkin.Expr

namespace Expr

/-! ### Scalar products -/

theorem Multipliable.scoped {e : Expr} (whole : Multipliable e.factors) : Scoped false e := by
  cases e with
  | prod a b =>
      have exposes : freeIn true a ++ freeIn true b = exposed (prod a b).factors := freeIn_factors (prod a b)
      have sums : summedIn true a ++ summedIn true b = (prod a b).factors.flatMap (summedIn false) :=
        summedIn_factors (prod a b)
      have inside : Scoped true (prod a b) := scoped_factors.mpr whole.each
      refine ⟨inside.1, inside.2.1, fun _ => ?_⟩
      rw [exposes, sums]
      refine ⟨whole.small, fun i inner outer => ?_⟩
      obtain ⟨fac, member, summed⟩ := List.mem_flatMap.mp inner
      exact whole.apart fac member i summed outer
  | _ => exact whole.each _ (List.mem_singleton_self _)

/-- Factors whose product is accepted and leaves no index free. -/
structure ClosedFactors (fs : List Expr) : Prop extends Multipliable fs where
  closed : once (exposed fs) = []

theorem closedFactors_nil : ClosedFactors [] where
  each := List.forall_mem_nil _
  small := fun _ => Nat.zero_le 2
  apart := List.forall_mem_nil _
  closed := rfl

theorem freeIndices_eq_nil {e : Expr} : e.freeIndices = .ok [] ↔ ClosedFactors e.factors := by
  rw [freeIndices_eq_ok, freeIn_eq_once]
  constructor
  · rintro ⟨accepted, closed⟩
    exact ⟨accepted.multipliable, closed⟩
  · rintro ⟨multipliable, closed⟩
    exact ⟨multipliable.scoped, closed⟩

variable {fs gs : List Expr}

theorem once_eq_nil {is : List Index} : once is = [] ↔ ∀ i, is.count i ≠ 1 := by
  simp only [List.eq_nil_iff_forall_not_mem, mem_once, ne_eq]

theorem ClosedFactors.perm (product : ClosedFactors fs) (same : fs.Perm gs) : ClosedFactors gs where
  each := fun fac member => product.each fac (same.symm.subset member)
  small := fun i => ((exposed_perm same).count_eq i).symm.le.trans (product.small i)
  apart := fun fac member i summed free =>
    product.apart fac (same.symm.subset member) i summed ((exposed_perm same).symm.subset free)
  closed := by
    rw [once_eq_nil]
    intro i
    rw [← (exposed_perm same).count_eq]
    exact once_eq_nil.mp product.closed i

theorem flatMap_indices_factors (e : Expr) : e.factors.flatMap indices = e.indices := by
  induction e with
  | prod a b iha ihb => rw [factors, List.flatMap_append, iha, ihb, indices]
  | _ => exact List.flatMap_singleton _ _

theorem exposed_subset_indices : exposed fs ⊆ fs.flatMap indices := by
  intro i member
  obtain ⟨fac, factor, free⟩ := List.mem_flatMap.mp member
  exact List.mem_flatMap.mpr ⟨fac, factor, mem_indices_of_mem_freeIn free⟩

/-- Scalar products of factors without a common index make up one scalar product. -/
theorem ClosedFactors.append (first : ClosedFactors fs) (second : ClosedFactors gs)
    (distinct : (fs.flatMap indices).Disjoint (gs.flatMap indices)) : ClosedFactors (fs ++ gs) := by
  have single (i : Index) : (exposed fs).count i = 0 ∨ (exposed gs).count i = 0 := by
    by_contra both
    rw [not_or, List.count_eq_zero, List.count_eq_zero, not_not, not_not] at both
    exact distinct (exposed_subset_indices both.1) (exposed_subset_indices both.2)
  have counts (i : Index) : (exposed (fs ++ gs)).count i = (exposed fs).count i + (exposed gs).count i := by
    rw [exposed_append, List.count_append]
  refine ⟨⟨List.forall_mem_append.mpr ⟨first.each, second.each⟩, fun i => ?_, ?_⟩, ?_⟩
  · rw [counts]
    have left := first.small i
    have right := second.small i
    rcases single i with none | none <;> omega
  · simp only [exposed_append, List.mem_append, not_or]
    rintro fac (left | right) i summed
    · have here := List.mem_flatMap.mpr ⟨fac, left, mem_indices_of_mem_summedIn summed⟩
      exact ⟨first.apart fac left i summed, fun other => distinct here (exposed_subset_indices other)⟩
    · have here := List.mem_flatMap.mpr ⟨fac, right, mem_indices_of_mem_summedIn summed⟩
      exact ⟨fun other => distinct (exposed_subset_indices other) here, second.apart fac right i summed⟩
  · rw [once_eq_nil]
    intro i
    rw [counts]
    have left := once_eq_nil.mp first.closed i
    have right := once_eq_nil.mp second.closed i
    rcases single i with none | none <;> omega

theorem hasPairing_factors (e : Expr) : e.hasPairing = e.factors.any hasPairing := by
  induction e with
  | prod a b iha ihb => rw [hasPairing, factors, List.any_append, iha, ihb]
  | _ => simp [factors]

theorem hasPairing_of_mem_factors {e fac : Expr} (plain : e.hasPairing = false) (member : fac ∈ e.factors) :
    fac.hasPairing = false := by
  rw [hasPairing_factors, List.any_eq_false] at plain
  exact Bool.eq_false_iff.mpr (plain fac member)

end Expr

namespace WeakForm

/-! ### Terms -/

/-- Is a term divided by something? -/
def IsQuotient : Expr → Prop
  | .quot _ _ => True
  | _ => False

theorem isPairing?_toExpr (p : Pairing) : isPairing? p.toExpr = some p := rfl

theorem isPairing?_of_plain {e : Expr} (plain : e.hasPairing = false) : isPairing? e = none := by
  cases found : isPairing? e with
  | none => rfl
  | some p =>
      rw [isPairing?_eq_some found] at plain
      cases plain

/-- Factors that are one pairing and a scalar coefficient, in any order. -/
structure ScaledPairing (fs : List Expr) (p : Pairing) (rest : List Expr) : Prop where
  parts : fs.Perm (p.toExpr :: rest)
  plain : ∀ f ∈ rest, f.hasPairing = false
  closed : ClosedFactors rest

theorem freeIndices_productOf? {fs : List Expr} {c : Expr} (atoms : ∀ f ∈ fs, f.factors = [f])
    (product : productOf? fs = some c) : c.freeIndices = .ok [] ↔ ClosedFactors fs := by
  cases fs with
  | nil => cases product
  | cons f rest =>
      cases product
      rw [List.forall_mem_cons] at atoms
      rw [freeIndices_eq_nil, factors_foldl_prod atoms.2, atoms.1, List.singleton_append]

theorem extract_eq_ok_of_prod {a b : Expr} {p : Pairing} {rest : List Expr}
    (scaled : ScaledPairing (Expr.prod a b).factors p rest) :
    ∃ others, extract (.prod a b) = .ok (productOf? others, p) ∧ others.Perm rest := by
  have none : rest.filterMap isPairing? = [] := by
    rw [List.filterMap_eq_nil_iff]
    exact fun f member => isPairing?_of_plain (scaled.plain f member)
  have single : (Expr.prod a b).factors.filterMap isPairing? = [p] := by
    have same := scaled.parts.filterMap isPairing?
    rwa [List.filterMap_cons_some (isPairing?_toExpr p), none, List.perm_singleton] at same
  have others : ((Expr.prod a b).factors.filter fun f => (isPairing? f).isNone).Perm rest := by
    have same := scaled.parts.filter fun f => (isPairing? f).isNone
    have kept : (rest.filter fun f => (isPairing? f).isNone) = rest :=
      List.filter_eq_self.mpr fun f member => by rw [isPairing?_of_plain (scaled.plain f member)]; rfl
    rwa [List.filter_cons_of_neg (by simp [isPairing?_toExpr]), kept] at same
  have plain : ((Expr.prod a b).factors.filter fun f => (isPairing? f).isNone).any hasPairing = false := by
    rw [others.any_eq, List.any_eq_false]
    exact fun f member => Bool.eq_false_iff.mp (scaled.plain f member)
  refine ⟨_, ?_, others⟩
  simp only [extract, single, plain]
  rfl

theorem pairingOf_eq_ok {t : Expr} {p : Pairing} (found : pairingOf t = .ok p) :
    ∃ scale q, extract t = .ok (scale, q) ∧ q.test = p.test ∧ ∀ c, scale = some c → c.freeIndices = .ok [] := by
  obtain ⟨⟨scale, q⟩, first, rest⟩ := Outcome.bind_eq_ok.mp found
  cases scale with
  | none =>
      cases rest
      exact ⟨none, p, first, rfl, fun c absent => by cases absent⟩
  | some c =>
      obtain ⟨free, checked, last⟩ := Outcome.bind_eq_ok.mp rest
      cases free with
      | cons i others => cases last
      | nil =>
          cases last
          refine ⟨some c, q, first, rfl, fun d same => ?_⟩
          cases same
          exact checked

theorem pairingOf_of_extract {t : Expr} {scale : Option Expr} {q : Pairing} (found : extract t = .ok (scale, q))
    (closed : ∀ c, scale = some c → c.freeIndices = .ok []) : ∃ p, pairingOf t = .ok p ∧ p.test = q.test := by
  cases scale with
  | none => exact ⟨q, Outcome.bind_eq_ok.mpr ⟨_, found, rfl⟩, rfl⟩
  | some c =>
      exact ⟨⟨q.test, .prod c q.trial⟩,
        Outcome.bind_eq_ok.mpr ⟨_, found, Outcome.bind_eq_ok.mpr ⟨[], closed c rfl, rfl⟩⟩, rfl⟩

/-- A term that is no quotient is accepted when it is a scalar multiple of one pairing. -/
theorem pairingOf_isOk_iff {t : Expr} (undivided : ¬IsQuotient t) {test : Expr} :
    (∃ p, pairingOf t = .ok p ∧ p.test = test) ↔ ∃ q rest, ScaledPairing t.factors q rest ∧ q.test = test := by
  constructor
  · rintro ⟨p, found, rfl⟩
    obtain ⟨scale, q, first, same, closed⟩ := pairingOf_eq_ok found
    cases t with
    | pairing a b =>
        cases first
        exact ⟨_, [], ⟨.refl _, List.forall_mem_nil _, closedFactors_nil⟩, same⟩
    | prod a b =>
        obtain ⟨rest, parts, rfl, plain⟩ := extract_prod first
        have atoms : ∀ f ∈ rest, f.factors = [f] := fun f member =>
          factors_of_mem_factors (parts.symm.subset (List.mem_append_left _ member))
        refine ⟨q, rest, ⟨parts.trans (List.perm_append_singleton _ _), plain, ?_⟩, same⟩
        cases product : productOf? rest with
        | none =>
            cases rest with
            | nil => exact closedFactors_nil
            | cons f others => cases product
        | some c => exact (freeIndices_productOf? atoms product).mp (closed c product)
    | quot a b => exact absurd trivial undivided
    | _ =>
        simp only [extract] at first
        split at first <;> cases first
  · rintro ⟨q, rest, scaled, rfl⟩
    have alone (leaf : t.factors = [t]) : t = q.toExpr := by
      have parts := scaled.parts
      rw [leaf] at parts
      exact (List.cons.inj (List.perm_singleton.mp parts.symm)).1.symm
    cases t with
    | pairing a b =>
        cases alone rfl
        exact pairingOf_of_extract rfl fun c absent => by cases absent
    | prod a b =>
        obtain ⟨others, found, same⟩ := extract_eq_ok_of_prod scaled
        refine pairingOf_of_extract found fun c product => ?_
        have atoms : ∀ f ∈ others, f.factors = [f] := fun f member =>
          factors_of_mem_factors (scaled.parts.symm.subset (List.mem_cons_of_mem _ (same.subset member)))
        exact (freeIndices_productOf? atoms product).mpr (scaled.closed.perm same.symm)
    | _ => cases alone rfl

end WeakForm

end Galerkin
