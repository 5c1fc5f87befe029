import Mathlib
import Galerkin.Expansion
import Galerkin.Index
import Galerkin.Proofs.Exact
import Galerkin.Proofs.Expr.Scoping
import Galerkin.Proofs.Formula.Evaluation

/-!
Sums over the values of indices. Their order does not matter, and what does not depend on the indices
comes out of the sum.

What an expression stands for, read directly. Every sum gives its index a new value, whatever value the
index had outside.
-/

namespace Galerkin

/-! ### Sums over the values of indices -/

section Summation

variable {K : Type}

/-- The sum over all values of some indices, each in place of the value its index had. -/
def sumOver [AddCommMonoid K] (dim : Nat) :
    List Index → (Index → Nat) → ((Index → Nat) → K) → K
  | [], ρ, f => f ρ
  | i :: rest, ρ, f => ∑ c ∈ Finset.range dim, sumOver dim rest (Function.update ρ i c) f

section Additive

variable [AddCommMonoid K] {dim : Nat}

theorem sumOver_congr {is : List Index} {ρ : Index → Nat} {f g : (Index → Nat) → K}
    (same : ∀ σ, (∀ i, i ∉ is → σ i = ρ i) → f σ = g σ) : sumOver dim is ρ f = sumOver dim is ρ g := by
  induction is generalizing ρ with
  | nil => exact same ρ fun _ _ => rfl
  | cons head tail ih =>
      apply Finset.sum_congr rfl
      intro c _
      apply ih
      intro σ outside
      apply same
      intro i other
      rw [List.mem_cons, not_or] at other
      rw [outside i other.2, Function.update_of_ne other.1]

theorem sumOver_append (is js : List Index) (ρ : Index → Nat) (f : (Index → Nat) → K) :
    sumOver dim (is ++ js) ρ f = sumOver dim is ρ fun σ => sumOver dim js σ f := by
  induction is generalizing ρ with
  | nil => rfl
  | cons head tail ih =>
      apply Finset.sum_congr rfl
      intro c _
      exact ih _

theorem sumOver_perm {is js : List Index} (same : is.Perm js) (ρ : Index → Nat)
    (f : (Index → Nat) → K) : sumOver dim is ρ f = sumOver dim js ρ f := by
  induction same generalizing ρ with
  | nil => rfl
  | cons i _ ih =>
      apply Finset.sum_congr rfl
      intro c _
      exact ih _
  | swap i j rest =>
      by_cases equal : i = j
      · rw [equal]
      · simp only [sumOver]
        rw [Finset.sum_comm]
        apply Finset.sum_congr rfl
        intro c _
        apply Finset.sum_congr rfl
        intro d _
        rw [Function.update_comm (Ne.symm equal)]
  | trans _ _ first second => exact (first ρ).trans (second ρ)

theorem sumOver_add (is : List Index) (ρ : Index → Nat) (f g : (Index → Nat) → K) :
    sumOver dim is ρ (fun σ => f σ + g σ) = sumOver dim is ρ f + sumOver dim is ρ g := by
  induction is generalizing ρ with
  | nil => rfl
  | cons head tail ih =>
      simp only [sumOver, ih]
      exact Finset.sum_add_distrib

theorem sumOver_zero (is : List Index) (ρ : Index → Nat) :
    sumOver dim is ρ (fun _ => (0 : K)) = 0 := by
  induction is generalizing ρ with
  | nil => rfl
  | cons head tail ih =>
      simp only [sumOver, ih]
      exact Finset.sum_const_zero

theorem sumOver_dependsOn {is : List Index} {inner outer : Set Index} {f : (Index → Nat) → K}
    (fixed : DependsOn f inner) (covered : ∀ i ∈ inner, i ∈ is ∨ i ∈ outer) :
    DependsOn (fun ρ => sumOver dim is ρ f) outer := by
  induction is generalizing outer with
  | nil =>
      intro ρ σ agree
      apply fixed
      intro i member
      rcases covered i member with impossible | inside
      · cases impossible
      · exact agree i inside
  | cons head tail ih =>
      intro ρ σ agree
      apply Finset.sum_congr rfl
      intro c _
      have wider : DependsOn (fun ρ => sumOver dim tail ρ f) (insert head outer) := by
        apply ih
        intro i member
        rcases covered i member with listed | inside
        · rcases List.mem_cons.mp listed with rfl | later
          · exact Or.inr (Set.mem_insert _ _)
          · exact Or.inl later
        · exact Or.inr (Set.mem_insert_of_mem _ inside)
      apply wider
      intro i member
      by_cases same : i = head
      · rw [same, Function.update_self, Function.update_self]
      · rw [Function.update_of_ne same, Function.update_of_ne same]
        exact agree i ((Set.mem_insert_iff.mp member).resolve_left same)

end Additive

theorem sumOver_mul_left [CommSemiring K] {dim : Nat} {is : List Index} {ρ : Index → Nat}
    {outside : Set Index} {f g : (Index → Nat) → K} (fixed : DependsOn f outside)
    (apart : ∀ i ∈ is, i ∉ outside) :
    sumOver dim is ρ (fun σ => f σ * g σ) = f ρ * sumOver dim is ρ g := by
  induction is generalizing ρ with
  | nil => rfl
  | cons head tail ih =>
      simp only [sumOver]
      rw [Finset.mul_sum]
      apply Finset.sum_congr rfl
      intro c _
      rw [ih fun i member => apart i (List.mem_cons_of_mem head member)]
      congr 1
      apply fixed
      intro i member
      have other : i ≠ head := by
        rintro rfl
        exact apart i List.mem_cons_self member
      exact Function.update_of_ne other c ρ

end Summation

/-! ### Meanings -/

open Usage

/-- The quantity that a field access stands for once its indices have values. -/
def Quantity.ofAccess (f : Field) (comps : List Nat) (axis : Option Nat) (t : Nat) : Quantity :=
  if f.external then .external f.name comps axis else .unknown f.name comps t axis

/-- The field has a place in the layouts. -/
def Setting.Knows (s : Setting) (f : Field) : Prop :=
  if f.external then s.external.contains f.name else s.internal.contains f.name

theorem Quantity.ofField_eq_ok {s : Setting} {f : Field} (known : s.Knows f) (comps : List Nat)
    (axis : Option Nat) (t : Nat) :
    Quantity.ofField s.internal s.external f comps axis t = .ok (Quantity.ofAccess f comps axis t) := by
  unfold Setting.Knows at known
  unfold Quantity.ofField Quantity.ofAccess
  by_cases outer : f.external
  · rw [if_pos outer] at known
    rw [if_pos outer, if_pos known, if_pos outer]
    rfl
  · rw [if_neg outer] at known
    rw [if_neg outer, if_pos known, if_neg outer]
    rfl

namespace Expr

variable {K : Type} [ExactNumbers K] (dim : Nat) (v : Quantity → K)

/-- The value of a node for given values of its free indices; an open product multiplies its factors and
leaves the sums over their common indices to the product it is a factor of. -/
def meaningIn (asFactor : Bool) : Expr → (Index → Nat) → K
  | const n, _ => n.value
  | param name, _ => v (.param name)
  | field f comps derivs t, ρ =>
    sumOver dim (twice (comps ++ derivs)) ρ fun ρ =>
      v (Quantity.ofAccess f (comps.map ρ) (derivs.head?.map ρ) t)
  | bare f, _ => v (Quantity.ofAccess f [] none 0)
  | normal i, ρ => v (.normal (ρ i))
  | delta i j, ρ => if i = j then dim else if ρ i = ρ j then 1 else 0
  | sum a b, ρ => meaningIn false a ρ + meaningIn false b ρ
  | prod a b, ρ =>
    if asFactor then meaningIn true a ρ * meaningIn true b ρ
    else sumOver dim (twice (freeIn true a ++ freeIn true b)) ρ fun ρ =>
      meaningIn true a ρ * meaningIn true b ρ
  | quot a b, ρ => meaningIn false a ρ / meaningIn false b ρ
  | power a b, ρ => Scalar.pow (meaningIn false a ρ) (meaningIn false b ρ)
  | apply f x, ρ => f.value (meaningIn false x ρ)
  | pairing a b, ρ =>
    sumOver dim (freeIn false a) ρ fun ρ => meaningIn false a ρ * meaningIn false b ρ

/-- The value of an expression for given values of its free indices. -/
def meaning (e : Expr) (ρ : Index → Nat) : K := meaningIn dim v false e ρ

/-- The factors of a product multiplied and summed over the indices that occur twice among them. -/
def productMeaning (fs : List Expr) (ρ : Index → Nat) : K :=
  sumOver dim (twice (exposed fs)) ρ fun ρ => (fs.map (meaning dim v · ρ)).prod

variable {dim v}

theorem meaningIn_factors (e : Expr) (ρ : Index → Nat) :
    meaningIn dim v true e ρ = (e.factors.map (meaning dim v · ρ)).prod := by
  induction e with
  | prod a b iha ihb =>
      rw [factors, List.map_append, List.prod_append, ← iha, ← ihb]
      rfl
  | _ => simp [factors, meaning, meaningIn]

/-- A product sums every index that occurs twice among what its factors leave free. -/
theorem meaning_eq_productMeaning (e : Expr) (ρ : Index → Nat) :
    meaning dim v e ρ = productMeaning dim v e.factors ρ := by
  have single (leaf : e.factors = [e]) : meaning dim v e ρ = productMeaning dim v e.factors ρ := by
    rw [leaf, productMeaning, exposed, List.flatMap_singleton, twice_of_nodup (nodup_freeIn e)]
    simp [sumOver]
  cases e with
  | prod a b =>
      rw [productMeaning, ← freeIn_factors]
      refine sumOver_congr fun σ _ => ?_
      rw [factors, List.map_append, List.prod_append, ← meaningIn_factors, ← meaningIn_factors]
  | _ => exact single rfl

/-- The scopes of a node agree and use no index more than twice. -/
def Balanced (asFactor : Bool) : Expr → Prop
  | field _ comps derivs _ => ∀ i, (comps ++ derivs).count i ≤ 2
  | sum a b =>
    Balanced false a ∧ Balanced false b ∧ ∀ i, i ∈ freeIn false a ↔ i ∈ freeIn false b
  | prod a b =>
    Balanced true a ∧ Balanced true b ∧
      (asFactor = false → ∀ i, (freeIn true a ++ freeIn true b).count i ≤ 2)
  | quot a b => Balanced false a ∧ Balanced false b ∧ freeIn false b = []
  | power a b => Balanced false a ∧ Balanced false b ∧ freeIn false a = [] ∧ freeIn false b = []
  | apply _ x => Balanced false x ∧ freeIn false x = []
  | pairing a b =>
    Balanced false a ∧ Balanced false b ∧ ∀ i, i ∈ freeIn false a ↔ i ∈ freeIn false b
  | _ => True

theorem Scoped.balanced {asFactor : Bool} {e : Expr} (accepted : Scoped asFactor e) :
    Balanced asFactor e := by
  induction e generalizing asFactor with
  | field f comps derivs t => exact accepted.2.2.2.2
  | sum a b iha ihb =>
      obtain ⟨left, right, same, _⟩ := accepted
      exact ⟨iha left, ihb right, same⟩
  | prod a b iha ihb =>
      obtain ⟨left, right, closed⟩ := accepted
      exact ⟨iha left, ihb right, fun whole => (closed whole).1⟩
  | quot a b iha ihb =>
      obtain ⟨left, right, closed, _⟩ := accepted
      exact ⟨iha left, ihb right, closed⟩
  | power a b iha ihb =>
      obtain ⟨left, right, closed⟩ := accepted
      exact ⟨iha left, ihb right, closed⟩
  | apply f x ih => exact ⟨ih accepted.1, accepted.2⟩
  | pairing a b iha ihb =>
      obtain ⟨left, right, same, _⟩ := accepted
      exact ⟨iha left, ihb right, same⟩
  | _ => trivial

omit [ExactNumbers K] in
theorem dependsOn_access (f : Field) (comps derivs : List Index) (t : Nat) :
    DependsOn (fun ρ => v (Quantity.ofAccess f (comps.map ρ) (derivs.head?.map ρ) t))
      {i | i ∈ comps ++ derivs} := by
  intro ρ σ agree
  have components : comps.map ρ = comps.map σ :=
    List.map_congr_left fun i member => agree i (List.mem_append_left _ member)
  have axis : derivs.head?.map ρ = derivs.head?.map σ := by
    cases derivs with
    | nil => rfl
    | cons i rest => exact congrArg some (agree i (by simp))
  simp only [components, axis]

/-- A value depends on the values of the free indices only. -/
theorem Balanced.dependsOn {asFactor : Bool} {e : Expr} (balanced : Balanced asFactor e) :
    DependsOn (meaningIn dim v asFactor e) {i | i ∈ freeIn asFactor e} := by
  induction e generalizing asFactor with
  | const n => intro ρ σ _; rfl
  | param name => intro ρ σ _; rfl
  | bare f => intro ρ σ _; rfl
  | normal i =>
      intro ρ σ agree
      simp only [meaningIn, agree i (List.mem_singleton_self i)]
  | delta i j =>
      intro ρ σ agree
      by_cases same : i = j
      · simp only [meaningIn, if_pos same]
      · have first : ρ i = σ i := agree i (by simp [freeIn, same])
        have second : ρ j = σ j := agree j (by simp [freeIn, same])
        simp only [meaningIn, if_neg same, first, second]
  | field f comps derivs t =>
      exact sumOver_dependsOn (dependsOn_access f comps derivs t) fun i member =>
        mem_twice_or_once balanced member
  | sum a b iha ihb =>
      obtain ⟨left, right, same⟩ := balanced
      intro ρ σ agree
      have first := iha left agree
      have second := ihb right fun i member => agree i ((same i).mpr member)
      simp only [meaningIn, first, second]
  | prod a b iha ihb =>
      obtain ⟨left, right, small⟩ := balanced
      have product : DependsOn (fun ρ => meaningIn dim v true a ρ * meaningIn dim v true b ρ)
          {i | i ∈ freeIn true a ++ freeIn true b} := by
        intro ρ σ agree
        have first := iha left fun i member => agree i (List.mem_append_left _ member)
        have second := ihb right fun i member => agree i (List.mem_append_right _ member)
        simp only [first, second]
      cases asFactor with
      | true => exact product
      | false => exact sumOver_dependsOn product fun i member => mem_twice_or_once (small rfl) member
  | quot a b iha ihb =>
      obtain ⟨left, right, closed⟩ := balanced
      intro ρ σ agree
      have first := iha left agree
      have second := ihb right (x := ρ) (y := σ) (by simp [closed])
      simp only [meaningIn, first, second]
  | power a b iha ihb =>
      obtain ⟨left, right, base, exponent⟩ := balanced
      intro ρ σ _
      have first := iha left (x := ρ) (y := σ) (by simp [base])
      have second := ihb right (x := ρ) (y := σ) (by simp [exponent])
      simp only [meaningIn, first, second]
  | apply f x ih =>
      obtain ⟨inside, closed⟩ := balanced
      intro ρ σ _
      have value := ih inside (x := ρ) (y := σ) (by simp [closed])
      simp only [meaningIn, value]
  | pairing a b iha ihb =>
      obtain ⟨left, right, same⟩ := balanced
      have product : DependsOn (fun ρ => meaningIn dim v false a ρ * meaningIn dim v false b ρ)
          {i | i ∈ freeIn false a} := by
        intro ρ σ agree
        have first := iha left agree
        have second := ihb right fun i member => agree i ((same i).mpr member)
        simp only [first, second]
      exact sumOver_dependsOn product fun i member => Or.inl member

/-- Where its free indices have the same values, an expression has the same value. -/
theorem meaning_congr {e : Expr} (balanced : Balanced false e) {ρ σ : Index → Nat}
    (agree : ∀ i ∈ freeIn false e, ρ i = σ i) : meaning dim v e ρ = meaning dim v e σ :=
  balanced.dependsOn agree

end Expr

end Galerkin
