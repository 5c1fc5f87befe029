import Mathlib
import Galerkin.Proofs.Expr.Meaning

/-!
Products of factors: their order does not matter, a product nested in a product may be multiplied in, a
factor without free indices comes out, and a sum may be multiplied out.
-/

namespace Galerkin

open Usage

namespace Usage

theorem perm_twice {a b : List Index} (same : a.Perm b) : (twice a).Perm (twice b) := by
  rw [List.perm_ext_iff_of_nodup (nodup_twice a) (nodup_twice b)]
  intro i
  rw [mem_twice, mem_twice, same.count_eq]

theorem perm_once {a b : List Index} (same : a.Perm b) : (once a).Perm (once b) := by
  rw [List.perm_ext_iff_of_nodup (nodup_once a) (nodup_once b)]
  intro i
  rw [mem_once, mem_once, same.count_eq]

theorem count_once (is : List Index) (i : Index) :
    (once is).count i = if is.count i = 1 then 1 else 0 := by
  by_cases single : is.count i = 1
  · rw [if_pos single]
    exact List.count_eq_one_of_mem (nodup_once is) (mem_once.mpr single)
  · rw [if_neg single]
    exact List.count_eq_zero.mpr fun member => single (mem_once.mp member)

/-- The sums of a product with a nested product are its own and those of the nested one. -/
theorem twice_append_once {a b : List Index} (small : ∀ i, (a ++ b).count i ≤ 2) :
    (twice (a ++ b)).Perm (twice (a ++ once b) ++ twice b) := by
  have apart : (twice (a ++ once b)).Disjoint (twice b) := by
    intro i outer inner
    have limit := small i
    rw [mem_twice, List.count_append, count_once] at outer
    rw [mem_twice] at inner
    rw [List.count_append] at limit
    split at outer <;> omega
  have nodup := List.Nodup.append (nodup_twice (a ++ once b)) (nodup_twice b) apart
  rw [List.perm_ext_iff_of_nodup (nodup_twice _) nodup]
  intro i
  have limit := small i
  rw [List.mem_append, mem_twice, mem_twice, mem_twice, List.count_append, List.count_append,
    count_once]
  rw [List.count_append] at limit
  split <;> omega

end Usage

namespace Expr

theorem exposed_append (a b : List Expr) : exposed (a ++ b) = exposed a ++ exposed b :=
  List.flatMap_append

theorem exposed_singleton (e : Expr) : exposed [e] = freeIn false e := List.flatMap_singleton _ _

theorem exposed_perm {a b : List Expr} (same : a.Perm b) : (exposed a).Perm (exposed b) :=
  same.flatMap_right _

theorem freeIn_eq_once (e : Expr) : freeIn false e = once (exposed e.factors) := by
  have single (leaf : e.factors = [e]) : freeIn false e = once (exposed e.factors) := by
    rw [leaf, exposed_singleton, once_of_nodup (nodup_freeIn e)]
  cases e with
  | prod a b =>
      rw [← freeIn_factors]
      rfl
  | _ => exact single rfl

theorem balanced_factors {e : Expr} : Balanced true e ↔ ∀ f ∈ e.factors, Balanced false f := by
  induction e with
  | prod a b iha ihb =>
      rw [factors, List.forall_mem_append, ← iha, ← ihb]
      simp [Balanced]
  | _ => simp [factors, Balanced]

/-- A product is balanced when its factors are and expose no index more than twice. -/
theorem balanced_iff {e : Expr} :
    Balanced false e ↔ (∀ f ∈ e.factors, Balanced false f) ∧ ∀ i, (exposed e.factors).count i ≤ 2 := by
  have single (leaf : e.factors = [e]) :
      Balanced false e ↔
        (∀ f ∈ e.factors, Balanced false f) ∧ ∀ i, (exposed e.factors).count i ≤ 2 := by
    rw [leaf, exposed_singleton, List.forall_mem_singleton, iff_self_and]
    intro _ i
    exact le_trans (List.nodup_iff_count_le_one.mp (nodup_freeIn e) i) (by omega)
  cases e with
  | prod a b =>
      rw [← balanced_factors, ← freeIn_factors]
      simp [Balanced, freeIn, and_assoc]
  | _ => exact single rfl

variable {a b : Expr}

theorem mem_freeIn_prod {i : Index} :
    i ∈ freeIn false (.prod a b) ↔ (exposed a.factors).count i + (exposed b.factors).count i = 1 := by
  rw [freeIn_eq_once, mem_once, factors, exposed_append, List.count_append]

theorem count_le_of_balanced (balanced : Balanced false (.prod a b)) (i : Index) :
    (exposed a.factors).count i + (exposed b.factors).count i ≤ 2 := by
  have small := (balanced_iff.mp balanced).2 i
  rwa [factors, exposed_append, List.count_append] at small

theorem balanced_parts (balanced : Balanced false (.prod a b)) : Balanced false a ∧ Balanced false b := by
  have each := (balanced_iff.mp balanced).1
  rw [factors, List.forall_mem_append] at each
  refine ⟨balanced_iff.mpr ⟨each.1, fun i => ?_⟩, balanced_iff.mpr ⟨each.2, fun i => ?_⟩⟩ <;>
  · have small := count_le_of_balanced balanced i
    omega

theorem balanced_comm (balanced : Balanced false (.prod a b)) : Balanced false (.prod b a) := by
  refine ⟨balanced.2.1, balanced.1, fun _ i => ?_⟩
  rw [freeIn_factors, freeIn_factors, List.count_append, add_comm]
  exact count_le_of_balanced balanced i

theorem freeIn_prod_closed (balanced : Balanced false (.prod a b)) (closed : freeIn false a = []) (i : Index) :
    i ∈ freeIn false (.prod a b) ↔ i ∈ freeIn false b := by
  have small := count_le_of_balanced balanced i
  have none : i ∉ freeIn false a := by
    rw [closed]
    exact List.not_mem_nil
  rw [freeIn_eq_once, mem_once] at none
  rw [mem_freeIn_prod, freeIn_eq_once, mem_once]
  omega

variable {K : Type} [ExactNumbers K] {dim : Nat} {v : Quantity → K}

theorem dependsOn_factors {fs : List Expr} (balanced : ∀ f ∈ fs, Balanced false f) :
    DependsOn (fun ρ => (fs.map (meaning dim v · ρ)).prod) {i | i ∈ exposed fs} := by
  intro ρ σ agree
  have same : fs.map (meaning dim v · ρ) = fs.map (meaning dim v · σ) := by
    apply List.map_congr_left
    intro f member
    apply meaning_congr (balanced f member)
    intro i free
    exact agree i (List.mem_flatMap.mpr ⟨f, member, free⟩)
  simp only [same]

theorem productMeaning_perm {fs gs : List Expr} (same : fs.Perm gs) (ρ : Index → Nat) :
    productMeaning dim v fs ρ = productMeaning dim v gs ρ := by
  rw [productMeaning, sumOver_perm (perm_twice (exposed_perm same))]
  apply sumOver_congr
  intro σ _
  exact (same.map _).prod_eq

/-- A product nested in a product may be multiplied in. -/
theorem productMeaning_nested {fs : List Expr} {e : Expr} (balanced : ∀ f ∈ fs, Balanced false f)
    (small : ∀ i, (exposed (fs ++ e.factors)).count i ≤ 2) (ρ : Index → Nat) :
    productMeaning dim v (fs ++ e.factors) ρ = productMeaning dim v (fs ++ [e]) ρ := by
  rw [exposed_append] at small
  rw [productMeaning, exposed_append, sumOver_perm (twice_append_once small), sumOver_append,
    ← freeIn_eq_once, productMeaning, exposed_append, exposed_singleton]
  apply sumOver_congr
  intro σ _
  calc sumOver dim (twice (exposed e.factors)) σ
        (fun ρ => ((fs ++ e.factors).map (meaning dim v · ρ)).prod)
      = sumOver dim (twice (exposed e.factors)) σ fun ρ =>
          (fs.map (meaning dim v · ρ)).prod * (e.factors.map (meaning dim v · ρ)).prod := by
        simp only [List.map_append, List.prod_append]
    _ = (fs.map (meaning dim v · σ)).prod * productMeaning dim v e.factors σ := by
        apply sumOver_mul_left (dependsOn_factors balanced)
        intro i double exposes
        have positive := List.count_pos_iff.mpr exposes
        have limit := small i
        rw [mem_twice] at double
        rw [List.count_append] at limit
        omega
    _ = ((fs ++ [e]).map (meaning dim v · σ)).prod := by
        rw [← meaning_eq_productMeaning, List.map_append, List.prod_append, List.map_singleton,
          List.prod_singleton]

/-- A factor without free indices comes out of a product. -/
theorem productMeaning_closed {fs : List Expr} {e : Expr} (balanced : Balanced false e)
    (closed : freeIn false e = []) (ρ : Index → Nat) :
    productMeaning dim v (fs ++ [e]) ρ = meaning dim v e ρ * productMeaning dim v fs ρ := by
  rw [productMeaning, exposed_append, exposed_singleton, closed, List.append_nil]
  simp only [List.map_append, List.prod_append, List.map_singleton, List.prod_singleton, mul_comm _
    (meaning dim v e _)]
  have fixed : DependsOn (meaning dim v e) ∅ := fun σ τ _ =>
    meaning_congr balanced (by simp [closed])
  exact sumOver_mul_left fixed (by simp)

/-- The first factor of a product as a single one behind the others. -/
theorem meaning_prod (balanced : Balanced false (.prod a b)) (ρ : Index → Nat) :
    meaning dim v (.prod a b) ρ = productMeaning dim v (b.factors ++ [a]) ρ := by
  have swapped := balanced_iff.mp (balanced_comm balanced)
  rw [factors, List.forall_mem_append] at swapped
  rw [meaning_eq_productMeaning, factors, productMeaning_perm List.perm_append_comm,
    productMeaning_nested swapped.1.1 swapped.2]

theorem meaning_prod_closed (balanced : Balanced false (.prod a b)) (closed : freeIn false a = []) (ρ : Index → Nat) :
    meaning dim v (.prod a b) ρ = meaning dim v a ρ * meaning dim v b ρ := by
  rw [meaning_prod balanced, productMeaning_closed (balanced_parts balanced).1 closed, ← meaning_eq_productMeaning]

theorem sumOver_sum (is : List Index) (ρ : Index → Nat) (ts : List Expr)
    (f : Expr → (Index → Nat) → K) :
    sumOver dim is ρ (fun σ => (ts.map (f · σ)).sum) = (ts.map fun t => sumOver dim is ρ (f t)).sum := by
  induction ts with
  | nil => exact sumOver_zero is ρ
  | cons head tail ih =>
      simp only [List.map_cons, List.sum_cons]
      rw [sumOver_add, ih]

/-- A sum with the same free indices as its terms may be multiplied out. -/
theorem productMeaning_sum {fs ts : List Expr} {e : Expr}
    (same : ∀ t ∈ ts, ∀ i, i ∈ freeIn false t ↔ i ∈ freeIn false e)
    (total : ∀ ρ, (ts.map (meaning dim v · ρ)).sum = meaning dim v e ρ) (ρ : Index → Nat) :
    productMeaning dim v (fs ++ [e]) ρ = (ts.map fun t => productMeaning dim v (fs ++ [t]) ρ).sum := by
  have alike (t : Expr) (member : t ∈ ts) :
      productMeaning dim v (fs ++ [t]) ρ = sumOver dim (twice (exposed (fs ++ [e]))) ρ fun σ =>
        ((fs ++ [t]).map (meaning dim v · σ)).prod := by
    rw [productMeaning, exposed_append, exposed_append, exposed_singleton, exposed_singleton]
    apply sumOver_perm
    apply perm_twice
    apply List.Perm.append_left
    exact (List.perm_ext_iff_of_nodup (nodup_freeIn t) (nodup_freeIn e)).mpr (same t member)
  rw [List.map_congr_left alike, ← sumOver_sum, productMeaning]
  apply sumOver_congr
  intro σ _
  simp only [List.map_append, List.prod_append, List.map_singleton, List.prod_singleton]
  rw [List.sum_map_mul_left, total]

end Expr

end Galerkin
