import Mathlib
import Galerkin.Proofs.Expr.Renaming

/-!
What a renaming does to the value of an expression: where several free indices take one name, the value is
the sum over the values of that name.
-/

namespace Galerkin

open Usage

namespace Usage

variable {ι : Type}

theorem count_flatMap_once_twice {names : ι → List Index} {parts : List ι}
    (small : ∀ i, (parts.flatMap names).count i ≤ 2) (i : Index) :
    (parts.flatMap names).count i =
      (parts.flatMap fun a => once (names a)).count i + 2 * (parts.flatMap fun a => twice (names a)).count i := by
  induction parts with
  | nil => rfl
  | cons a rest ih =>
    simp only [List.flatMap_cons, List.count_append] at small ⊢
    have first : ∀ j, (names a).count j ≤ 2 := fun j => (Nat.le_add_right _ _).trans (small j)
    have others : ∀ j, (rest.flatMap names).count j ≤ 2 := fun j => (Nat.le_add_left _ _).trans (small j)
    rw [ih others, (perm_once_twice first).count_eq, List.count_append, List.count_append]
    omega

/-- An index occurs twice in one part, or once in each of two. -/
theorem perm_twice_flatMap {names : ι → List Index} {parts : List ι}
    (small : ∀ i, (parts.flatMap names).count i ≤ 2) :
    (twice (parts.flatMap names)).Perm
      (twice (parts.flatMap fun a => once (names a)) ++ parts.flatMap fun a => twice (names a)) := by
  rw [List.perm_iff_count]
  intro i
  have limit := small i
  have total := count_flatMap_once_twice small i
  rw [List.count_append, count_twice, count_twice]
  split <;> split <;> omega

/-- An index that occurs twice after a renaming has the name of two, or of one that occurred twice. -/
theorem perm_twice_map {f : Index → Index} {is : List Index} (small : ∀ i, is.count i ≤ 2)
    (apart : Separates f is) :
    (twice (is.map f)).Perm (twice ((once is).map f) ++ (twice is).map f) := by
  rw [List.perm_iff_count]
  intro x
  have total := count_map (f := f) small x
  rw [List.count_append, count_twice, count_twice]
  rcases apart.count x with none | ⟨one, zero⟩ <;> split <;> split <;> omega

end Usage

variable {K : Type}

/-- A sum over renamed indices, of what reads the values of indices through their names. -/
theorem sumOver_map [AddCommMonoid K] {dim : Nat} {f : Index → Index} {is : List Index} {inside : Set Index}
    {g : (Index → Nat) → K} (fixed : DependsOn g inside) (apart : ∀ b ∈ is, ∀ i ∈ inside, f i = f b → i = b)
    (ρ : Index → Nat) :
    sumOver dim (is.map f) ρ (fun σ => g (σ ∘ f)) = sumOver dim is (ρ ∘ f) g := by
  induction is generalizing ρ with
  | nil => rfl
  | cons b rest ih =>
    refine Finset.sum_congr rfl fun c _ => ?_
    rw [ih fun d member => apart d (List.mem_cons_of_mem b member)]
    have sums : DependsOn (fun τ => sumOver dim rest τ g) inside :=
      sumOver_dependsOn fixed fun i member => Or.inr member
    refine sums fun i member => ?_
    by_cases same : i = b
    · rw [same, Function.update_self, Function.comp_apply, Function.update_self]
    · have other : f i ≠ f b := fun merged => same (apart b List.mem_cons_self i member merged)
      rw [Function.update_of_ne same, Function.comp_apply, Function.comp_apply, Function.update_of_ne other]

section Product

variable [CommSemiring K] {dim : Nat} {ι : Type} {names : ι → List Index} {value : ι → (Index → Nat) → K}

theorem dependsOn_prod {parts : List ι} (fixed : ∀ a ∈ parts, DependsOn (value a) {i | i ∈ names a}) :
    DependsOn (fun σ => (parts.map (value · σ)).prod) {i | i ∈ parts.flatMap names} := by
  intro ρ σ agree
  have same : parts.map (value · ρ) = parts.map (value · σ) := by
    refine List.map_congr_left fun a member => fixed a member fun i inside => agree i ?_
    exact List.mem_flatMap.mpr ⟨a, member, inside⟩
  simp only [same]

/-- Sums that concern one factor each go with that factor. -/
theorem sumOver_prod {parts : List ι} (fixed : ∀ a ∈ parts, DependsOn (value a) {i | i ∈ names a})
    (small : ∀ i, (parts.flatMap names).count i ≤ 2) (ρ : Index → Nat) :
    sumOver dim (parts.flatMap fun a => twice (names a)) ρ (fun σ => (parts.map (value · σ)).prod) =
      (parts.map fun a => sumOver dim (twice (names a)) ρ (value a)).prod := by
  induction parts generalizing ρ with
  | nil => rfl
  | cons a rest ih =>
    obtain ⟨first, others⟩ := List.forall_mem_cons.mp fixed
    simp only [List.flatMap_cons, List.count_append] at small
    have later : ∀ i, (rest.flatMap names).count i ≤ 2 := fun i => (Nat.le_add_left _ _).trans (small i)
    -- An index that one side sums occurs twice there, so not on the other side.
    have outside : ∀ i ∈ rest.flatMap fun a => twice (names a), i ∉ names a := by
      intro i inner outer
      have positive := List.count_pos_iff.mpr outer
      have doubled := List.count_pos_iff.mpr inner
      have total := count_flatMap_once_twice later i
      have limit := small i
      omega
    have inside : ∀ i ∈ twice (names a), i ∉ rest.flatMap names := by
      intro i inner outer
      have positive := List.count_pos_iff.mpr outer
      have limit := small i
      rw [mem_twice] at inner
      omega
    have others' : DependsOn (fun σ => sumOver dim (rest.flatMap fun a => twice (names a)) σ
        fun τ => (rest.map (value · τ)).prod) {i | i ∈ rest.flatMap names} :=
      sumOver_dependsOn (dependsOn_prod others) fun i member => Or.inr member
    calc sumOver dim ((a :: rest).flatMap fun a => twice (names a)) ρ
          (fun σ => ((a :: rest).map (value · σ)).prod)
        = sumOver dim (twice (names a)) ρ fun σ =>
            sumOver dim (rest.flatMap fun a => twice (names a)) σ fun τ =>
              value a τ * (rest.map (value · τ)).prod := by
          simp only [List.flatMap_cons, List.map_cons, List.prod_cons, sumOver_append]
      _ = sumOver dim (twice (names a)) ρ fun σ =>
            (sumOver dim (rest.flatMap fun a => twice (names a)) σ fun τ =>
              (rest.map (value · τ)).prod) * value a σ := by
          simp only [sumOver_mul_left first outside, mul_comm]
      _ = ((a :: rest).map fun a => sumOver dim (twice (names a)) ρ (value a)).prod := by
          rw [sumOver_mul_left others' inside, ih others later, List.map_cons, List.prod_cons, mul_comm]

/-- The sums of a product whose factors sum for themselves, done at once. -/
theorem sumOver_twice_flatMap {parts : List ι} (fixed : ∀ a ∈ parts, DependsOn (value a) {i | i ∈ names a})
    (small : ∀ i, (parts.flatMap names).count i ≤ 2) (ρ : Index → Nat) :
    sumOver dim (twice (parts.flatMap names)) ρ (fun σ => (parts.map (value · σ)).prod) =
      sumOver dim (twice (parts.flatMap fun a => once (names a))) ρ fun σ =>
        (parts.map fun a => sumOver dim (twice (names a)) σ (value a)).prod := by
  rw [sumOver_perm (perm_twice_flatMap small), sumOver_append]
  exact sumOver_congr fun σ _ => sumOver_prod fixed small σ

end Product

namespace Expr

variable [ExactNumbers K] {dim : Nat} {v : Quantity → K} {f : Index → Index} {e a b : Expr}

/-- The value of a renamed expression is that of the expression with the values of the new names, summed
over the names that two free indices took. -/
def Substitutes (dim : Nat) (v : Quantity → K) (f : Index → Index) (e : Expr) : Prop :=
  ∀ ρ, meaning dim v (e.rename f) ρ =
    sumOver dim (twice ((freeIn false e).map f)) ρ fun σ => meaning dim v e (σ ∘ f)

/-- No name is taken by more than two free indices. -/
def AtMostPairs (f : Index → Index) (e : Expr) : Prop := ∀ x, ((freeIn false e).map f).count x ≤ 2

theorem perm_freeIn (same : ∀ i, i ∈ freeIn false a ↔ i ∈ freeIn false b) :
    (freeIn false b).Perm (freeIn false a) :=
  (List.perm_ext_iff_of_nodup (nodup_freeIn b) (nodup_freeIn a)).mpr fun i => (same i).symm

theorem AtMostPairs.of_same (pairs : AtMostPairs f a) (same : ∀ i, i ∈ freeIn false a ↔ i ∈ freeIn false b) :
    AtMostPairs f b := by
  intro x
  rw [((perm_freeIn same).map f).count_eq]
  exact pairs x

theorem AtMostPairs.exposed (pairs : AtMostPairs f e) (renamed : Renamed f e) (x : Index) :
    ((exposed e.factors).map f).count x ≤ 2 := by
  have limit := pairs x
  have total := count_map (f := f) renamed.before.multipliable.small x
  rw [freeIn_eq_once] at limit
  rcases renamed.separates.count x with none | ⟨one, zero⟩ <;> omega

theorem AtMostPairs.factor (pairs : AtMostPairs f e) (renamed : Renamed f e) {fac : Expr}
    (member : fac ∈ e.factors) : AtMostPairs f fac := fun x =>
  (((sublist_exposed member).map f).count_le x).trans (pairs.exposed renamed x)

theorem dependsOn_renamed (accepted : Scoped false e) :
    DependsOn (fun σ => meaning dim v e (σ ∘ f)) {x | x ∈ (freeIn false e).map f} := by
  intro ρ σ agree
  exact meaning_congr accepted.balanced fun i free => agree (f i) (List.mem_map_of_mem free)

/-- Renamed factors expose the names that a single one of their free indices took. -/
theorem perm_exposed_rename (renamed : Renamed f e) :
    (exposed (e.factors.map (rename f))).Perm (e.factors.flatMap fun fac => once ((freeIn false fac).map f)) := by
  rw [Expr.exposed, List.flatMap_map]
  refine List.Perm.flatMap_left _ fun fac member => ?_
  rw [List.perm_ext_iff_of_nodup (nodup_freeIn _) (nodup_once _)]
  intro x
  rw [mem_once]
  exact (renamed.factor member).follows.free x

theorem Substitutes.of_factors (renamed : Renamed f e) (pairs : AtMostPairs f e)
    (each : ∀ fac ∈ e.factors, Substitutes dim v f fac) : Substitutes dim v f e := by
  intro ρ
  have product := renamed.before.multipliable
  have fixed : ∀ fac ∈ e.factors, DependsOn (fun σ => meaning dim v fac (σ ∘ f))
      {x | x ∈ (freeIn false fac).map f} := fun fac member => dependsOn_renamed (product.each fac member)
  have names : (e.factors.flatMap fun fac => (freeIn false fac).map f) = (Expr.exposed e.factors).map f :=
    List.map_flatMap.symm
  have small : ∀ x, (e.factors.flatMap fun fac => (freeIn false fac).map f).count x ≤ 2 := by
    rw [names]
    exact pairs.exposed renamed
  have balanced : ∀ fac ∈ e.factors, Balanced false fac := fun fac member => (product.each fac member).balanced
  calc meaning dim v (e.rename f) ρ
      = sumOver dim (twice (Expr.exposed (e.factors.map (rename f)))) ρ fun σ =>
          (e.factors.map fun fac => meaning dim v (fac.rename f) σ).prod := by
        rw [meaning_eq_productMeaning, factors_rename, productMeaning]
        simp only [List.map_map, Function.comp_def]
    _ = sumOver dim (twice (e.factors.flatMap fun fac => once ((freeIn false fac).map f))) ρ fun σ =>
          (e.factors.map fun fac => sumOver dim (twice ((freeIn false fac).map f)) σ fun τ =>
            meaning dim v fac (τ ∘ f)).prod := by
        rw [sumOver_perm (perm_twice (perm_exposed_rename renamed))]
        refine sumOver_congr fun σ _ => ?_
        rw [List.map_congr_left fun fac member => each fac member σ]
    _ = sumOver dim (twice ((Expr.exposed e.factors).map f)) ρ fun σ =>
          (e.factors.map fun fac => meaning dim v fac (σ ∘ f)).prod := by
        rw [← names, sumOver_twice_flatMap fixed small]
    _ = sumOver dim (twice ((freeIn false e).map f)) ρ fun σ =>
          sumOver dim ((twice (Expr.exposed e.factors)).map f) σ fun τ =>
            (e.factors.map fun fac => meaning dim v fac (τ ∘ f)).prod := by
        rw [sumOver_perm (perm_twice_map product.small renamed.separates), sumOver_append, ← freeIn_eq_once]
    _ = sumOver dim (twice ((freeIn false e).map f)) ρ fun σ => meaning dim v e (σ ∘ f) := by
        refine sumOver_congr fun σ _ => ?_
        rw [meaning_eq_productMeaning, productMeaning]
        exact sumOver_map (dependsOn_factors balanced) renamed.separates σ

/-- Nothing is summed anew where no two free indices take one name. -/
theorem Substitutes.of_distinct (distinct : ((freeIn false e).map f).Nodup)
    (value : ∀ ρ, meaning dim v (e.rename f) ρ = meaning dim v e (ρ ∘ f)) : Substitutes dim v f e := by
  intro ρ
  rw [twice_of_nodup distinct]
  exact value ρ

theorem Substitutes.closed (substitutes : Substitutes dim v f e) (closed : freeIn false e = []) (ρ : Index → Nat) :
    meaning dim v (e.rename f) ρ = meaning dim v e (ρ ∘ f) := by
  rw [substitutes ρ, closed]
  rfl

theorem Substitutes.field {g : Field} {comps derivs : List Index} {t : Nat}
    (renamed : Renamed f (.field g comps derivs t)) : Substitutes dim v f (.field g comps derivs t) := by
  intro ρ
  have small : ∀ i, (comps ++ derivs).count i ≤ 2 := renamed.before.2.2.2.2
  calc meaning dim v (.field g (comps.map f) (derivs.map f) t) ρ
      = sumOver dim (twice ((comps ++ derivs).map f)) ρ fun σ =>
          v (Quantity.ofAccess g (comps.map (σ ∘ f)) (derivs.head?.map (σ ∘ f)) t) := by
        rw [List.map_append]
        simp only [meaning, meaningIn, List.map_map, List.head?_map, Option.map_map]
    _ = sumOver dim (twice ((once (comps ++ derivs)).map f)) ρ fun σ =>
          sumOver dim ((twice (comps ++ derivs)).map f) σ fun τ =>
            v (Quantity.ofAccess g (comps.map (τ ∘ f)) (derivs.head?.map (τ ∘ f)) t) := by
        rw [sumOver_perm (perm_twice_map small renamed.apart), sumOver_append]
    _ = sumOver dim (twice ((once (comps ++ derivs)).map f)) ρ fun σ =>
          meaning dim v (.field g comps derivs t) (σ ∘ f) :=
        sumOver_congr fun σ _ => sumOver_map (dependsOn_access g comps derivs t) renamed.apart σ

theorem Substitutes.delta (i j : Index) : Substitutes dim v f (.delta i j) := by
  by_cases same : i = j
  · refine .of_distinct (by simp [freeIn, same]) fun ρ => ?_
    simp [rename, meaning, meaningIn, same]
  · by_cases merged : f i = f j
    · intro ρ
      have names : twice ((freeIn false (Expr.delta i j)).map f) = [f j] := by
        simp [freeIn, same, merged, twice, unique_cons]
      rw [names]
      simp [rename, meaning, meaningIn, same, merged, sumOver]
    · refine .of_distinct (by simp [freeIn, same, merged]) fun ρ => ?_
      simp [rename, meaning, meaningIn, same, merged]

theorem Substitutes.sum (left : Substitutes dim v f a) (right : Substitutes dim v f b)
    (same : ∀ i, i ∈ freeIn false a ↔ i ∈ freeIn false b) : Substitutes dim v f (.sum a b) := by
  intro ρ
  have names := (perm_freeIn same).map f
  calc meaning dim v ((Expr.sum a b).rename f) ρ
      = meaning dim v (a.rename f) ρ + meaning dim v (b.rename f) ρ := rfl
    _ = sumOver dim (twice ((freeIn false a).map f)) ρ (fun σ => meaning dim v a (σ ∘ f)) +
          sumOver dim (twice ((freeIn false a).map f)) ρ fun σ => meaning dim v b (σ ∘ f) := by
        rw [left ρ, right ρ, sumOver_perm (perm_twice names)]
    _ = sumOver dim (twice ((freeIn false a).map f)) ρ fun σ => meaning dim v (.sum a b) (σ ∘ f) :=
        (sumOver_add _ _ _ _).symm

theorem Substitutes.quot (left : Substitutes dim v f a) (right : Substitutes dim v f b)
    (accepted : Scoped false b) (closed : freeIn false b = []) : Substitutes dim v f (.quot a b) := by
  intro ρ
  have fixed : DependsOn (fun σ => (meaning dim v b (σ ∘ f))⁻¹) ∅ := by
    intro σ τ _
    have value : meaning dim v b (σ ∘ f) = meaning dim v b (τ ∘ f) :=
      meaning_congr accepted.balanced (by simp [closed])
    simp only [value]
  calc meaning dim v ((Expr.quot a b).rename f) ρ
      = (meaning dim v b (ρ ∘ f))⁻¹ *
          sumOver dim (twice ((freeIn false a).map f)) ρ fun σ => meaning dim v a (σ ∘ f) := by
        rw [← left ρ, ← right.closed closed ρ, mul_comm, ← div_eq_mul_inv]
        rfl
    _ = sumOver dim (twice ((freeIn false a).map f)) ρ fun σ =>
          (meaning dim v b (σ ∘ f))⁻¹ * meaning dim v a (σ ∘ f) :=
        (sumOver_mul_left fixed (by simp)).symm
    _ = sumOver dim (twice ((freeIn false a).map f)) ρ fun σ => meaning dim v (.quot a b) (σ ∘ f) := by
        simp only [mul_comm _⁻¹, ← div_eq_mul_inv]
        rfl

/-- The indices of a pairing are summed in it, so a renaming keeps them apart. -/
theorem paired_apart (renamed : Renamed f (.pairing a b)) :
    ∀ c ∈ freeIn false a, ∀ i ∈ freeIn false a, f i = f c → i = c := fun c member i inside =>
  renamed.apart c (List.mem_append_right _ member) i (List.mem_append_left _ (mem_indices_of_mem_freeIn inside))

theorem nodup_paired (renamed : Renamed f (.pairing a b)) : ((freeIn false a).map f).Nodup :=
  List.Nodup.map_on (fun i inside c member => paired_apart renamed c member i inside) (nodup_freeIn a)

theorem Substitutes.pairing (renamed : Renamed f (.pairing a b)) (left : Substitutes dim v f a)
    (right : Substitutes dim v f b) : Substitutes dim v f (.pairing a b) := by
  obtain ⟨first, second, same, -⟩ := renamed.before
  have distinct := nodup_paired renamed
  have valueA (σ : Index → Nat) : meaning dim v (a.rename f) σ = meaning dim v a (σ ∘ f) := by
    rw [left σ, twice_of_nodup distinct]
    rfl
  have valueB (σ : Index → Nat) : meaning dim v (b.rename f) σ = meaning dim v b (σ ∘ f) := by
    rw [right σ, twice_of_nodup (((perm_freeIn same).map f).nodup_iff.mpr distinct)]
    rfl
  have names : (freeIn false (a.rename f)).Perm ((freeIn false a).map f) := by
    rw [List.perm_ext_iff_of_nodup (nodup_freeIn _) distinct]
    intro x
    rw [renamed.pairing.1.follows.free x]
    exact ⟨fun one => List.count_pos_iff.mp (by omega), List.count_eq_one_of_mem distinct⟩
  have product : DependsOn (fun σ => meaning dim v a σ * meaning dim v b σ) {i | i ∈ freeIn false a} := by
    intro ρ σ agree
    have valueA : meaning dim v a ρ = meaning dim v a σ := meaning_congr first.balanced agree
    have valueB : meaning dim v b ρ = meaning dim v b σ :=
      meaning_congr second.balanced fun i member => agree i ((same i).mpr member)
    simp only [valueA, valueB]
  refine .of_distinct List.nodup_nil fun ρ => ?_
  calc meaning dim v ((Expr.pairing a b).rename f) ρ
      = sumOver dim (freeIn false (a.rename f)) ρ fun σ =>
          meaning dim v (a.rename f) σ * meaning dim v (b.rename f) σ := rfl
    _ = sumOver dim ((freeIn false a).map f) ρ fun σ => meaning dim v a (σ ∘ f) * meaning dim v b (σ ∘ f) := by
        rw [sumOver_perm names]
        simp only [valueA, valueB]
    _ = meaning dim v (.pairing a b) (ρ ∘ f) := sumOver_map product (paired_apart renamed) ρ

theorem substitutes_factors (e : Expr) :
    ∀ fac ∈ e.factors, Renamed f fac → AtMostPairs f fac → Substitutes dim v f fac := by
  have whole {x : Expr} (ih : ∀ fac ∈ x.factors, Renamed f fac → AtMostPairs f fac → Substitutes dim v f fac)
      (renamed : Renamed f x) (pairs : AtMostPairs f x) : Substitutes dim v f x :=
    .of_factors renamed pairs fun fac member => ih fac member (renamed.factor member) (pairs.factor renamed member)
  have none {x : Expr} (closed : freeIn false x = []) : AtMostPairs f x := by simp [AtMostPairs, closed]
  induction e with
  | prod a b iha ihb => exact List.forall_mem_append.mpr ⟨iha, ihb⟩
  | field g comps derivs t => exact List.forall_mem_singleton.mpr fun renamed _ => .field renamed
  | normal i => exact List.forall_mem_singleton.mpr fun _ _ => .of_distinct (List.nodup_singleton _) fun _ => rfl
  | delta i j => exact List.forall_mem_singleton.mpr fun _ _ => .delta i j
  | sum a b iha ihb =>
    refine List.forall_mem_singleton.mpr fun renamed pairs => ?_
    have same := renamed.before.2.2.1
    exact .sum (whole iha renamed.sum.1 pairs) (whole ihb renamed.sum.2 (pairs.of_same same)) same
  | quot a b iha ihb =>
    refine List.forall_mem_singleton.mpr fun renamed pairs => ?_
    obtain ⟨-, second, closed, -⟩ := renamed.before
    exact .quot (whole iha renamed.quot.1 pairs) (whole ihb renamed.quot.2 (none closed)) second closed
  | power a b iha ihb =>
    refine List.forall_mem_singleton.mpr fun renamed _ => .of_distinct List.nodup_nil fun ρ => ?_
    obtain ⟨-, -, base, exponent⟩ := renamed.before
    have left := (whole iha renamed.power.1 (none base)).closed base ρ
    have right := (whole ihb renamed.power.2 (none exponent)).closed exponent ρ
    exact congrArg₂ Scalar.pow left right
  | apply g x ih =>
    refine List.forall_mem_singleton.mpr fun renamed _ => .of_distinct List.nodup_nil fun ρ => ?_
    have closed := renamed.before.2
    exact congrArg g.value ((whole ih renamed.apply (none closed)).closed closed ρ)
  | pairing a b iha ihb =>
    refine List.forall_mem_singleton.mpr fun renamed _ => ?_
    have distinct := nodup_paired renamed
    have first : AtMostPairs f a := fun x => (List.nodup_iff_count_le_one.mp distinct x).trans (by omega)
    have second : AtMostPairs f b := first.of_same renamed.before.2.2.1
    exact .pairing renamed (whole iha renamed.pairing.1 first) (whole ihb renamed.pairing.2 second)
  | _ => exact List.forall_mem_singleton.mpr fun _ _ => .of_distinct List.nodup_nil fun _ => rfl

/-- Where at most two free indices take one name, substitution sums over the names that two of them took. -/
theorem Renamed.substitutes (renamed : Renamed f e) (pairs : AtMostPairs f e) : Substitutes dim v f e :=
  .of_factors renamed pairs fun fac member =>
    substitutes_factors e fac member (renamed.factor member) (pairs.factor renamed member)

end Expr

end Galerkin
