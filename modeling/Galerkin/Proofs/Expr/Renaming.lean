import Mathlib
import Galerkin.Proofs.Expr.Product

/-!
What a renaming does to the indices of an expression. It may give several free indices one name, and keeps
the indices summed inside apart from all others; an index that came together from two free ones is summed.
-/

namespace Galerkin

namespace Usage

variable {f : Index → Index} {is : List Index}

theorem count_twice (is : List Index) (i : Index) :
    (twice is).count i = if is.count i = 2 then 1 else 0 := by
  by_cases double : is.count i = 2
  · rw [if_pos double]
    exact List.count_eq_one_of_mem (nodup_twice is) (mem_twice.mpr double)
  · rw [if_neg double]
    exact List.count_eq_zero.mpr fun member => double (mem_twice.mp member)

/-- The indices that occur once, and twice those that occur twice. -/
theorem perm_once_twice (small : ∀ i, is.count i ≤ 2) : is.Perm (once is ++ (twice is ++ twice is)) := by
  rw [List.perm_iff_count]
  intro i
  have limit := small i
  rw [List.count_append, List.count_append, count_once, count_twice]
  split <;> split <;> omega

theorem count_map (small : ∀ i, is.count i ≤ 2) (x : Index) :
    (is.map f).count x = ((once is).map f).count x + 2 * ((twice is).map f).count x := by
  rw [((perm_once_twice small).map f).count_eq, List.map_append, List.map_append, List.count_append,
    List.count_append, two_mul]

/-- The renaming keeps the indices that occur twice apart from all that occur. -/
def Separates (f : Index → Index) (is : List Index) : Prop :=
  ∀ b ∈ twice is, ∀ i ∈ is, f i = f b → i = b

theorem Separates.nodup (apart : Separates f is) : ((twice is).map f).Nodup := by
  refine List.Nodup.map_on ?_ (nodup_twice is)
  intro i first j second same
  exact apart j second i (mem_unique.mp (List.mem_of_mem_filter first)) same

/-- A name is that of one index which occurs twice, or of none. -/
theorem Separates.count (apart : Separates f is) (x : Index) :
    ((twice is).map f).count x = 0 ∨
      ((twice is).map f).count x = 1 ∧ ((once is).map f).count x = 0 := by
  by_cases member : x ∈ (twice is).map f
  · refine Or.inr ⟨List.count_eq_one_of_mem apart.nodup member, List.count_eq_zero.mpr ?_⟩
    intro single
    obtain ⟨b, double, rfl⟩ := List.mem_map.mp member
    obtain ⟨i, alone, same⟩ := List.mem_map.mp single
    have equal := apart b double i (mem_unique.mp (List.mem_of_mem_filter alone)) same
    exact Expr.disjoint_twice_once is double (equal ▸ alone)
  · exact Or.inl (List.count_eq_zero.mpr member)

end Usage

namespace Expr

open Usage

/-! ### Factors -/

theorem exposed_cons (e : Expr) (fs : List Expr) : exposed (e :: fs) = freeIn false e ++ exposed fs :=
  List.flatMap_cons

theorem sublist_exposed {fs : List Expr} {fac : Expr} (member : fac ∈ fs) :
    (freeIn false fac).Sublist (exposed fs) := by
  obtain ⟨before, after, rfl⟩ := List.append_of_mem member
  rw [exposed_append, exposed_cons]
  exact (List.sublist_append_left _ _).trans (List.sublist_append_right _ _)

theorem scoped_factors {e : Expr} : Scoped true e ↔ ∀ fac ∈ e.factors, Scoped false fac := by
  induction e with
  | prod a b iha ihb =>
      rw [factors, List.forall_mem_append, ← iha, ← ihb]
      simp [Scoped]
  | _ => simp [factors, Scoped]

theorem summedIn_factors (e : Expr) : summedIn true e = e.factors.flatMap (summedIn false) := by
  induction e with
  | prod a b iha ihb =>
      rw [factors, List.flatMap_append, ← iha, ← ihb]
      rfl
  | _ => simp [factors, summedIn]

/-- What the factors of an accepted expression keep to. -/
structure Multipliable (fs : List Expr) : Prop where
  each : ∀ fac ∈ fs, Scoped false fac
  small : ∀ i, (exposed fs).count i ≤ 2
  apart : ∀ fac ∈ fs, ∀ i ∈ summedIn false fac, i ∉ exposed fs

theorem Scoped.multipliable {e : Expr} (accepted : Scoped false e) : Multipliable e.factors := by
  have single (leaf : e.factors = [e]) : Multipliable e.factors := by
    refine ⟨?_, ?_, ?_⟩ <;> rw [leaf]
    · exact List.forall_mem_singleton.mpr accepted
    · intro i
      rw [exposed_singleton]
      exact (List.nodup_iff_count_le_one.mp (nodup_freeIn e) i).trans (by omega)
    · rw [exposed_singleton]
      exact List.forall_mem_singleton.mpr fun i inner outer => disjoint_summedIn_freeIn accepted inner outer
  cases e with
  | prod a b =>
      obtain ⟨left, right, whole⟩ := accepted
      have exposes : freeIn true a ++ freeIn true b = exposed (prod a b).factors :=
        freeIn_factors (prod a b)
      have sums : summedIn true a ++ summedIn true b = (prod a b).factors.flatMap (summedIn false) :=
        summedIn_factors (prod a b)
      obtain ⟨small, apart⟩ := whole rfl
      rw [exposes] at small apart
      rw [sums] at apart
      refine ⟨scoped_factors.mp ⟨left, right, by simp⟩, small, fun fac member i inner => ?_⟩
      exact apart (List.mem_flatMap.mpr ⟨fac, member, inner⟩)
  | _ => exact single rfl

/-- What is summed inside is summed by a factor or by the product of the factors. -/
theorem mem_summedIn {e : Expr} {i : Index} :
    i ∈ summedIn false e ↔ (∃ fac ∈ e.factors, i ∈ summedIn false fac) ∨ i ∈ twice (exposed e.factors) := by
  have single (leaf : e.factors = [e]) :
      i ∈ summedIn false e ↔
        (∃ fac ∈ e.factors, i ∈ summedIn false fac) ∨ i ∈ twice (exposed e.factors) := by
    rw [leaf, exposed_singleton, twice_of_nodup (nodup_freeIn e)]
    simp
  cases e with
  | prod a b =>
      have exposes : freeIn true a ++ freeIn true b = exposed (prod a b).factors :=
        freeIn_factors (prod a b)
      have sums : summedIn true a ++ summedIn true b = (prod a b).factors.flatMap (summedIn false) :=
        summedIn_factors (prod a b)
      rw [← List.mem_flatMap, ← sums, ← exposes, ← List.mem_append]
      rfl
  | _ => exact single rfl

theorem mem_indices_of_mem_factors {e fac : Expr} (member : fac ∈ e.factors) {i : Index}
    (inside : i ∈ fac.indices) : i ∈ e.indices := by
  induction e with
  | prod a b iha ihb =>
      rcases List.mem_append.mp member with left | right
      · exact List.mem_append_left _ (iha left)
      · exact List.mem_append_right _ (ihb right)
  | _ => exact (List.mem_singleton.mp member) ▸ inside

/-! ### Free indices -/

/-- A renaming of an accepted expression to another one that keeps the indices summed inside apart. -/
structure Renamed (f : Index → Index) (e : Expr) : Prop where
  before : Scoped false e
  after : Scoped false (e.rename f)
  apart : ∀ b ∈ summedIn false e, ∀ i ∈ e.indices, f i = f b → i = b

/-- An index is free after a renaming when a single free index has its name, and summed when several have. -/
structure Follows (f : Index → Index) (e : Expr) : Prop where
  free : ∀ x, x ∈ freeIn false (e.rename f) ↔ ((freeIn false e).map f).count x = 1
  summed : ∀ x, 2 ≤ ((freeIn false e).map f).count x → x ∈ summedIn false (e.rename f)

variable {f : Index → Index} {e a b : Expr}

theorem Renamed.factor (renamed : Renamed f e) {fac : Expr} (member : fac ∈ e.factors) : Renamed f fac where
  before := renamed.before.multipliable.each fac member
  after := by
    refine renamed.after.multipliable.each _ ?_
    rw [factors_rename]
    exact List.mem_map_of_mem member
  apart := fun b inner i inside =>
    renamed.apart b (mem_summedIn.mpr (Or.inl ⟨fac, member, inner⟩)) i (mem_indices_of_mem_factors member inside)

theorem mem_indices_of_mem_exposed {i : Index} (member : i ∈ exposed e.factors) : i ∈ e.indices := by
  obtain ⟨fac, factor, free⟩ := List.mem_flatMap.mp member
  exact mem_indices_of_mem_factors factor (mem_indices_of_mem_freeIn free)

theorem Renamed.separates (renamed : Renamed f e) : Separates f (exposed e.factors) := fun b double i member =>
  renamed.apart b (mem_summedIn.mpr (Or.inr double)) i (mem_indices_of_mem_exposed member)

theorem count_freeIn_rename (follows : Follows f e) (x : Index) :
    (freeIn false (e.rename f)).count x = if ((freeIn false e).map f).count x = 1 then 1 else 0 := by
  by_cases single : ((freeIn false e).map f).count x = 1
  · rw [if_pos single]
    exact List.count_eq_one_of_mem (nodup_freeIn _) ((follows.free x).mpr single)
  · rw [if_neg single]
    exact List.count_eq_zero.mpr fun member => single ((follows.free x).mp member)

/-- A name that no factor has taken for a sum is exposed as often as indices with this name were. -/
theorem count_exposed_rename {fs : List Expr} (each : ∀ fac ∈ fs, Follows f fac) {x : Index}
    (small : ∀ fac ∈ fs, ((freeIn false fac).map f).count x ≤ 1) :
    (exposed (fs.map (rename f))).count x = ((exposed fs).map f).count x := by
  induction fs with
  | nil => rfl
  | cons fac rest ih =>
    obtain ⟨first, others⟩ := List.forall_mem_cons.mp each
    obtain ⟨limit, limits⟩ := List.forall_mem_cons.mp small
    have here : (freeIn false (fac.rename f)).count x = ((freeIn false fac).map f).count x := by
      rw [count_freeIn_rename first]
      split <;> omega
    rw [List.map_cons, exposed_cons, exposed_cons, List.map_append, List.count_append, List.count_append, here,
      ih others limits]

/-- The indices of a product are those of its factors, whether it is renamed before or after. -/
theorem Follows.of_factors (renamed : Renamed f e) (each : ∀ fac ∈ e.factors, Follows f fac) : Follows f e := by
  have product := renamed.after.multipliable
  rw [factors_rename] at product
  -- What the factors expose under one name, by whether it comes from a sum of the product or not.
  have total (x : Index) := count_map (f := f) renamed.before.multipliable.small x
  have either (x : Index) := renamed.separates.count x
  have taken {x : Index} {fac : Expr} (member : fac ∈ e.factors)
      (many : 2 ≤ ((freeIn false fac).map f).count x) :
      x ∈ summedIn false (fac.rename f) ∧ (exposed (e.factors.map (rename f))).count x = 0 ∧
        2 ≤ ((exposed e.factors).map f).count x := by
    have inner := (each fac member).summed x many
    refine ⟨inner, List.count_eq_zero.mpr (product.apart _ (List.mem_map_of_mem member) x inner), ?_⟩
    exact many.trans (((sublist_exposed member).map f).count_le x)
  constructor
  · intro x
    rw [freeIn_eq_once, mem_once, factors_rename, freeIn_eq_once e]
    by_cases small : ∀ fac ∈ e.factors, ((freeIn false fac).map f).count x ≤ 1
    · rw [count_exposed_rename each small]
      have sum := total x
      rcases either x with none | ⟨one, zero⟩ <;> omega
    · simp only [not_forall, not_le] at small
      obtain ⟨fac, member, many⟩ := small
      obtain ⟨-, nowhere, more⟩ := taken member many
      have sum := total x
      rcases either x with none | ⟨one, zero⟩ <;> omega
  · intro x several
    rw [freeIn_eq_once e] at several
    rw [mem_summedIn, factors_rename]
    by_cases small : ∀ fac ∈ e.factors, ((freeIn false fac).map f).count x ≤ 1
    · refine Or.inr (mem_twice.mpr ?_)
      have limit := product.small x
      rw [count_exposed_rename each small] at limit ⊢
      have sum := total x
      rcases either x with none | ⟨one, zero⟩ <;> omega
    · simp only [not_forall, not_le] at small
      obtain ⟨fac, member, many⟩ := small
      exact Or.inl ⟨_, List.mem_map_of_mem member, (taken member many).1⟩

/-- The free indices keep names of their own. -/
theorem Follows.of_distinct (same : freeIn false (e.rename f) = (freeIn false e).map f) : Follows f e := by
  have distinct := nodup_freeIn (e.rename f)
  rw [same] at distinct
  constructor
  · intro x
    rw [same]
    exact ⟨List.count_eq_one_of_mem distinct, fun one => List.count_pos_iff.mp (by omega)⟩
  · intro x several
    have one := List.nodup_iff_count_le_one.mp distinct x
    omega

theorem Follows.field {g : Field} {comps derivs : List Index} {t : Nat}
    (renamed : Renamed f (.field g comps derivs t)) : Follows f (.field g comps derivs t) := by
  have after : ∀ x, ((comps ++ derivs).map f).count x ≤ 2 := by
    intro x
    rw [List.map_append]
    exact renamed.after.2.2.2.2 x
  have separates : Separates f (comps ++ derivs) := renamed.apart
  have total (x : Index) := count_map (f := f) renamed.before.2.2.2.2 x
  constructor
  · intro x
    rw [rename, freeIn, freeIn, ← List.map_append, mem_once]
    have sum := total x
    rcases separates.count x with none | ⟨one, zero⟩ <;> omega
  · intro x several
    rw [freeIn] at several
    rw [rename, summedIn, ← List.map_append, mem_twice]
    have sum := total x
    have limit := after x
    rcases separates.count x with none | ⟨one, zero⟩ <;> omega

theorem Follows.delta (i j : Index) : Follows f (.delta i j) := by
  by_cases same : i = j
  · exact .of_distinct (by simp [rename, freeIn, same])
  · by_cases merged : f i = f j
    · constructor
      · intro x
        by_cases here : f j = x <;> simp [rename, freeIn, same, merged, here]
      · intro x several
        by_cases here : f j = x
        · simp [rename, summedIn, merged, here]
        · simp [freeIn, same, merged, here] at several
    · exact .of_distinct (by simp [rename, freeIn, same, merged])

theorem Renamed.inner {c : Expr} (renamed : Renamed f e) (before : Scoped false c)
    (after : Scoped false (c.rename f)) (sums : summedIn false c ⊆ summedIn false e)
    (inside : c.indices ⊆ e.indices) : Renamed f c :=
  ⟨before, after, fun _ inner i member => renamed.apart _ (sums inner) i (inside member)⟩

theorem Renamed.sum (renamed : Renamed f (.sum a b)) : Renamed f a ∧ Renamed f b :=
  ⟨renamed.inner renamed.before.1 renamed.after.1 (List.subset_append_left _ _) (List.subset_append_left _ _),
    renamed.inner renamed.before.2.1 renamed.after.2.1 (List.subset_append_right _ _)
      (List.subset_append_right _ _)⟩

theorem Renamed.quot (renamed : Renamed f (.quot a b)) : Renamed f a ∧ Renamed f b :=
  ⟨renamed.inner renamed.before.1 renamed.after.1 (List.subset_append_left _ _) (List.subset_append_left _ _),
    renamed.inner renamed.before.2.1 renamed.after.2.1 (List.subset_append_right _ _)
      (List.subset_append_right _ _)⟩

theorem Renamed.power (renamed : Renamed f (.power a b)) : Renamed f a ∧ Renamed f b :=
  ⟨renamed.inner renamed.before.1 renamed.after.1 (List.subset_append_left _ _) (List.subset_append_left _ _),
    renamed.inner renamed.before.2.1 renamed.after.2.1 (List.subset_append_right _ _)
      (List.subset_append_right _ _)⟩

theorem Renamed.apply {g : Function} (renamed : Renamed f (.apply g a)) : Renamed f a :=
  renamed.inner renamed.before.1 renamed.after.1 (List.Subset.refl _) (List.Subset.refl _)

theorem Renamed.pairing (renamed : Renamed f (.pairing a b)) : Renamed f a ∧ Renamed f b :=
  ⟨renamed.inner renamed.before.1 renamed.after.1
      (fun _ inner => List.mem_append_left _ (List.mem_append_left _ inner)) (List.subset_append_left _ _),
    renamed.inner renamed.before.2.1 renamed.after.2.1
      (fun _ inner => List.mem_append_left _ (List.mem_append_right _ inner)) (List.subset_append_right _ _)⟩

theorem follows_factors (e : Expr) : ∀ fac ∈ e.factors, Renamed f fac → Follows f fac := by
  have whole {x : Expr} (ih : ∀ fac ∈ x.factors, Renamed f fac → Follows f fac) (renamed : Renamed f x) :
      Follows f x := .of_factors renamed fun fac member => ih fac member (renamed.factor member)
  induction e with
  | prod a b iha ihb => exact List.forall_mem_append.mpr ⟨iha, ihb⟩
  | field g comps derivs t => exact List.forall_mem_singleton.mpr .field
  | normal i => exact List.forall_mem_singleton.mpr fun _ => .of_distinct rfl
  | delta i j => exact List.forall_mem_singleton.mpr fun _ => .delta i j
  | sum a b iha _ =>
    refine List.forall_mem_singleton.mpr fun renamed => ?_
    have left := whole iha renamed.sum.1
    exact ⟨left.free, fun x several => List.mem_append_left _ (left.summed x several)⟩
  | quot a b iha _ =>
    refine List.forall_mem_singleton.mpr fun renamed => ?_
    have left := whole iha renamed.quot.1
    exact ⟨left.free, fun x several => List.mem_append_left _ (left.summed x several)⟩
  | _ => exact List.forall_mem_singleton.mpr fun _ => .of_distinct rfl

/-- A renaming of an accepted expression leaves free the names that a single free index took. -/
theorem Renamed.follows (renamed : Renamed f e) : Follows f e :=
  .of_factors renamed fun fac member => follows_factors e fac member (renamed.factor member)

end Expr

end Galerkin
