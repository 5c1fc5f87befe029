import Mathlib
import Galerkin.Proofs.Entries
import Galerkin.Proofs.Expansion.Hygiene
import Galerkin.Proofs.Expr.Product

/-!
The shape of an expression. Its sums and products may be regrouped anywhere: the index analysis accepts all shapes or
none, finds the same indices free, and all have the same value. A product of a sum may be multiplied out as well; here
one shape may be accepted and the other not, but if both are they have the same value.

So however the sums and products of an expression are grouped, it has the same components; the same holds for its
products multiplied out, as far as the index analysis accepts the result.

Up to regrouping products are associative and commutative, so that expressions whose factors can be matched are
regroupings of each other.
-/

namespace Galerkin

open Usage

namespace Expr

/-- One use of a rule somewhere in an expression, outside pairings. -/
inductive Anywhere (R : Expr → Expr → Prop) : Expr → Expr → Prop where
  | here {e e' : Expr} (rule : R e e') : Anywhere R e e'
  | sumLeft {a a' : Expr} (b : Expr) (inside : Anywhere R a a') : Anywhere R (.sum a b) (.sum a' b)
  | sumRight {b b' : Expr} (a : Expr) (inside : Anywhere R b b') : Anywhere R (.sum a b) (.sum a b')
  | prodLeft {a a' : Expr} (b : Expr) (inside : Anywhere R a a') : Anywhere R (.prod a b) (.prod a' b)
  | prodRight {b b' : Expr} (a : Expr) (inside : Anywhere R b b') : Anywhere R (.prod a b) (.prod a b')
  | quotLeft {a a' : Expr} (b : Expr) (inside : Anywhere R a a') : Anywhere R (.quot a b) (.quot a' b)
  | quotRight {b b' : Expr} (a : Expr) (inside : Anywhere R b b') : Anywhere R (.quot a b) (.quot a b')
  | powerLeft {a a' : Expr} (b : Expr) (inside : Anywhere R a a') : Anywhere R (.power a b) (.power a' b)
  | powerRight {b b' : Expr} (a : Expr) (inside : Anywhere R b b') : Anywhere R (.power a b) (.power a b')
  | apply {x x' : Expr} (f : Function) (inside : Anywhere R x x') : Anywhere R (.apply f x) (.apply f x')

/-- The laws of sums and products that move no bracket over an index. -/
inductive Regroups : Expr → Expr → Prop where
  | sumComm (a b : Expr) : Regroups (.sum a b) (.sum b a)
  | sumAssoc (a b c : Expr) : Regroups (.sum (.sum a b) c) (.sum a (.sum b c))
  | prodComm (a b : Expr) : Regroups (.prod a b) (.prod b a)
  | prodAssoc (a b c : Expr) : Regroups (.prod (.prod a b) c) (.prod a (.prod b c))

/-- A product of a sum becomes a sum of products. -/
inductive MultipliesOut : Expr → Expr → Prop where
  | left (a b c : Expr) : MultipliesOut (.prod (.sum a b) c) (.sum (.prod a c) (.prod b c))
  | right (a b c : Expr) : MultipliesOut (.prod a (.sum b c)) (.sum (.prod a b) (.prod a c))

/-- Does the index analysis accept an expression? -/
def Accepted (e : Expr) : Prop := ∃ free, e.freeIndices = .ok free

/-- Expressions that differ in how their sums and products are grouped. -/
def Regrouped : Expr → Expr → Prop := Relation.EqvGen (Anywhere Regroups)

/-- Expressions that lead to each other by regrouping and multiplying out, by way of accepted ones. -/
def MultipliedOut : Expr → Expr → Prop :=
  Relation.EqvGen fun e e' => e.Accepted ∧ e'.Accepted ∧ (Anywhere Regroups e e' ∨ Anywhere MultipliesOut e e')

theorem accepted_iff {e : Expr} : e.Accepted ↔ e.Scoped false := by
  simp only [Accepted, freeIndices_eq_ok, exists_and_left, exists_eq', and_true]

/-! ### Leaves -/

variable {R : Expr → Expr → Prop} {a a' b b' c e e' e'' : Expr}

/-- Do two expressions have the same fields, and pairings both or neither? -/
structure SameLeaves (e e' : Expr) : Prop where
  fields : ∀ f, f ∈ e.fields ↔ f ∈ e'.fields
  pairing : e.hasPairing = e'.hasPairing

theorem Anywhere.sameLeaves (each : ∀ e e', R e e' → SameLeaves e e') (uses : Anywhere R e e') : SameLeaves e e' := by
  induction uses with
  | here rule => exact each _ _ rule
  | apply f _ ih => exact ⟨ih.fields, ih.pairing⟩
  | sumLeft b _ ih | sumRight a _ ih | prodLeft b _ ih | prodRight a _ ih | quotLeft b _ ih | quotRight a _ ih
  | powerLeft b _ ih | powerRight a _ ih =>
      constructor
      · intro f
        simp only [Expr.fields, List.mem_append, ih.fields f]
      · simp only [hasPairing, ih.pairing]

theorem Regroups.sameLeaves (rule : Regroups e e') : SameLeaves e e' := by
  cases rule with
  | sumComm | prodComm =>
      constructor
      · intro f
        simp only [Expr.fields, List.mem_append, or_comm]
      · simp only [hasPairing, Bool.or_comm]
  | sumAssoc | prodAssoc =>
      constructor
      · intro f
        simp only [Expr.fields, List.mem_append, or_assoc]
      · simp only [hasPairing, Bool.or_assoc]

theorem MultipliesOut.sameLeaves (rule : MultipliesOut e e') : SameLeaves e e' := by
  cases rule with
  | left a b c | right a b c =>
      constructor
      · intro f
        simp only [Expr.fields, List.mem_append]
        tauto
      · simp only [hasPairing]
        cases a.hasPairing <;> cases b.hasPairing <;> cases c.hasPairing <;> rfl

/-! ### Acceptance -/

/-- What of an expression its surroundings see is that of an accepted one, up to order. -/
structure Carries (asFactor : Bool) (e e' : Expr) : Prop where
  accepted : e'.Scoped asFactor
  free : (e.freeIn asFactor).Perm (e'.freeIn asFactor)
  summed : ∀ i, i ∈ e.summedIn asFactor ↔ i ∈ e'.summedIn asFactor

/-- Wherever one expression is accepted, the other one is in its place. -/
def Keeps (e e' : Expr) : Prop := ∀ asFactor, e.Scoped asFactor → Carries asFactor e e'

end Expr

theorem Usage.disjoint_congr {a a' b b' : List Index} (apart : a.Disjoint b) (first : ∀ i, i ∈ a ↔ i ∈ a')
    (second : ∀ i, i ∈ b ↔ i ∈ b') : a'.Disjoint b' :=
  fun i left right => apart ((first i).mpr left) ((second i).mpr right)

namespace Expr

variable {R : Expr → Expr → Prop} {a a' b b' c e e' e'' x x' : Expr}

/-- Operands of a sum that agree with those of an accepted one. -/
theorem carries_sum {asFactor : Bool} (apart : (summedIn false a ++ summedIn false b).Disjoint (freeIn false a))
    (first : Scoped false a') (second : Scoped false b') (free : (freeIn false a).Perm (freeIn false a'))
    (same : ∀ i, i ∈ freeIn false a' ↔ i ∈ freeIn false b')
    (summed : ∀ i, i ∈ summedIn false a ++ summedIn false b ↔ i ∈ summedIn false a' ++ summedIn false b') :
    Carries asFactor (.sum a b) (.sum a' b') :=
  ⟨⟨first, second, same, disjoint_congr apart summed fun _ => free.mem_iff⟩, free, summed⟩

/-- Operands of a product that expose and sum what those of an accepted one do. -/
theorem carries_prod {asFactor : Bool}
    (closed : asFactor = false → (∀ i, (freeIn true a ++ freeIn true b).count i ≤ 2) ∧
      (summedIn true a ++ summedIn true b).Disjoint (freeIn true a ++ freeIn true b))
    (first : Scoped true a') (second : Scoped true b')
    (free : (freeIn true a ++ freeIn true b).Perm (freeIn true a' ++ freeIn true b'))
    (summed : ∀ i, i ∈ summedIn true a ++ summedIn true b ↔ i ∈ summedIn true a' ++ summedIn true b') :
    Carries asFactor (.prod a b) (.prod a' b') := by
  cases asFactor with
  | true => exact ⟨⟨first, second, nofun⟩, free, summed⟩
  | false =>
      obtain ⟨small, apart⟩ := closed rfl
      refine ⟨⟨first, second, fun _ => ⟨fun i => ?_, disjoint_congr apart summed fun i => free.mem_iff⟩⟩,
        perm_once free, fun i => ?_⟩
      · rw [← free.count_eq]
        exact small i
      · exact List.mem_append.trans ((or_congr (summed i) (perm_twice free).mem_iff).trans List.mem_append.symm)

namespace Keeps

theorem refl (e : Expr) : Keeps e e := fun _ accepted => ⟨accepted, .refl _, fun _ => Iff.rfl⟩

theorem trans (first : Keeps e e') (second : Keeps e' e'') : Keeps e e'' := by
  intro asFactor accepted
  have one := first asFactor accepted
  have two := second asFactor one.accepted
  exact ⟨two.accepted, one.free.trans two.free, fun i => (one.summed i).trans (two.summed i)⟩

theorem sum (left : Keeps a a') (right : Keeps b b') : Keeps (.sum a b) (.sum a' b') := by
  rintro asFactor ⟨first, second, same, apart⟩
  have l := left false first
  have r := right false second
  refine carries_sum apart l.accepted r.accepted l.free (fun i => ?_) fun i => ?_
  · rw [← l.free.mem_iff, ← r.free.mem_iff]
    exact same i
  · rw [List.mem_append, List.mem_append, l.summed, r.summed]

theorem prod (left : Keeps a a') (right : Keeps b b') : Keeps (.prod a b) (.prod a' b') := by
  rintro asFactor ⟨first, second, closed⟩
  have l := left true first
  have r := right true second
  refine carries_prod closed l.accepted r.accepted (l.free.append r.free) fun i => ?_
  rw [List.mem_append, List.mem_append, l.summed, r.summed]

theorem quot (left : Keeps a a') (right : Keeps b b') : Keeps (.quot a b) (.quot a' b') := by
  rintro asFactor ⟨first, second, closed, apart⟩
  have l := left false first
  have r := right false second
  have summed : ∀ i, i ∈ summedIn false a ++ summedIn false b ↔ i ∈ summedIn false a' ++ summedIn false b' := by
    intro i
    rw [List.mem_append, List.mem_append, l.summed, r.summed]
  exact ⟨⟨l.accepted, r.accepted, (closed ▸ r.free).nil_eq.symm, disjoint_congr apart summed fun i => l.free.mem_iff⟩,
    l.free, summed⟩

theorem power (left : Keeps a a') (right : Keeps b b') : Keeps (.power a b) (.power a' b') := by
  rintro asFactor ⟨first, second, base, exponent⟩
  have l := left false first
  have r := right false second
  refine ⟨⟨l.accepted, r.accepted, (base ▸ l.free).nil_eq.symm, (exponent ▸ r.free).nil_eq.symm⟩, .refl _, fun i => ?_⟩
  exact List.mem_append.trans ((or_congr (l.summed i) (r.summed i)).trans List.mem_append.symm)

theorem apply (f : Function) (inner : Keeps x x') : Keeps (.apply f x) (.apply f x') := by
  rintro asFactor ⟨inside, closed⟩
  have i := inner false inside
  exact ⟨⟨i.accepted, (closed ▸ i.free).nil_eq.symm⟩, .refl _, i.summed⟩

theorem sumComm (a b : Expr) : Keeps (.sum a b) (.sum b a) := by
  rintro asFactor ⟨first, second, same, apart⟩
  refine carries_sum apart second first ?_ (fun i => (same i).symm) fun i => ?_
  · exact (List.perm_ext_iff_of_nodup (nodup_freeIn a) (nodup_freeIn b)).mpr same
  · rw [List.mem_append, List.mem_append, or_comm]

theorem sumAssoc (a b c : Expr) :
    Keeps (.sum (.sum a b) c) (.sum a (.sum b c)) ∧ Keeps (.sum a (.sum b c)) (.sum (.sum a b) c) := by
  constructor
  · rintro asFactor ⟨⟨first, second, same, -⟩, third, other, apart⟩
    refine carries_sum apart first ⟨second, third, fun i => ?_, ?_⟩
      (.refl _) same fun i => ?_
    · exact (same i).symm.trans (other i)
    · intro i inside outside
      refine apart ?_ ((same i).mpr outside)
      rw [List.mem_append] at inside ⊢
      exact inside.imp_left (List.mem_append_right _)
    · simp only [summedIn, List.mem_append, or_assoc]
  · rintro asFactor ⟨first, ⟨second, third, other, -⟩, same, apart⟩
    refine carries_sum apart ⟨first, second, same, ?_⟩ third
      (.refl _) (fun i => (same i).trans (other i)) fun i => ?_
    · intro i inside outside
      refine apart ?_ outside
      rw [List.mem_append] at inside ⊢
      exact inside.imp_right (List.mem_append_left _)
    · simp only [summedIn, List.mem_append, or_assoc]

theorem prodComm (a b : Expr) : Keeps (.prod a b) (.prod b a) := by
  rintro asFactor ⟨first, second, closed⟩
  refine carries_prod closed second first List.perm_append_comm fun i => ?_
  rw [List.mem_append, List.mem_append, or_comm]

/-- A product inside a product is open, so that only the outermost one is asked about its indices. -/
theorem prodAssoc (a b c : Expr) :
    Keeps (.prod (.prod a b) c) (.prod a (.prod b c)) ∧ Keeps (.prod a (.prod b c)) (.prod (.prod a b) c) := by
  constructor
  · rintro asFactor ⟨⟨first, second, -⟩, third, closed⟩
    refine carries_prod closed first ⟨second, third, nofun⟩ (.of_eq (List.append_assoc _ _ _)) fun i => ?_
    simp [summedIn]
  · rintro asFactor ⟨first, ⟨second, third, -⟩, closed⟩
    refine carries_prod closed ⟨first, second, nofun⟩ third (.of_eq (List.append_assoc _ _ _).symm) fun i => ?_
    simp [summedIn]

end Keeps

theorem Regroups.keeps (rule : Regroups e e') : Keeps e e' ∧ Keeps e' e := by
  cases rule with
  | sumComm a b => exact ⟨.sumComm a b, .sumComm b a⟩
  | sumAssoc a b c => exact Keeps.sumAssoc a b c
  | prodComm a b => exact ⟨.prodComm a b, .prodComm b a⟩
  | prodAssoc a b c => exact Keeps.prodAssoc a b c

/-- What a rule keeps where it is used, it keeps anywhere. -/
theorem Anywhere.keeps (each : ∀ e e', R e e' → Keeps e e' ∧ Keeps e' e) (uses : Anywhere R e e') :
    Keeps e e' ∧ Keeps e' e := by
  induction uses with
  | here rule => exact each _ _ rule
  | sumLeft b _ ih => exact ⟨ih.1.sum (.refl b), ih.2.sum (.refl b)⟩
  | sumRight a _ ih => exact ⟨(Keeps.refl a).sum ih.1, (Keeps.refl a).sum ih.2⟩
  | prodLeft b _ ih => exact ⟨ih.1.prod (.refl b), ih.2.prod (.refl b)⟩
  | prodRight a _ ih => exact ⟨(Keeps.refl a).prod ih.1, (Keeps.refl a).prod ih.2⟩
  | quotLeft b _ ih => exact ⟨ih.1.quot (.refl b), ih.2.quot (.refl b)⟩
  | quotRight a _ ih => exact ⟨(Keeps.refl a).quot ih.1, (Keeps.refl a).quot ih.2⟩
  | powerLeft b _ ih => exact ⟨ih.1.power (.refl b), ih.2.power (.refl b)⟩
  | powerRight a _ ih => exact ⟨(Keeps.refl a).power ih.1, (Keeps.refl a).power ih.2⟩
  | apply f _ ih => exact ⟨ih.1.apply f, ih.2.apply f⟩

/-! ### Values -/

variable {K : Type} [ExactNumbers K] {dim : Nat} {v : Quantity → K}

/-- Do two expressions have the same free indices, and the same value for all values of these? -/
structure SameValue (dim : Nat) (v : Quantity → K) (e e' : Expr) : Prop where
  free : ∀ i, i ∈ freeIn false e ↔ i ∈ freeIn false e'
  value : ∀ ρ, meaning dim v e ρ = meaning dim v e' ρ

namespace SameValue

theorem refl (e : Expr) : SameValue dim v e e := ⟨fun _ => Iff.rfl, fun _ => rfl⟩

theorem symm (same : SameValue dim v e e') : SameValue dim v e' e :=
  ⟨fun i => (same.free i).symm, fun ρ => (same.value ρ).symm⟩

theorem trans (first : SameValue dim v e e') (second : SameValue dim v e' e'') : SameValue dim v e e'' :=
  ⟨fun i => (first.free i).trans (second.free i), fun ρ => (first.value ρ).trans (second.value ρ)⟩

theorem sum (left : SameValue dim v a a') (right : SameValue dim v b b') : SameValue dim v (.sum a b) (.sum a' b') := by
  refine ⟨left.free, fun ρ => ?_⟩
  exact congrArg₂ (· + ·) (left.value ρ) (right.value ρ)

theorem prodComm (a b : Expr) : SameValue dim v (.prod a b) (.prod b a) := by
  constructor
  · intro i
    rw [mem_freeIn_prod, mem_freeIn_prod, add_comm]
  · intro ρ
    rw [meaning_eq_productMeaning, meaning_eq_productMeaning]
    exact productMeaning_perm List.perm_append_comm ρ

theorem prodLeft (left : SameValue dim v a a') (first : Balanced false (.prod a b))
    (second : Balanced false (.prod a' b)) : SameValue dim v (.prod a b) (.prod a' b) := by
  constructor
  · intro i
    have free := left.free i
    have small := count_le_of_balanced first i
    have small' := count_le_of_balanced second i
    rw [freeIn_eq_once, freeIn_eq_once, mem_once, mem_once] at free
    rw [mem_freeIn_prod, mem_freeIn_prod]
    omega
  · intro ρ
    have alike : ∀ t ∈ [a'], ∀ i, i ∈ freeIn false t ↔ i ∈ freeIn false a := by
      simpa using fun i => (left.free i).symm
    rw [meaning_prod first, meaning_prod second, productMeaning_sum alike fun σ => by simp [left.value]]
    exact add_zero _

theorem prodRight (right : SameValue dim v b b') (first : Balanced false (.prod a b))
    (second : Balanced false (.prod a b')) : SameValue dim v (.prod a b) (.prod a b') :=
  (prodComm a b).trans ((prodLeft right (balanced_comm first) (balanced_comm second)).trans (prodComm b' a))

/-- The terms of a sum take the place of the sum in a product. -/
theorem distributed (first : Balanced false (.prod (.sum a b) c))
    (second : Balanced false (.sum (.prod a c) (.prod b c))) :
    SameValue dim v (.prod (.sum a b) c) (.sum (.prod a c) (.prod b c)) := by
  have same := first.1.2.2
  obtain ⟨left, right, -⟩ := second
  constructor
  · intro i
    have small := count_le_of_balanced left i
    have whole : (exposed (factors (.sum a b))).count i = if (exposed a.factors).count i = 1 then 1 else 0 := by
      rw [← count_once, ← freeIn_eq_once]
      exact congrArg (List.count i) (exposed_singleton (.sum a b))
    rw [mem_freeIn_prod, whole]
    change _ ↔ i ∈ freeIn false (.prod a c)
    rw [mem_freeIn_prod]
    split <;> omega
  · intro ρ
    have alike : ∀ t ∈ [a, b], ∀ i, i ∈ freeIn false t ↔ i ∈ freeIn false (.sum a b) := by
      simpa [freeIn] using fun i => (same i).symm
    have total : ∀ σ, ([a, b].map (meaning dim v · σ)).sum = meaning dim v (.sum a b) σ := by
      intro σ
      simp [meaning, meaningIn]
    calc meaning dim v (.prod (.sum a b) c) ρ
        = productMeaning dim v (c.factors ++ [.sum a b]) ρ := meaning_prod first ρ
      _ = productMeaning dim v (c.factors ++ [a]) ρ + productMeaning dim v (c.factors ++ [b]) ρ := by
          rw [productMeaning_sum alike total]
          simp
      _ = meaning dim v (.prod a c) ρ + meaning dim v (.prod b c) ρ := by
          rw [meaning_prod left, meaning_prod right]

end SameValue

theorem Regroups.sameValue (rule : Regroups e e') (first : Balanced false e) : SameValue dim v e e' := by
  cases rule with
  | sumComm a b => exact ⟨first.2.2, fun ρ => add_comm _ _⟩
  | sumAssoc a b c => exact ⟨fun _ => Iff.rfl, fun ρ => add_assoc _ _ _⟩
  | prodComm a b => exact .prodComm a b
  | prodAssoc a b c =>
      have same : factors (.prod (.prod a b) c) = factors (.prod a (.prod b c)) := List.append_assoc _ _ _
      constructor
      · intro i
        rw [freeIn_eq_once, freeIn_eq_once, same]
      · intro ρ
        rw [meaning_eq_productMeaning, meaning_eq_productMeaning, same]

theorem MultipliesOut.sameValue (rule : MultipliesOut e e') (first : Balanced false e) (second : Balanced false e') :
    SameValue dim v e e' := by
  cases rule with
  | left a b c => exact .distributed first second
  | right a b c =>
      have crossed : Balanced false (.sum (.prod b a) (.prod c a)) := by
        obtain ⟨left, right, same⟩ := second
        refine ⟨balanced_comm left, balanced_comm right, fun i => ?_⟩
        rw [mem_freeIn_prod, mem_freeIn_prod, add_comm, ← mem_freeIn_prod, same i, mem_freeIn_prod, add_comm]
      exact (SameValue.prodComm a (.sum b c)).trans ((SameValue.distributed (balanced_comm first) crossed).trans
        (.sum (.prodComm b a) (.prodComm c a)))

/-- A rule that changes no value where it is used changes none anywhere, between expressions that are balanced. -/
theorem Anywhere.sameValue
    (each : ∀ e e', R e e' → Balanced false e → Balanced false e' → SameValue dim v e e') (uses : Anywhere R e e')
    (first : Balanced false e) (second : Balanced false e') : SameValue dim v e e' := by
  induction uses with
  | here rule => exact each _ _ rule first second
  | sumLeft b _ ih => exact (ih first.1 second.1).sum (.refl b)
  | sumRight a _ ih => exact (SameValue.refl a).sum (ih first.2.1 second.2.1)
  | prodLeft b _ ih => exact (ih (balanced_parts first).1 (balanced_parts second).1).prodLeft first second
  | prodRight a _ ih => exact (ih (balanced_parts first).2 (balanced_parts second).2).prodRight first second
  | quotLeft b _ ih =>
      have left := ih first.1 second.1
      exact ⟨left.free, fun ρ => congrArg (· / meaning dim v b ρ) (left.value ρ)⟩
  | quotRight a _ ih =>
      have right := ih first.2.1 second.2.1
      exact ⟨fun _ => Iff.rfl, fun ρ => congrArg (meaning dim v a ρ / ·) (right.value ρ)⟩
  | powerLeft b _ ih =>
      have left := ih first.1 second.1
      exact ⟨fun _ => Iff.rfl, fun ρ => congrArg (Scalar.pow · (meaning dim v b ρ)) (left.value ρ)⟩
  | powerRight a _ ih =>
      have right := ih first.2.1 second.2.1
      exact ⟨fun _ => Iff.rfl, fun ρ => congrArg (Scalar.pow (meaning dim v a ρ)) (right.value ρ)⟩
  | apply f _ ih =>
      have inner := ih first.1 second.1
      exact ⟨fun _ => Iff.rfl, fun ρ => congrArg f.value (inner.value ρ)⟩

/-! ### Any number of uses -/

/-- Both or neither of two expressions are accepted, and if they are they have the same value. -/
structure Interchangeable (dim : Nat) (v : Quantity → K) (e e' : Expr) : Prop where
  accepted : e.Accepted ↔ e'.Accepted
  same : e.Accepted → SameValue dim v e e'

theorem interchangeable_of_uses (accepted : e.Accepted ↔ e'.Accepted)
    (uses : Anywhere Regroups e e' ∨ Anywhere MultipliesOut e e') : Interchangeable dim v e e' := by
  refine ⟨accepted, fun first => ?_⟩
  have balanced := (accepted_iff.mp first).balanced
  have balanced' := (accepted_iff.mp (accepted.mp first)).balanced
  rcases uses with regrouped | multiplied
  · exact regrouped.sameValue (fun _ _ rule first _ => rule.sameValue first) balanced balanced'
  · exact multiplied.sameValue (fun _ _ rule => rule.sameValue) balanced balanced'

theorem interchangeable_of_eqvGen {S : Expr → Expr → Prop} (each : ∀ e e', S e e' → Interchangeable dim v e e')
    (related : Relation.EqvGen S e e') : Interchangeable dim v e e' := by
  induction related with
  | rel e e' step => exact each e e' step
  | refl e => exact ⟨Iff.rfl, fun _ => .refl e⟩
  | symm e e' _ ih => exact ⟨ih.accepted.symm, fun second => (ih.same (ih.accepted.mpr second)).symm⟩
  | trans e e' e'' _ _ first second =>
      exact ⟨first.accepted.trans second.accepted, fun accepted =>
        (first.same accepted).trans (second.same (first.accepted.mp accepted))⟩

theorem Regrouped.interchangeable (regrouped : Regrouped e e') : Interchangeable dim v e e' := by
  refine interchangeable_of_eqvGen (fun e e' uses => interchangeable_of_uses ?_ (.inl uses)) regrouped
  obtain ⟨forth, back⟩ := uses.keeps fun _ _ rule => rule.keeps
  rw [accepted_iff, accepted_iff]
  exact ⟨fun first => (forth false first).accepted, fun second => (back false second).accepted⟩

theorem MultipliedOut.interchangeable (multiplied : MultipliedOut e e') : Interchangeable dim v e e' :=
  interchangeable_of_eqvGen (fun _ _ step => interchangeable_of_uses (iff_of_true step.1 step.2.1) step.2.2) multiplied

theorem sameLeaves_of_eqvGen {S : Expr → Expr → Prop} (each : ∀ e e', S e e' → SameLeaves e e')
    (related : Relation.EqvGen S e e') : SameLeaves e e' := by
  induction related with
  | rel e e' step => exact each e e' step
  | refl e => exact ⟨fun _ => Iff.rfl, rfl⟩
  | symm e e' _ ih => exact ⟨fun f => (ih.fields f).symm, ih.pairing.symm⟩
  | trans e e' e'' _ _ first second =>
      exact ⟨fun f => (first.fields f).trans (second.fields f), first.pairing.trans second.pairing⟩

theorem Regrouped.sameLeaves (regrouped : Regrouped e e') : SameLeaves e e' :=
  sameLeaves_of_eqvGen (fun _ _ uses => uses.sameLeaves fun _ _ rule => rule.sameLeaves) regrouped

theorem MultipliedOut.sameLeaves (multiplied : MultipliedOut e e') : SameLeaves e e' := by
  refine sameLeaves_of_eqvGen (fun e e' step => ?_) multiplied
  rcases step.2.2 with uses | uses
  · exact uses.sameLeaves fun _ _ rule => rule.sameLeaves
  · exact uses.sameLeaves fun _ _ rule => rule.sameLeaves

/-- Multiplied out, a product may hold an index that one of its factors sums inside. -/
example :
    let u : Expr := .field ⟨"u", 1, false⟩ [⟨"j"⟩] [] 0
    let length : Expr := .apply .sqrt (.prod u u)
    (∃ free, (Expr.prod length (.sum (.prod u u) (.param "c"))).freeIndices = .ok free) ∧
      ∃ failure, (Expr.sum (.prod length (.prod u u)) (.prod length (.param "c"))).freeIndices = .error failure :=
  ⟨⟨_, rfl⟩, ⟨_, rfl⟩⟩

/-! ### Matching factors -/

/-- What is regrouped in a place where rules are used regroups the whole. -/
theorem Regrouped.lift (wrap : Expr → Expr) (inside : ∀ x y, Anywhere Regroups x y → Anywhere Regroups (wrap x) (wrap y))
    (same : Regrouped a a') : Regrouped (wrap a) (wrap a') := by
  induction same with
  | rel x y uses => exact .rel _ _ (inside x y uses)
  | refl x => exact .refl _
  | symm x y _ ih => exact .symm _ _ ih
  | trans x y z _ _ first second => exact .trans _ _ _ first second

theorem Regrouped.prod (left : Regrouped a a') (right : Regrouped b b') : Regrouped (.prod a b) (.prod a' b') :=
  .trans _ _ _ (left.lift (Expr.prod · b) fun _ _ => .prodLeft b) (right.lift (Expr.prod a' ·) fun _ _ => .prodRight a')

theorem Regrouped.quotLeft (b : Expr) (left : Regrouped a a') : Regrouped (.quot a b) (.quot a' b) :=
  left.lift (Expr.quot · b) fun _ _ => .quotLeft b

def regroupedSetoid : Setoid Expr := Relation.EqvGen.setoid (Anywhere Regroups)

/-- Expressions up to regrouping. -/
abbrev Shapeless : Type := Quotient regroupedSetoid

namespace Shapeless

def of (e : Expr) : Shapeless := Quotient.mk regroupedSetoid e

theorem of_eq_iff : of e = of e' ↔ Regrouped e e' := Quotient.eq

instance : CommSemigroup Shapeless where
  mul := Quotient.map₂ .prod fun _ _ left _ _ right => Regrouped.prod left right
  mul_assoc := by
    rintro ⟨a⟩ ⟨b⟩ ⟨c⟩
    exact of_eq_iff.mpr (.rel _ _ (.here (.prodAssoc a b c)))
  mul_comm := by
    rintro ⟨a⟩ ⟨b⟩
    exact of_eq_iff.mpr (.rel _ _ (.here (.prodComm a b)))

theorem of_prod (a b : Expr) : of (.prod a b) = of a * of b := rfl

/-- An expression is the product of its factors, in any order. -/
theorem of_eq_prod (e : Expr) :
    (of e : WithOne Shapeless) = ((e.factors : Multiset Expr).map fun f => (of f : WithOne Shapeless)).prod := by
  induction e with
  | prod a b iha ihb =>
      rw [of_prod, WithOne.coe_mul, iha, ihb, factors, ← Multiset.coe_add, Multiset.map_add, Multiset.prod_add]
  | _ => simp [factors]

end Shapeless

/-- Expressions whose factors are regroupings of each other are so themselves. -/
theorem regrouped_of_factors
    (matched : Multiset.Rel Regrouped (e.factors : Multiset Expr) (e'.factors : Multiset Expr)) : Regrouped e e' := by
  have same : (e.factors : Multiset Expr).map (fun f => (Shapeless.of f : WithOne Shapeless)) =
      (e'.factors : Multiset Expr).map fun f => (Shapeless.of f : WithOne Shapeless) := by
    apply Multiset.rel_eq.mp
    apply Multiset.rel_map.mpr
    apply matched.mono
    intro f _ g _ regrouped
    exact congrArg _ (Shapeless.of_eq_iff.mpr regrouped)
  have equal := (Shapeless.of_eq_prod e).trans ((congrArg Multiset.prod same).trans (Shapeless.of_eq_prod e').symm)
  exact Shapeless.of_eq_iff.mp (WithOne.coe_inj.mp equal)

end Expr

/-! ### Components -/

namespace Expansion

variable {s : Setting} {e e' : Expr}

/-- Values below the dimension for the free indices lead to a component, which has the value of the expression there. -/
theorem components_isOk (accepted : e.Scoped false) (plain : e.hasPairing = false) (known : ∀ f ∈ e.fields, s.Knows f) :
    ∃ entries, components s e = .ok entries ∧ ∀ ρ : Index → Nat, (∀ i ∈ e.freeIn false, ρ i < s.dim) →
      ∃ x, entries.lookup ((e.freeIn false).map ρ) = some x ∧
        ∀ (K : Type) [ExactNumbers K] (v : Quantity → K), x.eval v = e.meaning s.dim v ρ := by
  have each : ∀ env ∈ Assignment.all s.dim (e.freeIn false),
      ∃ entry, (do pure (env.map (·.2), ← expand s env e)) = Except.ok entry ∧
        entry.1 = env.map (·.2) ∧ expand s env e = .ok entry.2 := by
    intro env member
    obtain ⟨x, found, -⟩ := expand_value (v := fun _ => (0 : ℝ)) accepted plain known (Assignment.covers_of_mem_all member)
    exact ⟨(env.map (·.2), x), Outcome.bind_eq_ok.mpr ⟨x, found, rfl⟩, rfl, found⟩
  obtain ⟨entries, found, matched⟩ := Outcome.mapM_of_forall each
  have keys : entries.map (·.1) = (Assignment.all s.dim (e.freeIn false)).map (·.map (·.2)) :=
    Outcome.map_eq_of_matched (matched.imp fun _ _ related => related.1)
  refine ⟨entries, Outcome.bind_eq_ok.mpr ⟨_, Expr.freeIndices_eq_ok.mpr ⟨accepted, rfl⟩, found⟩, fun ρ below => ?_⟩
  have inside : (e.freeIn false).map ρ ∈ (Assignment.all s.dim (e.freeIn false)).map (·.map (·.2)) :=
    Assignment.mem_all_values.mpr ⟨List.length_map _, List.forall_mem_map.mpr below⟩
  obtain ⟨env, assigned, same⟩ := List.mem_map.mp inside
  obtain ⟨entry, member, key, formula⟩ := Outcome.exists_of_matched_left matched assigned
  have distinct : (entries.map (·.1)).Nodup := keys ▸ Assignment.nodup_all_values _ _
  refine ⟨entry.2, ?_, fun K _ v => ?_⟩
  · rw [← same, ← key]
    exact lookup_of_mem distinct member
  · obtain ⟨x, formula', value⟩ := expand_value (v := v) accepted plain known (Assignment.covers_of_mem_all assigned)
    cases formula.symm.trans formula'
    rw [value]
    refine Expr.meaning_congr accepted.balanced fun i free => ?_
    rw [← Assignment.toFun_of_mem_all (Expr.nodup_freeIn e) assigned] at same
    exact List.map_inj_left.mp same i free

/-- Regrouping the sums and products of an expression, or multiplying them out, leaves the free indices and the
components as they are, whatever order the free indices come in. Regrouping leaves acceptance as it is, too. -/
theorem components_reshaped (plain : e.hasPairing = false) (known : ∀ f ∈ e.fields, s.Knows f) :
    (e.Regrouped e' → (e.Accepted ↔ e'.Accepted)) ∧
    (e.Regrouped e' ∨ e.MultipliedOut e' → ∀ free free', e.freeIndices = .ok free → e'.freeIndices = .ok free' →
      (∀ i, i ∈ free ↔ i ∈ free') ∧
      ∃ entries entries', components s e = .ok entries ∧ components s e' = .ok entries' ∧
        ∀ ρ : Index → Nat, (∀ i ∈ free, ρ i < s.dim) →
          ∃ x x', entries.lookup (free.map ρ) = some x ∧ entries'.lookup (free'.map ρ) = some x' ∧
            ∀ (K : Type) [ExactNumbers K] (v : Quantity → K), x.eval v = x'.eval v) := by
  refine ⟨fun regrouped => ?_, fun reshaped free free' found found' => ?_⟩
  · have both : e.Interchangeable s.dim (fun _ => (0 : ℝ)) e' := regrouped.interchangeable
    exact both.accepted
  obtain ⟨accepted, rfl⟩ := Expr.freeIndices_eq_ok.mp found
  obtain ⟨accepted', rfl⟩ := Expr.freeIndices_eq_ok.mp found'
  have leaves : e.SameLeaves e' := by
    rcases reshaped with regrouped | multiplied
    · exact regrouped.sameLeaves
    · exact multiplied.sameLeaves
  have same (K : Type) [ExactNumbers K] (v : Quantity → K) : e.SameValue s.dim v e' := by
    rcases reshaped with regrouped | multiplied
    · exact regrouped.interchangeable.same ⟨_, found⟩
    · exact multiplied.interchangeable.same ⟨_, found⟩
  have free := (same ℝ fun _ => 0).free
  obtain ⟨entries, run, values⟩ := components_isOk accepted plain known
  obtain ⟨entries', run', values'⟩ := components_isOk (s := s) accepted' (leaves.pairing ▸ plain)
    fun f member => known f ((leaves.fields f).mpr member)
  refine ⟨free, entries, entries', run, run', fun ρ below => ?_⟩
  obtain ⟨x, here, value⟩ := values ρ below
  obtain ⟨x', here', value'⟩ := values' ρ fun i member => below i ((free i).mpr member)
  refine ⟨x, x', here, here', fun K _ v => ?_⟩
  rw [value, value', (same K v).value]

section Example

/-- A vector times the square of its length, with the product multiplied out. -/
def cubedApart (u : Field) : Expr :=
  .sum (.prod (.field u [⟨"i"⟩] [] 0) (.const (.int 0)))
    (.prod (.field u [⟨"i"⟩] [] 0) (.prod (.field u [⟨"j"⟩] [] 0) (.field u [⟨"j"⟩] [] 0)))

theorem components_reshaped_cubed :
    let u : Field := ⟨"u", 1, false⟩
    let s : Setting := ⟨2, ⟨2, [u]⟩, .empty 2⟩
    ((cubed u).Accepted ↔ (Expr.prod (.sum (.const (.int 0)) (.prod (.field u [⟨"j"⟩] [] 0) (.field u [⟨"j"⟩] [] 0)))
      (.field u [⟨"i"⟩] [] 0)).Accepted) ∧
    ∃ entries entries', components s (cubed u) = .ok entries ∧ components s (cubedApart u) = .ok entries' ∧
      ∀ ρ : Index → Nat, ρ ⟨"i"⟩ < 2 →
        ∃ x x', entries.lookup [ρ ⟨"i"⟩] = some x ∧ entries'.lookup [ρ ⟨"i"⟩] = some x' ∧
          x.eval (fun _ => (3 : ℝ)) = x'.eval fun _ => 3 := by
  intro u s
  have known : ∀ f ∈ (cubed u).fields, s.Knows f := by
    intro f member
    have same : f = u := by simpa [cubed, Expr.fields] using member
    rw [same]
    rfl
  have first : (cubed u).freeIndices = .ok [⟨"i"⟩] := rfl
  have second : (cubedApart u).freeIndices = .ok [⟨"i"⟩] := rfl
  constructor
  · exact (components_reshaped (s := s) rfl known).1 (.rel _ _ (.here (.prodComm _ _)))
  · have multiplied : (cubed u).MultipliedOut (cubedApart u) :=
      .rel _ _ ⟨⟨_, first⟩, ⟨_, second⟩, .inr (.here (.right _ _ _))⟩
    obtain ⟨-, entries, entries', run, run', same⟩ :=
      (components_reshaped (s := s) rfl known).2 (.inr multiplied) _ _ first second
    refine ⟨entries, entries', run, run', fun ρ below => ?_⟩
    obtain ⟨x, x', here, here', equal⟩ := same ρ (List.forall_mem_singleton.mpr below)
    exact ⟨x, x', here, here', equal ℝ _⟩

end Example

end Expansion

end Galerkin
