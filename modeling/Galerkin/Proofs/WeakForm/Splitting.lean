import Mathlib
import Galerkin.Proofs.Expr.Product
import Galerkin.WeakForm

/-!
The terms of a weak form add up to it. Multiplying out a sum moves the factors of its terms into the
scope of the enclosing product, which keeps their value as long as no index is used more than twice there.
-/

namespace Galerkin

open Usage Galerkin.Expr

namespace Expr

theorem factors_of_mem_factors {e f : Expr} (member : f ∈ e.factors) : f.factors = [f] := by
  induction e with
  | prod a b iha ihb =>
      rcases List.mem_append.mp member with left | right
      · exact iha left
      · exact ihb right
  | _ =>
      simp only [factors, List.mem_singleton] at member
      subst member
      rfl

theorem exposed_subperm {a b : List Expr} (part : a.Subperm b) :
    (exposed a).Subperm (exposed b) := by
  obtain ⟨l, same, sub⟩ := part
  exact (exposed_perm same).symm.subperm.trans (sub.flatMap _).subperm

/-- An expression whose factors are among those of a balanced one is balanced. -/
theorem Balanced.of_subperm {a b : Expr} (balanced : Balanced false b)
    (part : a.factors.Subperm b.factors) : Balanced false a := by
  obtain ⟨each, small⟩ := balanced_iff.mp balanced
  refine balanced_iff.mpr ⟨fun f member => each f (part.subset member), fun i => ?_⟩
  exact le_trans ((exposed_subperm part).count_le i) (small i)

end Expr

namespace WeakForm

theorem terms_of_firstSplit_eq_none {fs : List SplitFactor} (none' : firstSplit fs = none) :
    ∀ f ∈ fs, f.terms = none := by
  induction fs with
  | nil => simp
  | cons f rest ih =>
      cases terms : f.terms with
      | some ts => simp [firstSplit, terms] at none'
      | none =>
          simp only [firstSplit, terms, Option.map_eq_none_iff] at none'
          exact List.forall_mem_cons.mpr ⟨terms, ih none'⟩

theorem firstSplit_eq_some {fs before behind : List SplitFactor} {terms : List Expr}
    (found : firstSplit fs = some (before, terms, behind)) :
    ∃ f, fs = before ++ f :: behind ∧ f.terms = some terms := by
  induction fs generalizing before with
  | nil => cases found
  | cons f rest ih =>
      cases here : f.terms with
      | some ts =>
          simp only [firstSplit, here, Option.some.injEq, Prod.mk.injEq] at found
          obtain ⟨rfl, rfl, rfl⟩ := found
          exact ⟨f, rfl, here⟩
      | none =>
          simp only [firstSplit, here, Option.map_eq_some_iff] at found
          obtain ⟨⟨first, _, _⟩, inside, same⟩ := found
          simp only [Prod.mk.injEq] at same
          obtain ⟨rfl, rfl, rfl⟩ := same
          obtain ⟨g, rfl, present⟩ := ih inside
          exact ⟨g, rfl, present⟩

/-- The other factors of a product in front of one term. -/
def multiplied (others : List SplitFactor) (term : Expr) : Expr :=
  others.foldl (fun product f => .prod f.whole product) term

/-- The factors of that product, those of the term unsplit. -/
def remaining (others : List SplitFactor) (term : Expr) : List SplitFactor :=
  others.reverse ++ term.factors.map .plain

theorem distribute_eq (whole : Expr) (fs : List SplitFactor) :
    distribute whole fs =
      match firstSplit fs with
      | none => [whole]
      | some (before, terms, behind) =>
        terms.flatMap fun term =>
          distribute (multiplied (before ++ behind) term) (remaining (before ++ behind) term) := by
  rw [distribute]
  cases found : firstSplit fs with
  | none => rfl
  | some parts => rfl

theorem whole_remaining (others : List SplitFactor) (term : Expr) :
    (remaining others term).map (·.whole) = (others.map (·.whole)).reverse ++ term.factors := by
  rw [remaining, List.map_append, List.map_reverse, List.map_map]
  congr 1
  exact List.map_id _

theorem factors_multiplied {others : List SplitFactor} (term : Expr)
    (atoms : ∀ f ∈ others, f.whole.factors = [f.whole]) :
    (multiplied others term).factors = (others.map (·.whole)).reverse ++ term.factors := by
  induction others generalizing term with
  | nil => rfl
  | cons f rest ih =>
      rw [List.forall_mem_cons] at atoms
      rw [multiplied, List.foldl_cons, ← multiplied, ih _ atoms.2, factors, atoms.1, List.map_cons,
        List.reverse_cons, List.append_assoc]

/-- Runs through the products that multiplying out goes through. -/
theorem distribute_induction {motive : Expr → List SplitFactor → List Expr → Prop}
    (done : ∀ whole fs, (∀ f ∈ fs, f.terms = none) → motive whole fs [whole])
    (split : ∀ whole before behind f terms, f.terms = some terms →
      (∀ term ∈ terms, motive (multiplied (before ++ behind) term) (remaining (before ++ behind) term)
        (distribute (multiplied (before ++ behind) term) (remaining (before ++ behind) term))) →
      motive whole (before ++ f :: behind)
        (terms.flatMap fun term =>
          distribute (multiplied (before ++ behind) term) (remaining (before ++ behind) term)))
    (whole : Expr) (fs : List SplitFactor) : motive whole fs (distribute whole fs) := by
  induction whole, fs using distribute.induct with
  | case1 whole fs none' =>
      rw [distribute_eq, none']
      exact done whole fs (terms_of_firstSplit_eq_none none')
  | case2 whole fs before terms behind found others ih =>
      rw [distribute_eq, found]
      obtain ⟨f, rfl, present⟩ := firstSplit_eq_some found
      exact split whole before behind f terms present fun term _ => ih term

theorem factors_step {whole : Expr} {before behind : List SplitFactor} {f : SplitFactor}
    (factors : whole.factors = (before ++ f :: behind).map (·.whole)) (term : Expr) :
    (multiplied (before ++ behind) term).factors =
      (remaining (before ++ behind) term).map (·.whole) := by
  rw [whole_remaining, factors_multiplied]
  intro g member
  apply factors_of_mem_factors (e := whole)
  rw [factors]
  apply List.mem_map_of_mem
  rcases List.mem_append.mp member with left | right
  · exact List.mem_append_left _ left
  · exact List.mem_append_right _ (List.mem_cons_of_mem f right)

/-- A split factor has terms. -/
def Splits (fs : List SplitFactor) : Prop := ∀ f ∈ fs, ∀ terms, f.terms = some terms → terms ≠ []

theorem mem_remaining {others : List SplitFactor} {term : Expr} {f : SplitFactor} :
    f ∈ remaining others term ↔ f ∈ others ∨ ∃ e ∈ term.factors, SplitFactor.plain e = f := by
  rw [remaining, List.mem_append, List.mem_reverse, List.mem_map]

/-- What holds of every split factor but one holds of those that remain. -/
theorem forall_remaining {P : SplitFactor → List Expr → Prop} {before behind : List SplitFactor}
    {f : SplitFactor} (each : ∀ g ∈ before ++ f :: behind, ∀ terms, g.terms = some terms → P g terms)
    (term : Expr) :
    ∀ g ∈ remaining (before ++ behind) term, ∀ terms, g.terms = some terms → P g terms := by
  intro g member terms present
  rcases mem_remaining.mp member with other | ⟨e, _, rfl⟩
  · apply each g _ terms present
    rcases List.mem_append.mp other with left | right
    · exact List.mem_append_left _ left
    · exact List.mem_append_right _ (List.mem_cons_of_mem f right)
  · cases present

theorem distribute_ne_nil (whole : Expr) {fs : List SplitFactor} (splits : Splits fs) :
    distribute whole fs ≠ [] := by
  revert splits
  apply distribute_induction (motive := fun _ fs result => Splits fs → result ≠ [])
  · intro whole fs _ _
    exact List.cons_ne_nil _ _
  · intro whole before behind f terms present ih splits
    obtain ⟨term, member⟩ := List.exists_mem_of_ne_nil _
      (splits f (by simp) terms present)
    intro empty
    exact ih term member (forall_remaining splits term) (List.flatMap_eq_nil_iff.mp empty term member)

/-- Factors that are not split stay factors of every term. -/
theorem unsplit_subperm {whole : Expr} {fs : List SplitFactor}
    (factors : whole.factors = fs.map (·.whole)) :
    ∀ t ∈ distribute whole fs,
      ((fs.filter (·.terms.isNone)).map (·.whole)).Subperm t.factors := by
  revert factors
  apply distribute_induction (motive := fun whole fs result =>
    whole.factors = fs.map (·.whole) →
      ∀ t ∈ result, ((fs.filter (·.terms.isNone)).map (·.whole)).Subperm t.factors)
  · intro whole fs _ factors t member
    rw [List.mem_singleton.mp member, factors]
    exact (List.filter_sublist.map _).subperm
  · intro whole before behind f terms present ih factors t member
    obtain ⟨term, inside, later⟩ := List.mem_flatMap.mp member
    have rest := ih term inside (factors_step factors term) t later
    refine List.Subperm.trans ?_ rest
    have others : (before ++ f :: behind).filter (·.terms.isNone) =
        (before ++ behind).filter (·.terms.isNone) := by
      rw [List.filter_append, List.filter_cons_of_neg (by simp [present]), ← List.filter_append]
    rw [others, remaining, List.filter_append (_ : List SplitFactor).reverse, List.filter_reverse,
      List.map_append]
    exact ((List.reverse_perm _).symm.map _).subperm.trans (List.sublist_append_left _ _).subperm

/-- The factors of each term of a split factor end up together in some term of the product. -/
theorem terms_subperm {whole : Expr} {fs : List SplitFactor}
    (factors : whole.factors = fs.map (·.whole)) (splits : Splits fs) :
    ∀ f ∈ fs, ∀ terms, f.terms = some terms → ∀ term ∈ terms,
      ∃ t ∈ distribute whole fs, term.factors.Subperm t.factors := by
  revert factors splits
  apply distribute_induction (motive := fun whole fs result =>
    whole.factors = fs.map (·.whole) → Splits fs → ∀ f ∈ fs, ∀ terms, f.terms = some terms →
      ∀ term ∈ terms, ∃ t ∈ result, term.factors.Subperm t.factors)
  · intro whole fs plain _ _ f member terms present
    rw [plain f member] at present
    cases present
  · intro whole before behind f terms present ih factors splits g member others found term inside
    have step := factors_step factors
    have nonempty := fun term => forall_remaining splits term
    have cases' : g = f ∨ g ∈ before ++ behind := by
      simpa [or_comm, or_assoc, or_left_comm] using member
    rcases cases' with rfl | other
    · rw [present] at found
      cases found
      obtain ⟨t, later⟩ := List.exists_mem_of_ne_nil _
        (distribute_ne_nil (multiplied (before ++ behind) term) (nonempty term))
      refine ⟨t, List.mem_flatMap.mpr ⟨term, inside, later⟩, ?_⟩
      refine List.Subperm.trans ?_ (unsplit_subperm (step term) t later)
      rw [remaining, List.filter_append, List.map_append]
      have kept : ((term.factors.map SplitFactor.plain).filter (·.terms.isNone)).map (·.whole) =
          term.factors := by
        rw [List.filter_eq_self.mpr (by simp [SplitFactor.plain]), List.map_map]
        exact List.map_id _
      rw [kept]
      exact (List.sublist_append_right _ _).subperm
    · obtain ⟨first, present'⟩ := List.exists_mem_of_ne_nil _ (splits f (by simp) terms present)
      obtain ⟨t, later, part⟩ := ih first present' (step first) (nonempty first) g
        (mem_remaining.mpr (Or.inl other)) others found term inside
      exact ⟨t, List.mem_flatMap.mpr ⟨first, present', later⟩, part⟩

variable {K : Type} [ExactNumbers K] {dim : Nat} {v : Quantity → K}

/-- Balanced terms have the free indices of an expression and add up to its value. -/
structure AddsUp (dim : Nat) (v : Quantity → K) (terms : List Expr) (e : Expr) : Prop where
  nonempty : terms ≠ []
  free : (∀ t ∈ terms, Balanced false t) →
    ∀ t ∈ terms, ∀ i, i ∈ freeIn false t ↔ i ∈ freeIn false e
  total : (∀ t ∈ terms, Balanced false t) →
    ∀ ρ, (terms.map (meaning dim v · ρ)).sum = meaning dim v e ρ

theorem AddsUp.single (e : Expr) : AddsUp dim v [e] e where
  nonempty := List.cons_ne_nil _ _
  free := by simp
  total := by simp

/-- A product, its factors, and the terms of those that are sums. -/
structure Prepared (dim : Nat) (v : Quantity → K) (whole : Expr) (fs : List SplitFactor) : Prop where
  factors : whole.factors = fs.map (·.whole)
  balanced : ∀ f ∈ fs, Balanced false f.whole
  addsUp : ∀ f ∈ fs, ∀ terms, f.terms = some terms → AddsUp dim v terms f.whole

namespace Prepared

variable {whole : Expr} {fs before behind : List SplitFactor} {f : SplitFactor} {terms : List Expr}

theorem splits (prepared : Prepared dim v whole fs) : Splits fs := fun f member terms present =>
  (prepared.addsUp f member terms present).nonempty

theorem step (prepared : Prepared dim v whole (before ++ f :: behind)) {term : Expr}
    (balanced : Balanced false term) :
    Prepared dim v (multiplied (before ++ behind) term) (remaining (before ++ behind) term) where
  factors := factors_step prepared.factors term
  balanced := by
    intro g member
    rcases mem_remaining.mp member with other | ⟨e, inside, rfl⟩
    · apply prepared.balanced
      rcases List.mem_append.mp other with left | right
      · exact List.mem_append_left _ left
      · exact List.mem_append_right _ (List.mem_cons_of_mem f right)
    · exact (balanced_iff.mp balanced).1 e inside
  addsUp := forall_remaining prepared.addsUp term

/-- Where all terms of the product are balanced, so are the terms of its factors. -/
theorem balanced_terms (prepared : Prepared dim v whole fs)
    (each : ∀ t ∈ distribute whole fs, Balanced false t) :
    ∀ f ∈ fs, ∀ terms, f.terms = some terms → ∀ term ∈ terms, Balanced false term := by
  intro f member terms present term inside
  obtain ⟨t, result, part⟩ :=
    terms_subperm prepared.factors prepared.splits f member terms present term inside
  exact (each t result).of_subperm part

theorem factors_perm (prepared : Prepared dim v whole (before ++ f :: behind)) :
    whole.factors.Perm (((before ++ behind).map (·.whole)).reverse ++ [f.whole]) := by
  rw [prepared.factors, List.map_append, List.map_cons, List.map_append]
  refine List.perm_middle.trans ?_
  exact (List.perm_append_singleton _ _).symm.trans
    ((List.reverse_perm _).symm.append_right [f.whole])

/-- A split factor exposes its free indices, each of its terms also those that it sums. -/
theorem count_exposed_step (prepared : Prepared dim v whole (before ++ f :: behind)) {term : Expr}
    (same : ∀ i, i ∈ freeIn false term ↔ i ∈ freeIn false f.whole) (i : Index) :
    ∃ n, (exposed whole.factors).count i =
        n + (if (exposed term.factors).count i = 1 then 1 else 0) ∧
      (exposed (multiplied (before ++ behind) term).factors).count i =
        n + (exposed term.factors).count i := by
  have alike : (freeIn false f.whole).Perm (once (exposed term.factors)) := by
    rw [← freeIn_eq_once, List.perm_ext_iff_of_nodup (nodup_freeIn _) (nodup_freeIn _)]
    exact fun i => (same i).symm
  refine ⟨(exposed ((before ++ behind).map (·.whole)).reverse).count i, ?_, ?_⟩
  · rw [(exposed_perm prepared.factors_perm).count_eq, exposed_append, List.count_append,
      exposed_singleton, alike.count_eq, count_once]
  · rw [factors_step prepared.factors, whole_remaining, exposed_append, List.count_append]

/-- Multiplying out exposes no index less often than before. -/
theorem count_exposed_le (prepared : Prepared dim v whole fs)
    (each : ∀ f ∈ fs, ∀ terms, f.terms = some terms → ∀ term ∈ terms, Balanced false term) :
    ∀ t ∈ distribute whole fs, ∀ i,
      (exposed whole.factors).count i ≤ (exposed t.factors).count i := by
  revert prepared each
  apply distribute_induction (motive := fun whole fs result =>
    Prepared dim v whole fs →
      (∀ f ∈ fs, ∀ terms, f.terms = some terms → ∀ term ∈ terms, Balanced false term) →
      ∀ t ∈ result, ∀ i, (exposed whole.factors).count i ≤ (exposed t.factors).count i)
  · intro whole fs _ _ _ t member i
    rw [List.mem_singleton.mp member]
  · intro whole before behind f terms present ih prepared each t member i
    obtain ⟨term, inside, later⟩ := List.mem_flatMap.mp member
    have balanced := each f (by simp) terms present
    have same := (prepared.addsUp f (by simp) terms present).free balanced term inside
    have next := ih term inside (prepared.step (balanced term inside)) (forall_remaining each term)
      t later i
    obtain ⟨n, first, second⟩ := prepared.count_exposed_step same i
    refine le_trans ?_ next
    rw [first, second]
    split <;> omega

/-- Multiplying one factor out keeps the free indices of the product. -/
theorem free_step (prepared : Prepared dim v whole (before ++ f :: behind)) {term : Expr}
    (same : ∀ i, i ∈ freeIn false term ↔ i ∈ freeIn false f.whole)
    (balanced : Balanced false (multiplied (before ++ behind) term)) (i : Index) :
    i ∈ freeIn false (multiplied (before ++ behind) term) ↔ i ∈ freeIn false whole := by
  obtain ⟨n, first, second⟩ := prepared.count_exposed_step same i
  have small := (balanced_iff.mp balanced).2 i
  rw [freeIn_eq_once, freeIn_eq_once, mem_once, mem_once, first, second]
  rw [second] at small
  split <;> omega

/-- Multiplying one factor out keeps the value of the product. -/
theorem meaning_step (prepared : Prepared dim v whole (before ++ f :: behind))
    (present : f.terms = some terms) (each : ∀ term ∈ terms, Balanced false term)
    (balanced : ∀ term ∈ terms, Balanced false (multiplied (before ++ behind) term))
    (ρ : Index → Nat) :
    (terms.map fun term => meaning dim v (multiplied (before ++ behind) term) ρ).sum =
      meaning dim v whole ρ := by
  have addsUp := prepared.addsUp f (by simp) terms present
  have nested (term : Expr) (inside : term ∈ terms) :
      meaning dim v (multiplied (before ++ behind) term) ρ =
        productMeaning dim v (((before ++ behind).map (·.whole)).reverse ++ [term]) ρ := by
    obtain ⟨parts, small⟩ := balanced_iff.mp (balanced term inside)
    rw [factors_step prepared.factors, whole_remaining] at parts small
    rw [meaning_eq_productMeaning, factors_step prepared.factors, whole_remaining]
    exact productMeaning_nested (List.forall_mem_append.mp parts).1 small ρ
  rw [List.map_congr_left nested, ← productMeaning_sum (addsUp.free each) (addsUp.total each),
    ← productMeaning_perm prepared.factors_perm, ← meaning_eq_productMeaning]

/-- The terms of a product add up to it. -/
theorem distribute_addsUp (prepared : Prepared dim v whole fs) :
    AddsUp dim v (distribute whole fs) whole := by
  suffices both : (∀ t ∈ distribute whole fs, Balanced false t) →
      (∀ t ∈ distribute whole fs, ∀ i, i ∈ freeIn false t ↔ i ∈ freeIn false whole) ∧
        ∀ ρ, ((distribute whole fs).map (meaning dim v · ρ)).sum = meaning dim v whole ρ from
    ⟨distribute_ne_nil whole prepared.splits, fun each => (both each).1, fun each => (both each).2⟩
  intro balanced
  have each := prepared.balanced_terms balanced
  revert prepared balanced each
  apply distribute_induction (motive := fun whole fs result =>
    Prepared dim v whole fs → (∀ t ∈ result, Balanced false t) →
      (∀ f ∈ fs, ∀ terms, f.terms = some terms → ∀ term ∈ terms, Balanced false term) →
      (∀ t ∈ result, ∀ i, i ∈ freeIn false t ↔ i ∈ freeIn false whole) ∧
        ∀ ρ, (result.map (meaning dim v · ρ)).sum = meaning dim v whole ρ)
  · intro whole fs _ _ final _
    have alone : AddsUp dim v [whole] whole := .single whole
    exact ⟨alone.free final, alone.total final⟩
  · intro whole before behind f terms present ih prepared balanced each
    have here := each f (by simp) terms present
    have free := (prepared.addsUp f (by simp) terms present).free here
    have next := fun term inside => prepared.step (here term inside)
    -- A product is balanced because multiplying it out further exposes no index less often.
    have whole' : ∀ term ∈ terms, Balanced false (multiplied (before ++ behind) term) := by
      intro term inside
      obtain ⟨t, later⟩ := List.exists_mem_of_ne_nil _
        (distribute_ne_nil (multiplied (before ++ behind) term) (next term inside).splits)
      have final := balanced_iff.mp (balanced t (List.mem_flatMap.mpr ⟨term, inside, later⟩))
      refine balanced_iff.mpr ⟨?_, fun i => ?_⟩
      · rw [(next term inside).factors]
        exact List.forall_mem_map.mpr (next term inside).balanced
      · exact le_trans ((next term inside).count_exposed_le (forall_remaining each term) t later i)
          (final.2 i)
    have results := fun term inside => ih term inside (next term inside)
      (fun t later => balanced t (List.mem_flatMap.mpr ⟨term, inside, later⟩))
      (forall_remaining each term)
    constructor
    · intro t member i
      obtain ⟨term, inside, later⟩ := List.mem_flatMap.mp member
      exact ((results term inside).1 t later i).trans
        (prepared.free_step (free term inside) (whole' term inside) i)
    · intro ρ
      rw [← prepared.meaning_step present here whole' ρ, List.map_flatMap, List.flatMap,
        List.sum_flatten, List.map_map]
      congr 1
      apply List.map_congr_left
      intro term inside
      exact (results term inside).2 ρ

end Prepared

namespace AddsUp

variable {a b : Expr} {ts us : List Expr}

theorem sum (left : AddsUp dim v ts a) (right : AddsUp dim v us b)
    (same : ∀ i, i ∈ freeIn false a ↔ i ∈ freeIn false b) : AddsUp dim v (ts ++ us) (.sum a b) where
  nonempty := List.append_ne_nil_of_left_ne_nil left.nonempty us
  free := by
    intro balanced t member i
    rw [List.forall_mem_append] at balanced
    rcases List.mem_append.mp member with first | second
    · exact left.free balanced.1 t first i
    · exact (right.free balanced.2 t second i).trans (same i).symm
  total := by
    intro balanced ρ
    rw [List.forall_mem_append] at balanced
    rw [List.map_append, List.sum_append, left.total balanced.1, right.total balanced.2]
    rfl

theorem quot (left : AddsUp dim v ts a) : AddsUp dim v (ts.map (Expr.quot · b)) (.quot a b) where
  nonempty := by
    rw [ne_eq, List.map_eq_nil_iff]
    exact left.nonempty
  free := by
    intro balanced t member i
    have each : ∀ t ∈ ts, Balanced false t := fun t inside =>
      (balanced _ (List.mem_map_of_mem inside)).1
    obtain ⟨term, inside, rfl⟩ := List.mem_map.mp member
    exact left.free each term inside i
  total := by
    intro balanced ρ
    have each : ∀ t ∈ ts, Balanced false t := fun t inside =>
      (balanced _ (List.mem_map_of_mem inside)).1
    calc ((ts.map (Expr.quot · b)).map (meaning dim v · ρ)).sum
        = (ts.map fun t => meaning dim v t ρ * (meaning dim v b ρ)⁻¹).sum := by
          rw [List.map_map]
          congr 1
          apply List.map_congr_left
          intro t _
          exact div_eq_mul_inv _ _
      _ = meaning dim v (.quot a b) ρ := by
          rw [List.sum_map_mul_right, left.total each, ← div_eq_mul_inv]
          rfl

end AddsUp

theorem Prepared.single {e : Expr} {terms : Option (List Expr)} (atom : e.factors = [e])
    (balanced : Balanced false e) (addsUp : ∀ ts, terms = some ts → AddsUp dim v ts e) :
    Prepared dim v e [⟨e, terms⟩] where
  factors := atom
  balanced := by simpa
  addsUp := by simpa

theorem analyse_spec (e : Expr) :
    (Balanced true e → Prepared dim v e (analyse e).1) ∧
      (Balanced false e → AddsUp dim v (analyse e).2 e) := by
  have plain {e : Expr} (atom : e.factors = [e]) (balanced : Balanced false e) :
      Prepared dim v e [.plain e] := Prepared.single atom balanced (by simp)
  induction e with
  | sum a b iha ihb =>
      have adds (balanced : Balanced false (.sum a b)) : AddsUp dim v (analyse (.sum a b)).2 (.sum a b) :=
        (iha.2 balanced.1).sum (ihb.2 balanced.2.1) balanced.2.2
      refine ⟨fun balanced => Prepared.single rfl balanced ?_, adds⟩
      intro ts present
      split at present
      · cases present
        exact adds balanced
      · cases present
  | prod a b iha ihb =>
      have both (balanced : Balanced true (.prod a b)) :
          Prepared dim v (.prod a b) (analyse (.prod a b)).1 := by
        have left := iha.1 balanced.1
        have right := ihb.1 balanced.2.1
        constructor
        · rw [factors, left.factors, right.factors, ← List.map_append]
          rfl
        · exact List.forall_mem_append.mpr ⟨left.balanced, right.balanced⟩
        · exact List.forall_mem_append.mpr ⟨left.addsUp, right.addsUp⟩
      refine ⟨both, fun balanced => (both ?_).distribute_addsUp⟩
      exact balanced_factors.mpr (balanced_iff.mp balanced).1
  | quot a b iha ihb =>
      refine ⟨fun balanced => plain rfl balanced, fun balanced => ?_⟩
      simp only [analyse]
      split
      · next x y =>
          split
          · exact (iha.2 balanced.1).quot
          · exact AddsUp.single _
      · exact AddsUp.single _
  | _ => exact ⟨fun balanced => plain rfl balanced, fun _ => AddsUp.single _⟩

/-- The terms of a balanced form add up to it, if they are balanced themselves. -/
theorem splitTerms_addsUp {e : Expr} (balanced : Balanced false e) :
    AddsUp dim v (splitTerms e) e := (analyse_spec e).2 balanced

end WeakForm

end Galerkin
