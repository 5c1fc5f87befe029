import Mathlib
import Galerkin.Proofs.Expr.Shape
import Galerkin.Proofs.WeakForm.Scaling

/-!
Splitting a weak form ends, and what it ends with are the terms that multiplying out on paper gives: one for each choice
of a summand in each sum that is multiplied out. Splitting goes back to products that are larger than the one it came
from, but each of them has one sum of pairings less among its factors.
-/

namespace Galerkin

open Usage Galerkin.Expr

namespace WeakForm

instance : DecidablePred IsSplit
  | .sum a b => inferInstanceAs (Decidable ((Expr.sum a b).hasPairing = true))
  | .const _ | .param _ | .field _ _ _ _ | .bare _ | .normal _ | .delta _ _ | .prod _ _ | .quot _ _ | .power _ _
  | .apply _ _ | .pairing _ _ => inferInstanceAs (Decidable False)

theorem not_isSplit {e : Expr} (notSum : ∀ a b, e ≠ .sum a b) : ¬IsSplit e := by
  cases e with
  | sum a b => exact absurd rfl (notSum a b)
  | _ => exact id

theorem factors_leaf {e : Expr} (notProd : ∀ a b, e ≠ .prod a b) : e.factors = [e] := by
  cases e with
  | prod a b => exact absurd rfl (notProd a b)
  | _ => rfl

theorem factorOf_of_isSplit {f : Expr} (split : IsSplit f) : factorOf f = ⟨f, some (splitTerms f)⟩ := by
  cases f with
  | sum a b => exact congrArg (SplitFactor.mk _) (if_pos split)
  | _ => cases split

theorem factorOf_of_not_isSplit {f : Expr} (whole : ¬IsSplit f) : factorOf f = .plain f := by
  cases f with
  | sum a b => exact congrArg (SplitFactor.mk _) (if_neg whole)
  | _ => rfl

/-! ### The terms that splitting ends with -/

/-- There is nothing left to multiply out. -/
structure Finished (t : Expr) : Prop where
  notSum : ∀ a b, t ≠ .sum a b
  factors : ∀ f ∈ t.factors, ¬IsSplit f

theorem finished_of_leaf {e : Expr} (notSum : ∀ a b, e ≠ .sum a b) (notProd : ∀ a b, e ≠ .prod a b) : Finished e := by
  refine ⟨notSum, ?_⟩
  rw [factors_leaf notProd, List.forall_mem_singleton]
  exact not_isSplit notSum

theorem others_subset {α : Type} {f : α} {before behind : List α} : before ++ behind ⊆ before ++ f :: behind :=
  ((List.sublist_cons_self f behind).append_left before).subset

theorem multiplied_notSum {others : List SplitFactor} {term : Expr} (notSum : ∀ a b, term ≠ .sum a b) :
    ∀ a b, multiplied others term ≠ .sum a b := by
  induction others generalizing term with
  | nil => exact notSum
  | cons f rest ih =>
      have product : ∀ a b, Expr.prod f.whole term ≠ .sum a b := nofun
      exact ih product

theorem finished_distribute {whole : Expr} {fs : List SplitFactor} (notSum : ∀ a b, whole ≠ .sum a b)
    (factors : whole.factors = fs.map (·.whole)) (plain : ∀ f ∈ fs, f.terms = none → ¬IsSplit f.whole)
    (finished : ∀ f ∈ fs, ∀ terms, f.terms = some terms → ∀ t ∈ terms, Finished t) :
    ∀ t ∈ distribute whole fs, Finished t := by
  revert notSum factors plain finished
  apply distribute_induction (motive := fun whole fs result => (∀ a b, whole ≠ .sum a b) →
    whole.factors = fs.map (·.whole) → (∀ f ∈ fs, f.terms = none → ¬IsSplit f.whole) →
      (∀ f ∈ fs, ∀ terms, f.terms = some terms → ∀ t ∈ terms, Finished t) → ∀ t ∈ result, Finished t)
  · intro whole fs none notSum factors plain _ t member
    rw [List.mem_singleton.mp member]
    refine ⟨notSum, ?_⟩
    rw [factors, List.forall_mem_map]
    intro f inside
    exact plain f inside (none f inside)
  · intro whole before behind f terms present ih notSum factors plain finished t member
    rcases List.mem_flatMap.mp member with ⟨term, inside, later⟩
    have own := finished f (by simp) terms present term inside
    apply ih term inside (multiplied_notSum own.notSum) (factors_step factors term) _ (forall_remaining finished term) t later
    intro g among none
    rcases mem_remaining.mp among with other | ⟨e, part, rfl⟩
    · exact plain g (others_subset other) none
    · exact own.factors e part

/-- What holds of the parts that splitting looks at holds of the whole; a product is looked at as its factors. -/
theorem splitting_induction {motive : Expr → Prop} (sum : ∀ a b, motive a → motive b → motive (.sum a b))
    (prod : ∀ a b, (∀ f ∈ (Expr.prod a b).factors, motive f) → motive (.prod a b))
    (quot : ∀ a b, motive a → motive (.quot a b))
    (leaf : ∀ e, (∀ a b, e ≠ .sum a b) → Divisible e → (∀ a b, e ≠ .prod a b) → motive e) (e : Expr) :
    motive e := by
  suffices both : (∀ f ∈ e.factors, motive f) ∧ motive e from both.2
  have single {e : Expr} (atom : e.factors = [e]) (here : motive e) : (∀ f ∈ e.factors, motive f) ∧ motive e := by
    rw [atom, List.forall_mem_singleton]
    exact ⟨here, here⟩
  induction e with
  | sum a b iha ihb => exact single rfl (sum a b iha.2 ihb.2)
  | prod a b iha ihb =>
      have each : ∀ f ∈ (Expr.prod a b).factors, motive f := List.forall_mem_append.mpr ⟨iha.1, ihb.1⟩
      exact ⟨each, prod a b each⟩
  | quot a b iha _ => exact single rfl (quot a b iha.2)
  | _ => exact single rfl (leaf _ nofun trivial nofun)

theorem splitTerms_finished (e : Expr) : ∀ t ∈ splitTerms e, Finished t := by
  induction e using splitting_induction with
  | sum a b iha ihb => exact List.forall_mem_append.mpr ⟨iha, ihb⟩
  | prod a b ih =>
      have notSum : ∀ x y, Expr.prod a b ≠ .sum x y := nofun
      rw [splitTerms_prod]
      apply finished_distribute notSum (whole_map_factorOf _).symm
      · rw [List.forall_mem_map]
        intro f _ none split
        rw [factorOf_of_isSplit (whole_factorOf f ▸ split)] at none
        cases none
      · rw [List.forall_mem_map]
        intro f inside terms present
        by_cases split : IsSplit f
        · rw [factorOf_of_isSplit split] at present
          cases present
          exact ih f inside
        · rw [factorOf_of_not_isSplit split] at present
          cases present
  | quot a b ih =>
      rcases splitTerms_quot a b with ⟨terms, -⟩ | ⟨terms, -⟩
      · rw [terms, List.forall_mem_singleton]
        exact finished_of_leaf nofun nofun
      · rw [terms, List.forall_mem_map]
        intro t _
        exact finished_of_leaf nofun nofun
  | leaf e notSum divisible notProd =>
      rw [splitTerms_of_divisible divisible notSum, List.forall_mem_singleton]
      exact finished_of_leaf notSum notProd

/-! ### How splitting goes on -/

/-- The other factors of a product in front of one term, the last one outermost. -/
def scaledBy (others : List Expr) (term : Expr) : Expr := others.foldl (fun product f => .prod f product) term

/-- How splitting goes on from an expression, and the terms that it comes back with. A sum is split into those of its
operands. A product is multiplied out over its first sum of pairings, and the products that this gives are split in
turn. A quotient of a sum of pairings is split as its numerator is. Everything else is a term. -/
inductive SplitsInto : Expr → List Expr → Prop where
  | sum {a b : Expr} {ts us : List Expr} (left : SplitsInto a ts) (right : SplitsInto b us) :
      SplitsInto (.sum a b) (ts ++ us)
  | prod {a b f : Expr} {before behind ts : List Expr} {split : Expr → List Expr}
      (factors : (Expr.prod a b).factors = before ++ f :: behind) (first : ∀ g ∈ before, ¬IsSplit g) (here : IsSplit f)
      (inner : SplitsInto f ts) (outer : ∀ t ∈ ts, SplitsInto (scaledBy (before ++ behind) t) (split t)) :
      SplitsInto (.prod a b) (ts.flatMap split)
  | quot {a b : Expr} {ts : List Expr} (here : IsSplit a) (inner : SplitsInto a ts) :
      SplitsInto (.quot a b) (ts.map (.quot · b))
  | term {e : Expr} (notSum : ∀ a b, e ≠ .sum a b) (divisible : Divisible e) : SplitsInto e [e]

theorem multiplied_factorOf (others : List Expr) (term : Expr) :
    multiplied (others.map factorOf) term = scaledBy others term := by
  rw [multiplied, List.foldl_map]
  simp only [whole_factorOf]
  rfl

theorem factors_scaledBy {others : List Expr} (term : Expr) (atoms : ∀ f ∈ others, f.factors = [f]) :
    (scaledBy others term).factors = others.reverse ++ term.factors := by
  rw [← multiplied_factorOf, factors_multiplied term, whole_map_factorOf]
  rw [List.forall_mem_map]
  intro f member
  rw [whole_factorOf, atoms f member]

theorem scaledBy_eq_prod {others : List Expr} (some : others ≠ []) (term : Expr) :
    ∃ a b, scaledBy others term = .prod a b := by
  induction others generalizing term with
  | nil => exact absurd rfl some
  | cons f rest ih =>
      cases rest with
      | nil => exact ⟨f, term, rfl⟩
      | cons g rest => exact ih (List.cons_ne_nil _ _) _

section Products

variable {a b f : Expr} {before behind : List Expr}

theorem others_ne_nil (factors : (Expr.prod a b).factors = before ++ f :: behind) : before ++ behind ≠ [] := by
  have left : 0 < a.factors.length := List.length_pos_iff.mpr (factors_ne_nil a)
  have right : 0 < b.factors.length := List.length_pos_iff.mpr (factors_ne_nil b)
  have size := congrArg List.length factors
  simp only [Expr.factors, List.length_append, List.length_cons] at size
  rw [ne_eq, ← List.length_eq_zero_iff, List.length_append]
  omega

theorem others_atoms (factors : (Expr.prod a b).factors = before ++ f :: behind) :
    ∀ g ∈ before ++ behind, g.factors = [g] := by
  intro g member
  apply factors_of_mem_factors (e := .prod a b)
  rw [factors]
  exact others_subset member

theorem firstSplit_factorOf (first : ∀ g ∈ before, ¬IsSplit g) (here : IsSplit f) :
    firstSplit ((before ++ f :: behind).map factorOf) =
      some (before.map factorOf, splitTerms f, behind.map factorOf) := by
  induction before with
  | nil => simp only [List.nil_append, List.map_cons, firstSplit, factorOf_of_isSplit here, List.map_nil]
  | cons g rest ih =>
      rw [List.forall_mem_cons] at first
      have plain := factorOf_of_not_isSplit first.1
      simp only [List.cons_append, List.map_cons, plain, firstSplit, SplitFactor.plain, ih first.2, Option.map_some]

/-- A term in a product has nothing left to multiply out. -/
theorem remaining_factorOf {t : Expr} (finished : Finished t) (others : List Expr) :
    remaining (others.map factorOf) t = (others.reverse ++ t.factors).map factorOf := by
  rw [remaining, List.map_append, List.map_reverse]
  congr 1
  apply List.map_congr_left
  intro f member
  exact (factorOf_of_not_isSplit (finished.factors f member)).symm

/-- A product is split by way of the products of the other factors and the terms of its first sum of pairings. -/
theorem splitTerms_of_factors (factors : (Expr.prod a b).factors = before ++ f :: behind)
    (first : ∀ g ∈ before, ¬IsSplit g) (here : IsSplit f) :
    splitTerms (.prod a b) = (splitTerms f).flatMap fun t => splitTerms (scaledBy (before ++ behind) t) := by
  have again : ∀ t ∈ splitTerms f, splitTerms (scaledBy (before ++ behind) t) =
      distribute (multiplied (before.map factorOf ++ behind.map factorOf) t)
        (remaining (before.map factorOf ++ behind.map factorOf) t) := by
    intro t member
    rcases scaledBy_eq_prod (others_ne_nil factors) t with ⟨x, y, product⟩
    rw [← List.map_append, multiplied_factorOf, remaining_factorOf (splitTerms_finished f t member),
      ← factors_scaledBy t (others_atoms factors), product, splitTerms_prod]
  rw [splitTerms_prod, distribute_eq, factors, firstSplit_factorOf first here]
  exact List.flatMap_congr fun t member => (again t member).symm

end Products

/-- The sums of pairings that are left to multiply out. -/
def undistributed (e : Expr) : Nat := e.factors.countP fun f => decide (IsSplit f)

/-- Each of the larger products that splitting goes back to has one sum of pairings less among its factors. -/
theorem undistributed_scaledBy {a b f t : Expr} {before behind : List Expr}
    (factors : (Expr.prod a b).factors = before ++ f :: behind) (here : IsSplit f) (finished : Finished t) :
    undistributed (scaledBy (before ++ behind) t) + 1 = undistributed (.prod a b) := by
  have none : t.factors.countP (fun f => decide (IsSplit f)) = 0 := by
    rw [List.countP_eq_zero]
    intro g member
    simpa using finished.factors g member
  have one : List.countP (fun f => decide (IsSplit f)) [f] = 1 := by
    rw [List.countP_singleton, if_pos (decide_eq_true here)]
  calc undistributed (scaledBy (before ++ behind) t) + 1
      = (before ++ behind).countP (fun f => decide (IsSplit f)) + 0 + 1 := by
        rw [undistributed, factors_scaledBy t (others_atoms factors), List.countP_append, List.countP_reverse, none]
    _ = undistributed (.prod a b) := by
        rw [undistributed, factors, List.append_cons, List.countP_append, List.countP_append, List.countP_append, one]
        omega

theorem exists_first {fs : List Expr} (some : ∃ f ∈ fs, IsSplit f) :
    ∃ before f behind, fs = before ++ f :: behind ∧ (∀ g ∈ before, ¬IsSplit g) ∧ IsSplit f := by
  induction fs with
  | nil => simp at some
  | cons g rest ih =>
      by_cases here : IsSplit g
      · exact ⟨[], g, rest, rfl, List.forall_mem_nil _, here⟩
      · have later : ∃ f ∈ rest, IsSplit f := by
          simpa [here] using some
        rcases ih later with ⟨before, f, behind, rfl, first, split⟩
        exact ⟨g :: before, f, behind, rfl, List.forall_mem_cons.mpr ⟨here, first⟩, split⟩

/-- A product whose sums of pairings can be split can be split: the induction is on how many of them there are, and the
terms of the first one bring no new ones. -/
theorem splitsInto_prod {a b : Expr} (inner : ∀ f ∈ (Expr.prod a b).factors, IsSplit f → SplitsInto f (splitTerms f)) :
    SplitsInto (.prod a b) (splitTerms (.prod a b)) := by
  induction left : undistributed (.prod a b) generalizing a b with
  | zero =>
      have divisible : Divisible (.prod a b) := by
        intro f member
        simpa using List.countP_eq_zero.mp left f member
      rw [splitTerms_of_divisible divisible nofun]
      exact .term nofun divisible
  | succ n ih =>
      have some : ∃ f ∈ (Expr.prod a b).factors, IsSplit f := by
        have positive : 0 < undistributed (.prod a b) := left ▸ n.succ_pos
        simpa using List.countP_pos_iff.mp positive
      rcases exists_first some with ⟨before, f, behind, factors, first, here⟩
      rw [splitTerms_of_factors factors first here]
      apply SplitsInto.prod factors first here
      · apply inner f _ here
        rw [factors]
        exact List.mem_append_right _ List.mem_cons_self
      · intro t member
        have finished := splitTerms_finished f t member
        have less := undistributed_scaledBy factors here finished
        have parts := factors_scaledBy t (others_atoms factors)
        rcases scaledBy_eq_prod (others_ne_nil factors) t with ⟨x, y, product⟩
        rw [product] at less parts ⊢
        apply ih _ (by omega)
        intro g among split
        rw [parts, List.mem_append, List.mem_reverse] at among
        rcases among with other | own
        · apply inner g _ split
          rw [factors]
          exact others_subset other
        · exact absurd split (finished.factors g own)

theorem splitsInto_splitTerms (e : Expr) : SplitsInto e (splitTerms e) := by
  induction e using splitting_induction with
  | sum a b iha ihb => exact .sum iha ihb
  | prod a b ih => exact splitsInto_prod fun f member _ => ih f member
  | quot a b ih =>
      rcases splitTerms_quot a b with ⟨terms, whole⟩ | ⟨terms, split⟩
      · rw [terms]
        exact .term nofun whole
      · rw [terms]
        exact .quot split ih
  | leaf e notSum divisible _ =>
      rw [splitTerms_of_divisible divisible notSum]
      exact .term notSum divisible

/-- Splitting comes back with one list of terms. -/
theorem SplitsInto.eq {e : Expr} {ts : List Expr} (splits : SplitsInto e ts) : ts = splitTerms e := by
  induction splits with
  | sum _ _ left right => exact congrArg₂ (· ++ ·) left right
  | prod factors first here _ _ inner outer =>
      rw [splitTerms_of_factors factors first here, ← inner]
      exact List.flatMap_congr outer
  | @quot a b ts here _ inner =>
      rcases splitTerms_quot a b with ⟨-, whole⟩ | ⟨terms, -⟩
      · exact absurd here whole
      · rw [terms, inner]
  | term notSum divisible => exact (splitTerms_of_divisible divisible notSum).symm

theorem splitsInto_iff {e : Expr} {ts : List Expr} : SplitsInto e ts ↔ ts = splitTerms e := by
  constructor
  · exact SplitsInto.eq
  · rintro rfl
    exact splitsInto_splitTerms e

/-! ### The choices of summands -/

/-- The products that multiplying out on paper gives, one for each choice of a summand in each sum that is multiplied
out. A factor is chosen from if it is a sum of pairings, and a numerator if it is one and its quotient is no factor. -/
def choicesIn (asFactor : Bool) : Expr → List Expr
  | .sum a b => if asFactor = true ∧ ¬IsSplit (.sum a b) then [.sum a b] else choicesIn false a ++ choicesIn false b
  | .prod a b => (choicesIn true a).flatMap fun x => (choicesIn true b).map fun y => .prod x y
  | .quot a b => if asFactor = false ∧ IsSplit a then (choicesIn false a).map (.quot · b) else [.quot a b]
  | e => [e]

def choices (e : Expr) : List Expr := choicesIn false e

/-- Terms by their factors, in any order. -/
def factorsOf (ts : List Expr) : Multiset (Multiset Expr) := (ts : Multiset Expr).map fun t => (t.factors : Multiset Expr)

/-- The factors to choose from in place of one factor of a product. -/
def SplitFactor.alternatives (f : SplitFactor) : Multiset (Multiset Expr) :=
  match f.terms with
  | none => {{f.whole}}
  | some terms => factorsOf terms

theorem SplitFactor.alternatives_plain {f : SplitFactor} (plain : f.terms = none) : f.alternatives = {{f.whole}} := by
  rw [alternatives, plain]

theorem SplitFactor.alternatives_split {f : SplitFactor} {terms : List Expr} (present : f.terms = some terms) :
    f.alternatives = factorsOf terms := by
  rw [alternatives, present]

/-- The factors of the products in which an alternative is chosen for each factor. -/
def combined (fs : List SplitFactor) : Multiset (Multiset Expr) :=
  (Multiset.Sections (fs.map (·.alternatives) : Multiset (Multiset (Multiset Expr)))).map Multiset.sum

theorem combined_perm {fs gs : List SplitFactor} (same : fs.Perm gs) : combined fs = combined gs := by
  rw [combined, Multiset.coe_eq_coe.mpr (same.map _), combined]

theorem combined_append (fs gs : List SplitFactor) :
    combined (fs ++ gs) = (combined fs).bind fun p => (combined gs).map (p + ·) := by
  rw [combined, List.map_append, ← Multiset.coe_add, Multiset.sections_add, Multiset.map_bind]
  simp only [combined, Multiset.map_map, Multiset.bind_map, Function.comp_def, Multiset.sum_add]

theorem combined_cons (f : SplitFactor) (fs : List SplitFactor) :
    combined (f :: fs) = f.alternatives.bind fun p => (combined fs).map (p + ·) := by
  rw [combined, List.map_cons, ← Multiset.cons_coe, Multiset.sections_cons, Multiset.map_bind]
  simp only [combined, Multiset.map_map, Function.comp_def, Multiset.sum_cons]

/-- Where no factor is split there is nothing to choose. -/
theorem combined_of_unsplit {fs : List SplitFactor} (unsplit : ∀ f ∈ fs, f.terms = none) :
    combined fs = {((fs.map (·.whole) : List Expr) : Multiset Expr)} := by
  induction fs with
  | nil => rfl
  | cons f rest ih =>
      rw [List.forall_mem_cons] at unsplit
      rw [combined_cons, ih unsplit.2, SplitFactor.alternatives_plain unsplit.1, Multiset.singleton_bind, Multiset.map_singleton]
      rfl

theorem combined_remaining (others : List SplitFactor) (term : Expr) :
    combined (remaining others term) = (combined others).map ((term.factors : Multiset Expr) + ·) := by
  have plain : ∀ f ∈ term.factors.map SplitFactor.plain, f.terms = none := List.forall_mem_map.mpr fun _ _ => rfl
  have whole : (term.factors.map SplitFactor.plain).map (·.whole) = term.factors := by
    rw [List.map_map]
    exact List.map_id _
  rw [remaining, combined_perm (List.perm_append_comm.trans ((List.reverse_perm others).append_left _)),
    combined_append, combined_of_unsplit plain, whole, Multiset.singleton_bind]

/-- Multiplying out gives one product for each choice. -/
theorem factorsOf_distribute {whole : Expr} {fs : List SplitFactor} (factors : whole.factors = fs.map (·.whole)) :
    factorsOf (distribute whole fs) = combined fs := by
  revert factors
  apply distribute_induction (motive := fun whole fs result =>
    whole.factors = fs.map (·.whole) → factorsOf result = combined fs)
  · intro whole fs none factors
    rw [combined_of_unsplit none, ← factors]
    rfl
  · intro whole before behind f terms present ih factors
    calc factorsOf (terms.flatMap fun term => distribute (multiplied (before ++ behind) term)
          (remaining (before ++ behind) term))
        = (terms : Multiset Expr).bind fun term => factorsOf (distribute (multiplied (before ++ behind) term)
            (remaining (before ++ behind) term)) := by
          rw [factorsOf, ← Multiset.coe_bind, Multiset.map_bind]
          rfl
      _ = (terms : Multiset Expr).bind fun term =>
            (combined (before ++ behind)).map ((term.factors : Multiset Expr) + ·) := by
          apply Multiset.bind_congr
          intro term inside
          rw [ih term inside (factors_step factors term), combined_remaining]
      _ = combined (before ++ f :: behind) := by
          rw [combined_perm List.perm_middle, combined_cons, SplitFactor.alternatives_split present, factorsOf,
            Multiset.bind_map]

/-- Are these the factors of a term, up to regrouping? -/
def MakeUp (fs : Multiset Expr) (t : Expr) : Prop := Multiset.Rel Regrouped fs (t.factors : Multiset Expr)

/-- Do two terms have the same factors, up to regrouping? -/
def SameFactors (t u : Expr) : Prop := MakeUp t.factors u

theorem sameFactors_refl (t : Expr) : SameFactors t t := Multiset.rel_refl_of_refl_on fun f _ => .refl f

theorem makeUp_single {e e' : Expr} (atom : e'.factors = [e']) (same : Regrouped e e') : MakeUp {e} e' := by
  rw [MakeUp, atom]
  exact .cons same .zero

theorem MakeUp.prod {fs gs : Multiset Expr} {x y : Expr} (left : MakeUp fs x) (right : MakeUp gs y) :
    MakeUp (fs + gs) (.prod x y) := by
  rw [MakeUp, factors, ← Multiset.coe_add]
  exact left.add right

theorem combined_whole {e : Expr} (atom : e.factors = [e]) (whole : ¬IsSplit e) :
    combined (e.factors.map factorOf) = {{e}} := by
  rw [atom, List.map_singleton, factorOf_of_not_isSplit whole, combined_of_unsplit (List.forall_mem_singleton.mpr rfl)]
  rfl

theorem combined_split {e : Expr} (atom : e.factors = [e]) (split : IsSplit e) :
    combined (e.factors.map factorOf) = factorsOf (splitTerms e) := by
  have none : combined [] = {0} := rfl
  rw [atom, List.map_singleton, factorOf_of_isSplit split, combined_cons, none, SplitFactor.alternatives_split rfl]
  simp only [Multiset.map_singleton, add_zero]
  exact (Multiset.bind_singleton _ id).trans (Multiset.map_id _)

/-- Splitting and choosing go together, for what an expression is as a factor and for its terms. -/
structure Chosen (e : Expr) : Prop where
  factors : Multiset.Rel MakeUp (combined (e.factors.map factorOf)) (choicesIn true e)
  terms : Multiset.Rel SameFactors (splitTerms e : Multiset Expr) (choicesIn false e)

theorem chosen_leaf {e : Expr} (atom : e.factors = [e]) (whole : ¬IsSplit e) (terms : splitTerms e = [e])
    (choice : ∀ asFactor, choicesIn asFactor e = [e]) : Chosen e where
  factors := by
    rw [combined_whole atom whole, choice]
    exact .cons (makeUp_single atom (.refl e)) .zero
  terms := by
    rw [terms, choice]
    exact .cons (sameFactors_refl e) .zero

theorem chosen_sum {a b : Expr} (left : Chosen a) (right : Chosen b) : Chosen (.sum a b) := by
  have split : splitTerms (.sum a b) = splitTerms a ++ splitTerms b := rfl
  have terms : Multiset.Rel SameFactors (splitTerms (.sum a b) : Multiset Expr)
      (choicesIn false a ++ choicesIn false b : List Expr) := by
    rw [split, ← Multiset.coe_add, ← Multiset.coe_add]
    exact left.terms.add right.terms
  constructor
  · by_cases here : IsSplit (.sum a b)
    · rw [combined_split rfl here, choicesIn, if_neg fun both => both.2 here, factorsOf, Multiset.rel_map_left]
      exact terms
    · rw [combined_whole rfl here, choicesIn, if_pos ⟨rfl, here⟩]
      exact .cons (makeUp_single rfl (.refl _)) .zero
  · rw [choicesIn, if_neg fun both => Bool.false_ne_true both.1]
    exact terms

theorem chosen_prod {a b : Expr} (left : Chosen a) (right : Chosen b) : Chosen (.prod a b) := by
  have both : Multiset.Rel MakeUp (combined ((Expr.prod a b).factors.map factorOf)) (choicesIn true (.prod a b)) := by
    rw [Expr.factors, List.map_append, combined_append, choicesIn, ← Multiset.coe_bind]
    apply Multiset.rel_bind _ left.factors
    intro fs x first
    simp only [← Multiset.map_coe]
    apply Multiset.rel_map.mpr
    exact right.factors.mono fun gs _ y _ second => first.prod second
  refine ⟨both, ?_⟩
  rw [← factorsOf_distribute (whole_map_factorOf _).symm, ← splitTerms_prod, factorsOf, Multiset.rel_map_left] at both
  exact both

theorem chosen_quot {a : Expr} (b : Expr) (left : Chosen a) : Chosen (.quot a b) := by
  constructor
  · rw [combined_whole rfl id, choicesIn, if_neg fun both => Bool.false_ne_true both.1.symm]
    exact .cons (makeUp_single rfl (.refl _)) .zero
  · rcases splitTerms_quot a b with ⟨terms, whole⟩ | ⟨terms, split⟩
    · rw [terms, choicesIn, if_neg fun both => whole both.2]
      exact .cons (sameFactors_refl _) .zero
    · rw [terms, choicesIn, if_pos ⟨rfl, split⟩, ← Multiset.map_coe, ← Multiset.map_coe]
      apply Multiset.rel_map.mpr
      exact left.terms.mono fun t _ u _ same => makeUp_single rfl ((regrouped_of_factors same).quotLeft b)

theorem chosen (e : Expr) : Chosen e := by
  induction e with
  | sum a b iha ihb => exact chosen_sum iha ihb
  | prod a b iha ihb => exact chosen_prod iha ihb
  | quot a b iha _ => exact chosen_quot b iha
  | _ => exact chosen_leaf rfl id rfl fun _ => rfl

/-- Splitting a form ends, with one list of terms. Nothing is left to multiply out in them, there is one for each choice
of a summand in each sum that is multiplied out, and they add up to the form if they are accepted as it is. -/
theorem splitTerms_multipliesOut (e : Expr) :
    (∀ ts, SplitsInto e ts ↔ ts = splitTerms e) ∧
      (∀ t ∈ splitTerms e, Finished t) ∧
      Multiset.Rel Regrouped (splitTerms e : Multiset Expr) (choices e) ∧
      (e.Accepted → (∀ t ∈ splitTerms e, t.Accepted) →
        ∀ (K : Type) [ExactNumbers K] (dim : Nat) (v : Quantity → K) (ρ : Index → Nat),
          ((splitTerms e).map (meaning dim v · ρ)).sum = meaning dim v e ρ) := by
  refine ⟨fun ts => splitsInto_iff, splitTerms_finished e, ?_, ?_⟩
  · exact (chosen e).terms.mono fun t _ u _ same => regrouped_of_factors same
  · intro whole terms K _ dim v ρ
    have balanced : ∀ t ∈ splitTerms e, Balanced false t := fun t member => (accepted_iff.mp (terms t member)).balanced
    exact (splitTerms_addsUp (accepted_iff.mp whole).balanced).total balanced ρ

section Example

/-- A form with a sum in each of two factors, and in a numerator in one of them. -/
def nested : Expr := .prod (.sum heat (.quot (.sum drag heat) square)) (.sum heat drag)

theorem splitTerms_nested : splitTerms nested =
    [.prod heat heat, .prod heat drag, .prod (.quot drag square) heat, .prod (.quot drag square) drag,
      .prod (.quot heat square) heat, .prod (.quot heat square) drag] := by
  cbv

/-- Three summands in one factor and two in the other make six terms. -/
theorem splitTerms_multipliesOut_nested :
    nested.Accepted ∧ (∀ t ∈ splitTerms nested, t.Accepted) ∧ (splitTerms nested).length = 6 ∧
      ∀ v : Quantity → ℝ, ((splitTerms nested).map (meaning 2 v · fun _ => 0)).sum = meaning 2 v nested fun _ => 0 := by
  have whole : nested.Accepted := ⟨[], rfl⟩
  have terms : ∀ t ∈ splitTerms nested, t.Accepted := by
    rw [splitTerms_nested]
    simp only [List.forall_mem_cons]
    exact ⟨⟨[], rfl⟩, ⟨[], rfl⟩, ⟨[], rfl⟩, ⟨[], rfl⟩, ⟨[], rfl⟩, ⟨[], rfl⟩, List.forall_mem_nil _⟩
  refine ⟨whole, terms, ?_, fun v => ?_⟩
  · rw [splitTerms_nested]
    rfl
  · exact (splitTerms_multipliesOut nested).2.2.2 whole terms ℝ 2 v _

end Example

end WeakForm

end Galerkin
