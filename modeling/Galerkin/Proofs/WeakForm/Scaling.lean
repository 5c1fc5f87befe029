import Mathlib
import Galerkin.Proofs.WeakForm.Acceptance

/-!
What multiplying out does with factors that are not split: they go with every term of the other factors.

Scalar multiples of weak forms. A multiple of an accepted form is accepted exactly when no summand of the form is a
quotient, and a quotient of one exactly when the form is a sum or no factor of it is a sum of pairings.
-/

namespace Galerkin

open Usage Galerkin.Expr

namespace WeakForm

/-! ### The factors of a form -/

/-- A factor as it goes into the multiplying out. -/
def factorOf : Expr → SplitFactor
  | .sum a b => ⟨.sum a b, if (Expr.sum a b).hasPairing then some (splitTerms (.sum a b)) else none⟩
  | e => .plain e

theorem whole_factorOf (e : Expr) : (factorOf e).whole = e := by
  cases e <;> rfl

theorem whole_map_factorOf (es : List Expr) : (es.map factorOf).map (·.whole) = es := by
  rw [List.map_map]
  exact (List.map_congr_left fun e _ => whole_factorOf e).trans (List.map_id _)

theorem factorOf_of_plain {e : Expr} (plain : e.hasPairing = false) : factorOf e = .plain e := by
  cases e with
  | sum a b => rw [factorOf, plain]; rfl
  | _ => rfl

theorem analyse_eq_map (e : Expr) : (analyse e).1 = e.factors.map factorOf := by
  induction e with
  | prod a b iha ihb => rw [analyse, iha, ihb, factors, List.map_append]
  | _ => rfl

theorem splitTerms_prod (a b : Expr) :
    splitTerms (.prod a b) = distribute (.prod a b) ((Expr.prod a b).factors.map factorOf) := by
  rw [← analyse_eq_map]
  rfl

theorem distribute_of_unsplit {whole : Expr} {fs : List SplitFactor} (unsplit : fs.filter (·.terms.isSome) = []) :
    distribute whole fs = [whole] := by
  have none : firstSplit fs = none := by
    cases found : firstSplit fs with
    | none => rfl
    | some parts =>
        obtain ⟨f, rfl, present⟩ := firstSplit_eq_some found
        have member : f ∈ (parts.1 ++ f :: parts.2.2).filter (·.terms.isSome) :=
          List.mem_filter.mpr ⟨by simp, by rw [present]; rfl⟩
        rw [unsplit] at member
        cases member
  rw [distribute_eq, none]

theorem unsplit_plain (es : List Expr) : (es.map SplitFactor.plain).filter (·.terms.isSome) = [] := by
  rw [List.filter_eq_nil_iff]
  exact List.forall_mem_map.mpr fun _ _ => Bool.false_ne_true

/-- Multiplying out a form by itself gives its terms. -/
theorem distribute_factors {e : Expr} (undivided : ¬IsQuotient e) (pairing : e.hasPairing = true) :
    distribute e (e.factors.map factorOf) = splitTerms e := by
  cases e with
  | sum a b =>
      have alone : factorOf (.sum a b) = ⟨.sum a b, some (splitTerms (.sum a b))⟩ := by
        rw [factorOf, pairing]
        rfl
      have each (term : Expr) : distribute (multiplied [] term) (remaining [] term) = [term] :=
        distribute_of_unsplit (unsplit_plain _)
      have single : (Expr.sum a b).factors = [.sum a b] := rfl
      rw [single, List.map_singleton, alone, distribute_eq]
      simp only [firstSplit, List.append_nil, each, List.flatMap_singleton']
  | prod a b => exact (splitTerms_prod a b).symm
  | quot a b => exact absurd trivial undivided
  | _ => exact distribute_of_unsplit rfl

theorem factors_ne_nil (e : Expr) : e.factors ≠ [] := by
  induction e with
  | prod a b iha _ => exact List.append_ne_nil_of_left_ne_nil iha _
  | _ => exact List.cons_ne_nil _ _

theorem two_le_factors {whole : Expr} {fs : List SplitFactor} (parts : whole.factors = fs.map (·.whole))
    (two : 2 ≤ fs.length) : ∀ t ∈ distribute whole fs, 2 ≤ t.factors.length := by
  revert parts two
  apply distribute_induction (motive := fun whole fs ts =>
    whole.factors = fs.map (·.whole) → 2 ≤ fs.length → ∀ t ∈ ts, 2 ≤ t.factors.length)
  · intro whole fs _ parts two t member
    rw [List.mem_singleton.mp member, parts, List.length_map]
    exact two
  · intro whole before behind f terms _ ih parts two t member
    obtain ⟨term, inside, later⟩ := List.mem_flatMap.mp member
    refine ih term inside (factors_step parts term) ?_ t later
    have some : term.factors.length ≠ 0 := by
      rw [ne_eq, List.length_eq_zero_iff]
      exact factors_ne_nil term
    simp only [List.length_append, List.length_cons] at two
    simp only [remaining, List.length_append, List.length_reverse, List.length_map]
    omega

theorem not_isQuotient_of_factors {t : Expr} (two : 2 ≤ t.factors.length) : ¬IsQuotient t := by
  cases t with
  | quot a b => exact absurd two (Nat.not_succ_le_self 1)
  | _ => exact id

theorem not_isQuotient_of_prod {a b : Expr} : ∀ t ∈ splitTerms (.prod a b), ¬IsQuotient t := by
  intro t member
  rw [splitTerms_prod] at member
  refine not_isQuotient_of_factors (two_le_factors (whole_map_factorOf _).symm ?_ t member)
  have left := List.length_pos_iff.mpr (factors_ne_nil a)
  have right := List.length_pos_iff.mpr (factors_ne_nil b)
  rw [List.length_map, factors, List.length_append]
  omega

/-! ### Factors more -/

/-- The factors in front of the first one that is split are not split. -/
theorem unsplit_before {fs before behind : List SplitFactor} {terms : List Expr}
    (found : firstSplit fs = some (before, terms, behind)) :
    ∃ f, fs = before ++ f :: behind ∧ f.terms = some terms ∧ before.filter (·.terms.isSome) = [] := by
  induction fs generalizing before with
  | nil => cases found
  | cons f rest ih =>
      cases here : f.terms with
      | some ts =>
          simp only [firstSplit, here, Option.some.injEq, Prod.mk.injEq] at found
          obtain ⟨rfl, rfl, rfl⟩ := found
          exact ⟨f, rfl, here, rfl⟩
      | none =>
          simp only [firstSplit, here, Option.map_eq_some_iff] at found
          obtain ⟨⟨first, _, _⟩, inside, same⟩ := found
          simp only [Prod.mk.injEq] at same
          obtain ⟨rfl, rfl, rfl⟩ := same
          obtain ⟨g, rfl, present, unsplit⟩ := ih inside
          refine ⟨g, rfl, present, ?_⟩
          rwa [List.filter_cons_of_neg (by simp [here])]

theorem filter_of_firstSplit {before behind : List SplitFactor} {f : SplitFactor} {terms : List Expr}
    (present : f.terms = some terms) (unsplit : before.filter (·.terms.isSome) = []) :
    (before ++ f :: behind).filter (·.terms.isSome) = f :: behind.filter (·.terms.isSome) := by
  rw [List.filter_append, unsplit, List.filter_cons_of_pos (by simp [present]), List.nil_append]

/-- Some unsplit factors are added to those of a product, anywhere among them. -/
structure Enlarged (cs : List Expr) (larger : Expr) (gs : List SplitFactor) (whole : Expr) (fs : List SplitFactor) :
    Prop where
  factors : whole.factors = fs.map (·.whole)
  larger : larger.factors = gs.map (·.whole)
  splits : gs.filter (·.terms.isSome) = fs.filter (·.terms.isSome)
  parts : (gs.map (·.whole)).Perm (cs ++ fs.map (·.whole))

theorem filter_remaining (others : List SplitFactor) (term : Expr) :
    (remaining others term).filter (·.terms.isSome) = (others.filter (·.terms.isSome)).reverse := by
  rw [remaining, List.filter_append, unsplit_plain, List.append_nil, List.filter_reverse]

theorem Enlarged.step {cs : List Expr} {larger whole : Expr} {before behind before' behind' : List SplitFactor}
    {f : SplitFactor} (enlarged : Enlarged cs larger (before' ++ f :: behind') whole (before ++ f :: behind))
    (first : before.filter (·.terms.isSome) = []) (first' : before'.filter (·.terms.isSome) = [])
    (last : behind'.filter (·.terms.isSome) = behind.filter (·.terms.isSome)) (term : Expr) :
    Enlarged cs (multiplied (before' ++ behind') term) (remaining (before' ++ behind') term)
      (multiplied (before ++ behind) term) (remaining (before ++ behind) term) where
  factors := factors_step enlarged.factors term
  larger := factors_step enlarged.larger term
  splits := by
    rw [filter_remaining, filter_remaining, List.filter_append, List.filter_append, first, first', last]
  parts := by
    have whole := enlarged.parts
    rw [List.map_append, List.map_append, List.map_cons, List.map_cons, ← List.append_assoc] at whole
    have others : ((before' ++ behind').map (·.whole)).Perm (cs ++ (before ++ behind).map (·.whole)) := by
      rw [List.map_append, List.map_append, ← List.append_assoc]
      exact (List.perm_middle.symm.trans (whole.trans List.perm_middle)).cons_inv
    rw [whole_remaining, whole_remaining, ← List.append_assoc]
    refine List.Perm.append_right _ ?_
    exact (List.reverse_perm _).trans (others.trans ((List.reverse_perm _).symm.append_left cs))

/-- Factors that are not split go with every term. -/
theorem Enlarged.terms {cs : List Expr} {larger whole : Expr} {gs fs : List SplitFactor}
    (enlarged : Enlarged cs larger gs whole fs) :
    List.Forall₂ (fun u t => u.factors.Perm (cs ++ t.factors)) (distribute larger gs) (distribute whole fs) := by
  induction whole, fs using distribute.induct generalizing larger gs
  case case1 whole fs none' =>
    have unsplit : fs.filter (·.terms.isSome) = [] := by
      rw [List.filter_eq_nil_iff]
      intro f member
      rw [terms_of_firstSplit_eq_none none' f member]
      exact Bool.false_ne_true
    rw [distribute_of_unsplit unsplit, distribute_of_unsplit (enlarged.splits.trans unsplit)]
    refine .cons ?_ .nil
    rw [enlarged.larger, enlarged.factors]
    exact enlarged.parts
  case case2 whole fs before terms behind found others ih =>
    obtain ⟨f, rfl, present, first⟩ := unsplit_before found
    have splits := enlarged.splits
    rw [filter_of_firstSplit present first] at splits
    cases found' : firstSplit gs with
    | none =>
        have unsplit := terms_of_firstSplit_eq_none found'
        have member : f ∈ gs.filter (·.terms.isSome) := splits ▸ List.mem_cons_self
        rw [unsplit f (List.mem_of_mem_filter member)] at present
        cases present
    | some parts =>
        obtain ⟨before', terms', behind'⟩ := parts
        obtain ⟨g, rfl, present', first'⟩ := unsplit_before found'
        rw [filter_of_firstSplit present' first'] at splits
        obtain ⟨rfl, last⟩ := List.cons.inj splits
        cases present.symm.trans present'
        rw [distribute_eq whole, distribute_eq larger, found, found']
        have same : List.Forall₂ (· = ·) terms terms := List.forall₂_refl terms
        refine List.rel_flatMap same ?_
        rintro term _ rfl
        exact ih term (enlarged.step first first' last term)

end WeakForm

end Galerkin

/-! ### Multiples -/

namespace Galerkin

open Usage Galerkin.Expr

namespace Expr

theorem everyLeaf_disjoint {is : List Index} {e : Expr} :
    EveryLeaf (fun leaf => is.Disjoint leaf.leafIndices) e ↔ is.Disjoint e.indices := by
  induction e with
  | sum a b iha ihb | prod a b iha ihb | quot a b iha ihb | power a b iha ihb | pairing a b iha ihb =>
      rw [EveryLeaf, iha, ihb, indices, List.disjoint_append_right]
  | apply f x ih => exact ih
  | _ => exact Iff.rfl

end Expr

namespace WeakForm

/-- A scalar without pairings. -/
structure Coefficient (c : Expr) : Prop where
  closed : c.freeIndices = .ok []
  plain : c.hasPairing = false

theorem coefficient_const (n : Number) : Coefficient (.const n) := ⟨rfl, rfl⟩

/-! ### Multiples of a term -/

section Term

variable {c t whole : Expr} {p : Pairing}

theorem Coefficient.multiple (coefficient : Coefficient c) (distinct : c.indices.Disjoint t.indices)
    (parts : whole.factors.Perm (c.factors ++ t.factors)) (product : ¬IsQuotient whole) (undivided : ¬IsQuotient t)
    (found : pairingOf t = .ok p) : ∃ r, pairingOf whole = .ok r ∧ r.test = p.test := by
  obtain ⟨q, rest, scaled, same⟩ := (pairingOf_isOk_iff undivided).mp ⟨p, found, rfl⟩
  refine (pairingOf_isOk_iff product).mpr ⟨q, c.factors ++ rest, ⟨?_, ?_, ?_⟩, same⟩
  · exact parts.trans ((scaled.parts.append_left _).trans List.perm_middle)
  · exact List.forall_mem_append.mpr
      ⟨fun f member => hasPairing_of_mem_factors coefficient.plain member, scaled.plain⟩
  · refine (freeIndices_eq_nil.mp coefficient.closed).append scaled.closed ?_
    rw [flatMap_indices_factors]
    refine List.disjoint_of_subset_right (fun i member => ?_) distinct
    obtain ⟨f, inside, index⟩ := List.mem_flatMap.mp member
    exact mem_indices_of_mem_factors (scaled.parts.symm.subset (List.mem_cons_of_mem _ inside)) index

theorem not_isQuotient_of_multiple (plain : c.hasPairing = false)
    (parts : whole.factors.Perm (c.factors ++ t.factors)) (product : ¬IsQuotient whole)
    (found : pairingOf whole = .ok p) : ¬IsQuotient t := by
  obtain ⟨q, rest, scaled, -⟩ := (pairingOf_isOk_iff product).mp ⟨p, found, rfl⟩
  have member : q.toExpr ∈ c.factors ++ t.factors :=
    parts.subset (scaled.parts.symm.subset List.mem_cons_self)
  rcases List.mem_append.mp member with left | right
  · cases hasPairing_of_mem_factors plain left
  · cases t with
    | quot a b => cases List.mem_singleton.mp right
    | _ => exact id

theorem freeIndices_quot {a b : Expr} (numerator : a.freeIndices = .ok []) (divisor : b.freeIndices = .ok []) :
    (Expr.quot a b).freeIndices = .ok [] := by
  obtain ⟨left, none⟩ := freeIndices_eq_ok.mp numerator
  obtain ⟨right, closed⟩ := freeIndices_eq_ok.mp divisor
  refine freeIndices_eq_ok.mpr ⟨⟨left, right, closed, ?_⟩, none⟩
  rw [none]
  exact List.disjoint_nil_right _

theorem freeIndices_prod {a b : Expr} (left : a.freeIndices = .ok []) (right : b.freeIndices = .ok [])
    (distinct : a.indices.Disjoint b.indices) : (Expr.prod a b).freeIndices = .ok [] := by
  rw [freeIndices_eq_nil] at left right ⊢
  refine left.append right ?_
  rwa [flatMap_indices_factors, flatMap_indices_factors]

theorem Coefficient.quotient (coefficient : Coefficient c) (distinct : c.indices.Disjoint t.indices)
    (found : pairingOf t = .ok p) : ∃ r, pairingOf (.quot t c) = .ok r ∧ r.test = p.test := by
  obtain ⟨scale, q, first, same, closed⟩ := pairingOf_eq_ok found
  have reciprocal : (Expr.quot (.const (.int 1)) c).freeIndices = .ok [] := freeIndices_quot rfl coefficient.closed
  have divided : extract (.quot t c) = .ok (some (joinScale scale (.quot (.const (.int 1)) c)), q) := by
    simp only [extract, first, coefficient.plain]
    rfl
  rw [← same]
  refine pairingOf_of_extract divided fun d joined => ?_
  cases joined
  cases scale with
  | none => exact reciprocal
  | some s =>
      have leaves := (everyLeaf_extract (P := fun leaf => c.indices.Disjoint leaf.leafIndices)
        (List.disjoint_nil_right _) first (everyLeaf_disjoint.mpr distinct)).1 s rfl
      exact freeIndices_prod (closed s rfl) reciprocal (everyLeaf_disjoint.mp leaves).symm

end Term

/-! ### Which multiples are accepted -/

theorem pairings_iff {name : String} {e : Expr} {ps : List Pairing} :
    pairings name e = .ok ps ↔
      e.freeIndices = .ok [] ∧ List.Forall₂ (fun t p => pairingOf t = .ok p) (splitTerms e) ps := by
  constructor
  · intro found
    obtain ⟨accepted, closed, matched⟩ := pairings_eq_ok found
    exact ⟨freeIndices_eq_ok.mpr ⟨accepted, closed⟩, matched⟩
  · rintro ⟨closed, matched⟩
    exact Outcome.mapError_eq_ok.mpr (Outcome.bind_eq_ok.mpr ⟨[], closed, Outcome.mapM_eq_ok.mpr matched⟩)

/-- Is no summand of a form a quotient? -/
def Undivided : Expr → Prop
  | .sum a b => Undivided a ∧ Undivided b
  | .quot _ _ => False
  | _ => True

/-- Is a form a sum of pairings that would be multiplied out as a factor? -/
def IsSplit : Expr → Prop
  | .sum a b => (Expr.sum a b).hasPairing = true
  | _ => False

/-- Does a form stay in one piece as the numerator of a quotient, if it is no sum? -/
def Divisible : Expr → Prop
  | .prod a b => ∀ f ∈ (Expr.prod a b).factors, ¬IsSplit f
  | .quot a _ => ¬IsSplit a
  | _ => True

/-- A form is accepted exactly under a condition, and its pairings then have certain test sides. -/
structure AcceptedWhen (name : String) (e : Expr) (condition : Prop) (tests : List Expr) : Prop where
  accepted : (∃ rs, pairings name e = .ok rs) ↔ condition
  tests : ∀ rs, pairings name e = .ok rs → rs.map (·.test) = tests

theorem AcceptedWhen.intro {name : String} {e : Expr} {condition : Prop} {tests : List Expr}
    (made : condition → ∃ rs, pairings name e = .ok rs ∧ rs.map (·.test) = tests)
    (needed : ∀ rs, pairings name e = .ok rs → condition) : AcceptedWhen name e condition tests where
  accepted := ⟨fun ⟨rs, found⟩ => needed rs found, fun holds => (made holds).imp fun _ both => both.1⟩
  tests := fun rs found => by
    obtain ⟨others, again, same⟩ := made (needed rs found)
    cases found.symm.trans again
    exact same

section Forms

variable {name : String} {c e : Expr} {ps : List Pairing}

theorem splitTerms_ne_nil (balanced : Balanced false e) : splitTerms e ≠ [] := by
  have addsUp : AddsUp 0 (fun _ => (0 : ℝ)) (splitTerms e) e := splitTerms_addsUp balanced
  exact addsUp.nonempty

theorem splitTerms_quot (a b : Expr) :
    splitTerms (.quot a b) = [.quot a b] ∧ ¬IsSplit a ∨
      splitTerms (.quot a b) = (splitTerms a).map (.quot · b) ∧ IsSplit a := by
  cases a with
  | sum x y =>
      cases pairing : (Expr.sum x y).hasPairing with
      | true => exact Or.inr ⟨by simp only [splitTerms, analyse, pairing]; rfl, pairing⟩
      | false => exact Or.inl ⟨by simp only [splitTerms, analyse, pairing]; rfl, by simp [IsSplit, pairing]⟩
  | _ => exact Or.inl ⟨rfl, id⟩

theorem undivided_iff (balanced : Balanced false e) : Undivided e ↔ ∀ t ∈ splitTerms e, ¬IsQuotient t := by
  induction e with
  | sum a b iha ihb =>
      have terms : splitTerms (.sum a b) = splitTerms a ++ splitTerms b := rfl
      rw [Undivided, terms, List.forall_mem_append, iha balanced.1, ihb balanced.2.1]
  | prod a b => exact iff_of_true trivial not_isQuotient_of_prod
  | quot a b =>
      refine iff_of_false id fun none => ?_
      obtain ⟨t, member⟩ := List.exists_mem_of_ne_nil _ (splitTerms_ne_nil balanced)
      refine none t member ?_
      rcases splitTerms_quot a b with ⟨terms, -⟩ | ⟨terms, -⟩
      · rw [terms, List.mem_singleton] at member
        exact member ▸ trivial
      · rw [terms] at member
        obtain ⟨_, -, rfl⟩ := List.mem_map.mp member
        trivial
  | _ => exact iff_of_true trivial (List.forall_mem_singleton.mpr id)

theorem hasPairing_of_extract {t : Expr} {scale : Option Expr} {p : Pairing} (found : extract t = .ok (scale, p)) :
    t.hasPairing = true := by
  induction t generalizing scale with
  | pairing a b => rfl
  | prod a b =>
      obtain ⟨rest, parts, -, -⟩ := extract_prod found
      rw [hasPairing_factors, List.any_eq_true]
      exact ⟨p.toExpr, parts.symm.subset (List.mem_append_right _ (List.mem_singleton_self _)), rfl⟩
  | quot a b iha _ =>
      obtain ⟨inner, first, -, -⟩ := extract_quot found
      rw [hasPairing, iha first, Bool.true_or]
  | _ =>
      simp only [extract] at found
      split at found <;> cases found

theorem factorOf_unsplit {fs : List Expr} (none : ∀ f ∈ fs, ¬IsSplit f) :
    (fs.map factorOf).filter (·.terms.isSome) = [] := by
  rw [List.filter_eq_nil_iff, List.forall_mem_map]
  intro f member
  cases f with
  | sum a b =>
      have plain : (Expr.sum a b).hasPairing = false := Bool.eq_false_iff.mpr (none _ member)
      rw [factorOf_of_plain plain]
      exact Bool.false_ne_true
  | _ => exact Bool.false_ne_true

/-- A form that is no sum and divisible is one term. -/
theorem splitTerms_of_divisible (divisible : Divisible e) (single : ∀ a b, e ≠ .sum a b) : splitTerms e = [e] := by
  cases e with
  | sum a b => exact absurd rfl (single a b)
  | prod a b => rw [splitTerms_prod, distribute_of_unsplit (factorOf_unsplit divisible)]
  | quot a b =>
      rcases splitTerms_quot a b with ⟨terms, -⟩ | ⟨-, split⟩
      · exact terms
      · exact absurd split divisible
  | _ => rfl

theorem hasPairing_of_isSplit (split : IsSplit e) : e.hasPairing = true := by
  cases e with
  | sum a b => exact split
  | _ => cases split

theorem divisible_of_plain (plain : e.hasPairing = false) : Divisible e := by
  have unsplit {f : Expr} (none : f.hasPairing = false) : ¬IsSplit f := fun split => by
    rw [hasPairing_of_isSplit split] at none
    cases none
  cases e with
  | prod a b => exact fun f member => unsplit (hasPairing_of_mem_factors plain member)
  | quot a b => exact unsplit (Bool.or_eq_false_iff.mp plain).1
  | _ => trivial

theorem hasPairing_of_terms (accepted : ∀ t ∈ splitTerms e, ∃ p, pairingOf t = .ok p) : e.hasPairing = true := by
  have alone {d : Expr} (single : ∀ a b, d ≠ .sum a b) (each : ∀ t ∈ splitTerms d, ∃ p, pairingOf t = .ok p) :
      d.hasPairing = true := by
    by_contra plain
    rw [splitTerms_of_divisible (divisible_of_plain (Bool.eq_false_iff.mpr plain)) single] at each
    obtain ⟨p, found⟩ := each d (List.mem_singleton_self d)
    obtain ⟨scale, q, first, -⟩ := pairingOf_eq_ok found
    exact plain (hasPairing_of_extract first)
  induction e with
  | sum a b iha _ =>
      have left := iha fun t member => accepted t (List.mem_append_left _ member)
      rw [hasPairing, left, Bool.true_or]
  | _ => exact alone (fun _ _ => Expr.noConfusion) accepted

/-! ### Multiples of a form -/

variable {whole : Expr}

/-- A form with a coefficient in front of it or behind it. -/
def IsMultiple (c e whole : Expr) : Prop := whole = .prod c e ∨ whole = .prod e c

theorem IsMultiple.parts (multiple : IsMultiple c e whole) : whole.factors.Perm (c.factors ++ e.factors) := by
  rcases multiple with rfl | rfl
  · exact .refl _
  · exact List.perm_append_comm

theorem IsMultiple.undivided (multiple : IsMultiple c e whole) : ∀ u ∈ splitTerms whole, ¬IsQuotient u := by
  rcases multiple with rfl | rfl <;> exact not_isQuotient_of_prod

theorem IsMultiple.terms (multiple : IsMultiple c e whole) (plain : c.hasPairing = false) :
    List.Forall₂ (fun u t => u.factors.Perm (c.factors ++ t.factors)) (splitTerms whole)
      (distribute e (e.factors.map factorOf)) := by
  have parts := multiple.parts
  have none : (c.factors.map factorOf).filter (·.terms.isSome) = [] := by
    refine factorOf_unsplit fun f member split => ?_
    have paired := hasPairing_of_isSplit split
    rw [hasPairing_of_mem_factors plain member] at paired
    cases paired
  have splits : (whole.factors.map factorOf).filter (·.terms.isSome) =
      (e.factors.map factorOf).filter (·.terms.isSome) := by
    rcases multiple with rfl | rfl <;> simp only [factors, List.map_append, List.filter_append, none,
      List.nil_append, List.append_nil]
  have made : splitTerms whole = distribute whole (whole.factors.map factorOf) := by
    rcases multiple with rfl | rfl <;> exact splitTerms_prod _ _
  rw [made]
  refine Enlarged.terms ⟨(whole_map_factorOf _).symm, (whole_map_factorOf _).symm, splits, ?_⟩
  rwa [whole_map_factorOf, whole_map_factorOf]

theorem disjoint_terms (distinct : c.indices.Disjoint e.indices) :
    ∀ t ∈ splitTerms e, c.indices.Disjoint t.indices := fun t member =>
  everyLeaf_disjoint.mp ((everyLeaf_analyse (everyLeaf_disjoint.mpr distinct)).2 t member)

theorem exists_pairings {us : List Expr}
    (each : List.Forall₂ (fun u p => ∃ r, pairingOf u = .ok r ∧ r.test = p.test) us ps) :
    ∃ rs, List.Forall₂ (fun u r => pairingOf u = .ok r) us rs ∧ rs.map (·.test) = ps.map (·.test) := by
  obtain ⟨rs, found, same⟩ := Outcome.matched_comp.mpr each
  exact ⟨rs, found, Outcome.map_eq_of_matched same.flip⟩

/-- In a multiple of a form no term of the form may be a quotient. -/
theorem IsMultiple.terms_undivided (multiple : IsMultiple c e whole) (plain : c.hasPairing = false) {rs : List Pairing}
    (found : pairings name whole = .ok rs) : ∀ t ∈ distribute e (e.factors.map factorOf), ¬IsQuotient t := by
  intro t member
  obtain ⟨u, inside, parts⟩ := Outcome.exists_of_matched (multiple.terms plain) member
  obtain ⟨r, -, accepted⟩ := Outcome.exists_of_matched_left (pairings_iff.mp found).2 inside
  exact not_isQuotient_of_multiple plain parts (multiple.undivided u inside) accepted

theorem IsMultiple.closed (multiple : IsMultiple c e whole) (coefficient : Coefficient c)
    (distinct : c.indices.Disjoint e.indices) (closed : e.freeIndices = .ok []) : whole.freeIndices = .ok [] := by
  rcases multiple with rfl | rfl
  · exact freeIndices_prod coefficient.closed closed distinct
  · exact freeIndices_prod closed coefficient.closed distinct.symm

theorem IsMultiple.acceptedWhen (multiple : IsMultiple c e whole) (coefficient : Coefficient c)
    (distinct : c.indices.Disjoint e.indices) (accepted : pairings name e = .ok ps) :
    AcceptedWhen name whole (Undivided e) (ps.map (·.test)) := by
  obtain ⟨closed, matched⟩ := pairings_iff.mp accepted
  have balanced := (freeIndices_eq_ok.mp closed).1.balanced
  have pairing : e.hasPairing = true := hasPairing_of_terms fun t member =>
    (Outcome.exists_of_matched_left matched member).imp fun _ both => both.2
  refine .intro (fun undivided => ?_) fun rs found => ?_
  · have each := (undivided_iff balanced).mp undivided
    have single : ¬IsQuotient e := by
      cases e with
      | quot a b => exact absurd undivided id
      | _ => exact id
    have terms := multiple.terms coefficient.plain
    rw [distribute_factors single pairing] at terms
    have products := (List.forall₂_and_left _ _).mpr ⟨multiple.undivided, terms⟩
    have accepted := (List.forall₂_and_left _ _).mpr
      ⟨fun t member => And.intro (disjoint_terms distinct t member) (each t member), matched⟩
    obtain ⟨rs, found, same⟩ := exists_pairings
      ((Outcome.matched_comp.mp ⟨_, products, accepted⟩).imp fun u p both => by
        obtain ⟨t, ⟨product, parts⟩, ⟨apart, undivided⟩, term⟩ := both
        exact coefficient.multiple apart parts product undivided term)
    exact ⟨rs, pairings_iff.mpr ⟨multiple.closed coefficient distinct closed, found⟩, same⟩
  · have none := multiple.terms_undivided coefficient.plain found
    by_cases quotient : IsQuotient e
    · have alone : distribute e (e.factors.map factorOf) = [e] := by
        cases e with
        | quot a b => exact distribute_of_unsplit rfl
        | _ => exact absurd quotient id
      rw [alone] at none
      exact absurd quotient (none e (List.mem_singleton_self e))
    · rw [distribute_factors quotient pairing] at none
      exact (undivided_iff balanced).mpr none

/-- A multiple of a quotient is never accepted. -/
theorem IsMultiple.quot_not_accepted {a b : Expr} (multiple : IsMultiple c (.quot a b) whole)
    (plain : c.hasPairing = false) (rs : List Pairing) : pairings name whole ≠ .ok rs := fun found =>
  multiple.terms_undivided plain found (.quot a b) (by
    rw [distribute_of_unsplit rfl]
    exact List.mem_singleton_self _) trivial

theorem isMultiple_neg (e : Expr) : IsMultiple (.const (.int (-1))) e (.neg e) := Or.inl rfl

theorem neg_quot_acceptedWhen (name : String) (a b : Expr) (tests : List Expr) :
    AcceptedWhen name (.neg (.quot a b)) False tests :=
  .intro False.elim fun rs found => (isMultiple_neg (.quot a b)).quot_not_accepted rfl rs found

theorem divisible_of_extract {scale : Option Expr} {p : Pairing} (found : extract e = .ok (scale, p)) :
    Divisible e ∧ ∀ a b, e ≠ .sum a b := by
  have no_sum {a b : Expr} {scale : Option Expr} : extract (.sum a b) ≠ .ok (scale, p) := fun found => by
    simp only [extract] at found
    split at found <;> cases found
  refine ⟨?_, fun a b same => no_sum (same ▸ found)⟩
  cases e with
  | prod a b =>
      obtain ⟨rest, parts, -, plain⟩ := extract_prod found
      intro f member split
      rcases List.mem_append.mp (parts.subset member) with other | last
      · have paired := hasPairing_of_isSplit split
        rw [plain f other] at paired
        cases paired
      · rw [List.mem_singleton.mp last] at split
        cases split
  | quot a b =>
      obtain ⟨inner, first, -, -⟩ := extract_quot found
      cases a with
      | sum x y => exact absurd first no_sum
      | _ => exact id
  | _ => trivial

theorem quot_acceptedWhen (coefficient : Coefficient c) (distinct : c.indices.Disjoint e.indices)
    (accepted : pairings name e = .ok ps) : AcceptedWhen name (.quot e c) (Divisible e) (ps.map (·.test)) := by
  obtain ⟨closed, matched⟩ := pairings_iff.mp accepted
  have pairing : e.hasPairing = true := hasPairing_of_terms fun t member =>
    (Outcome.exists_of_matched_left matched member).imp fun _ both => both.2
  refine .intro (fun divisible => ?_) fun rs found => ?_
  · have terms : splitTerms (.quot e c) = (splitTerms e).map (.quot · c) := by
      rcases splitTerms_quot e c with ⟨single, unsplit⟩ | ⟨terms, -⟩
      · rw [single, splitTerms_of_divisible divisible fun a b same => ?_]
        · rfl
        · subst same
          exact unsplit pairing
      · exact terms
    have accepted := (List.forall₂_and_left _ _).mpr ⟨disjoint_terms distinct, matched⟩
    have quotients : List.Forall₂ (fun u p => ∃ r, pairingOf u = .ok r ∧ r.test = p.test)
        (splitTerms (.quot e c)) ps := by
      rw [terms, List.forall₂_map_left_iff]
      exact accepted.imp fun t p both => coefficient.quotient both.1 both.2
    obtain ⟨rs, found, same⟩ := exists_pairings quotients
    exact ⟨rs, pairings_iff.mpr ⟨freeIndices_quot closed coefficient.closed, found⟩, same⟩
  · rcases splitTerms_quot e c with ⟨single, -⟩ | ⟨-, split⟩
    · obtain ⟨-, others⟩ := pairings_iff.mp found
      rw [single] at others
      obtain ⟨r, -, term⟩ := Outcome.exists_of_matched_left others (List.mem_singleton_self _)
      obtain ⟨scale, q, first, -⟩ := pairingOf_eq_ok term
      obtain ⟨inner, numerator, -, -⟩ := extract_quot first
      exact (divisible_of_extract numerator).1
    · cases e with
      | sum a b => trivial
      | _ => cases split

theorem freeIndices_sum {a b : Expr} (left : a.freeIndices = .ok []) :
    (Expr.sum a b).freeIndices = .ok [] ↔ b.freeIndices = .ok [] := by
  obtain ⟨first, none⟩ := freeIndices_eq_ok.mp left
  rw [freeIndices_eq_ok, freeIndices_eq_ok]
  constructor
  · rintro ⟨⟨-, second, same, -⟩, -⟩
    refine ⟨second, List.eq_nil_iff_forall_not_mem.mpr fun i member => ?_⟩
    have outer := (same i).mpr member
    rw [none] at outer
    cases outer
  · rintro ⟨second, closed⟩
    refine ⟨⟨first, second, fun i => by rw [none, closed], ?_⟩, none⟩
    rw [none]
    exact List.disjoint_nil_right _

/-- A sum with an accepted form is accepted when the other summand is. -/
theorem sum_acceptedWhen {d : Expr} {condition : Prop} {tests : List Expr} (accepted : pairings name e = .ok ps)
    (summand : AcceptedWhen name d condition tests) :
    AcceptedWhen name (.sum e d) condition (ps.map (·.test) ++ tests) := by
  obtain ⟨closed, matched⟩ := pairings_iff.mp accepted
  have terms : splitTerms (.sum e d) = splitTerms e ++ splitTerms d := rfl
  refine .intro (fun holds => ?_) fun rs found => ?_
  · obtain ⟨qs, other⟩ := summand.accepted.mpr holds
    obtain ⟨right, others⟩ := pairings_iff.mp other
    refine ⟨ps ++ qs, pairings_iff.mpr ⟨(freeIndices_sum closed).mpr right, ?_⟩, ?_⟩
    · rw [terms]
      exact List.rel_append matched others
    · rw [List.map_append, summand.tests qs other]
  · obtain ⟨whole, both⟩ := pairings_iff.mp found
    rw [terms] at both
    obtain ⟨_, qs, -, others, -⟩ := Outcome.matched_append.mp both
    exact summand.accepted.mp ⟨qs, pairings_iff.mpr ⟨(freeIndices_sum closed).mp whole, others⟩⟩

/-- Scalar multiples of accepted forms: accepted as factors when no summand is a quotient, as numerators when no
factor is a sum of pairings; and the negative of a quotient is not accepted. -/
theorem multiples_acceptedWhen {f g : Expr} {qs : List Pairing} (first : pairings name f = .ok ps)
    (second : pairings name g = .ok qs) (closed : c.freeIndices = .ok []) (plain : c.hasPairing = false)
    (distinct : c.indices.Disjoint f.indices) (distinct' : c.indices.Disjoint g.indices) :
    AcceptedWhen name (.prod c f) (Undivided f) (ps.map (·.test)) ∧
      AcceptedWhen name (.prod f c) (Undivided f) (ps.map (·.test)) ∧
      AcceptedWhen name (.neg f) (Undivided f) (ps.map (·.test)) ∧
      AcceptedWhen name (.quot f c) (Divisible f) (ps.map (·.test)) ∧
      AcceptedWhen name (.sum f (.prod c g)) (Undivided g) (ps.map (·.test) ++ qs.map (·.test)) ∧
      AcceptedWhen name (.sub f (.quot g c)) False (ps.map (·.test) ++ qs.map (·.test)) := by
  have coefficient : Coefficient c := ⟨closed, plain⟩
  have product : AcceptedWhen name (.prod c g) (Undivided g) (qs.map (·.test)) :=
    IsMultiple.acceptedWhen (Or.inl rfl) coefficient distinct' second
  exact ⟨IsMultiple.acceptedWhen (Or.inl rfl) coefficient distinct first,
    IsMultiple.acceptedWhen (Or.inr rfl) coefficient distinct first,
    (isMultiple_neg f).acceptedWhen (coefficient_const _) (List.disjoint_nil_left _) first,
    quot_acceptedWhen coefficient distinct first, sum_acceptedWhen first product,
    sum_acceptedWhen first (neg_quot_acceptedWhen name g c _)⟩

end Forms

section Example

/-- The pairing of a scalar field with itself. -/
def heat : Expr := .pairing (.bare ⟨"T", 0, false⟩) (.bare ⟨"T", 0, false⟩)

/-- The pairing of a vector field with itself. -/
def drag : Expr := .pairing (vectorAt "u" "i") (vectorAt "u" "i")

/-- The square of the length of a vector field. -/
def square : Expr := .prod (vectorAt "d" "j") (vectorAt "d" "j")

theorem pairings_heat : pairings "form" heat = .ok [⟨.bare ⟨"T", 0, false⟩, .bare ⟨"T", 0, false⟩⟩] := rfl

theorem pairings_both : pairings "form" (.sum heat drag) =
    .ok [⟨.bare ⟨"T", 0, false⟩, .bare ⟨"T", 0, false⟩⟩, ⟨vectorAt "u" "i", vectorAt "u" "i"⟩] := rfl

/-- A sum of pairings times the square of a vector, divided by it, and with a quotient taken away. -/
theorem multiples_acceptedWhen_square :
    (∃ rs, pairings "form" (.prod square (.sum heat drag)) = .ok rs ∧
        rs.map (·.test) = [.bare ⟨"T", 0, false⟩, vectorAt "u" "i"]) ∧
      (∃ rs, pairings "form" (.quot (.sum heat drag) square) = .ok rs ∧
        rs.map (·.test) = [.bare ⟨"T", 0, false⟩, vectorAt "u" "i"]) ∧
      ∀ rs, pairings "form" (.sub (.sum heat drag) (.quot heat square)) ≠ .ok rs := by
  have distinct : square.indices.Disjoint (Expr.sum heat drag).indices := by
    simp [square, heat, drag, vectorAt, indices, leafIndices]
  obtain ⟨product, -, -, quotient, -, difference⟩ :=
    multiples_acceptedWhen (c := square) pairings_both pairings_heat rfl rfl distinct (List.disjoint_nil_right _)
  refine ⟨?_, ?_, fun rs found => difference.accepted.mp ⟨rs, found⟩⟩
  · obtain ⟨rs, found⟩ := product.accepted.mpr ⟨trivial, trivial⟩
    exact ⟨rs, found, product.tests rs found⟩
  · obtain ⟨rs, found⟩ := quotient.accepted.mpr trivial
    exact ⟨rs, found, quotient.tests rs found⟩

/-- Accepted forms whose multiples are not accepted, though the same multiple in another order is. -/
theorem multiples_not_accepted :
    (∃ rs, pairings "form" (.quot (.prod heat (.const (.int 2))) (.const (.int 3))) = .ok rs) ∧
      (∃ rs, pairings "form" (.quot heat (.const (.int 3))) = .ok rs) ∧
      (∀ rs, pairings "form" (.prod (.const (.int 2)) (.quot heat (.const (.int 3)))) ≠ .ok rs) ∧
      (∃ rs, pairings "form" (.prod (.const (.int 2)) (.sum heat drag)) = .ok rs) ∧
      (∀ rs, pairings "form" (.quot (.prod (.const (.int 2)) (.sum heat drag)) (.const (.int 3))) ≠ .ok rs) ∧
      ∀ rs, pairings "form" (.sub heat (.quot drag (.const (.int 2)))) ≠ .ok rs := by
  have scalar (n : Int) := coefficient_const (.int n)
  have none (e : Expr) (n : Int) : (Expr.const (.int n)).indices.Disjoint e.indices := List.disjoint_nil_left _
  have multiple (n : Int) (e : Expr) : IsMultiple (.const (.int n)) e (.prod (.const (.int n)) e) := Or.inl rfl
  obtain ⟨ps, twice⟩ := (IsMultiple.acceptedWhen (Or.inr rfl) (scalar 2) (none heat 2) pairings_heat).accepted.mpr
    trivial
  obtain ⟨qs, sum⟩ := ((multiple 2 _).acceptedWhen (scalar 2) (none _ 2) pairings_both).accepted.mpr
    ⟨trivial, trivial⟩
  have unsplit : Divisible (.prod heat (.const (.int 2))) := by
    intro f member
    rcases List.mem_cons.mp member with rfl | last
    · exact id
    · exact List.mem_singleton.mp last ▸ id
  refine ⟨?_, ?_, ?_, ⟨qs, sum⟩, ?_, ?_⟩
  · exact (quot_acceptedWhen (scalar 3) (none _ 3) twice).accepted.mpr unsplit
  · exact (quot_acceptedWhen (scalar 3) (none _ 3) pairings_heat).accepted.mpr trivial
  · exact (multiple 2 _).quot_not_accepted rfl
  · intro rs found
    have divisible := (quot_acceptedWhen (scalar 3) (none _ 3) sum).accepted.mp ⟨rs, found⟩
    exact divisible (.sum heat drag) (List.mem_cons_of_mem _ List.mem_cons_self) rfl
  · intro rs found
    have half := neg_quot_acceptedWhen "form" drag (.const (.int 2)) []
    exact (sum_acceptedWhen pairings_heat half).accepted.mp ⟨rs, found⟩

end Example

end WeakForm

end Galerkin
