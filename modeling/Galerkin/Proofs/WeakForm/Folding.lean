import Mathlib
import Galerkin.Proofs.Expansion.Hygiene
import Galerkin.Proofs.Layout
import Galerkin.Proofs.WeakForm.Splitting

/-!
The pairs of a weak form have the value of the form as long as its pairings stay well scoped when their
coefficients move onto the trial side. Where they do not, a sum inside a coefficient is captured.

What holds of the leaves of a weak form holds of the leaves of its pairings, so that all its pairs are
made of quantities that the setting has.
-/

namespace Galerkin

open Usage Galerkin.Expr

namespace WeakForm

variable {K : Type} [ExactNumbers K] {dim : Nat} {v : Quantity → K}

/-! ### Coefficients -/

theorem isPairing?_eq_some {e : Expr} {p : Pairing} (found : isPairing? e = some p) :
    e = p.toExpr := by
  cases e with
  | pairing a b =>
      cases found
      rfl
  | _ => cases found

theorem perm_pairings (fs : List Expr) :
    fs.Perm (fs.filter (fun f => (isPairing? f).isNone) ++ (fs.filterMap isPairing?).map (·.toExpr)) := by
  induction fs with
  | nil => exact .nil
  | cons f rest ih =>
      cases found : isPairing? f with
      | none =>
          rw [List.filter_cons_of_pos (by simp [found]), List.filterMap_cons_none found]
          exact ih.cons f
      | some p =>
          rw [List.filter_cons_of_neg (by simp [found]), List.filterMap_cons_some found,
            List.map_cons, ← isPairing?_eq_some found]
          exact (ih.cons f).trans List.perm_middle.symm

theorem factors_foldl_prod {e : Expr} {rest : List Expr} (atoms : ∀ f ∈ rest, f.factors = [f]) :
    (rest.foldl Expr.prod e).factors = e.factors ++ rest := by
  induction rest generalizing e with
  | nil => simp
  | cons f rest ih =>
      rw [List.forall_mem_cons] at atoms
      rw [List.foldl_cons, ih atoms.2, factors, atoms.1, List.append_assoc, List.singleton_append]

/-- A coefficient has a value of its own. -/
def Closed (scale : Option Expr) : Prop :=
  ∀ c, scale = some c → Balanced false c ∧ freeIn false c = []

/-- The value of a coefficient, one where there is none. -/
def scaleMeaning (dim : Nat) (v : Quantity → K) (scale : Option Expr) (ρ : Index → Nat) : K :=
  scale.elim 1 (meaning dim v · ρ)

theorem productOf?_spec (dim : Nat) (v : Quantity → K) {fs : List Expr} (atoms : ∀ f ∈ fs, f.factors = [f])
    (closed : Closed (productOf? fs)) :
    (∀ f ∈ fs, Balanced false f) ∧ (∀ i, (exposed fs).count i ≤ 2) ∧ once (exposed fs) = [] ∧
      ∀ ρ, scaleMeaning dim v (productOf? fs) ρ = productMeaning dim v fs ρ := by
  cases fs with
  | nil => simp [exposed, once, scaleMeaning, productOf?, productMeaning, twice, sumOver]
  | cons f rest =>
      obtain ⟨balanced, free⟩ := closed _ rfl
      rw [List.forall_mem_cons] at atoms
      have parts : (rest.foldl Expr.prod f).factors = f :: rest := by
        rw [factors_foldl_prod atoms.2, atoms.1, List.singleton_append]
      obtain ⟨each, small⟩ := balanced_iff.mp balanced
      rw [freeIn_eq_once] at free
      rw [parts] at each small free
      refine ⟨each, small, free, fun ρ => ?_⟩
      rw [← parts, ← meaning_eq_productMeaning, parts]
      rfl

theorem extract_prod {a b : Expr} {scale : Option Expr} {p : Pairing}
    (found : extract (.prod a b) = .ok (scale, p)) :
    ∃ rest, (Expr.prod a b).factors.Perm (rest ++ [p.toExpr]) ∧ scale = productOf? rest ∧
      ∀ f ∈ rest, f.hasPairing = false := by
  simp only [extract] at found
  split at found
  · next q single =>
      split at found
      · cases found
      · next plain =>
          cases found
          refine ⟨_, ?_, rfl, ?_⟩
          · have parts := perm_pairings (Expr.prod a b).factors
            rwa [single] at parts
          · simpa only [List.any_eq_true, not_exists, not_and, Bool.not_eq_true] using plain
  · cases found

theorem extract_quot {a b : Expr} {scale : Option Expr} {p : Pairing}
    (found : extract (.quot a b) = .ok (scale, p)) :
    ∃ inner, extract a = .ok (inner, p) ∧ b.hasPairing = false ∧
      scale = some (joinScale inner (.quot (.const (.int 1)) b)) := by
  simp only [extract] at found
  obtain ⟨⟨inner, q⟩, first, rest⟩ := Outcome.bind_eq_ok.mp found
  by_cases nested : b.hasPairing
  · simp only [nested, if_true] at rest
    cases rest
  · simp only [nested] at rest
    cases rest
    exact ⟨inner, first, by simpa using nested, rfl⟩

/-- A coefficient divided once more has the quotient as its value. -/
theorem joinScale_spec (dim : Nat) (v : Quantity → K) {scale : Option Expr} {b : Expr}
    (closed : Closed (some (joinScale scale (.quot (.const (.int 1)) b)))) :
    Closed scale ∧ Balanced false b ∧ freeIn false b = [] ∧
      ∀ ρ, scaleMeaning dim v (some (joinScale scale (.quot (.const (.int 1)) b))) ρ =
        scaleMeaning dim v scale ρ / meaning dim v b ρ := by
  obtain ⟨balanced, free⟩ := closed _ rfl
  have reciprocal (ρ : Index → Nat) :
      meaning dim v (.quot (.const (.int 1)) b) ρ = 1 / meaning dim v b ρ := by
    simp [meaning, meaningIn, Number.value]
  cases scale with
  | none => exact ⟨by simp [Closed], balanced.2.1, balanced.2.2, reciprocal⟩
  | some c =>
      have parts : (joinScale (some c) (.quot (.const (.int 1)) b)).factors =
          c.factors ++ [.quot (.const (.int 1)) b] := rfl
      have nothing : exposed (c.factors ++ [.quot (.const (.int 1)) b]) = exposed c.factors := by
        rw [exposed_append, exposed_singleton]
        exact List.append_nil _
      obtain ⟨each, small⟩ := balanced_iff.mp balanced
      rw [parts, List.forall_mem_append] at each
      rw [parts, nothing] at small
      rw [freeIn_eq_once, parts, nothing, ← freeIn_eq_once] at free
      have divisor := each.2 _ (List.mem_singleton_self _)
      refine ⟨?_, divisor.2.1, divisor.2.2, fun ρ => ?_⟩
      · intro d same
        cases same
        exact ⟨balanced_iff.mpr ⟨each.1, small⟩, free⟩
      · exact (meaning_prod_closed balanced free ρ).trans
          (by rw [reciprocal, mul_one_div]; rfl)

/-- A term is its coefficient times its pairing. -/
theorem extract_spec (dim : Nat) (v : Quantity → K) {t : Expr} {scale : Option Expr} {p : Pairing}
    (found : extract t = .ok (scale, p)) (closed : Closed scale)
    (balanced : Balanced false p.toExpr) :
    Balanced false t ∧ freeIn false t = [] ∧
      ∀ ρ, meaning dim v t ρ = scaleMeaning dim v scale ρ * meaning dim v p.toExpr ρ := by
  induction t generalizing scale with
  | pairing a b =>
      cases found
      exact ⟨balanced, rfl, fun ρ => (one_mul _).symm⟩
  | prod a b =>
      obtain ⟨rest, parts, rfl, _⟩ := extract_prod found
      have atoms : ∀ f ∈ rest, f.factors = [f] := fun f member =>
        factors_of_mem_factors (parts.symm.subset (List.mem_append_left _ member))
      obtain ⟨each, small, free, value⟩ := productOf?_spec dim v atoms closed
      have nothing : exposed (rest ++ [p.toExpr]) = exposed rest := by
        rw [exposed_append, exposed_singleton]
        exact List.append_nil _
      refine ⟨balanced_iff.mpr ⟨?_, ?_⟩, ?_, fun ρ => ?_⟩
      · intro f member
        rcases List.mem_append.mp (parts.subset member) with other | last
        · exact each f other
        · rw [List.mem_singleton.mp last]
          exact balanced
      · intro i
        rw [(exposed_perm parts).count_eq, nothing]
        exact small i
      · rw [freeIn_eq_once, List.eq_nil_iff_forall_not_mem]
        intro i member
        rw [mem_once, (exposed_perm parts).count_eq, nothing, ← mem_once, free] at member
        cases member
      · rw [meaning_eq_productMeaning, productMeaning_perm parts, value,
          productMeaning_closed balanced rfl, mul_comm]
  | quot a b iha _ =>
      obtain ⟨inner, first, _, rfl⟩ := extract_quot found
      obtain ⟨inside, divisor, free, value⟩ := joinScale_spec dim v closed
      obtain ⟨whole, none, product⟩ := iha first inside
      refine ⟨⟨whole, divisor, free⟩, none, fun ρ => ?_⟩
      rw [value, div_mul_eq_mul_div, ← product]
      rfl
  | _ =>
      simp only [extract] at found
      split at found <;> cases found

/-- Moving a coefficient onto the trial side keeps the value where the pairing stays well scoped. -/
theorem pairingOf_spec {t : Expr} {p : Pairing} (found : pairingOf t = .ok p)
    (accepted : p.toExpr.freeIndices = .ok []) :
    Balanced false t ∧ ∀ ρ, meaning dim v t ρ = meaning dim v p.toExpr ρ := by
  have inside := (freeIndices_eq_ok.mp accepted).1
  obtain ⟨⟨scale, q⟩, first, rest⟩ := Outcome.bind_eq_ok.mp found
  cases scale with
  | none =>
      cases rest
      obtain ⟨balanced, _, value⟩ := extract_spec dim v first (by simp [Closed])
        inside.balanced
      exact ⟨balanced, fun ρ => (value ρ).trans (one_mul _)⟩
  | some c =>
      obtain ⟨free, checked, last⟩ := Outcome.bind_eq_ok.mp rest
      cases free with
      | cons i others => cases last
      | nil =>
          cases last
          obtain ⟨coefficient, closed⟩ := freeIndices_eq_ok.mp checked
          obtain ⟨test, product, same⟩ := inside.balanced
          have part : q.trial.factors.Subperm (Expr.prod c q.trial).factors :=
            (List.sublist_append_right _ _).subperm
          have unfolded : Balanced false q.toExpr := by
            refine ⟨test, product.of_subperm part, fun i => ?_⟩
            exact (same i).trans (freeIn_prod_closed product closed i)
          have alone : Closed (some c) := by
            intro d equal
            cases equal
            exact ⟨coefficient.balanced, closed⟩
          obtain ⟨balanced, _, value⟩ := extract_spec dim v first alone unfolded
          refine ⟨balanced, fun ρ => ?_⟩
          have fixed : DependsOn (meaning dim v c) ∅ := fun σ τ _ =>
            meaning_congr coefficient.balanced (by simp [closed])
          rw [value]
          calc meaning dim v c ρ * meaning dim v q.toExpr ρ
              = sumOver dim (freeIn false q.test) ρ fun σ =>
                  meaning dim v c σ * (meaning dim v q.test σ * meaning dim v q.trial σ) :=
                (sumOver_mul_left fixed (by simp)).symm
            _ = meaning dim v (Pairing.toExpr ⟨q.test, .prod c q.trial⟩) ρ := by
                refine sumOver_congr fun σ _ => ?_
                rw [mul_left_comm, ← meaning_prod_closed product closed]
                rfl

/-- A pairing whose indices are in order, with no pairing inside it and fields of the setting only. -/
structure Expandable (s : Setting) (p : Pairing) : Prop where
  accepted : p.toExpr.freeIndices = .ok []
  test : p.test.hasPairing = false
  trial : p.trial.hasPairing = false
  known : ∀ f ∈ p.toExpr.fields, s.Knows f

/-- The component pairs of a pairing add up to its value. -/
theorem componentPairs_spec {s : Setting} {p : Pairing} (v : Quantity → K) (sound : Expandable s p) :
    ∃ pairs, componentPairs s p = .ok pairs ∧ ∀ ρ,
      (pairs.map fun pair => pair.1.eval v * pair.2.eval v).sum = p.toExpr.meaning s.dim v ρ := by
  have inside := (freeIndices_eq_ok.mp sound.accepted).1
  obtain ⟨left, right, same, _⟩ := inside
  have each : ∀ env ∈ Assignment.all s.dim (freeIn false p.test),
      ∃ pair, (do
          let a ← Expansion.expand s env p.test
          let b ← Expansion.expand s env p.trial
          pure (a, b)) = Except.ok pair ∧
        pair.1.eval v * pair.2.eval v =
          p.test.meaning s.dim v env.toFun * p.trial.meaning s.dim v env.toFun := by
    intro env member
    have covers := Assignment.covers_of_mem_all member
    obtain ⟨a, founda, valuea⟩ := Expansion.expand_value (v := v) left sound.test
      (fun f field => sound.known f (List.mem_append_left _ field)) covers
    obtain ⟨b, foundb, valueb⟩ := Expansion.expand_value (v := v) right sound.trial
      (fun f field => sound.known f (List.mem_append_right _ field))
      (fun i => (covers i).trans (same i))
    refine ⟨(a, b), Outcome.bind_eq_ok.mpr ⟨a, founda, Outcome.bind_eq_ok.mpr ⟨b, foundb, rfl⟩⟩, ?_⟩
    rw [valuea, valueb]
  obtain ⟨pairs, found, matched⟩ := Outcome.mapM_of_forall each
  refine ⟨pairs, Outcome.bind_eq_ok.mpr ⟨_, freeIndices_eq_ok.mpr ⟨left, rfl⟩, found⟩, fun ρ => ?_⟩
  rw [Outcome.map_eq_of_matched matched]
  have closed : p.toExpr.meaning s.dim v ρ = p.toExpr.meaning s.dim v (Assignment.toFun []) :=
    meaning_congr (freeIndices_eq_ok.mp sound.accepted).1.balanced (by simp [Pairing.toExpr, freeIn])
  rw [closed, Pairing.toExpr, meaning, meaningIn, Assignment.sumOver_toFun (nodup_freeIn p.test)]
  simp only [List.append_nil]
  rfl

theorem pairings_eq_ok {name : String} {e : Expr} {ps : List Pairing}
    (found : pairings name e = .ok ps) :
    Scoped false e ∧ freeIn false e = [] ∧
      List.Forall₂ (fun t p => pairingOf t = .ok p) (splitTerms e) ps := by
  obtain ⟨free, accepted, rest⟩ := Outcome.bind_eq_ok.mp (Outcome.mapError_eq_ok.mp found)
  obtain ⟨inside, same⟩ := freeIndices_eq_ok.mp accepted
  cases free with
  | cons i others => cases rest
  | nil => exact ⟨inside, same, Outcome.mapM_eq_ok.mp rest⟩

/-- The scalar pairs of a weak form add up to its value, if its pairings are well scoped also with their
coefficients on the trial side. -/
theorem expand_eq_meaning {s : Setting} {name : String} {e : Expr} {ps : List Pairing}
    (v : Quantity → K) (accepted : pairings name e = .ok ps) (sound : ∀ p ∈ ps, Expandable s p) :
    ∃ pairs, expand s name e = .ok pairs ∧ ∀ ρ,
      (pairs.map fun pair => pair.1.eval v * pair.2.eval v).sum = e.meaning s.dim v ρ := by
  obtain ⟨inside, _, terms⟩ := pairings_eq_ok accepted
  have each : ∀ p ∈ ps, ∃ pairs, (componentPairs s p).mapError (Failure.inForm name) = .ok pairs ∧
      ∀ ρ, (pairs.map fun pair => pair.1.eval v * pair.2.eval v).sum = p.toExpr.meaning s.dim v ρ := by
    intro p member
    obtain ⟨pairs, found, value⟩ := componentPairs_spec v (sound p member)
    exact ⟨pairs, Outcome.mapError_eq_ok.mpr found, value⟩
  obtain ⟨parts, found, matched⟩ := Outcome.mapM_of_forall each
  refine ⟨parts.flatten, Outcome.bind_eq_ok.mpr ⟨ps, accepted,
    Outcome.bind_eq_ok.mpr ⟨parts, found, rfl⟩⟩, fun ρ => ?_⟩
  have related : List.Forall₂ (fun p t => p.toExpr.freeIndices = .ok [] ∧ pairingOf t = .ok p)
      ps (splitTerms e) :=
    (List.forall₂_and_left _ _).mpr ⟨fun p member => (sound p member).accepted, terms.flip⟩
  have folded : List.Forall₂ (fun p t => Balanced false t ∧
      t.meaning s.dim v ρ = p.toExpr.meaning s.dim v ρ) ps (splitTerms e) :=
    related.imp fun p t both => (pairingOf_spec both.2 both.1).imp_right fun value => value ρ
  have balanced : ∀ t ∈ splitTerms e, Balanced false t := by
    intro t member
    obtain ⟨p, _, whole⟩ := Outcome.exists_of_matched folded member
    exact whole.1
  calc (parts.flatten.map fun pair => pair.1.eval v * pair.2.eval v).sum
      = (parts.map fun pairs => (pairs.map fun pair => pair.1.eval v * pair.2.eval v).sum).sum := by
        rw [List.map_flatten, List.sum_flatten, List.map_map]
        rfl
    _ = (ps.map fun p => p.toExpr.meaning s.dim v ρ).sum := by
        rw [Outcome.map_eq_of_matched (matched.imp fun _ _ value => value ρ)]
    _ = ((splitTerms e).map (Expr.meaning s.dim v · ρ)).sum := by
        rw [Outcome.map_eq_of_matched (folded.imp fun _ _ whole => whole.2)]
    _ = e.meaning s.dim v ρ := (splitTerms_addsUp inside.balanced).total balanced ρ

section Capture

def vectorAt (name index : String) : Expr := .field ⟨name, 1, false⟩ [⟨index⟩] [] 0

/-- The pairing of a vector with itself, with a coefficient that sums over an index of its own. -/
def scaled (index : String) : Expr :=
  .prod (.sum (.const (.int 1)) (.prod (vectorAt "d" index) (vectorAt "d" index)))
    (.pairing (vectorAt "u" "i") (vectorAt "u" "i"))

def scaledPairing (index : String) : Pairing :=
  ⟨vectorAt "u" "i",
    .prod (.sum (.const (.int 1)) (.prod (vectorAt "d" index) (vectorAt "d" index)))
      (vectorAt "u" "i")⟩

def plane : Setting := ⟨2, ⟨2, [⟨"d", 1, false⟩, ⟨"u", 1, false⟩]⟩, .empty 2⟩

def sample (q : Quantity) : ℝ := if q = .unknown "d" [1] 0 none then (2 : ℚ) else 1

theorem splitTerms_scaled (index : String) : splitTerms (scaled index) = [scaled index] := by
  rw [splitTerms]
  show distribute (scaled index) (analyse (scaled index)).1 = _
  rw [distribute_eq]
  rfl

theorem expand_scaled_apart :
    (∃ pairs, expand plane "form" (scaled "j") = .ok pairs ∧
      (pairs.map fun pair => pair.1.eval sample * pair.2.eval sample).sum = 12) := by
  have accepted : pairings "form" (scaled "j") = .ok [scaledPairing "j"] := by
    rw [pairings, pairingsOf, splitTerms_scaled]
    rfl
  have sound : Expandable plane (scaledPairing "j") := by
    constructor
    · rfl
    · rfl
    · rfl
    · intro f member
      simp only [scaledPairing, Pairing.toExpr, vectorAt, fields, List.cons_append, List.nil_append,
        List.mem_cons, List.not_mem_nil, or_false] at member
      rcases member with rfl | rfl | rfl | rfl <;> rfl
  obtain ⟨pairs, found, value⟩ := expand_eq_meaning sample accepted (by simpa using sound)
  refine ⟨pairs, found, ?_⟩
  rw [value fun _ => 0]
  simp [scaled, meaning, meaningIn, plane, vectorAt, freeIn, twice, once, unique, sumOver,
    Finset.sum_range_succ, Quantity.ofAccess, sample, Number.value]
  norm_num

/-- A coefficient that sums over the paired index loses its sum. -/
theorem expand_scaled_captured :
    ∃ pairs, expand plane "form" (scaled "i") = .ok pairs ∧
      (pairs.map fun pair => pair.1.eval sample * pair.2.eval sample).sum = 7 ∧
      ∀ ρ, (scaled "i").meaning plane.dim sample ρ = 12 := by
  have accepted : pairings "form" (scaled "i") = .ok [scaledPairing "i"] := by
    rw [pairings, pairingsOf, splitTerms_scaled]
    rfl
  rw [expand, accepted]
  refine ⟨_, rfl, ?_, fun ρ => ?_⟩
  · simp [Expansion.collect, Formula.eval_ofNumber, Number.value, sample]
    norm_num
  · simp [scaled, meaning, meaningIn, plane, vectorAt, freeIn, twice, once, unique, sumOver,
      Finset.sum_range_succ, Quantity.ofAccess, sample, Number.value]
    norm_num

end Capture

end WeakForm

end Galerkin

/-! ### Leaves -/

namespace Galerkin

open Usage Galerkin.Expr

namespace Expr

/-- Does something hold of every leaf? -/
def EveryLeaf (P : Expr → Prop) : Expr → Prop
  | sum a b | prod a b | quot a b | power a b | pairing a b => EveryLeaf P a ∧ EveryLeaf P b
  | apply _ x => EveryLeaf P x
  | e => P e

theorem everyLeaf_factors {P : Expr → Prop} {e : Expr} :
    EveryLeaf P e ↔ ∀ f ∈ e.factors, EveryLeaf P f := by
  induction e with
  | prod a b iha ihb => rw [factors, List.forall_mem_append, ← iha, ← ihb, EveryLeaf]
  | _ => simp [factors]

end Expr

namespace WeakForm

variable {P : Expr → Prop}

/-- The leaves of a factor and of its terms. -/
def SplitFactor.EveryLeaf (P : Expr → Prop) (f : SplitFactor) : Prop :=
  Expr.EveryLeaf P f.whole ∧ ∀ terms, f.terms = some terms → ∀ t ∈ terms, Expr.EveryLeaf P t

theorem everyLeaf_plain {e : Expr} (leaves : Expr.EveryLeaf P e) : (SplitFactor.plain e).EveryLeaf P :=
  ⟨leaves, fun _ none => nomatch none⟩

theorem everyLeaf_multiplied {others : List SplitFactor} {term : Expr}
    (leaves : ∀ f ∈ others, f.EveryLeaf P) (inside : Expr.EveryLeaf P term) :
    Expr.EveryLeaf P (multiplied others term) := by
  induction others generalizing term with
  | nil => exact inside
  | cons f rest ih =>
      rw [List.forall_mem_cons] at leaves
      exact ih leaves.2 ⟨leaves.1.1, inside⟩

theorem everyLeaf_distribute {whole : Expr} {fs : List SplitFactor} (inside : Expr.EveryLeaf P whole)
    (leaves : ∀ f ∈ fs, f.EveryLeaf P) : ∀ t ∈ distribute whole fs, Expr.EveryLeaf P t := by
  refine distribute_induction (motive := fun whole fs ts => Expr.EveryLeaf P whole →
    (∀ f ∈ fs, f.EveryLeaf P) → ∀ t ∈ ts, Expr.EveryLeaf P t) ?_ ?_ whole fs inside leaves
  · intro whole fs _ inside _ t member
    rw [List.mem_singleton.mp member]
    exact inside
  · intro whole before behind f terms present ih _ leaves t member
    rcases List.mem_flatMap.mp member with ⟨term, inside, later⟩
    rw [List.forall_mem_append, List.forall_mem_cons] at leaves
    rcases leaves with ⟨first, here, last⟩
    have others := List.forall_mem_append.mpr ⟨first, last⟩
    have one := here.2 terms present term inside
    refine ih term inside (everyLeaf_multiplied others one) ?_ t later
    rw [remaining, List.forall_mem_append]
    refine ⟨fun g among => others g (List.mem_reverse.mp among), fun g among => ?_⟩
    rcases List.mem_map.mp among with ⟨factor, part, rfl⟩
    exact everyLeaf_plain (everyLeaf_factors.mp one factor part)

theorem everyLeaf_analyse {e : Expr} (leaves : Expr.EveryLeaf P e) :
    (∀ f ∈ (analyse e).1, f.EveryLeaf P) ∧ ∀ t ∈ (analyse e).2, Expr.EveryLeaf P t := by
  induction e with
  | sum a b iha ihb =>
      have terms := List.forall_mem_append.mpr ⟨(iha leaves.1).2, (ihb leaves.2).2⟩
      refine ⟨?_, terms⟩
      intro f member
      rw [List.mem_singleton.mp member]
      refine ⟨leaves, fun ts present => ?_⟩
      dsimp only at present
      split at present
      · cases present
        exact terms
      · cases present
  | prod a b iha ihb =>
      have factors := List.forall_mem_append.mpr ⟨(iha leaves.1).1, (ihb leaves.2).1⟩
      exact ⟨factors, everyLeaf_distribute leaves factors⟩
  | quot a b iha ihb =>
      have single : ∀ t ∈ [Expr.quot a b], Expr.EveryLeaf P t := by
        simpa using leaves
      constructor
      · intro f member
        rw [List.mem_singleton.mp member]
        exact everyLeaf_plain leaves
      simp only [analyse]
      split
      · split
        · intro t member
          rcases List.mem_map.mp member with ⟨term, inside, rfl⟩
          exact ⟨(iha leaves.1).2 term inside, leaves.2⟩
        · exact single
      · exact single
  | _ => exact ⟨by simpa [analyse] using everyLeaf_plain leaves, by simpa [analyse] using leaves⟩

/-- The leaves of a coefficient. -/
def ScaleLeaves (P : Expr → Prop) (scale : Option Expr) : Prop :=
  ∀ c, scale = some c → Expr.EveryLeaf P c

theorem everyLeaf_productOf? {fs : List Expr} (leaves : ∀ f ∈ fs, Expr.EveryLeaf P f) :
    ScaleLeaves P (productOf? fs) := by
  cases fs with
  | nil => exact fun _ none => nomatch none
  | cons f rest =>
      intro c same
      cases same
      rw [List.forall_mem_cons] at leaves
      exact List.foldlRecOn (motive := Expr.EveryLeaf P) rest _ leaves.1
        fun product inside factor member => ⟨inside, leaves.2 factor member⟩

theorem everyLeaf_extract (unit : P (.const (.int 1))) {t : Expr} {scale : Option Expr} {p : Pairing}
    (found : extract t = .ok (scale, p)) (leaves : Expr.EveryLeaf P t) :
    ScaleLeaves P scale ∧ Expr.EveryLeaf P p.toExpr := by
  induction t generalizing scale with
  | pairing a b =>
      cases found
      exact ⟨fun _ none => (nomatch none), leaves⟩
  | prod a b =>
      rcases extract_prod found with ⟨rest, parts, rfl, _⟩
      have each := everyLeaf_factors.mp leaves
      refine ⟨everyLeaf_productOf? fun f member => ?_, ?_⟩
      · exact each f (parts.mem_iff.mpr (List.mem_append_left _ member))
      · exact each _ (parts.mem_iff.mpr (List.mem_append_right _ (List.mem_singleton_self _)))
  | quot a b iha _ =>
      rcases extract_quot found with ⟨inner, first, _, rfl⟩
      rcases iha first leaves.1 with ⟨coefficient, inside⟩
      have divisor : Expr.EveryLeaf P (.quot (.const (.int 1)) b) := ⟨unit, leaves.2⟩
      refine ⟨fun c same => ?_, inside⟩
      cases same
      cases inner with
      | none => exact divisor
      | some d => exact ⟨coefficient d rfl, divisor⟩
  | _ =>
      simp only [extract] at found
      split at found <;> cases found

theorem everyLeaf_pairingOf (unit : P (.const (.int 1))) {t : Expr} {p : Pairing}
    (found : pairingOf t = .ok p) (leaves : Expr.EveryLeaf P t) : Expr.EveryLeaf P p.toExpr := by
  rcases Outcome.bind_eq_ok.mp found with ⟨⟨scale, q⟩, first, rest⟩
  rcases everyLeaf_extract unit first leaves with ⟨coefficient, inside⟩
  cases scale with
  | none =>
      cases rest
      exact inside
  | some c =>
      rcases Outcome.bind_eq_ok.mp rest with ⟨free, _, last⟩
      cases free with
      | cons i others => cases last
      | nil =>
          cases last
          exact ⟨inside.1, coefficient c rfl, inside.2⟩

theorem everyLeaf_pairings (unit : P (.const (.int 1))) {name : String} {e : Expr} {ps : List Pairing}
    (found : pairings name e = .ok ps) (leaves : Expr.EveryLeaf P e) :
    ∀ p ∈ ps, Expr.EveryLeaf P p.toExpr := by
  rcases pairings_eq_ok found with ⟨_, _, matched⟩
  have terms := (everyLeaf_analyse leaves).2
  intro p member
  have each := (List.forall₂_and_left (p := (· ∈ splitTerms e)) _ _).mpr
    ⟨fun _ inside => inside, matched⟩
  rcases Outcome.exists_of_matched each member with ⟨t, _, inside, made⟩
  exact everyLeaf_pairingOf unit made (terms t inside)

end WeakForm

end Galerkin
