import Mathlib
import Galerkin.Proofs.Definition
import Galerkin.Proofs.MalformedForms
import Galerkin.Proofs.WeakForm.Ranges
import Galerkin.Proofs.WeakForm.Scaling

/-!
Facet normals in forms. The pairs of a weak form have a component of the normal exactly when the normal stands
anywhere in the form, whatever becomes of it by multiplication and cancellation. So a form is refused inside a
domain exactly when it has a normal.

No leaf of a weak form is lost on the way to its pairings: what holds of all leaves of the pairings holds of all leaves of
the form.
-/

namespace Galerkin

open Usage

/-! ### Leaves -/

namespace WeakForm

open Galerkin.Expr

/-- The leaves of an expression are found again in terms of it, of which there are some. -/
structure Spans (terms : List Expr) (e : Expr) : Prop where
  nonempty : terms ≠ []
  leaves : ∀ P, (∀ t ∈ terms, Expr.EveryLeaf P t) → Expr.EveryLeaf P e

theorem Spans.single (e : Expr) : Spans [e] e := ⟨List.cons_ne_nil _ _, fun _ => List.forall_mem_singleton.mp⟩

/-- A factor that is not split is one of every term, and the terms of one that is split go to different ones. -/
theorem spans_distribute {whole : Expr} {fs : List SplitFactor} (factors : whole.factors = fs.map (·.whole))
    (each : ∀ f ∈ fs, ∀ terms, f.terms = some terms → Spans terms f.whole) : Spans (distribute whole fs) whole := by
  have splits : Splits fs := fun f member terms present => (each f member terms present).nonempty
  have some := distribute_ne_nil whole splits
  refine ⟨some, fun P held => everyLeaf_factors.mpr ?_⟩
  rw [factors, List.forall_mem_map]
  intro f member
  cases present : f.terms with
  | none =>
      obtain ⟨t, result⟩ := List.exists_mem_of_ne_nil _ some
      have kept : f.whole ∈ (fs.filter (·.terms.isNone)).map (·.whole) :=
        List.mem_map_of_mem (List.mem_filter.mpr ⟨member, by rw [present]; rfl⟩)
      exact everyLeaf_factors.mp (held t result) f.whole ((unsplit_subperm factors t result).subset kept)
  | some terms =>
      refine (each f member terms present).leaves P fun term inside => everyLeaf_factors.mpr fun g part => ?_
      obtain ⟨t, result, parts⟩ := terms_subperm factors splits f member terms present term inside
      exact everyLeaf_factors.mp (held t result) g (parts.subset part)

theorem Spans.quot {terms : List Expr} {a : Expr} (spans : Spans terms a) (b : Expr) :
    Spans (terms.map (Expr.quot · b)) (.quot a b) where
  nonempty := List.map_eq_nil_iff.not.mpr spans.nonempty
  leaves := by
    intro P held
    rw [List.forall_mem_map] at held
    obtain ⟨t, member⟩ := List.exists_mem_of_ne_nil _ spans.nonempty
    exact ⟨spans.leaves P fun t inside => (held t inside).1, (held t member).2⟩

theorem spans_splitTerms (e : Expr) :
    (∀ f ∈ e.factors.map factorOf, ∀ terms, f.terms = some terms → Spans terms f.whole) ∧ Spans (splitTerms e) e := by
  have plain {e : Expr} (atom : e.factors = [e]) (unsplit : (factorOf e).terms = none) :
      ∀ f ∈ e.factors.map factorOf, ∀ terms, f.terms = some terms → Spans terms f.whole := by
    intro f member terms present
    rw [atom, List.map_singleton, List.mem_singleton] at member
    rw [member, unsplit] at present
    cases present
  induction e with
  | sum a b iha ihb =>
      have both : Spans (splitTerms (.sum a b)) (.sum a b) :=
        ⟨List.append_ne_nil_of_left_ne_nil iha.2.nonempty _, fun P held =>
          ⟨iha.2.leaves P (List.forall_mem_append.mp held).1, ihb.2.leaves P (List.forall_mem_append.mp held).2⟩⟩
      refine ⟨?_, both⟩
      intro f member terms present
      rw [List.mem_singleton.mp member] at present ⊢
      simp only [factorOf] at present
      split at present
      · cases present
        exact both
      · cases present
  | prod a b iha ihb =>
      have each : ∀ f ∈ (Expr.prod a b).factors.map factorOf, ∀ terms, f.terms = some terms → Spans terms f.whole := by
        rw [Expr.factors, List.map_append]
        exact List.forall_mem_append.mpr ⟨iha.1, ihb.1⟩
      refine ⟨each, ?_⟩
      rw [splitTerms_prod]
      exact spans_distribute (whole_map_factorOf _).symm each
  | quot a b iha _ =>
      refine ⟨plain rfl rfl, ?_⟩
      rcases splitTerms_quot a b with ⟨alone, -⟩ | ⟨divided, -⟩
      · exact alone ▸ Spans.single _
      · exact divided ▸ iha.2.quot b
  | _ => exact ⟨plain rfl rfl, Spans.single _⟩

variable {P : Expr → Prop}

theorem everyLeaf_of_product {e : Expr} {rest : List Expr} (leaves : Expr.EveryLeaf P (rest.foldl .prod e)) :
    ∀ f ∈ e :: rest, Expr.EveryLeaf P f := by
  induction rest generalizing e with
  | nil => exact List.forall_mem_singleton.mpr leaves
  | cons f rest ih =>
      obtain ⟨both, others⟩ := List.forall_mem_cons.mp (ih leaves)
      exact List.forall_mem_cons.mpr ⟨both.1, List.forall_mem_cons.mpr ⟨both.2, others⟩⟩

theorem everyLeaf_of_productOf? {fs : List Expr} (coefficient : ScaleLeaves P (productOf? fs)) :
    ∀ f ∈ fs, Expr.EveryLeaf P f := by
  cases fs with
  | nil => exact List.forall_mem_nil _
  | cons f rest => exact everyLeaf_of_product (coefficient _ rfl)

theorem everyLeaf_of_extract {t : Expr} {scale : Option Expr} {p : Pairing} (found : extract t = .ok (scale, p))
    (coefficient : ScaleLeaves P scale) (inside : Expr.EveryLeaf P p.toExpr) : Expr.EveryLeaf P t := by
  induction t generalizing scale with
  | pairing a b =>
      cases found
      exact inside
  | prod a b =>
      obtain ⟨rest, parts, rfl, -⟩ := extract_prod found
      refine everyLeaf_factors.mpr fun f member => ?_
      rcases List.mem_append.mp (parts.mem_iff.mp member) with other | paired
      · exact everyLeaf_of_productOf? coefficient f other
      · exact List.mem_singleton.mp paired ▸ inside
  | quot a b iha _ =>
      obtain ⟨inner, first, -, rfl⟩ := extract_quot found
      have whole := coefficient _ rfl
      cases inner with
      | none => exact ⟨iha first (fun _ none => nomatch none), whole.2⟩
      | some c =>
          refine ⟨iha first fun d same => ?_, whole.2.2⟩
          cases same
          exact whole.1
  | _ =>
      simp only [extract] at found
      split at found <;> cases found

theorem everyLeaf_of_pairingOf {t : Expr} {p : Pairing} (found : pairingOf t = .ok p)
    (leaves : Expr.EveryLeaf P p.toExpr) : Expr.EveryLeaf P t := by
  obtain ⟨⟨scale, q⟩, first, rest⟩ := Outcome.bind_eq_ok.mp found
  cases scale with
  | none =>
      cases rest
      exact everyLeaf_of_extract first (fun _ none => nomatch none) leaves
  | some c =>
      obtain ⟨free, -, last⟩ := Outcome.bind_eq_ok.mp rest
      cases free with
      | cons i others => cases last
      | nil =>
          cases last
          refine everyLeaf_of_extract first (fun d same => ?_) ⟨leaves.1, leaves.2.2⟩
          cases same
          exact leaves.2.1

/-- The leaves of a weak form are those of its pairings, up to ones that divide. -/
theorem everyLeaf_pairings_iff (unit : P (.const (.int 1))) {name : String} {e : Expr} {ps : List Pairing}
    (found : pairings name e = .ok ps) : (∀ p ∈ ps, Expr.EveryLeaf P p.toExpr) ↔ Expr.EveryLeaf P e := by
  refine ⟨fun leaves => (spans_splitTerms e).2.leaves P fun t member => ?_, everyLeaf_pairings unit found⟩
  obtain ⟨-, -, matched⟩ := pairings_eq_ok found
  have each := (List.forall₂_and_left (p := (· ∈ ps)) _ _).mpr ⟨fun _ inside => inside, matched.flip⟩
  obtain ⟨p, -, inside, made⟩ := Outcome.exists_of_matched each member
  exact everyLeaf_of_pairingOf made (leaves p inside)

end WeakForm

/-! ### Normals -/

namespace Expr

theorem hasNormal_rename (f : Index → Index) (e : Expr) : (e.rename f).hasNormal = e.hasNormal := by
  induction e <;> simp_all [rename, hasNormal]

/-- Is a leaf something other than the normal? -/
def IsScalarLeaf (e : Expr) : Prop := e.hasNormal = false

theorem hasNormal_eq_false {e : Expr} : e.hasNormal = false ↔ e.EveryLeaf IsScalarLeaf := by
  induction e with
  | sum a b iha ihb | prod a b iha ihb | quot a b iha ihb | power a b iha ihb | pairing a b iha ihb =>
      rw [hasNormal, Bool.or_eq_false_iff, iha, ihb, EveryLeaf]
  | apply f x ih => rw [hasNormal, ih, EveryLeaf]
  | _ => rfl

end Expr

theorem Definition.hasNormal_access {d : Definition} {actual : List Index} {n n' : Nat} {e : Expr}
    (accessed : (d.access actual).run.run n = (.ok e, n')) : e.hasNormal = d.body.hasNormal := by
  unfold Definition.access at accessed
  dsimp only at accessed
  split at accessed
  · cases accessed
  · obtain ⟨names, later, -, last⟩ := Outcome.run_bind_eq_ok.mp accessed
    cases last
    exact Expr.hasNormal_rename names.apply d.body

/-! ### Expansion -/

theorem Assignment.all_ne_nil {dim : Nat} (positive : 0 < dim) (is : List Index) : all dim is ≠ [] := by
  induction is with
  | nil => exact List.cons_ne_nil _ _
  | cons i rest ih =>
      intro empty
      rw [all, List.flatMap_eq_nil_iff] at empty
      exact ih (List.map_eq_nil_iff.mp (empty 0 (List.mem_range.mpr positive)))

namespace Expansion

/-- Is a component of the normal among the variables of a formula? -/
def readsNormal (x : Scalars) : Bool := x.atoms.any (·.isNormal)

theorem readsNormal_eq_false {x : Scalars} : readsNormal x = false ↔ Over (·.isNormal = false) x := by
  simp only [readsNormal, List.any_eq_false, Bool.not_eq_true]

theorem readsNormal_binary (a b : Scalars) :
    (a.atoms ++ b.atoms).any (·.isNormal) = (readsNormal a || readsNormal b) := List.any_append

theorem readsNormal_collect (product : Option Scalars) (x : Scalars) :
    readsNormal (collect product x) = (product.elim false readsNormal || readsNormal x) := by
  cases product with
  | none => rfl
  | some p => exact readsNormal_binary p x

theorem readsNormal_function (f : Function) (x : Scalars) : readsNormal (function f x) = readsNormal x := by
  cases f with
  | sqrt => exact (readsNormal_binary x Formula.half).trans (Bool.or_false _)
  | _ => rfl

/-- A sum over indices has a term for all values of the indices, if space has a dimension. -/
theorem readsNormal_summed {dim : Nat} {is : List Index} {env : Assignment}
    {term : Assignment → Except Failure Scalars} {x : Scalars} {reads : Bool} (found : summed dim is env term = .ok x)
    (each : ∀ values ∈ Assignment.all dim is, ∀ y, term (values ++ env) = .ok y → readsNormal y = reads)
    (positive : reads = true → 0 < dim) : readsNormal x = reads := by
  cases is with
  | nil => exact each [] List.mem_cons_self x found
  | cons i rest =>
      have total : readsNormal x = (!(Assignment.all dim (i :: rest)).isEmpty && reads) := by
        refine Outcome.foldlM_induction (P := fun earlier total => readsNormal total = (!earlier.isEmpty && reads))
          found rfl ?_
        intro earlier values member total total' before added
        obtain ⟨y, made, last⟩ := Outcome.bind_eq_ok.mp added
        cases last
        have here := (readsNormal_binary total y).trans (congrArg₂ _ before (each values member y made))
        refine here.trans ?_
        cases reads <;> cases earlier <;> rfl
      rw [total]
      cases reads with
      | false => exact Bool.and_false _
      | true =>
          have some := List.isEmpty_eq_false_iff.mpr (Assignment.all_ne_nil (positive rfl) (i :: rest))
          rw [some]
          rfl

theorem isNormal_ofField {internal external : Layout} {f : Field} {comps : List Nat} {axis : Option Nat} {t : Nat}
    {q : Quantity} (found : Quantity.ofField internal external f comps axis t = .ok q) : q.isNormal = false := by
  unfold Quantity.ofField at found
  split at found <;> split at found <;> cases found <;> rfl

theorem readsNormal_access {s : Setting} {env : Assignment} {f : Field} {comps derivs : List Index} {t : Nat}
    {x : Scalars} (found : access s env f comps derivs t = .ok x) : readsNormal x = false := by
  refine access_induction (P := fun x => readsNormal x = false) found (fun _ _ _ _ q _ _ placed => ?_) rfl ?_
  · exact (Bool.or_false _).trans (isNormal_ofField placed)
  · intro a b left right
    exact (readsNormal_binary a b).trans (by rw [left, right]; rfl)

/-- An expansion has a component of the normal when the expression has the normal, or the product has one that the
expansion is multiplied onto. -/
theorem readsNormal_expandOnto {s : Setting} {product : Option Scalars} {env : Assignment} (below : env.Below s.dim)
    {e : Expr} {x : Scalars} (found : expandOnto s product env e = .ok x) :
    readsNormal x = (product.elim false readsNormal || (e.hasNormal && decide (0 < s.dim))) := by
  have scalar {y : Scalars} (product : Option Scalars) (none : readsNormal y = false) :
      readsNormal (collect product y) = (product.elim false readsNormal || (false && decide (0 < s.dim))) :=
    (readsNormal_collect product y).trans (by rw [none, Bool.false_and])
  induction e generalizing product env x with
  | const n =>
      cases found
      exact scalar product (readsNormal_eq_false.mpr (over_ofNumber n))
  | param name =>
      cases found
      exact scalar product rfl
  | field f comps derivs t =>
      obtain ⟨y, made, last⟩ := Outcome.bind_eq_ok.mp found
      cases last
      exact scalar product (readsNormal_access made)
  | bare f =>
      obtain ⟨y, made, last⟩ := Outcome.bind_eq_ok.mp found
      cases last
      exact scalar product (readsNormal_access made)
  | normal i =>
      obtain ⟨c, here, last⟩ := Outcome.bind_eq_ok.mp found
      cases last
      have positive : 0 < s.dim := Nat.zero_lt_of_lt (below.value here)
      rw [readsNormal_collect, decide_eq_true positive]
      rfl
  | delta i j =>
      rw [expandOnto] at found
      split at found
      · cases found
        exact scalar product rfl
      · obtain ⟨a, -, rest⟩ := Outcome.bind_eq_ok.mp found
        obtain ⟨b, -, last⟩ := Outcome.bind_eq_ok.mp rest
        cases last
        refine scalar product ?_
        split <;> rfl
  | sum a b iha ihb =>
      obtain ⟨y, first, rest⟩ := Outcome.bind_eq_ok.mp found
      obtain ⟨z, second, last⟩ := Outcome.bind_eq_ok.mp rest
      cases last
      have both := (readsNormal_binary y z).trans (congrArg₂ _ (iha below first) (ihb below second))
      rw [readsNormal_collect, Expr.hasNormal, Bool.and_or_distrib_right]
      exact congrArg _ both
  | prod a b iha ihb =>
      have both {p : Option Scalars} {env : Assignment} (below : env.Below s.dim) {y : Scalars}
          (made : (do
            let p ← expandOnto s p env a
            expandOnto s (some p) env b) = .ok y) :
          readsNormal y = (p.elim false readsNormal || ((Expr.prod a b).hasNormal && decide (0 < s.dim))) := by
        obtain ⟨q, first, second⟩ := Outcome.bind_eq_ok.mp made
        rw [ihb below second, Option.elim_some, iha below first, Expr.hasNormal, Bool.and_or_distrib_right,
          Bool.or_assoc]
      cases product with
      | some p => exact both below found
      | none =>
          obtain ⟨occurrences, -, rest⟩ := Outcome.bind_eq_ok.mp found
          refine readsNormal_summed rest (fun values member y made => ?_) fun reads => ?_
          · exact both (p := some Formula.one) ((Assignment.below_of_mem_all member).append below) made
          · exact of_decide_eq_true (Bool.and_eq_true_iff.mp reads).2
  | quot a b iha ihb =>
      obtain ⟨y, first, rest⟩ := Outcome.bind_eq_ok.mp found
      obtain ⟨z, second, last⟩ := Outcome.bind_eq_ok.mp rest
      cases last
      have divisor : readsNormal (Formula.inverse z) = readsNormal z :=
        (readsNormal_binary z _).trans (Bool.or_false _)
      have both := (readsNormal_binary y (Formula.inverse z)).trans
        (congrArg₂ _ (iha below first) (divisor.trans (ihb below second)))
      rw [readsNormal_collect, Expr.hasNormal, Bool.and_or_distrib_right]
      exact congrArg _ both
  | power a b iha ihb =>
      obtain ⟨y, first, rest⟩ := Outcome.bind_eq_ok.mp found
      obtain ⟨z, second, last⟩ := Outcome.bind_eq_ok.mp rest
      cases last
      have both := (readsNormal_binary y z).trans (congrArg₂ _ (iha below first) (ihb below second))
      rw [readsNormal_collect, Expr.hasNormal, Bool.and_or_distrib_right]
      exact congrArg _ both
  | apply f a ih =>
      obtain ⟨y, first, last⟩ := Outcome.bind_eq_ok.mp found
      cases last
      rw [readsNormal_collect, readsNormal_function, ih below first]
      rfl
  | pairing a b _ _ => cases found

end Expansion

/-! ### Weak forms -/

namespace WeakForm

open Expansion

/-- Is a component of the normal in one of the two sides? -/
def pairReadsNormal (pair : Scalars × Scalars) : Bool := readsNormal pair.1 || readsNormal pair.2

theorem readsNormal_componentPairs {s : Setting} {p : Pairing} {pairs : List (Scalars × Scalars)}
    (found : componentPairs s p = .ok pairs) :
    pairs.any pairReadsNormal = (p.toExpr.hasNormal && decide (0 < s.dim)) := by
  obtain ⟨free, -, mapped⟩ := Outcome.bind_eq_ok.mp found
  have matched := Outcome.mapM_eq_ok.mp mapped
  have each : ∀ pair ∈ pairs, pairReadsNormal pair = (p.toExpr.hasNormal && decide (0 < s.dim)) := by
    intro pair member
    have combined := (List.forall₂_and_left (p := (· ∈ Assignment.all s.dim free)) _ _).mpr
      ⟨fun _ inside => inside, matched⟩
    obtain ⟨env, -, axes, sides⟩ := Outcome.exists_of_matched combined member
    obtain ⟨a, first, rest⟩ := Outcome.bind_eq_ok.mp sides
    obtain ⟨b, second, last⟩ := Outcome.bind_eq_ok.mp rest
    cases last
    have below := Assignment.below_of_mem_all axes
    have left := readsNormal_expandOnto below first
    have right := readsNormal_expandOnto below second
    rw [pairReadsNormal, left, right, Pairing.toExpr, Expr.hasNormal, Bool.and_or_distrib_right]
    rfl
  by_cases positive : 0 < s.dim
  · have some : pairs ≠ [] := by
      rintro rfl
      exact Assignment.all_ne_nil positive free (List.forall₂_nil_right_iff.mp matched)
    rw [Bool.eq_iff_iff, List.any_eq_true]
    constructor
    · rintro ⟨pair, member, reads⟩
      exact (each pair member).symm.trans reads
    · intro normal
      obtain ⟨pair, member⟩ := List.exists_mem_of_ne_nil _ some
      exact ⟨pair, member, (each pair member).trans normal⟩
  · rw [decide_eq_false positive, Bool.and_false] at each ⊢
    exact List.any_eq_false.mpr fun pair member => Bool.eq_false_iff.mp (each pair member)

theorem hasNormal_pairings {name : String} {e : Expr} {ps : List Pairing} (found : pairings name e = .ok ps) :
    (ps.any fun p => p.toExpr.hasNormal) = e.hasNormal := by
  have none : (ps.any fun p => p.toExpr.hasNormal) = false ↔ e.hasNormal = false := by
    rw [Expr.hasNormal_eq_false, ← everyLeaf_pairings_iff (P := Expr.IsScalarLeaf) rfl found]
    simp only [List.any_eq_false, Bool.not_eq_true, Expr.hasNormal_eq_false]
  cases normal : e.hasNormal with
  | false => exact none.mpr normal
  | true => exact Bool.eq_true_of_not_eq_false fun without => by rw [none.mp without] at normal; cases normal

/-- The pairs of a weak form have a component of the normal when the normal stands anywhere in it. -/
theorem readsNormal_expand {s : Setting} {name : String} {e : Expr} {pairs : List (Scalars × Scalars)}
    (done : expand s name e = .ok pairs) :
    pairs.any pairReadsNormal = (e.hasNormal && decide (0 < s.dim)) := by
  obtain ⟨ps, paired, rest⟩ := Outcome.bind_eq_ok.mp done
  obtain ⟨parts, expanded, last⟩ := Outcome.bind_eq_ok.mp rest
  cases last
  have parts' : parts.map (·.any pairReadsNormal) =
      ps.map fun p => p.toExpr.hasNormal && decide (0 < s.dim) := by
    refine Outcome.map_eq_of_matched ((Outcome.mapM_eq_ok.mp expanded).imp fun p part made => ?_)
    exact readsNormal_componentPairs (Outcome.mapError_eq_ok.mp made)
  rw [← hasNormal_pairings paired, List.any_flatten]
  have any_map : (parts.map (·.any pairReadsNormal)).any id = parts.any (·.any pairReadsNormal) := List.any_map
  rw [← any_map, parts', List.any_map, List.and_any_distrib_right]
  rfl

end WeakForm

/-! ### Linearization -/

theorem SymbolTable.usesNormal_requestAll {t t' : SymbolTable} {asked : List Quantity} (unasked : t.entries = [])
    (done : t.requestAll asked = .ok t') : t'.usesNormal = asked.any (·.isNormal) := by
  have members := (requestAll_eq_ok done).members
  have none : t.quantities = [] := by rw [quantities, unasked, List.map_nil]
  rw [Bool.eq_iff_iff, usesNormal_iff, List.any_eq_true]
  simp only [members, none, List.not_mem_nil, false_or]

namespace Linearization

variable {rules : Calculus Quantity} {s : Setting} {name : String} {e : Expr}

theorem foldlM_addPair_avoids {table : SymbolTable} {unknowns : List Quantity} {totals : Gradient}
    {pairs : List (Expansion.Scalars × Expansion.Scalars)} :
    Outcome.Avoids (· = .malformed ⟨.normalInDomain, some name, none⟩)
      (pairs.foldlM (addPair rules name table unknowns) totals) := by
  refine Outcome.avoids_foldlM (fun pair _ totals f failed same => ?_) totals
  obtain ⟨quantity, independent⟩ := addPair_eq_error failed
  rw [independent] at same
  cases same

/-- A form that can be expanded is refused inside a domain exactly when the normal stands somewhere in it. -/
theorem ofForm_eq_normalInDomain {pairs : List (Expansion.Scalars × Expansion.Scalars)}
    (expanded : WeakForm.expand s name e = .ok pairs) :
    ofForm rules s name false e = .error (.malformed ⟨.normalInDomain, some name, none⟩) ↔
      e.hasNormal = true ∧ 0 < s.dim := by
  obtain ⟨table, requested⟩ := SymbolTable.requestAll_isOk (t := .empty s.dim s.internal s.external) rfl
    (pairs.flatMap fun p => p.1.atoms ++ p.2.atoms)
  have uses : table.usesNormal = (e.hasNormal && decide (0 < s.dim)) := by
    rw [SymbolTable.usesNormal_requestAll rfl requested, List.any_flatMap, ← WeakForm.readsNormal_expand expanded]
    exact congrArg (List.any pairs) (funext fun pair => Expansion.readsNormal_binary pair.1 pair.2)
  have checked : table.usesNormal = true ↔ e.hasNormal = true ∧ 0 < s.dim := by
    rw [uses, Bool.and_eq_true, decide_eq_true_eq]
  unfold ofForm
  rw [expanded, Outcome.ok_bind]
  dsimp only
  rw [requested, Outcome.ok_bind, ← checked]
  cases normal : table.usesNormal with
  | true => exact iff_of_true rfl rfl
  | false =>
      refine iff_of_false (fun refused => ?_) Bool.false_ne_true
      refine Outcome.avoids_bind foldlM_addPair_avoids (fun _ _ => Outcome.avoids_ok _) _ refused rfl

end Linearization

end Galerkin
