import Mathlib
import Galerkin.Proofs.WeakForm.Folding

/-!
The quantities that the pairs of a weak form are made of: their components have columns in the layouts,
and their axes are axes of space.
-/

namespace Galerkin

open Usage Galerkin.Expr

/-- Layouts for the dimension of the setting, with a name for each field. -/
structure Setting.Coherent (s : Setting) : Prop where
  internalDim : s.internal.dim = s.dim
  externalDim : s.external.dim = s.dim
  internalNames : s.internal.names.Nodup
  externalNames : s.external.names.Nodup

/-- Is a field in the layout for its kind? -/
def Setting.Has (s : Setting) (f : Field) : Prop :=
  f ∈ (if f.external then s.external else s.internal).fields

/-- The setting has every field of the form. -/
structure Setting.Fits (s : Setting) (form : Expr) : Prop extends Setting.Coherent s where
  fields : ∀ f ∈ form.fields, s.Has f

/-- A field access at a leaf has as many components as its field. -/
def Setting.Places (s : Setting) : Expr → Prop
  | .field f comps _ _ => comps.length = f.rank ∧ s.Has f
  | .bare f => f.rank = 0 ∧ s.Has f
  | _ => True

/-- Does a quantity have its column, and its axis, in the setting? -/
def Quantity.InRange (s : Setting) : Quantity → Prop
  | .unknown name comps _ axis =>
    s.internal.columnOf name comps < s.internal.width ∧ ∀ j ∈ axis, j < s.dim
  | .external name comps axis =>
    s.external.columnOf name comps < s.external.width ∧ ∀ j ∈ axis, j < s.dim
  | .param _ => True
  | .normal comp => comp < s.dim

theorem everyLeaf_of_scoped {s : Setting} {asFactor : Bool} {e : Expr} (accepted : e.Scoped asFactor)
    (has : ∀ f ∈ e.fields, s.Has f) : e.EveryLeaf s.Places := by
  have both {a b : Expr} (has : ∀ f ∈ a.fields ++ b.fields, s.Has f) :
      (∀ f ∈ a.fields, s.Has f) ∧ ∀ f ∈ b.fields, s.Has f := List.forall_mem_append.mp has
  induction e generalizing asFactor with
  | field f comps derivs t => exact ⟨accepted.1, has f List.mem_cons_self⟩
  | bare f => exact ⟨accepted, has f List.mem_cons_self⟩
  | sum a b iha ihb => exact ⟨iha accepted.1 (both has).1, ihb accepted.2.1 (both has).2⟩
  | prod a b iha ihb => exact ⟨iha accepted.1 (both has).1, ihb accepted.2.1 (both has).2⟩
  | quot a b iha ihb => exact ⟨iha accepted.1 (both has).1, ihb accepted.2.1 (both has).2⟩
  | power a b iha ihb => exact ⟨iha accepted.1 (both has).1, ihb accepted.2.1 (both has).2⟩
  | pairing a b iha ihb => exact ⟨iha accepted.1 (both has).1, ihb accepted.2.1 (both has).2⟩
  | apply f x ih => exact ih accepted.1 has
  | _ => exact trivial

namespace Assignment

/-- Are all values axes of space? -/
def Below (dim : Nat) (env : Assignment) : Prop := ∀ i c, env.lookup i = some c → c < dim

theorem Below.value {dim : Nat} {env : Assignment} (below : env.Below dim) {i : Index} {c : Nat}
    (found : env.value i = .ok c) : c < dim := by
  unfold Assignment.value at found
  split at found
  · next here =>
      cases found
      exact below i c here
  · cases found

theorem Below.append {dim : Nat} {values env : Assignment} (inner : values.Below dim)
    (outer : env.Below dim) : Below dim (values ++ env) := by
  intro i c found
  rw [List.lookup_append] at found
  cases here : values.lookup i with
  | none =>
      rw [here] at found
      exact outer i c found
  | some d =>
      rw [here] at found
      exact inner i c (here.trans found)

theorem below_of_mem_all {dim : Nat} {is : List Index} {values : Assignment}
    (member : values ∈ all dim is) : values.Below dim := by
  induction is generalizing values with
  | nil =>
      rw [List.mem_singleton.mp member]
      intro i c impossible
      cases impossible
  | cons i rest ih =>
      rcases List.mem_flatMap.mp member with ⟨d, inside, later⟩
      rcases List.mem_map.mp later with ⟨tail, among, rfl⟩
      intro j c found
      rw [List.lookup_cons] at found
      split at found
      · cases found
        exact List.mem_range.mp inside
      · exact ih among j c found

end Assignment

namespace Expansion

variable {known : Quantity → Prop} {s : Setting}

/-- Do all variables of a formula have a property? -/
abbrev Over (known : Quantity → Prop) (x : Scalars) : Prop := ∀ q ∈ x.atoms, known q

theorem over_const (c : Coeff) : Over known (.const c) := List.forall_mem_nil _

theorem over_binary {a b : Scalars} (left : Over known a) (right : Over known b) :
    ∀ q ∈ a.atoms ++ b.atoms, known q := List.forall_mem_append.mpr ⟨left, right⟩

theorem over_collect {product : Option Scalars} {x : Scalars} (before : ∀ p, product = some p → Over known p)
    (new : Over known x) : Over known (collect product x) := by
  cases product with
  | none => exact new
  | some p => exact over_binary (before p rfl) new

/-- What holds of zero and of all terms, and of sums of what it holds of, holds of the sum over indices. -/
theorem summed_induction {P : Scalars → Prop} {dim : Nat} {is : List Index} {env : Assignment}
    {term : Assignment → Except Failure Scalars} {x : Scalars} (found : summed dim is env term = .ok x)
    (each : ∀ values ∈ Assignment.all dim is, ∀ y, term (values ++ env) = .ok y → P y) (zero : P Formula.zero)
    (add : ∀ {a b}, P a → P b → P (.add a b)) : P x := by
  cases is with
  | nil => exact each [] List.mem_cons_self x found
  | cons i rest =>
      refine Outcome.foldlM_induction (P := fun _ total => P total) found zero ?_
      intro _ values member total total' before added
      rcases Outcome.bind_eq_ok.mp added with ⟨y, made, last⟩
      cases last
      exact add before (each values member y made)

theorem over_summed {dim : Nat} {is : List Index} {env : Assignment}
    {term : Assignment → Except Failure Scalars} {x : Scalars} (found : summed dim is env term = .ok x)
    (each : ∀ values ∈ Assignment.all dim is, ∀ y, term (values ++ env) = .ok y → Over known y) :
    Over known x :=
  summed_induction found each (over_const _) over_binary

theorem over_function (f : Function) {x : Scalars} (inner : Over known x) : Over known (function f x) := by
  cases f with
  | sqrt => exact over_binary inner (over_const _)
  | _ => exact inner

theorem over_ofNumber (n : Number) : Over known (Formula.ofNumber n) := by
  have none : (Formula.ofNumber n : Scalars).atoms = [] := by
    unfold Formula.ofNumber
    split
    · rfl
    · split <;> rfl
    · split
      · dsimp only
        split <;> rfl
      · split <;> rfl
  intro q member
  rw [none] at member
  cases member

/-- What holds of zero, of sums of what it holds of, and of the component for all values of the indices that are
summed, holds of an access. -/
theorem access_induction {P : Scalars → Prop} {env : Assignment} {f : Field} {comps derivs : List Index} {t : Nat}
    {x : Scalars} (found : access s env f comps derivs t = .ok x)
    (each : ∀ values ∈ Assignment.all s.dim (contracted env (comps ++ derivs)), ∀ components axis q,
      comps.mapM (Assignment.value (values ++ env)) = .ok components →
      (∀ j ∈ axis, ∃ i, Assignment.value (values ++ env) i = .ok j) →
      Quantity.ofField s.internal s.external f components axis t = .ok q → P (.var q))
    (zero : P Formula.zero) (add : ∀ {a b}, P a → P b → P (.add a b)) : P x := by
  refine summed_induction found (fun values member y made => ?_) zero add
  rcases Outcome.bind_eq_ok.mp made with ⟨components, valued, rest⟩
  cases derivs with
  | nil =>
      rcases Outcome.bind_eq_ok.mp rest with ⟨axis, derived, rest⟩
      rcases Outcome.bind_eq_ok.mp rest with ⟨q, placed, last⟩
      cases derived
      cases last
      exact each values member components none q valued (fun _ inside => (nomatch inside)) placed
  | cons i others =>
      rcases Outcome.bind_eq_ok.mp rest with ⟨axis, derived, rest⟩
      rcases Outcome.bind_eq_ok.mp rest with ⟨q, placed, last⟩
      rcases Outcome.map_eq_ok.mp derived with ⟨c, here, rfl⟩
      cases last
      refine each values member components (some c) q valued (fun j inside => ⟨i, ?_⟩) placed
      cases inside
      exact here

theorem over_access (coherent : s.Coherent) {env : Assignment} (below : env.Below s.dim) {f : Field}
    (has : s.Has f) {comps derivs : List Index} (rank : comps.length = f.rank) {t : Nat} {x : Scalars}
    (found : access s env f comps derivs t = .ok x) : Over (Quantity.InRange s) x := by
  refine access_induction found (fun values member components axis q valued derived placed => ?_) (over_const _)
    over_binary
  have inside := (Assignment.below_of_mem_all member).append below
  have axes : ∀ j ∈ axis, j < s.dim := fun j among => (derived j among).elim fun _ here => inside.value here
  have matched := Outcome.mapM_eq_ok.mp valued
  have places : ∀ c ∈ components, c < s.dim := by
    intro c member
    rcases Outcome.exists_of_matched matched member with ⟨i, _, here⟩
    exact inside.value here
  have full : components.length = f.rank := matched.length_eq.symm.trans rank
  intro r member
  rw [List.mem_singleton.mp member]
  unfold Quantity.ofField at placed
  unfold Setting.Has at has
  by_cases outer : f.external
  · rw [if_pos outer] at placed has
    split at placed
    · cases placed
      refine ⟨Layout.columnOf_lt_width coherent.externalNames has full ?_, axes⟩
      rw [coherent.externalDim]
      exact places
    · cases placed
  · rw [if_neg outer] at placed has
    split at placed
    · cases placed
      refine ⟨Layout.columnOf_lt_width coherent.internalNames has full ?_, axes⟩
      rw [coherent.internalDim]
      exact places
    · cases placed

/-- An expansion is made of quantities that the setting has. -/
theorem over_expandOnto (coherent : s.Coherent) {e : Expr} (leaves : e.EveryLeaf s.Places)
    {product : Option Scalars} (before : ∀ p, product = some p → Over (Quantity.InRange s) p)
    {env : Assignment} (below : env.Below s.dim) {x : Scalars}
    (found : expandOnto s product env e = .ok x) : Over (Quantity.InRange s) x := by
  have start : ∀ p : Scalars, none = some p → Over (Quantity.InRange s) p := by
    intro p impossible
    cases impossible
  have unit : ∀ p : Scalars, some Formula.one = some p → Over (Quantity.InRange s) p := by
    intro p same
    cases same
    exact over_const _
  induction e generalizing product env x with
  | const n =>
      cases found
      exact over_collect before (over_ofNumber n)
  | param name =>
      cases found
      refine over_collect before fun q member => ?_
      rw [List.mem_singleton.mp member]
      exact trivial
  | field f comps derivs t =>
      rcases Outcome.bind_eq_ok.mp found with ⟨y, made, last⟩
      cases last
      exact over_collect before (over_access coherent below leaves.2 leaves.1 made)
  | bare f =>
      rcases Outcome.bind_eq_ok.mp found with ⟨y, made, last⟩
      cases last
      have rank : ([] : List Index).length = f.rank := leaves.1.symm
      exact over_collect before (over_access coherent below leaves.2 rank made)
  | normal i =>
      rcases Outcome.bind_eq_ok.mp found with ⟨c, here, last⟩
      cases last
      exact over_collect before fun q member => List.mem_singleton.mp member ▸ below.value here
  | delta i j =>
      rw [expandOnto] at found
      split at found
      · cases found
        exact over_collect before (over_const _)
      · rcases Outcome.bind_eq_ok.mp found with ⟨a, _, rest⟩
        rcases Outcome.bind_eq_ok.mp rest with ⟨b, _, last⟩
        cases last
        refine over_collect before fun q member => ?_
        split at member <;> cases member
  | sum a b iha ihb =>
      rcases Outcome.bind_eq_ok.mp found with ⟨y, first, rest⟩
      rcases Outcome.bind_eq_ok.mp rest with ⟨z, second, last⟩
      cases last
      exact over_collect before
        (over_binary (iha leaves.1 start below first) (ihb leaves.2 start below second))
  | prod a b iha ihb =>
      have both {p : Option Scalars} (before : ∀ q, p = some q → Over (Quantity.InRange s) q)
          {env : Assignment} (below : env.Below s.dim) {y : Scalars}
          (made : (do
            let p ← expandOnto s p env a
            expandOnto s (some p) env b) = .ok y) : Over (Quantity.InRange s) y := by
        rcases Outcome.bind_eq_ok.mp made with ⟨q, first, second⟩
        have left := iha leaves.1 before below first
        refine ihb leaves.2 (fun r same => ?_) below second
        cases same
        exact left
      cases product with
      | some p => exact both before below found
      | none =>
          rcases Outcome.bind_eq_ok.mp found with ⟨occurrences, _, rest⟩
          exact over_summed rest fun values member y made =>
            both unit ((Assignment.below_of_mem_all member).append below) made
  | quot a b iha ihb =>
      rcases Outcome.bind_eq_ok.mp found with ⟨y, first, rest⟩
      rcases Outcome.bind_eq_ok.mp rest with ⟨z, second, last⟩
      cases last
      have divisor : Over (Quantity.InRange s) (Formula.inverse z) :=
        over_binary (ihb leaves.2 start below second) (over_const _)
      exact over_collect before (over_binary (iha leaves.1 start below first) divisor)
  | power a b iha ihb =>
      rcases Outcome.bind_eq_ok.mp found with ⟨y, first, rest⟩
      rcases Outcome.bind_eq_ok.mp rest with ⟨z, second, last⟩
      cases last
      exact over_collect before
        (over_binary (iha leaves.1 start below first) (ihb leaves.2 start below second))
  | apply f a ih =>
      rcases Outcome.bind_eq_ok.mp found with ⟨y, first, last⟩
      cases last
      exact over_collect before (over_function f (ih leaves start below first))
  | pairing a b _ _ => cases found

end Expansion

namespace WeakForm

/-- Every quantity in the pairs of a weak form has its column in the setting. -/
theorem expand_inRange {s : Setting} {name : String} {form : Expr} (fits : s.Fits form)
    {pairs : List (Expansion.Scalars × Expansion.Scalars)} (done : expand s name form = .ok pairs) :
    ∀ p ∈ pairs, (∀ q ∈ p.1.atoms, q.InRange s) ∧ ∀ q ∈ p.2.atoms, q.InRange s := by
  rcases Outcome.bind_eq_ok.mp done with ⟨ps, paired, rest⟩
  rcases Outcome.bind_eq_ok.mp rest with ⟨parts, expanded, last⟩
  cases last
  have leaves := everyLeaf_pairings (P := s.Places) trivial paired
    (everyLeaf_of_scoped (pairings_eq_ok paired).1 fits.fields)
  intro pair member
  rcases List.mem_flatten.mp member with ⟨part, present, inside⟩
  have each := (List.forall₂_and_left (p := (· ∈ ps)) _ _).mpr
    ⟨fun _ inside => inside, Outcome.mapM_eq_ok.mp expanded⟩
  rcases Outcome.exists_of_matched each present with ⟨p, _, among, made⟩
  rcases Outcome.bind_eq_ok.mp (Outcome.mapError_eq_ok.mp made) with ⟨free, _, mapped⟩
  have combined := (List.forall₂_and_left (p := (· ∈ Assignment.all s.dim free)) _ _).mpr
    ⟨fun _ inside => inside, Outcome.mapM_eq_ok.mp mapped⟩
  rcases Outcome.exists_of_matched combined inside with ⟨env, _, axes, sides⟩
  rcases Outcome.bind_eq_ok.mp sides with ⟨a, first, rest⟩
  rcases Outcome.bind_eq_ok.mp rest with ⟨b, second, last⟩
  cases last
  have below := Assignment.below_of_mem_all axes
  have start : ∀ p : Expansion.Scalars, none = some p → Expansion.Over (Quantity.InRange s) p := by
    intro p impossible
    cases impossible
  exact ⟨Expansion.over_expandOnto fits.toCoherent (leaves p among).1 start below first,
    Expansion.over_expandOnto fits.toCoherent (leaves p among).2 start below second⟩

end WeakForm

end Galerkin
