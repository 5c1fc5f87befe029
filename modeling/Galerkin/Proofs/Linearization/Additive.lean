import Mathlib
import Galerkin.Proofs.Formula.Textbook
import Galerkin.Proofs.Linearization
import Galerkin.Proofs.SymbolTable
import Galerkin.Proofs.WeakForm.Scaling

/-!
Linearizing a sum of two forms. The densities are looked up by the quantities that they belong to, since the slots of the
sum are neither those of the one form nor those of the other; a density that is absent counts as zero.
-/

namespace Galerkin

namespace WeakForm

/-- The pairs of a sum are those of its summands, whatever the forms are called. -/
theorem expand_sum {s : Setting} {left right : String} {F G : Expr}
    {pairsF pairsG : List (Formula Quantity × Formula Quantity)} (first : expand s left F = .ok pairsF)
    (second : expand s right G = .ok pairsG) (name : String) : expand s name (.sum F G) = .ok (pairsF ++ pairsG) := by
  obtain ⟨ps, foundF, rest⟩ := Outcome.bind_eq_ok.mp first
  obtain ⟨partsF, expandedF, same⟩ := Outcome.bind_eq_ok.mp rest
  cases same
  obtain ⟨qs, foundG, rest⟩ := Outcome.bind_eq_ok.mp second
  obtain ⟨partsG, expandedG, same⟩ := Outcome.bind_eq_ok.mp rest
  cases same
  obtain ⟨closedF, matchedF⟩ := pairings_iff.mp foundF
  obtain ⟨closedG, matchedG⟩ := pairings_iff.mp foundG
  have found : pairings name (.sum F G) = .ok (ps ++ qs) :=
    pairings_iff.mpr ⟨(freeIndices_sum closedF).mpr closedG, List.rel_append matchedF matchedG⟩
  simp only [Outcome.mapM_eq_ok, Outcome.mapError_eq_ok] at expandedF expandedG
  refine Outcome.bind_eq_ok.mpr ⟨ps ++ qs, found, Outcome.bind_eq_ok.mpr ⟨partsF ++ partsG, ?_, ?_⟩⟩
  · simp only [Outcome.mapM_eq_ok, Outcome.mapError_eq_ok]
    exact List.rel_append expandedF expandedG
  · rw [List.flatten_append]
    rfl

end WeakForm

namespace Linearization

open Formula

variable {rules : Calculus Quantity} {s : Setting} {boundary : Bool}
  {pairs pairsF pairsG : List (Formula Quantity × Formula Quantity)} {l lF lG : Linearization} {v : Quantity → ℝ}
  {p q : Quantity}

/-! ### Acceptance -/

/-- Pairs that can be linearized: facet normals are for boundary forms only, and a test side that counts depends on some
unknown. -/
structure Acceptable (rules : Calculus Quantity) (boundary : Bool)
    (pairs : List (Formula Quantity × Formula Quantity)) : Prop where
  normals : boundary = false → ∀ p ∈ pairs, ∀ q ∈ p.1.atoms ++ p.2.atoms, q.isNormal = false
  tests : ∀ p ∈ pairs, (rules.normal p.1).isZero = true ∨ (rules.normal p.2).isZero = true ∨
    ∃ q, Moving q ∧ (∃ r ∈ pairs, q ∈ r.1.atoms ++ r.2.atoms) ∧ (rules.derivative q (rules.normal p.1)).isZero = false

theorem Acceptable.append (left : Acceptable rules boundary pairsF) (right : Acceptable rules boundary pairsG) :
    Acceptable rules boundary (pairsF ++ pairsG) where
  normals := fun domain p member => (List.mem_append.mp member).elim (left.normals domain p) (right.normals domain p)
  tests := by
    intro p member
    rcases List.mem_append.mp member with first | second
    · refine (left.tests p first).imp_right (Or.imp_right ?_)
      rintro ⟨q, moving, ⟨r, inside, occurs⟩, slope⟩
      exact ⟨q, moving, ⟨r, List.mem_append_left _ inside, occurs⟩, slope⟩
    · refine (right.tests p second).imp_right (Or.imp_right ?_)
      rintro ⟨q, moving, ⟨r, inside, occurs⟩, slope⟩
      exact ⟨q, moving, ⟨r, List.mem_append_right _ inside, occurs⟩, slope⟩

theorem gradient_eq_nil {unknowns : List Quantity} {e : Formula Quantity} :
    gradient rules unknowns e = [] ↔ ∀ q ∈ unknowns, (rules.derivative q e).isZero = true := by
  rw [gradient, List.filter_eq_nil_iff]
  constructor
  · intro none q member
    obtain ⟨k, bound, rfl⟩ := List.getElem_of_mem member
    simpa using none (k, rules.derivative unknowns[k] e) (List.mem_mapIdx.mpr ⟨k, bound, rfl⟩)
  · intro all t member
    obtain ⟨k, bound, rfl⟩ := List.mem_mapIdx.mp member
    simpa using all unknowns[k] (List.getElem_mem bound)

/-- Whether the share of a pair can be added does not depend on what was added before. -/
theorem addPair_isOk_iff {name : String} {table : SymbolTable} {unknowns : List Quantity} {totals : Gradient}
    {pair : Formula Quantity × Formula Quantity} :
    (∃ next, addPair rules name table unknowns totals pair = .ok next) ↔
      pair.1.isZero = true ∨ pair.2.isZero = true ∨ ∃ q ∈ unknowns, (rules.derivative q pair.1).isZero = false := by
  obtain ⟨a, b⟩ := pair
  simp only [addPair]
  split
  · next vanishes =>
      rw [Bool.or_eq_true] at vanishes
      exact iff_of_true ⟨_, rfl⟩ (vanishes.imp_right Or.inl)
  · next counts =>
      rw [Bool.or_eq_true, not_or] at counts
      have slopes : (∃ q ∈ unknowns, (rules.derivative q a).isZero = false) ↔ gradient rules unknowns a ≠ [] := by
        rw [Ne, gradient_eq_nil]
        push Not
        simp only [Bool.not_eq_true]
      rw [or_iff_right counts.1, or_iff_right counts.2, slopes]
      split
      · next none =>
          refine iff_of_false ?_ (absurd none)
          rintro ⟨_, impossible⟩
          cases impossible
      · next some => exact iff_of_true ⟨_, rfl⟩ some

/-- The table of some pairs, which has the quantities that occur in them. -/
theorem mem_requested {table : SymbolTable} (done : (SymbolTable.empty s.dim s.internal s.external).requestAll
    (pairs.flatMap fun p => p.1.atoms ++ p.2.atoms) = .ok table) (q : Quantity) :
    q ∈ table.quantities ↔ ∃ r ∈ pairs, q ∈ r.1.atoms ++ r.2.atoms := by
  rw [(SymbolTable.requestAll_eq_ok done).members, List.mem_flatMap]
  exact or_iff_right List.not_mem_nil

theorem foldlM_addPair_isOk_iff {name : String} {table named : SymbolTable}
    (known : ∀ q, q ∈ table.quantities ↔ ∃ r ∈ pairs, q ∈ r.1.atoms ++ r.2.atoms) :
    (∃ totals, (pairs.map fun p => (rules.normal p.1, rules.normal p.2)).foldlM
        (addPair rules name named (table.freeze.unknowns.map (·.1))) [] = .ok totals) ↔
      ∀ p ∈ pairs, (rules.normal p.1).isZero = true ∨ (rules.normal p.2).isZero = true ∨
        ∃ q, Moving q ∧ (∃ r ∈ pairs, q ∈ r.1.atoms ++ r.2.atoms) ∧
          (rules.derivative q (rules.normal p.1)).isZero = false := by
  have step (totals : Gradient) (pair : Formula Quantity × Formula Quantity) :
      (∃ next, addPair rules name named (table.freeze.unknowns.map (·.1)) totals pair = .ok next) ↔ _ := addPair_isOk_iff
  rw [Outcome.foldlM_isOk_iff step, List.forall_mem_map]
  refine forall₂_congr fun p _ => or_congr_right (or_congr_right (exists_congr fun q => ?_))
  have listed : q ∈ table.freeze.unknowns.map (·.1) ↔ q ∈ table.quantities ∧ Moving q := SymbolTable.mem_unknowns rfl
  rw [listed, ← known q, and_comm (a := q ∈ table.quantities), and_assoc]

/-- Which forms are linearized. -/
theorem ofForm_isOk_iff {name : String} {e : Expr} : (∃ l, ofForm rules s name boundary e = .ok l) ↔
    ∃ pairs, WeakForm.expand s name e = .ok pairs ∧ Acceptable rules boundary pairs := by
  constructor
  · rintro ⟨l, done⟩
    obtain ⟨pairs, expanded, rest⟩ := Outcome.bind_eq_ok.mp done
    obtain ⟨table, found, rest⟩ := Outcome.bind_eq_ok.mp rest
    have known := mem_requested found
    dsimp only at rest
    split at rest
    · cases rest
    · next allowed =>
        obtain ⟨totals, folded, -⟩ := Outcome.bind_eq_ok.mp rest
        refine ⟨pairs, expanded, fun domain p member q occurs => ?_, (foldlM_addPair_isOk_iff known).mp ⟨totals, folded⟩⟩
        refine Bool.eq_false_iff.mpr fun normal => allowed ?_
        rw [domain, SymbolTable.usesNormal_iff.mpr ⟨q, (known q).mpr ⟨p, member, occurs⟩, normal⟩]
        rfl
  · rintro ⟨pairs, expanded, acceptable⟩
    obtain ⟨table, found⟩ := SymbolTable.requestAll_isOk (t := .empty s.dim s.internal s.external) rfl
      (pairs.flatMap fun p => p.1.atoms ++ p.2.atoms)
    have known := mem_requested found
    have allowed : ¬(table.usesNormal && !boundary) = true := by
      intro refused
      rw [Bool.and_eq_true, SymbolTable.usesNormal_iff, Bool.not_eq_true'] at refused
      obtain ⟨⟨q, listed, normal⟩, domain⟩ := refused
      obtain ⟨p, member, occurs⟩ := (known q).mp listed
      rw [acceptable.normals domain p member q occurs] at normal
      cases normal
    obtain ⟨totals, folded⟩ := foldlM_addPair_isOk_iff known |>.mpr acceptable.tests
    simp only [ofForm, expanded, found, Outcome.ok_bind, if_neg allowed]
    exact ⟨_, Outcome.bind_eq_ok.mpr ⟨totals, folded, rfl⟩⟩

/-! ### Entries by quantity -/

/-- The residual density of an unknown, if there is one. -/
def residualOf (l : Linearization) (p : Quantity) : Option (Formula Quantity) :=
  l.residual.lookup (l.unknownList.idxOf p)

/-- The derivative of the residual density of one unknown by another, if there is one. -/
def tangentOf (l : Linearization) (p q : Quantity) : Option (Formula Quantity) :=
  l.tangent.lookup (l.unknownList.idxOf p, l.unknownList.idxOf q)

/-- The value of an entry; one that is absent counts as zero. -/
noncomputable def entryAt (v : Quantity → ℝ) (entry : Option (Formula Quantity)) : ℝ := (entry.map (valueAt v)).getD 0

/-- Have both sides of all pairs values and derivatives? -/
def Regular (pairs : List (Formula Quantity × Formula Quantity)) (v : Quantity → ℝ) : Prop :=
  ∀ p ∈ pairs, p.1.Smooth Moving v ∧ p.2.Smooth Moving v

/-- What some pairs add to the residual of an unknown: the derivatives of the test sides times the trial sides. -/
noncomputable def density (pairs : List (Formula Quantity × Formula Quantity)) (p : Quantity) (v : Quantity → ℝ) : ℝ :=
  (pairs.map fun pair => deriv (fun t => pair.1.eval (Function.update v p t)) (v p) * pair.2.eval v).sum

theorem density_append : density (pairsF ++ pairsG) p v = density pairsF p v + density pairsG p v := by
  rw [density, List.map_append, List.sum_append]
  rfl

theorem regular_append : Regular (pairsF ++ pairsG) v ↔ Regular pairsF v ∧ Regular pairsG v := List.forall_mem_append

theorem eventually_regular (regular : Regular pairs v) (moving : Moving q) :
    ∀ᶠ t in nhds (v q), Regular pairs (Function.update v q t) := by
  have start : Function.update v q (v q) = v := Function.update_eq_self q v
  have moves := moves_update (v := v) moving (v q)
  induction pairs with
  | nil => exact Filter.Eventually.of_forall fun _ _ member => nomatch member
  | cons pair rest ih =>
      obtain ⟨⟨left, right⟩, others⟩ := List.forall_mem_cons.mp regular
      filter_upwards [eventually_smooth moves (start.symm ▸ left), eventually_smooth moves (start.symm ▸ right),
        ih others] with t a b c
      exact List.forall_mem_cons.mpr ⟨⟨a, b⟩, c⟩

theorem eval_update_of_notMem {e : Formula Quantity} (absent : q ∉ e.atoms) (t : ℝ) :
    e.eval (Function.update v q t) = e.eval v :=
  eval_congr fun r member => Function.update_of_ne (fun same : r = q => absent (same ▸ member)) t v

theorem hasDerivAt_sumAt (lawful : rules.Lawful) (moving : Moving q) {entries : List (Nat × Formula Quantity)}
    (smooth : ∀ t ∈ entries, t.2.Smooth Moving v) (i : Nat) :
    HasDerivAt (fun t => sumAt (valueAt (Function.update v q t)) entries i)
      (sumAt (fun e => (rules.derivative q e).eval v) entries i) (v q) := by
  induction entries with
  | nil => exact hasDerivAt_const _ _
  | cons head tail ih =>
      rw [List.forall_mem_cons] at smooth
      simp only [sumAt_cons]
      by_cases same : head.1 = i
      · simp only [if_pos same]
        exact (lawful.hasDerivAt moving smooth.1).add (ih smooth.2)
      · simp only [if_neg same, zero_add]
        exact ih smooth.2

section Entries

variable (spec : Spec rules s pairs l)

include spec

theorem entryAt_residualOf : entryAt v (l.residualOf p) = sumAt (valueAt v) l.residual (l.unknownList.idxOf p) :=
  (sumAt_eq_lookup spec.residual_keys.1 _).symm

theorem entryAt_tangentOf : entryAt v (l.tangentOf p q) =
    sumAt (valueAt v) l.tangent (l.unknownList.idxOf p, l.unknownList.idxOf q) :=
  (sumAt_eq_lookup spec.tangent_keys.1 _).symm

theorem mem_unknownList_iff : q ∈ l.unknownList ↔ Moving q ∧ ∃ r ∈ pairs, q ∈ r.1.atoms ∨ q ∈ r.2.atoms := by
  rw [spec.mem_unknownList, spec.members, and_comm]

/-- There are no entries for the position that is given to what is no unknown of the form. -/
theorem residual_keys_of_notMem (absent : p ∉ l.unknownList) : l.unknownList.idxOf p ∉ l.residual.map (·.1) := by
  intro member
  have bound := spec.residual_keys.2 _ member
  rw [List.idxOf_eq_length absent, Spec.length_unknownList] at bound
  exact lt_irrefl _ bound

theorem tangent_keys_of_notMem (i : Nat) (absent : q ∉ l.unknownList) :
    (i, l.unknownList.idxOf q) ∉ l.tangent.map (·.1) := by
  intro member
  have bound := (spec.tangent_keys.2 _ member).2
  rw [List.idxOf_eq_length absent, Spec.length_unknownList] at bound
  exact lt_irrefl _ bound

variable (lawful : rules.Lawful) (regular : Regular pairs v)

include lawful regular

theorem residualOf_value (moving : Moving p) : entryAt v (l.residualOf p) = density pairs p v := by
  rw [entryAt_residualOf spec]
  by_cases listed : p ∈ l.unknownList
  · have here : l.unknownList[l.unknownList.idxOf p]? = some p := by
      rw [List.getElem?_eq_getElem (List.idxOf_lt_length_of_mem listed), List.getElem_idxOf]
    exact spec.residual_value lawful (fun pair member => ⟨(regular pair member).1, (regular pair member).2.defined⟩) here
  · rw [sumAt_of_notMem (residual_keys_of_notMem spec listed), density]
    refine (List.sum_eq_zero fun x member => ?_).symm
    obtain ⟨pair, inside, rfl⟩ := List.mem_map.mp member
    have absent : p ∉ pair.1.atoms := fun occurs =>
      listed ((mem_unknownList_iff spec).mpr ⟨moving, pair, inside, Or.inl occurs⟩)
    simp only [eval_update_of_notMem absent, deriv_const, zero_mul]

/-- The tangent holds the derivatives of the residual. -/
theorem hasDerivAt_residualOf (moving : Moving q) : HasDerivAt (fun t => entryAt (Function.update v q t) (l.residualOf p))
    (entryAt v (l.tangentOf p q)) (v q) := by
  simp only [entryAt_residualOf spec, entryAt_tangentOf spec]
  by_cases listed : q ∈ l.unknownList
  · have here : l.unknownList[l.unknownList.idxOf q]? = some q := by
      rw [List.getElem?_eq_getElem (List.idxOf_lt_length_of_mem listed), List.getElem_idxOf]
    rw [spec.tangent_value v _ here]
    exact hasDerivAt_sumAt lawful moving (spec.residual_smooth lawful regular) _
  · rw [sumAt_of_notMem (tangent_keys_of_notMem spec _ listed)]
    have still (t : ℝ) : sumAt (valueAt (Function.update v q t)) l.residual (l.unknownList.idxOf p) =
        sumAt (valueAt v) l.residual (l.unknownList.idxOf p) := by
      refine sumAt_matched (List.forall₂_same.mpr fun entry member => ⟨rfl, eval_update_of_notMem ?_ t⟩) _
      exact fun occurs => listed ((spec.mem_unknownList q).mpr ⟨spec.residual_atoms lawful entry member q occurs, moving⟩)
    simp only [still]
    exact hasDerivAt_const _ _

theorem hasDerivAt_density (moving : Moving p) (moving' : Moving q) :
    HasDerivAt (fun t => density pairs p (Function.update v q t)) (entryAt v (l.tangentOf p q)) (v q) := by
  refine (hasDerivAt_residualOf spec lawful regular moving').congr_of_eventuallyEq ?_
  filter_upwards [eventually_regular regular moving'] with t near
  exact (residualOf_value spec lawful near moving).symm

end Entries

/-- What the entries of a linearized form are at valuations where everything has derivatives. An unknown without an entry
has no density, and where an entry of the tangent is absent the density does not change. -/
structure Faithful (pairs : List (Formula Quantity × Formula Quantity)) (l : Linearization) : Prop where
  unknowns : ∀ q, q ∈ l.unknownList ↔ Moving q ∧ ∃ r ∈ pairs, q ∈ r.1.atoms ∨ q ∈ r.2.atoms
  residual : ∀ v, Regular pairs v → ∀ p, Moving p → entryAt v (l.residualOf p) = density pairs p v
  tangent : ∀ v, Regular pairs v → ∀ p q, Moving p → Moving q →
    HasDerivAt (fun t => entryAt (Function.update v q t) (l.residualOf p)) (entryAt v (l.tangentOf p q)) (v q)
  residual_none : ∀ p, Moving p → l.residualOf p = none → ∀ v, Regular pairs v → density pairs p v = 0
  tangent_none : ∀ p q, Moving p → Moving q → l.tangentOf p q = none → ∀ v, Regular pairs v →
    HasDerivAt (fun t => density pairs p (Function.update v q t)) 0 (v q)

theorem Spec.faithful (spec : Spec rules s pairs l) (lawful : rules.Lawful) : Faithful pairs l where
  unknowns := fun _ => mem_unknownList_iff spec
  residual := fun _ regular _ moving => residualOf_value spec lawful regular moving
  tangent := fun _ regular _ _ _ moving => hasDerivAt_residualOf spec lawful regular moving
  residual_none := by
    intro p moving absent v regular
    rw [← residualOf_value spec lawful regular moving, absent]
    rfl
  tangent_none := by
    intro p q moving moving' absent v regular
    have slope := hasDerivAt_density spec lawful regular moving moving'
    rw [absent] at slope
    exact slope

/-! ### Sums of forms -/

/-- Entries of a sum of forms are sums of entries, found by quantity. -/
structure Adds (pairsF pairsG : List (Formula Quantity × Formula Quantity)) (lF lG l : Linearization) : Prop where
  unknowns : ∀ q, q ∈ l.unknownList ↔ q ∈ lF.unknownList ∨ q ∈ lG.unknownList
  residual : ∀ v, Regular pairsF v → Regular pairsG v → ∀ p, Moving p →
    entryAt v (l.residualOf p) = entryAt v (lF.residualOf p) + entryAt v (lG.residualOf p)
  tangent : ∀ v, Regular pairsF v → Regular pairsG v → ∀ p q, Moving p → Moving q →
    entryAt v (l.tangentOf p q) = entryAt v (lF.tangentOf p q) + entryAt v (lG.tangentOf p q)

theorem adds_of_specs (lawful : rules.Lawful) (first : Spec rules s pairsF lF) (second : Spec rules s pairsG lG)
    (both : Spec rules s (pairsF ++ pairsG) l) : Adds pairsF pairsG lF lG l where
  unknowns := by
    intro q
    rw [mem_unknownList_iff first, mem_unknownList_iff second, mem_unknownList_iff both, ← and_or_left]
    simp only [List.mem_append, or_and_right, exists_or]
  residual := by
    intro v left right p moving
    rw [residualOf_value first lawful left moving, residualOf_value second lawful right moving,
      residualOf_value both lawful (regular_append.mpr ⟨left, right⟩) moving, density_append]
  tangent := by
    intro v left right p q moving moving'
    have slopes := (hasDerivAt_density first lawful left moving moving').add
      (hasDerivAt_density second lawful right moving moving')
    have whole := hasDerivAt_density both lawful (regular_append.mpr ⟨left, right⟩) moving moving'
    simp only [density_append] at whole
    exact whole.unique slopes

/-- Linearizing is additive: a sum of forms that are accepted is accepted, and its residual and its tangent are the sums
of theirs. What is left out vanishes wherever everything has derivatives. -/
theorem ofForm_sum (lawful : rules.Lawful) {left right : String} {F G : Expr}
    (first : ofForm rules s left boundary F = .ok lF) (second : ofForm rules s right boundary G = .ok lG) (name : String) :
    ∃ l pairsF pairsG, ofForm rules s name boundary (.sum F G) = .ok l ∧
      WeakForm.expand s left F = .ok pairsF ∧ WeakForm.expand s right G = .ok pairsG ∧ Adds pairsF pairsG lF lG l ∧
      Faithful pairsF lF ∧ Faithful pairsG lG ∧ Faithful (pairsF ++ pairsG) l := by
  obtain ⟨pairsF, expandedF, specF⟩ := ofForm_eq_ok lawful first
  obtain ⟨pairsG, expandedG, specG⟩ := ofForm_eq_ok lawful second
  obtain ⟨_, again, acceptableF⟩ := ofForm_isOk_iff.mp ⟨lF, first⟩
  cases expandedF.symm.trans again
  obtain ⟨_, again, acceptableG⟩ := ofForm_isOk_iff.mp ⟨lG, second⟩
  cases expandedG.symm.trans again
  have expanded := WeakForm.expand_sum expandedF expandedG name
  obtain ⟨l, done⟩ := ofForm_isOk_iff.mpr ⟨_, expanded, acceptableF.append acceptableG⟩
  obtain ⟨_, again, spec⟩ := ofForm_eq_ok lawful done
  cases expanded.symm.trans again
  exact ⟨l, pairsF, pairsG, done, expandedF, expandedG, adds_of_specs lawful specF specG spec, specF.faithful lawful,
    specG.faithful lawful, spec.faithful lawful⟩

section Plane

/-- A scalar and a vector in the plane. -/
def planeSetting : Setting := ⟨2, ⟨2, [⟨"T", 0, false⟩, ⟨"u", 1, false⟩]⟩, .empty 2⟩

theorem ofForm_sum_heat_drag : ∃ lF lG l,
    ofForm .textbook planeSetting "heat" false WeakForm.heat = .ok lF ∧
      ofForm .textbook planeSetting "drag" false WeakForm.drag = .ok lG ∧
      ofForm .textbook planeSetting "both" false (.sum WeakForm.heat WeakForm.drag) = .ok l ∧
      ∀ q, q ∈ l.unknownList ↔ q ∈ lF.unknownList ∨ q ∈ lG.unknownList := by
  obtain ⟨lF, first⟩ := Outcome.exists_of_isSome
    (x := ofForm .textbook planeSetting "heat" false WeakForm.heat) (by cbv)
  obtain ⟨lG, second⟩ := Outcome.exists_of_isSome
    (x := ofForm .textbook planeSetting "drag" false WeakForm.drag) (by cbv)
  obtain ⟨l, _, _, done, -, -, adds, -⟩ := ofForm_sum Calculus.textbook_lawful first second "both"
  exact ⟨lF, lG, l, first, second, done, adds.unknowns⟩

end Plane

end Linearization

end Galerkin
