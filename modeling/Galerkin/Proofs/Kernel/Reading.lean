import Mathlib
import Galerkin.Kernel.Evaluation
import Galerkin.Proofs.Kernel.Evaluation
import Galerkin.Proofs.Layout
import Galerkin.Proofs.Linearization

/-!
From densities over quantities to densities over slots: renaming, sorting and sharing keep the value of
every density wherever it has one.

What the slots of a kernel read: for every quantity the value that the quantity has, looked up by the
names of fields and parameters and not by the numbers of slots.
-/

namespace Galerkin

/-! ### Densities over slots -/

namespace Formula

variable {ν μ : Type}

theorem atoms_map (f : ν → μ) (e : Formula ν) : (e.map f).atoms = e.atoms.map f := by
  induction e with
  | const c => rfl
  | var q => rfl
  | add a b iha ihb => simp [map, atoms, iha, ihb]
  | mul a b iha ihb => simp [map, atoms, iha, ihb]
  | pow a b iha ihb => simp [map, atoms, iha, ihb]
  | app g x ih => exact ih

theorem defined_map (f : ν → μ) (v : μ → ℝ) (e : Formula ν) :
    (e.map f).Defined v ↔ e.Defined fun q => v (f q) := by
  induction e with
  | const c => rfl
  | var q => rfl
  | add a b iha ihb => exact and_congr iha ihb
  | mul a b iha ihb => exact and_congr iha ihb
  | pow a b iha ihb =>
      refine and_congr iha (and_congr ihb ?_)
      rw [eval_map, eval_map]
  | app g x ih =>
      refine and_congr ih ?_
      rw [eval_map]

end Formula

namespace Kernel

open Linearization (Spec valueAt unknownList)

/-- Values of slots that give every quantity of a form its value. -/
structure Fills (l : Linearization) (v : Quantity → ℝ) (values : Array ℝ) : Prop where
  size : values.size = l.table.symbolList.length
  value : ∀ q ∈ l.table.quantities, values.getD (l.table.symbolList.idxOf q) 0 = v q

variable {l : Linearization} {v : Quantity → ℝ} {values : Array ℝ}

section Renaming

variable {κ : Type}

theorem Fills.eval_map (fills : Fills l v values) {e : Formula Quantity}
    (known : ∀ q ∈ e.atoms, q ∈ l.table.quantities) :
    (e.map fun q => l.table.symbolList.idxOf q).eval (fun n => values.getD n 0) = e.eval v := by
  rw [Formula.eval_map]
  exact Formula.eval_congr fun q member => fills.value q (known q member)

theorem Fills.defined_map (fills : Fills l v values) {e : Formula Quantity}
    (known : ∀ q ∈ e.atoms, q ∈ l.table.quantities) (defined : e.Defined v) :
    (e.map fun q => l.table.symbolList.idxOf q).Defined fun n => values.getD n 0 := by
  rw [Formula.defined_map]
  exact Formula.defined_congr (fun q member => (fills.value q (known q member)).symm) defined

/-- Densities after renaming and sharing, with the same keys and values. -/
theorem sumAt_shared [DecidableEq κ] (fills : Fills l v values) {entries : List (κ × Formula Quantity)}
    {formulas : List (Formula Nat)} {shared : Array ℝ}
    (known : ∀ t ∈ entries, ∀ q ∈ t.2.atoms, q ∈ l.table.quantities)
    (matched : List.Forall₂ (Sharing.Keeps values shared)
      ((entries.map (·.2)).map fun e => e.map fun q => l.table.symbolList.idxOf q) formulas)
    (defined : ∀ t ∈ entries, t.2.Defined v) (i : κ) :
    sumAt (Formula.eval fun n => shared.getD n 0) ((entries.map (·.1)).zip formulas) i =
      sumAt (valueAt v) entries i := by
  have pairs := zip_matched (List.forall₂_map_left_iff.mp matched)
  have inside := (List.forall₂_and_left (p := (· ∈ entries)) entries _).mpr ⟨fun _ member => member, pairs⟩
  refine (sumAt_matched (inside.imp ?_) i).symm
  rintro t u ⟨member, key, value⟩
  refine ⟨key.symm, ?_⟩
  rw [value (fills.defined_map (known t member) (defined t member)), fills.eval_map (known t member)]

end Renaming

/-- What the kernel of a linearized form is. -/
structure Built (l : Linearization) (k : Kernel) : Prop where
  width : k.width = l.table.internal.width
  externalWidth : k.externalWidth = l.table.external.width
  slots : List.Forall₂ (fun q s => ∃ name, l.table.slot q name = .ok s) l.table.symbolList k.slots
  unknownCount : k.unknownCount = l.unknownCount
  paramNames : k.paramNames = l.table.paramNames
  usesNormal : k.usesNormal = l.table.usesNormal
  residual_keys : (k.residual.map (·.1)).Perm (l.residual.map (·.1))
  tangent_keys : (k.tangent.map (·.1)).Perm (l.tangent.map (·.1))
  residual : ∀ {v values}, Fills l v values → (∀ t ∈ l.residual, t.2.Defined v) → ∀ i,
    sumAt (Formula.eval fun n => (k.withTemporaries values).getD n 0) k.residual i =
      sumAt (valueAt v) l.residual i
  tangent : ∀ {v values}, Fills l v values → (∀ t ∈ l.tangent, t.2.Defined v) → ∀ i,
    sumAt (Formula.eval fun n => (k.withTemporaries values).getD n 0) k.tangent i =
      sumAt (valueAt v) l.tangent i

theorem keys_zip {κ β γ : Type} {R : β → γ → Prop} {entries : List (κ × β)} {formulas : List γ}
    (matched : List.Forall₂ R (entries.map (·.2)) formulas) :
    ((entries.map (·.1)).zip formulas).map (·.1) = entries.map (·.1) :=
  List.map_fst_zip (by rw [← matched.length_eq]; simp)

/-- Quantities of the form have numbers of slots. -/
theorem numbered_of_known {es : List (Formula Quantity)} (known : ∀ e ∈ es, ∀ q ∈ e.atoms, q ∈ l.table.quantities) :
    ∀ e ∈ es.map fun e => e.map fun q => l.table.symbolList.idxOf q, ∀ i ∈ e.atoms, i < l.table.symbolList.length := by
  intro e member i inside
  rcases List.mem_map.mp member with ⟨f, present, rfl⟩
  rw [Formula.atoms_map] at inside
  rcases List.mem_map.mp inside with ⟨q, occurs, rfl⟩
  exact List.idxOf_lt_length_of_mem (SymbolTable.symbolList_perm.mem_iff.mpr (known f present q occurs))

theorem ofLinearization_eq_ok {rules : Calculus Quantity} (lawful : rules.Lawful) {s : Setting}
    {pairs : List (Formula Quantity × Formula Quantity)} (spec : Spec rules s pairs l) {boundary : Bool}
    {k : Kernel} (done : ofLinearization l boundary rules.share = .ok k) : Built l k := by
  have residualPerm : (l.residual.mergeSort residualOrder).Perm l.residual := List.mergeSort_perm _ _
  have tangentPerm : (l.tangent.mergeSort tangentOrder).Perm l.tangent := List.mergeSort_perm _ _
  simp only [ofLinearization] at done
  generalize l.residual.mergeSort residualOrder = residual at *
  generalize l.tangent.mergeSort tangentOrder = tangent at *
  have residualKnown : ∀ t ∈ residual, ∀ q ∈ t.2.atoms, q ∈ l.table.quantities :=
    fun t member => spec.residual_atoms lawful t (residualPerm.mem_iff.mp member)
  have tangentKnown : ∀ t ∈ tangent, ∀ q ∈ t.2.atoms, q ∈ l.table.quantities :=
    fun t member => spec.tangent_atoms lawful t (tangentPerm.mem_iff.mp member)
  have known : ∀ e ∈ residual.map (·.2) ++ tangent.map (·.2), ∀ q ∈ e.atoms, q ∈ l.table.quantities :=
    List.forall_mem_append.mpr ⟨List.forall_mem_map.mpr residualKnown, List.forall_mem_map.mpr tangentKnown⟩
  have numbered := numbered_of_known known
  rw [List.map_append] at numbered done
  have kept {values : Array ℝ} (size : values.size = l.table.symbolList.length) :=
    lawful.share_append numbered size
  rw [List.length_map, List.length_map] at kept
  split at done
  · cases done
  · rcases Outcome.bind_eq_ok.mp done with ⟨slots, arranged, result⟩
    cases result
    have some := kept (Array.size_replicate (v := (0 : ℝ)))
    have frozen := spec.frozen
    rw [SymbolTable.slots, if_pos frozen, Outcome.mapM_eq_ok] at arranged
    refine ⟨rfl, rfl, ?_, rfl, rfl, rfl, ?_, ?_, ?_, ?_⟩
    · exact List.forall₂_map_left_iff.mpr (arranged.imp fun t s placed => ⟨t.2, placed⟩)
    · exact (congrArg (List.Perm · _) (keys_zip (List.forall₂_map_left_iff.mp some.1))).mpr
        (residualPerm.map _)
    · exact (congrArg (List.Perm · _) (keys_zip (List.forall₂_map_left_iff.mp some.2))).mpr
        (tangentPerm.map _)
    · intro v values fills defined i
      exact (sumAt_shared fills residualKnown (kept fills.size).1
        (fun t member => defined t (residualPerm.mem_iff.mp member)) i).trans (sumAt_perm residualPerm i)
    · intro v values fills defined i
      exact (sumAt_shared fills tangentKnown (kept fills.size).2
        (fun t member => defined t (tangentPerm.mem_iff.mp member)) i).trans (sumAt_perm tangentPerm i)

theorem ofForm_eq_ok {rules : Calculus Quantity} (lawful : rules.Lawful) {s : Setting} {name : String}
    {boundary : Bool} {e : Expr} {k : Kernel} (done : ofForm rules s name boundary e = .ok k) :
    ∃ pairs l, WeakForm.expand s name e = .ok pairs ∧ Spec rules s pairs l ∧ Built l k := by
  rcases Outcome.bind_eq_ok.mp done with ⟨l, linearized, built⟩
  rcases Linearization.ofForm_eq_ok lawful linearized with ⟨pairs, expanded, spec⟩
  exact ⟨pairs, l, expanded, spec, ofLinearization_eq_ok lawful spec built⟩

end Kernel

/-! ### What the slots read -/

open Finset

namespace Quantity

/-- The component of an unknown among those of all internal fields. -/
def component (q : Quantity) (s : Setting) : Nat :=
  match q with
  | unknown name comps _ _ => s.internal.columnOf name comps
  | _ => 0

end Quantity

/-- What a batch of elements is evaluated with. -/
structure FieldData where
  state : NodalValues ℝ
  rate : NodalValues ℝ
  external : NodalValues ℝ
  parameters : List (String × ℝ)

namespace FieldData

/-- The value of a quantity at a point of element `e`, which has `count` control points. -/
noncomputable def value (d : FieldData) (s : Setting) (count e : Nat) (p : PointData ℝ) : Quantity → ℝ
  | .unknown name comps timeOrder axis =>
    (if timeOrder = 0 then d.state else d.rate).interpolate count e (s.internal.columnOf name comps) p axis
  | .external name comps axis =>
    d.external.interpolate count e (s.external.columnOf name comps) p axis
  | .param name => (d.parameters.lookup name).getD 0
  | .normal comp => p.normal.getD comp 0

/-- The parameters in the order of a kernel. -/
noncomputable def inputs (d : FieldData) (names : List String) : Kernel.Inputs ℝ :=
  ⟨d.state, d.rate, d.external, names.map fun name => (d.parameters.lookup name).getD 0⟩

end FieldData

namespace Kernel

open Linearization (Spec Moving unknownList)

theorem paramValues_named {k : Kernel} {parameters : List (String × ℝ)}
    (defined : ∀ name ∈ k.paramNames, (parameters.lookup name).isSome) :
    k.paramValues (.named parameters) =
      .ok (k.paramNames.map fun name => (parameters.lookup name).getD 0) := by
  have none : k.paramNames.filter (fun p => (parameters.lookup p).isNone) = [] := by
    rw [List.filter_eq_nil_iff]
    intro name member
    simpa using defined name member
  have found : k.paramNames.filterMap (fun p => parameters.lookup p) =
      k.paramNames.map fun name => (parameters.lookup name).getD 0 := by
    rw [← List.filterMap_eq_map]
    refine List.filterMap_congr fun name member => ?_
    rcases Option.isSome_iff_exists.mp (defined name member) with ⟨x, here⟩
    rw [here, Function.comp_apply, here]
    rfl
  rw [paramValues, none, found]
  rfl

theorem isSome_of_paramValues {k : Kernel} {parameters : List (String × ℝ)} {values : List ℝ}
    (done : k.paramValues (.named parameters) = .ok values) : ∀ name ∈ k.paramNames, (parameters.lookup name).isSome := by
  intro name member
  simp only [paramValues] at done
  split at done
  · next empty =>
      by_contra absent
      rw [List.isEmpty_iff, List.filter_eq_nil_iff] at empty
      exact empty name member (Option.isNone_iff_eq_none.mpr (Option.not_isSome_iff_eq_none.mp absent))
  · cases done

theorem paramValues_eq_ok {k : Kernel} {parameters : List (String × ℝ)} {values : List ℝ}
    (done : k.paramValues (.named parameters) = .ok values) :
    values = k.paramNames.map fun name => (parameters.lookup name).getD 0 := by
  rw [paramValues_named (isSome_of_paramValues done)] at done
  exact (Except.ok.inj done).symm

variable {rules : Calculus Quantity} {s : Setting}
  {pairs : List (Formula Quantity × Formula Quantity)} {l : Linearization} {k : Kernel}

/-- The slot of a quantity reads what the quantity stands for. -/
theorem reading_eq_value (spec : Spec rules s pairs l) (d : FieldData) (count e : Nat) (p : PointData ℝ)
    {q : Quantity} (member : q ∈ l.table.quantities) (name : String) :
    reading (d.inputs l.table.paramNames) count e p ⟨name, q.source, l.table.columnOf q, q.axisOf⟩ =
      d.value s count e p q := by
  cases q with
  | unknown field comps timeOrder axis =>
      rw [FieldData.value, ← spec.internal]
      by_cases still : timeOrder = 0
      · rw [if_pos still, still]
        rfl
      · rw [if_neg still]
        have source : (Quantity.unknown field comps timeOrder axis).source = .rate := if_neg still
        rw [source]
        rfl
  | external field comps axis =>
      rw [FieldData.value, ← spec.external]
      rfl
  | param parameter =>
      have inside := List.idxOf_lt_length_of_mem (SymbolTable.mem_paramNames.mpr member)
      show (l.table.paramNames.map _).getD (l.table.paramNames.idxOf parameter) 0 = _
      rw [List.getD_eq_getElem?_getD, List.getElem?_map, List.getElem?_eq_getElem inside,
        List.getElem_idxOf]
      rfl
  | normal comp => rfl

theorem slot_of_quantity (built : Built l k) {i : Nat} {q : Quantity}
    (here : l.table.symbolList[i]? = some q) :
    ∃ name, k.slots[i]? = some ⟨name, q.source, l.table.columnOf q, q.axisOf⟩ := by
  rcases Outcome.getElem?_of_matched built.slots here with ⟨slot, there, name, found⟩
  exact ⟨name, by rw [there, SymbolTable.slot_eq_ok found]⟩

/-- Reading all slots gives every quantity of the form its value. -/
theorem fills (spec : Spec rules s pairs l) (built : Built l k) (d : FieldData) (count e : Nat)
    (p : PointData ℝ) :
    Fills l (d.value s count e p)
      (k.slots.map (reading (d.inputs k.paramNames) count e p)).toArray where
  size := by simp [built.slots.length_eq]
  value := by
    intro q member
    have inside := List.idxOf_lt_length_of_mem (SymbolTable.symbolList_perm.mem_iff.mpr member)
    have here : l.table.symbolList[l.table.symbolList.idxOf q]? = some q := by
      rw [List.getElem?_eq_getElem inside, List.getElem_idxOf]
    rcases slot_of_quantity built here with ⟨name, there⟩
    rw [Array.getD_eq_getD_getElem?, List.getElem?_toArray, List.getElem?_map, there, built.paramNames]
    exact reading_eq_value spec d count e p member name

section Unknowns

variable (spec : Spec rules s pairs l) (built : Built l k) {i : Nat} {q : Quantity}
  (here : l.unknownList[i]? = some q)

include spec built here

theorem slot_of_unknown :
    ∃ name, k.slots[i]? = some ⟨name, q.source, q.component s, q.axisOf⟩ := by
  have there : l.table.symbolList[i]? = some q := by
    rcases SymbolTable.unknowns_prefix spec.frozen with ⟨rest, same⟩
    have bound := (List.getElem?_eq_some_iff.mp here).1
    rw [← same]
    exact (List.getElem?_append_left bound).trans here
  rcases slot_of_quantity built there with ⟨name, found⟩
  refine ⟨name, found.trans ?_⟩
  have moving := spec.moving_of_getElem? here
  cases q with
  | unknown field comps timeOrder axis =>
      rw [SymbolTable.columnOf, spec.internal]
      rfl
  | _ => cases moving

theorem axisOf_of_unknown : k.axisOf i = q.axisOf := by
  rcases slot_of_unknown spec built here with ⟨name, found⟩
  rw [axisOf, found]
  rfl

theorem column_of_unknown : k.column i = q.component s := by
  rcases slot_of_unknown spec built here with ⟨name, found⟩
  rw [column, found]
  rfl

theorem isRate_of_unknown : k.isRate i = decide (q.source = .rate) := by
  rcases slot_of_unknown spec built here with ⟨name, found⟩
  rw [isRate, found]
  rfl

end Unknowns

theorem keyed (spec : Spec rules s pairs l) (built : Built l k) : Keyed k where
  residual := built.residual_keys.nodup_iff.mpr spec.residual_keys.1
  residualBound := fun i member =>
    built.unknownCount ▸ spec.residual_keys.2 i (built.residual_keys.mem_iff.mp member)
  tangent := built.tangent_keys.nodup_iff.mpr spec.tangent_keys.1
  tangentBound := fun i member =>
    built.unknownCount ▸ spec.tangent_keys.2 i (built.tangent_keys.mem_iff.mp member)
  unknown := by
    intro i bound
    rw [built.unknownCount, ← Spec.length_unknownList] at bound
    have here := List.getElem?_eq_getElem bound
    rcases slot_of_unknown spec built here with ⟨name, found⟩
    exact ⟨_, found, (Quantity.slot_isUnknown ..).trans (spec.moving_of_getElem? here)⟩

theorem nodup_unknownList (spec : Spec rules s pairs l) : l.unknownList.Nodup := by
  have all := SymbolTable.symbolList_perm.nodup_iff.mpr spec.distinct
  exact all.sublist (SymbolTable.unknowns_prefix spec.frozen).sublist

/-- Sums over the unknowns by slot are sums over the quantities. -/
theorem sum_unknowns {M : Type} [AddCommMonoid M] (built : Built l k) {f : Nat → M} {g : Quantity → M}
    (same : ∀ i q, l.unknownList[i]? = some q → f i = g q) :
    ∑ i ∈ range k.unknownCount, f i = (l.unknownList.map g).sum := by
  rw [built.unknownCount, ← Spec.length_unknownList, sum_range, ← Fin.sum_univ_fun_getElem]
  exact sum_congr rfl fun i _ => same i _ (List.getElem?_eq_getElem i.isLt)

end Kernel

end Galerkin
