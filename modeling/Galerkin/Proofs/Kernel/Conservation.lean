import Mathlib
import Galerkin.Proofs.Kernel.Reading
import Galerkin.Proofs.Kernel.Residual
import Galerkin.Proofs.Kernel.Tangent
import Galerkin.Proofs.Tabulation.Reproduction

/-!
Which unknowns a kernel works on: it has residual densities only for unknowns in test sides, and slots only for what
the pairs of its form mention.

Kernels and constants. Tested with one constant at all control points, an unknown answers only if it stands for the
tested component itself; raised by a constant, a component changes nothing but its own value.
-/

namespace Galerkin

/-! ### Unknowns in test sides -/

/-- Does a quantity stand for a component of the unknowns or for its rate, not for a derivative of these in space? -/
structure Quantity.Plain (s : Setting) (c : Nat) (q : Quantity) : Prop where
  unknown : q.isUnknown = true
  component : q.component s = c
  axis : q.axisOf = none

namespace Linearization

variable {rules : Calculus Quantity} {unknowns : List Quantity}

theorem isZero_of_mem_gradient {e : Formula Quantity} {t : Nat × Formula Quantity}
    (member : t ∈ gradient rules unknowns e) : t.2.isZero = false := by
  simpa using (List.mem_filter.mp member).2

theorem mem_keys_foldl {slopes totals : Gradient} {b : Formula Quantity} {k : Nat}
    (member : k ∈ (slopes.foldl (fun totals t => accumulate rules t.1 (rules.mul t.2 b) totals) totals).map (·.1)) :
    k ∈ slopes.map (·.1) ∨ k ∈ totals.map (·.1) := by
  induction slopes generalizing totals with
  | nil => exact Or.inr member
  | cons t rest ih =>
      rw [List.map_cons, List.mem_cons]
      cases ih member with
      | inl later => exact Or.inl (Or.inr later)
      | inr before =>
          cases mem_keys_accumulate.mp before with
          | inl here => exact Or.inl (Or.inl here)
          | inr old => exact Or.inr old

/-- Totals have entries only for unknowns that some test side depends on. -/
theorem mem_keys_foldlM {name : String} {table : SymbolTable} {pairs : List (Formula Quantity × Formula Quantity)}
    {totals : Gradient} (done : pairs.foldlM (addPair rules name table unknowns) [] = .ok totals) :
    ∀ k ∈ totals.map (·.1), ∃ p ∈ pairs, ∃ q, unknowns[k]? = some q ∧ (rules.derivative q p.1).isZero = false := by
  refine Outcome.foldlM_induction (P := fun pairs (totals : Gradient) => ∀ k ∈ totals.map (·.1), ∃ p ∈ pairs, ∃ q,
    unknowns[k]? = some q ∧ (rules.derivative q p.1).isZero = false) done ?_ ?_
  · exact fun k impossible => absurd impossible List.not_mem_nil
  · intro earlier p _ totals totals' before added k member
    have old (known : k ∈ totals.map (·.1)) : ∃ p' ∈ earlier ++ [p], ∃ q,
        unknowns[k]? = some q ∧ (rules.derivative q p'.1).isZero = false := by
      obtain ⟨p', present, rest⟩ := before k known
      exact ⟨p', List.mem_append_left _ present, rest⟩
    cases addPair_eq_ok added with
    | inl unchanged => exact old (unchanged.2 ▸ member)
    | inr sums =>
        rw [sums] at member
        cases mem_keys_foldl member with
        | inr known => exact old known
        | inl new =>
            obtain ⟨t, inGradient, rfl⟩ := List.mem_map.mp new
            obtain ⟨q, here, slope⟩ := mem_gradient inGradient
            exact ⟨p, List.mem_append_right _ (List.mem_singleton_self p), q, here, slope ▸ isZero_of_mem_gradient inGradient⟩

variable {s : Setting} {name : String} {boundary : Bool} {form : Expr} {pairs : List (Formula Quantity × Formula Quantity)}
  {l : Linearization}

/-- A form has residual densities only for unknowns in test sides. -/
theorem mem_residual_keys (lawful : rules.Lawful) (sparse : rules.Sparse)
    (done : ofForm rules s name boundary form = .ok l) (expanded : WeakForm.expand s name form = .ok pairs) :
    ∀ k ∈ l.residual.map (·.1), ∃ pair ∈ pairs, ∃ q ∈ pair.1.atoms, l.unknownList[k]? = some q := by
  obtain ⟨_, again, done⟩ := Outcome.bind_eq_ok.mp done
  cases again.symm.trans expanded
  obtain ⟨table, _, done⟩ := Outcome.bind_eq_ok.mp done
  dsimp only at done
  split at done
  · cases done
  obtain ⟨totals, folded, done⟩ := Outcome.bind_eq_ok.mp done
  cases done
  intro k member
  obtain ⟨t, kept, rfl⟩ := List.mem_map.mp member
  obtain ⟨total, inside, rfl⟩ := List.mem_map.mp (List.mem_filter.mp kept).1
  obtain ⟨_, among, q, here, nonzero⟩ := mem_keys_foldlM folded total.1 (List.mem_map_of_mem inside)
  obtain ⟨pair, present, rfl⟩ := List.mem_map.mp among
  refine ⟨pair, present, q, (lawful.normal pair.1).atoms q ?_, here⟩
  by_contra absent
  have zero := sparse q (rules.normal pair.1) absent
  rw [nonzero] at zero
  cases zero

end Linearization

namespace Kernel

open Linearization (Spec unknownList)

/-- The unknowns that stand for a component or for its rate, not for a derivative of these in space. -/
def plain (k : Kernel) (c : Nat) : Finset Nat :=
  (Finset.range k.unknownCount).filter fun i => k.column i = c ∧ k.axisOf i = none

/-- Does a kernel read the value of a component at points? -/
def Reads (k : Kernel) (c : Nat) : Prop := ∃ s ∈ k.slots, s.source = .value ∧ s.column = c ∧ s.axis = none

variable {rules : Calculus Quantity} {s : Setting} {name : String} {boundary : Bool} {form : Expr} {k : Kernel}
  {pairs : List (Formula Quantity × Formula Quantity)} {c : Nat}

/-- Where test sides mention a component only in derivatives, the component and its rate have no residual densities. -/
theorem densityOf_plain (lawful : rules.Lawful) (sparse : rules.Sparse)
    (made : ofForm rules s name boundary form = .ok k) (expanded : WeakForm.expand s name form = .ok pairs)
    (slopes : ∀ pair ∈ pairs, ∀ q ∈ pair.1.atoms, ¬ q.Plain s c) {i : Nat} (plain : i ∈ k.plain c) (values : Array ℝ) :
    densityOf values k.residual i = 0 := by
  obtain ⟨l, linearized, done⟩ := Outcome.bind_eq_ok.mp made
  obtain ⟨_, again, spec⟩ := Linearization.ofForm_eq_ok lawful linearized
  have built := ofLinearization_eq_ok lawful spec done
  refine sumAt_of_notMem fun member => ?_
  obtain ⟨pair, present, q, mentioned, here⟩ :=
    Linearization.mem_residual_keys lawful sparse linearized expanded i (built.residual_keys.mem_iff.mp member)
  have place := (Finset.mem_filter.mp plain).2
  rw [column_of_unknown spec built here, axisOf_of_unknown spec built here] at place
  exact slopes pair present q mentioned ⟨spec.moving_of_getElem? here, place.1, place.2⟩

/-- A form that mentions a component only in rates and in derivatives does not read its value. -/
theorem not_reads (lawful : rules.Lawful) (made : ofForm rules s name boundary form = .ok k)
    (expanded : WeakForm.expand s name form = .ok pairs)
    (omits : ∀ pair ∈ pairs, ∀ q ∈ pair.1.atoms ++ pair.2.atoms, q.Plain s c → q.source = .rate) : ¬ k.Reads c := by
  rintro ⟨slot, member, source, column, axis⟩
  obtain ⟨others, l, again, spec, built⟩ := ofForm_eq_ok lawful made
  cases again.symm.trans expanded
  obtain ⟨q, listed, name, found⟩ := Outcome.exists_of_matched built.slots member
  rw [SymbolTable.slot_eq_ok found] at source column axis
  obtain ⟨pair, present, mentioned⟩ := (spec.members q).mp (SymbolTable.symbolList_perm.mem_iff.mp listed)
  have unknown : q.isUnknown = true := by
    cases q with
    | unknown => rfl
    | _ => cases source
  have component : q.component s = c := by
    rw [← column]
    cases q with
    | unknown => rw [SymbolTable.columnOf, spec.internal, Quantity.component]
    | _ => cases unknown
  have rate := omits pair present q (List.mem_append.mpr mentioned) ⟨unknown, component, axis⟩
  cases source.symm.trans rate

/-- Plain unknowns of a component whose value is not read are rates. -/
theorem isRate_of_plain (keyed : Keyed k) (omits : ¬ k.Reads c) {i : Nat} (plain : i ∈ k.plain c) : k.isRate i = true := by
  obtain ⟨bound, column, axis⟩ := Finset.mem_filter.mp plain
  obtain ⟨slot, here, unknown⟩ := keyed.unknown i (Finset.mem_range.mp bound)
  have still : slot.source ≠ .value := by
    intro value
    rw [Kernel.column, here] at column
    rw [axisOf, here] at axis
    exact omits ⟨slot, List.mem_of_getElem? here, value, column, axis⟩
  rw [Slot.isUnknown] at unknown
  rw [isRate, here]
  simpa [still, Slot.isRate] using unknown

end Kernel

open Finset

theorem PointData.Unital.positive {count : Nat} {p : PointData ℝ} (unital : p.Unital count) : 0 < count := by
  apply Nat.pos_of_ne_zero
  intro empty
  have one := unital.sum none
  rw [empty, range_zero, sum_empty, if_pos rfl] at one
  exact zero_ne_one one

namespace Kernel

/-! ### Testing with constants -/

section Testing

variable {k : Kernel} {inputs : Inputs ℝ} {count e c : Nat} {p : PointData ℝ} (keyed : Keyed k)
  (shaped : inputs.Shaped k count) (readable : Readable k inputs e p) (unital : p.Unital count)

include keyed shaped readable unital

/-- There is a basis, so an unknown that can be read has a component of the kernel. -/
theorem column_lt {i : Nat} (bound : i < k.unknownCount) : k.column i < k.width := by
  obtain ⟨slot, here, unknown⟩ := keyed.unknown i bound
  obtain ⟨x, row, value, found⟩ := readable slot (List.mem_of_getElem? here)
  have length : row.length = count := by
    rw [length_basisRow found, unital.basis, unital.gradients, ite_self]
  have first := row_of_slotValue shaped unknown value found 0 (length.symm ▸ unital.positive)
  rw [column, here]
  exact first.2

variable {t : ℝ} {φ : Nat → ℝ} (tells : ∀ a < count, ∀ d < k.width, φ (a * k.width + d) = if d = c then t else 0)

include tells

theorem tested_constant {i : Nat} (bound : i < k.unknownCount) :
    k.tested count φ p i = if i ∈ k.plain c then t else 0 := by
  have column := column_lt keyed shaped readable unital bound
  calc k.tested count φ p i
      = ∑ a ∈ range count, p.basisAt (k.axisOf i) a * if k.column i = c then t else 0 :=
        sum_congr rfl fun a member => by rw [tells a (mem_range.mp member) _ column]
    _ = (if k.axisOf i = none then 1 else 0) * if k.column i = c then t else 0 := by
        rw [← sum_mul, unital.sum]
    _ = _ := by
        simp only [plain, mem_filter, mem_range, bound, true_and]
        by_cases same : k.column i = c <;> by_cases plain : k.axisOf i = none <;> simp [same, plain]

/-- Tested with a constant, a point gives that multiple of what it supplies to the component. -/
theorem pointResidual_constant : k.pointResidual inputs count e φ p =
    t * (p.weight * ∑ i ∈ k.plain c, densityOf (k.pointValues inputs count e p) k.residual i) := by
  have inside : k.plain c ⊆ range k.unknownCount := filter_subset _ _
  have terms : ∀ i ∈ range k.unknownCount,
      p.weight * densityOf (k.pointValues inputs count e p) k.residual i * k.tested count φ p i =
        if i ∈ k.plain c then t * (p.weight * densityOf (k.pointValues inputs count e p) k.residual i) else 0 := by
    intro i member
    rw [tested_constant keyed shaped readable unital tells (mem_range.mp member), mul_ite, mul_zero, mul_comm _ t]
  rw [pointResidual, sum_congr rfl terms, sum_ite_mem, inter_eq_right.mpr inside, ← mul_sum, ← mul_sum]

/-- A kernel that does not read a component itself takes constants of it to zero, but for its rate. -/
theorem pointTangent_constant (omits : ¬ k.Reads c) (ψ : Nat → ℝ) :
    k.pointTangent inputs 0 count e (fun i j => ψ i * φ j) p = 0 := by
  refine sum_eq_zero fun i _ => sum_eq_zero fun j member => ?_
  rw [tested_mul, tested_constant keyed shaped readable unital tells (mem_range.mp member)]
  by_cases plain : j ∈ k.plain c
  · rw [isRate_of_plain keyed omits plain, if_pos rfl, mul_zero, mul_zero, zero_mul]
  · rw [if_neg plain, mul_zero, mul_zero]

end Testing

/-- In terms of quantities: the derivatives of the test sides by a component and by its rate, times the trial sides. -/
theorem sum_plain {rules : Calculus Quantity} {s : Setting} {pairs : List (Formula Quantity × Formula Quantity)}
    {l : Linearization} {k : Kernel} {d : FieldData} {count e : Nat} {p : PointData ℝ} (lawful : rules.Lawful)
    (spec : Linearization.Spec rules s pairs l) (built : Built l k)
    (regular : ∀ pair ∈ pairs, pair.1.Smooth Linearization.Moving (d.value s count e p) ∧
      pair.2.Defined (d.value s count e p)) (c : Nat) :
    ∑ i ∈ k.plain c, densityOf (k.pointValues (d.inputs k.paramNames) count e p) k.residual i =
      ∑ q ∈ (unknownsOf s pairs c).filter (·.axisOf = none), (pairs.map (pairDensity (d.value s count e p) q)).sum := by
  rw [plain, sum_filter, sum_filter, ← sum_unknownsOf spec]
  refine sum_unknowns built fun i q here => ?_
  rw [density_eq lawful spec built regular here, axisOf_of_unknown spec built here, column_of_unknown spec built here,
    ite_and]

/-! ### Raising a component -/

/-- Values in which one component is raised by the same amount at all control points. -/
structure Raised (c : Nat) (t : ℝ) (v w : NodalValues ℝ) : Prop where
  shape : w.shape = v.shape
  get : ∀ e a d, w.get e a d = (v.get e a d).map (· + if d = c then t else 0)

variable {c : Nat} {t : ℝ} {v w : NodalValues ℝ} {k : Kernel} {count : Nat}

/-- The terms of an interpolated value: the entries of a row, each with the number of its control point. -/
noncomputable def terms (values : NodalValues ℝ) (e d : Nat) (row : List (ℝ × Nat)) : Except Failure (List ℝ) :=
  row.mapM fun u => do pure (u.1 * (← values.get e u.2 d))

theorem interpolated_eq_terms (values : NodalValues ℝ) (e d : Nat) (row : List ℝ) :
    interpolated values e d row = (terms values e d row.zipIdx).map List.sum := by
  change (terms values e d row.zipIdx).bind _ = _
  cases terms values e d row.zipIdx with
  | error failure => rfl
  | ok xs => exact congrArg Except.ok (total_eq_sum xs)

theorem sum_terms_raised (raised : Raised c t v w) (e d : Nat) (row : List (ℝ × Nat)) :
    (terms w e d row).map List.sum = (terms v e d row).map
      fun xs : List ℝ => xs.sum + (row.map (·.1)).sum * if d = c then t else 0 := by
  induction row with
  | nil =>
      refine congrArg Except.ok ?_
      change (0 : ℝ) = 0 + 0 * _
      rw [zero_mul, add_zero]
  | cons u rest ih =>
      unfold terms at ih ⊢
      rw [List.mapM_cons, List.mapM_cons, raised.get]
      cases v.get e u.2 d with
      | error failure => rfl
      | ok x =>
          generalize (rest.mapM fun (u : ℝ × Nat) => do pure (u.1 * (← w.get e u.2 d))) = after at ih ⊢
          generalize (rest.mapM fun (u : ℝ × Nat) => do pure (u.1 * (← v.get e u.2 d))) = before at ih ⊢
          cases before with
          | error failure =>
              cases after with
              | error other =>
                  cases ih
                  rfl
              | ok ys => cases ih
          | ok xs =>
              cases after with
              | error failure => cases ih
              | ok ys =>
                  have sums : ys.sum = xs.sum + (rest.map (·.1)).sum * if d = c then t else 0 := Except.ok.inj ih
                  refine congrArg Except.ok ?_
                  simp only [List.sum_cons, List.map_cons, sums]
                  ring

theorem interpolated_raised (raised : Raised c t v w) (e d : Nat) (row : List ℝ) :
    interpolated w e d row = (interpolated v e d row).map (· + row.sum * if d = c then t else 0) := by
  have sums := sum_terms_raised raised e d row.zipIdx
  rw [List.zipIdx_map_fst] at sums
  rw [interpolated_eq_terms, interpolated_eq_terms, sums]
  cases terms v e d row.zipIdx <;> rfl

theorem slotValue_raised {inputs : Inputs ℝ} (raised : Raised c t inputs.state w) {p : PointData ℝ}
    (unital : p.Unital count) {s : Slot} (other : ¬ (s.source = .value ∧ s.column = c ∧ s.axis = none)) (e : Nat) :
    slotValue { inputs with state := w } e p s = slotValue inputs e p s := by
  unfold slotValue
  cases source : s.source with
  | value =>
      dsimp only
      cases found : basisRow p s.axis with
      | error failure => rfl
      | ok row =>
          rw [Outcome.ok_bind, Outcome.ok_bind, interpolated_raised raised, unital.sum_row found]
          have still : (if s.axis = none then (1 : ℝ) else 0) * (if s.column = c then t else 0) = 0 := by
            by_cases axis : s.axis = none
            · rw [if_neg fun same => other ⟨source, same, axis⟩, mul_zero]
            · rw [if_neg axis, zero_mul]
          rw [still]
          cases interpolated inputs.state e s.column row with
          | error failure => rfl
          | ok x => exact congrArg Except.ok (add_zero x)
  | _ => rfl

theorem elementSystem_raised {inputs : Inputs ℝ} (raised : Raised c t inputs.state w) (omits : ¬ k.Reads c)
    {points : List (PointData ℝ)} (unital : ∀ p ∈ points, p.Unital count) (rateWeight : ℝ) (e : Nat) :
    k.elementSystem { inputs with state := w } rateWeight count e points =
      k.elementSystem inputs rateWeight count e points := by
  have slots : ∀ p ∈ points, k.slots.toArray.mapM (slotValue { inputs with state := w } e p) =
      k.slots.toArray.mapM (slotValue inputs e p) := by
    intro p member
    rw [List.mapM_toArray, List.mapM_toArray]
    exact congrArg _ (Outcome.mapM_congr fun s among => slotValue_raised raised (unital p member)
      (fun reads => omits ⟨s, among, reads⟩) e)
  have added : ∀ p ∈ points, ∀ u, k.addPoint { inputs with state := w } rateWeight (count * k.width) e u p =
      k.addPoint inputs rateWeight (count * k.width) e u p := by
    intro p member u
    rw [addPoint, addPoint, slots p member]
  rw [elementSystem, elementSystem, Outcome.foldlM_congr added]

/-- A kernel that does not read a component itself gives the same systems when it is raised. -/
theorem evaluate_raised (raised : Raised c t v w) (omits : ¬ k.Reads c) {tab : Tabulation ℝ}
    (unital : ∀ points ∈ tab.entities, ∀ p ∈ points, p.Unital tab.basisCount) (rate external : Option (NodalValues ℝ))
    (params : Parameters ℝ) (rateWeight : ℝ) :
    k.evaluate tab w rate external params rateWeight = k.evaluate tab v rate external params rateWeight := by
  have each (rates externals : NodalValues ℝ) (values : List ℝ) :
      (tab.entities.zipIdx.mapM fun (points, e) =>
        k.elementSystem ⟨w, rates, externals, values⟩ rateWeight tab.basisCount e points) =
      tab.entities.zipIdx.mapM fun (points, e) =>
        k.elementSystem ⟨v, rates, externals, values⟩ rateWeight tab.basisCount e points := by
    refine Outcome.mapM_congr fun u member => ?_
    have present : u.1 ∈ tab.entities := List.mem_of_getElem? (List.mem_zipIdx_iff_getElem?.mp member)
    have raised : Raised c t (Inputs.mk v rates externals values).state w := raised
    exact elementSystem_raised raised omits (unital u.1 present) rateWeight u.2
  simp only [evaluate, checkShape, raised.shape, each]

end Kernel

end Galerkin
