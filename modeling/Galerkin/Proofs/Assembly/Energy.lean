import Mathlib
import Galerkin.Proofs.Assembly.Conservation
import Galerkin.Proofs.Quadrature
import Galerkin.Proofs.WeakForm.Energy

/-!
What blocks of energies add to a system: at every state the residual is a symmetric bilinear form of the state and of the
test vector, and the tangent holds its coefficients.
-/

namespace Galerkin

open Finset hiding sum_apply
open Linear
open Linearization (Spec Moving unknownList)
open Expansion (Scaled)

/-! ### Linear formulas -/

variable {n : Nat}

namespace Formula.IsLinear

variable {f : Formula Quantity} (linear : f.IsLinear)

include linear

/-- A linear formula changes with one variable by its value for the unit of the variable. -/
theorem deriv_update (v : Quantity → ℝ) (q : Quantity) :
    deriv (fun t => f.eval (Function.update v q t)) (v q) = f.eval (Pi.single q (1 : ℝ)) := by
  have along (t : ℝ) : f.eval (Function.update v q t) = f.eval v + (t - v q) * f.eval (Pi.single q (1 : ℝ)) := by
    have split : Function.update v q t = v + (t - v q) • Pi.single q (1 : ℝ) := by
      funext r
      by_cases same : r = q
      · subst same
        simp
      · simp [same]
    rw [split, linear.linear.map_add, linear.linear.map_smul, smul_eq_mul]
  simp only [along]
  simp

/-- A linear formula is the sum of its values for the units of its variables, each times the value of the variable. -/
theorem sum_single {qs : Finset Quantity} (complete : ∀ q ∈ f.atoms, q ∈ qs) (w : Quantity → ℝ) :
    ∑ q ∈ qs, f.eval (Pi.single q (1 : ℝ)) * w q = f.eval w := by
  have parts : f.eval w = f.eval (∑ q ∈ qs, w q • (Pi.single q 1 : Quantity → ℝ)) := by
    refine Formula.eval_congr fun r member => ?_
    rw [Finset.sum_apply]
    simp [Pi.single_apply, complete r member]
  rw [parts]
  refine (sum_congr rfl fun q _ => ?_).trans (map_sum (linear.linear.mk' _) _ qs).symm
  rw [mul_comm]
  exact (linear.linear.map_smul (w q) _).symm

end Formula.IsLinear

theorem Tabulation.MappedAt.shaped {e : Element} {dim : Nat} {net : List (List ℝ)} {x : List ℝ} {d : PointData ℝ}
    (mapped : MappedAt e dim net x d) : d.Shaped dim e.size := by
  obtain ⟨det, -, -, gradients⟩ := mapped.gradients
  refine ⟨?_, ?_, ?_⟩
  · rw [mapped.basis, Element.values, List.length_map, Element.size]
  · rw [gradients, List.length_map, Element.gradients, List.length_map, Element.size]
  · rw [gradients]
    refine List.forall_mem_map.mpr fun g _ => ?_
    rw [physical, List.length_map, List.length_range]

theorem coordinate_single (i : Fin n) (r : Nat) : coordinate n r (Pi.single i 1) = if r = i then 1 else 0 := by
  by_cases inside : r < n
  · rw [coordinate_fin ⟨r, inside⟩, Pi.single_apply]
    exact if_congr Fin.ext_iff rfl rfl
  · have apart : r ≠ i := fun same => inside (same.trans_lt i.isLt)
    rw [coordinate, dif_neg inside, if_neg apart]
    rfl

theorem map_eq_zipWith {α β γ : Type} {f : α → γ} {g : α → β → γ} {xs : List α} {ys : List β}
    (each : List.Forall₂ (fun x y => f x = g x y) xs ys) : xs.map f = List.zipWith g xs ys := by
  induction each with
  | nil => rfl
  | cons first _ ih => rw [List.map_cons, List.zipWith_cons_cons, first, ih]

/-- A linear function has itself as derivative. -/
theorem HasSlope.eq_of_linear {A : (Fin n → ℝ) →ₗ[ℝ] ℝ} {g : (Fin n → ℝ) → ℝ} {x : Fin n → ℝ} (slope : HasSlope A g x)
    (δ : Fin n → ℝ) : g δ = A δ := by
  obtain ⟨L, derivative, value⟩ := slope
  have own : HasFDerivAt A A.toContinuousLinearMap x := A.toContinuousLinearMap.hasFDerivAt
  rw [← value, derivative.unique own, LinearMap.coe_toContinuousLinearMap']

namespace Kernel

variable {rules : Calculus Quantity} {s : Setting} {pairs : List (Formula Quantity × Formula Quantity)} {l : Linearization}
  {k : Kernel} {c : Formula Quantity} {d : FieldData} {count e : Nat} {p : PointData ℝ}

/-- What a point adds to the residual of linear formulas that are paired with multiples of themselves. -/
theorem pointResidual_scaled (lawful : rules.Lawful) (spec : Spec rules s pairs l) (built : Built l k)
    (linear : ∀ pair ∈ pairs, pair.1.IsLinear ∧ Scaled c pair.1 pair.2)
    (factor : c.Smooth Moving (d.value s count e p)) {φ : Nat → ℝ} {w : Quantity → ℝ}
    (tests : ∀ q ∈ l.unknownList, ∑ a ∈ range count, p.basisAt q.axisOf a * φ (a * k.width + q.component s) = w q) :
    k.pointResidual (d.inputs k.paramNames) count e φ p = p.weight * (c.eval (d.value s count e p) *
      (pairs.map fun pair => pair.1.eval (d.value s count e p) * pair.1.eval w).sum) := by
  let v := d.value s count e p
  let qs := l.unknownList.toFinset
  have regular : ∀ pair ∈ pairs, pair.1.Smooth Moving v ∧ pair.2.Defined v := fun pair member =>
    have own := linear pair member
    ⟨own.1.smooth v, (own.2.smooth factor (own.1.smooth v)).defined⟩
  have complete : ∀ pair ∈ pairs, ∀ q ∈ pair.1.atoms, q ∈ qs := by
    intro pair member q occurs
    refine List.mem_toFinset.mpr ((spec.mem_unknownList q).mpr ⟨?_, ((linear pair member).1.atoms q occurs).moving⟩)
    exact (spec.members q).mpr ⟨pair, member, Or.inl occurs⟩
  have density : ∀ pair ∈ pairs, ∑ q ∈ qs, pairDensity v q pair * w q = c.eval v * (pair.1.eval v * pair.1.eval w) := by
    intro pair member
    obtain ⟨test, trial⟩ := linear pair member
    rw [← test.sum_single (complete pair member) w, mul_sum, mul_sum]
    refine sum_congr rfl fun q _ => ?_
    rw [pairDensity, test.deriv_update, trial.eval_eq]
    ring
  calc k.pointResidual (d.inputs k.paramNames) count e φ p
      = (l.unknownList.map fun q => p.weight * ((pairs.map (pairDensity v q)).sum * w q)).sum := by
        rw [pointResidual_eq lawful spec built regular]
        refine congrArg List.sum (List.map_congr_left fun q member => ?_)
        rw [tests q member, mul_assoc]
    _ = p.weight * ∑ q ∈ qs, (pairs.map fun pair => pairDensity v q pair * w q).sum := by
        rw [List.sum_map_mul_left, List.sum_toFinset _ (nodup_unknownList spec)]
        simp only [List.sum_map_mul_right]
    _ = p.weight * (c.eval v * (pairs.map fun pair => pair.1.eval v * pair.1.eval w).sum) := by
        rw [← sum_map_sum, List.map_congr_left density, List.sum_map_mul_left]

/-! ### Kernels of energies -/

/-- What goes into the kernel of an energy. -/
structure OfEnergy (rules : Calculus Quantity) (s : Setting) (E : Energy) (k : Kernel)
    (pairs : List (Formula Quantity × Formula Quantity)) (l : Linearization) : Prop where
  spec : Spec rules s pairs l
  built : Built l k
  linear : ∀ pair ∈ pairs, pair.1.IsLinear ∧ Scaled E.modulus.formula pair.1 pair.2
  inside : ∀ pair ∈ pairs, (∀ q ∈ pair.1.atoms, q.InRange s) ∧ ∀ q ∈ pair.2.atoms, q.InRange s
  sum : ∀ v w, (pairs.map fun pair => pair.1.eval v * pair.1.eval w).sum = E.strain.contraction s.dim v w

theorem ofEnergy (lawful : rules.Lawful) {E : Energy} (quadratic : E.Quadratic s) {name : String} {boundary : Bool}
    (made : ofForm rules s name boundary E.form = .ok k) : ∃ pairs l, k.OfEnergy rules s E pairs l := by
  obtain ⟨pairs, l, expanded, spec, built⟩ := ofForm_eq_ok lawful made
  exact ⟨pairs, l, spec, built, quadratic.linear_pairs expanded, WeakForm.expand_inRange quadratic.fits expanded,
    quadratic.sum_pairs expanded⟩

namespace OfEnergy

variable {E : Energy} {q : Quantity} {parameters : List (String × ℝ)} (parts : k.OfEnergy rules s E pairs l)

include parts

/-- A kernel of an energy reads unknowns and the parameter in front. -/
theorem current_or_param (known : q ∈ l.table.quantities) : q.IsCurrent ∨ ∃ name, E.modulus = .param name ∧ q = .param name := by
  obtain ⟨pair, member, test | trial⟩ := (parts.spec.members q).mp known
  · exact Or.inl ((parts.linear pair member).1.atoms q test)
  · rcases (parts.linear pair member).2.atoms trial with factor | own
    · exact Or.inr (Modulus.mem_atoms factor)
    · exact Or.inl ((parts.linear pair member).1.atoms q own)

theorem current (unknown : q ∈ l.unknownList) : q.IsCurrent := by
  obtain ⟨known, moving⟩ := (parts.spec.mem_unknownList q).mp unknown
  refine (parts.current_or_param known).resolve_right ?_
  rintro ⟨name, -, rfl⟩
  cases moving

theorem usesNormal : k.usesNormal = false := by
  rw [parts.built.usesNormal, SymbolTable.usesNormal, List.any_eq_false]
  intro entry member normal
  rcases parts.current_or_param (List.mem_map_of_mem member) with current | ⟨name, -, same⟩
  · rw [current.isNormal] at normal
    cases normal
  · rw [same] at normal
    cases normal

theorem params (given : E.modulus.Given parameters) : ∀ name ∈ k.paramNames, (parameters.lookup name).isSome := by
  intro name member
  rw [parts.built.paramNames] at member
  rcases parts.current_or_param (SymbolTable.mem_paramNames.mp member) with impossible | ⟨_, front, same⟩
  · cases impossible
  · cases same
    rw [front] at given
    exact given

end OfEnergy

end Kernel

/-! ### Blocks -/

namespace Block

variable {rules : Calculus Quantity} {s : Setting} {E : Energy} {b : Block ℝ} {n e : Nat} {p : PointData ℝ}

/-- Is the kernel of a block that of an energy? -/
def Stores (rules : Calculus Quantity) (s : Setting) (E : Energy) (b : Block ℝ) : Prop :=
  ∃ name boundary, Kernel.ofForm rules s name boundary E.form = .ok b.kernel

/-- The values of unknowns and of their derivatives in space at a point, for a vector of unknowns. -/
noncomputable def valuesAt (b : Block ℝ) (s : Setting) (x : Vec ℝ) (e : Nat) (p : PointData ℝ) : Quantity → ℝ :=
  (b.dataAt ⟨[], #[], x, [], 0⟩).value s b.tab.basisCount e p

/-- The energy of a block for two vectors of unknowns: at each point, the product of the strains. -/
noncomputable def energy (s : Setting) (E : Energy) (parameters : List (String × ℝ)) (x y : Vec ℝ) (b : Block ℝ) : ℝ :=
  b.total fun e _ p => p.weight *
    (E.modulus.value parameters * E.strain.contraction s.dim (b.valuesAt s x e p) (b.valuesAt s y e p))

theorem value_of_current (state : AssemblyState ℝ) {q : Quantity} (current : q.IsCurrent) :
    (b.dataAt state).value s b.tab.basisCount e p q = b.valuesAt s state.x e p q := by
  cases q with
  | unknown name comps timeOrder axis =>
      cases current
      rfl
  | _ => cases current

theorem eval_modulus (c : Modulus) (state : AssemblyState ℝ) :
    c.formula.eval ((b.dataAt state).value s b.tab.basisCount e p) = c.value state.parameters := by
  cases c with
  | const m => exact Formula.eval_ofNumber _ m
  | param name => rfl

theorem valuesAt_ofFn (x : Fin n → ℝ) {q : Quantity} (current : q.IsCurrent) :
    b.valuesAt s (List.ofFn x) e p q = b.slope n 0 s e p q x := by
  cases q with
  | unknown name comps timeOrder axis =>
      cases current
      have read : b.valuesAt s (List.ofFn x) e p (.unknown name comps 0 axis) = ∑ a ∈ range b.tab.basisCount,
          p.basisAt axis a * (b.gather (List.ofFn x)).entry e a (s.internal.columnOf name comps) := rfl
      rw [read, slope, sum_apply]
      refine sum_congr rfl fun a _ => ?_
      rw [if_pos rfl, one_smul, smul_apply, smul_eq_mul, entry_gather]
      refine congrArg _ ?_
      cases b.numberAt e a (s.internal.columnOf name comps) with
      | none => rfl
      | some i => exact getD_ofFn x i
  | _ => cases current

/-- The value of a linear formula at a point, as a linear function of the unknowns. -/
noncomputable def pullback (n : Nat) (b : Block ℝ) (s : Setting) (e : Nat) (p : PointData ℝ) {f : Formula Quantity}
    (linear : f.IsLinear) : (Fin n → ℝ) →ₗ[ℝ] ℝ :=
  (linear.linear.mk' _).comp (LinearMap.pi fun q => (b.slope n 0 s e p q).toLinearMap)

theorem pullback_apply {f : Formula Quantity} (linear : f.IsLinear) (x : Fin n → ℝ) :
    b.pullback n s e p linear x = f.eval (b.valuesAt s (List.ofFn x) e p) :=
  (Formula.eval_congr fun q member => valuesAt_ofFn x (linear.atoms q member)).symm

/-! ### Bilinearity -/

theorem total_add (f g : Nat → List Nat → PointData ℝ → ℝ) :
    (b.total fun e row p => f e row p + g e row p) = b.total f + b.total g := by
  simp only [total, List.sum_map_add]

theorem total_mul_left (c : ℝ) (f : Nat → List Nat → PointData ℝ → ℝ) :
    (b.total fun e row p => c * f e row p) = c * b.total f := by
  simp only [total, List.sum_map_mul_left]

theorem energy_comm (parameters : List (String × ℝ)) (x y : Vec ℝ) :
    b.energy s E parameters x y = b.energy s E parameters y x := by
  simp only [energy, Expr.contraction_comm]

theorem energy_self_nonneg {parameters : List (String × ℝ)} (modulus : 0 ≤ E.modulus.value parameters)
    (weights : ∀ points ∈ b.tab.entities, ∀ p ∈ points, 0 ≤ p.weight) (x : Vec ℝ) : 0 ≤ b.energy s E parameters x x := by
  refine List.sum_nonneg (List.forall_mem_map.mpr fun u member => List.sum_nonneg (List.forall_mem_map.mpr fun p present => ?_))
  have points := List.mem_of_getElem? (mem_zip_zipIdx member).2
  exact mul_nonneg (weights u.2.1 points p present) (mul_nonneg modulus (Expr.contraction_self_nonneg ..))

section Linear

variable {pairs : List (Formula Quantity × Formula Quantity)} {l : Linearization}
  (parts : b.kernel.OfEnergy rules s E pairs l)

include parts

theorem contraction_add (x x' : Fin n → ℝ) (w : Quantity → ℝ) :
    E.strain.contraction s.dim (b.valuesAt s (List.ofFn (x + x')) e p) w =
      E.strain.contraction s.dim (b.valuesAt s (List.ofFn x) e p) w +
        E.strain.contraction s.dim (b.valuesAt s (List.ofFn x') e p) w := by
  rw [← parts.sum, ← parts.sum, ← parts.sum, ← List.sum_map_add]
  refine congrArg List.sum (List.map_congr_left fun pair member => ?_)
  have linear := (parts.linear pair member).1
  rw [← pullback_apply linear, ← pullback_apply linear, ← pullback_apply linear, map_add, add_mul]

theorem contraction_smul (c : ℝ) (x : Fin n → ℝ) (w : Quantity → ℝ) :
    E.strain.contraction s.dim (b.valuesAt s (List.ofFn (c • x)) e p) w =
      c * E.strain.contraction s.dim (b.valuesAt s (List.ofFn x) e p) w := by
  rw [← parts.sum, ← parts.sum, ← List.sum_map_mul_left]
  refine congrArg List.sum (List.map_congr_left fun pair member => ?_)
  have linear := (parts.linear pair member).1
  rw [← pullback_apply linear, ← pullback_apply linear, map_smul, smul_eq_mul, mul_assoc]

/-- The energy for some vector is linear in the other. -/
theorem isLinearMap_energy (parameters : List (String × ℝ)) (y : Vec ℝ) :
    IsLinearMap ℝ fun x : Fin n → ℝ => b.energy s E parameters (List.ofFn x) y where
  map_add := fun x x' => by
    simp only [energy, contraction_add parts, mul_add, total_add]
  map_smul := fun c x => by
    rw [energy, energy, smul_eq_mul, ← total_mul_left]
    refine total_congr fun e row points _ _ p _ => ?_
    rw [contraction_smul parts]
    ring

end Linear

/-! ### What a block adds -/

/-- A block with numbers for all its elements, and with bases for the points of a setting. -/
structure Aligned (s : Setting) (n : Nat) (b : Block ℝ) : Prop where
  numbered : b.Numbered n
  shaped : ∀ points ∈ b.tab.entities, ∀ p ∈ points, p.Shaped s.dim b.tab.basisCount
  dofs : b.dofs.length = b.tab.entities.length
  points : b.points.length = b.tab.entities.length

theorem sized_gather (aligned : b.Aligned s n) (x : Vec ℝ) :
    (b.gather x).Sized b.dofs.length b.tab.basisCount b.kernel.width := by
  refine ⟨rfl, rfl, rfl, ?_⟩
  have total : (b.dofs.flatMap fun row => row.map fun i => x.toArray.getD i 0).length =
      (b.dofs.map fun _ => b.tab.basisCount * b.kernel.width).sum := by
    rw [List.length_flatMap]
    refine congrArg List.sum (List.map_congr_left fun row member => ?_)
    rw [List.length_map, aligned.numbered.length row member]
  rw [gather, List.size_toArray, total, List.map_const', List.sum_replicate, smul_eq_mul, mul_assoc]

section Systems

variable {pairs : List (Formula Quantity × Formula Quantity)} {l : Linearization}
  (parts : b.kernel.OfEnergy rules s E pairs l) (aligned : b.Aligned s n) (state : AssemblyState ℝ)

include parts aligned

/-- A block of an energy can be read at every state: only unknowns and the parameter in front are. -/
theorem readable_of_energy {points : List (PointData ℝ)} (here : b.tab.entities[e]? = some points) :
    ∀ p ∈ points, Kernel.Readable b.kernel ((b.dataAt state).inputs b.kernel.paramNames) e p := by
  intro p present slot member
  obtain ⟨q, among, name, found⟩ := Outcome.exists_of_matched parts.built.slots member
  have known := SymbolTable.symbolList_perm.mem_iff.mp among
  rw [SymbolTable.slot_eq_ok found, parts.built.paramNames]
  have width : b.kernel.width = s.internal.width := parts.built.width.trans (congrArg Layout.width parts.spec.internal)
  -- Rates and prescribed values of the right shape, which are not read.
  let d : FieldData := ⟨b.gather state.x, .zeros b.dofs.length b.tab.basisCount s.internal.width,
    .zeros b.dofs.length b.tab.basisCount s.external.width, state.parameters⟩
  have sized : d.Sized s b.dofs.length b.tab.basisCount :=
    ⟨width ▸ sized_gather aligned state.x, NodalValues.sized_zeros .., NodalValues.sized_zeros ..⟩
  have element : e < b.dofs.length := aligned.dofs ▸ (List.getElem?_eq_some_iff.mp here).1
  have shaped := aligned.shaped points (List.mem_of_getElem? here) p present
  have plain : q.isNormal = true → p.normal.length = s.dim := fun normal =>
    absurd (Kernel.usesNormal_of_mem parts.built known normal) (by simp [parts.usesNormal])
  obtain ⟨x, row, value, basis⟩ := Kernel.slotValue_isOk parts.spec sized element shaped known
    (Kernel.inRange_of_mem parts.spec parts.inside known) plain name
  refine ⟨x, row, ?_, basis⟩
  rcases parts.current_or_param known with current | ⟨_, -, rfl⟩
  · cases q with
    | unknown _ _ timeOrder _ =>
        cases current
        exact value
    | _ => cases current
  · exact value

theorem contributions_of_energy (given : E.modulus.Given state.parameters) :
    ∃ cs, b.contributions state = .ok cs :=
  contributions_of_readable aligned.dofs aligned.points (fun uses => absurd uses (by simp [parts.usesNormal]))
    (parts.params given) fun _ _ here => readable_of_energy parts aligned state here

variable {x : Fin n → ℝ} (given : E.modulus.Given state.parameters) (lawful : rules.Lawful)

include given lawful

/-- What a block adds to the residual, weighted with a vector, is the energy of the unknowns and the vector. -/
theorem residual_of_energy (same : state.x = List.ofFn x) (y : Fin n → ℝ) :
    (b.total fun e row => b.kernel.pointResidual ((b.dataAt state).inputs b.kernel.paramNames) b.tab.basisCount e
      fun i => coordinate n (row.getD i 0) y) = b.energy s E state.parameters (List.ofFn x) (List.ofFn y) := by
  refine total_congr fun e row points here there p present => ?_
  have readable := readable_of_energy parts aligned state there p present
  let v := (b.dataAt state).value s b.tab.basisCount e p
  have tests : ∀ q ∈ l.unknownList, ∑ a ∈ range b.tab.basisCount, p.basisAt q.axisOf a *
      coordinate n (row.getD (a * b.kernel.width + q.component s) 0) y = b.valuesAt s (List.ofFn y) e p q := by
    intro q unknown
    have current := parts.current unknown
    rw [valuesAt_ofFn y current, slope_apply parts.spec parts.built aligned.numbered here readable unknown,
      if_neg current.source, one_mul]
  have strains : ∀ pair ∈ pairs, pair.1.eval v * pair.1.eval (b.valuesAt s (List.ofFn y) e p) =
      pair.1.eval (b.valuesAt s (List.ofFn x) e p) * pair.1.eval (b.valuesAt s (List.ofFn y) e p) := by
    intro pair member
    refine congrArg (· * _) (Formula.eval_congr fun q occurs => ?_)
    rw [← same]
    exact value_of_current state ((parts.linear pair member).1.atoms q occurs)
  rw [Kernel.pointResidual_scaled lawful parts.spec parts.built parts.linear (given.smooth v) tests,
    List.map_congr_left strains, parts.sum, eval_modulus]

/-- What a block adds to the tangent, weighted with two vectors, is their energy. -/
theorem tangent_of_energy (same : state.x = List.ofFn x) (y z : Fin n → ℝ) :
    (b.total fun e row => b.kernel.pointTangent ((b.dataAt state).inputs b.kernel.paramNames) state.rateWeight
      b.tab.basisCount e fun i j => coordinate n (row.getD i 0) y * coordinate n (row.getD j 0) z) =
        b.energy s E state.parameters (List.ofFn z) (List.ofFn y) := by
  let among (z : Fin n → ℝ) : AssemblyState ℝ := { state with x := List.ofFn z }
  have here : among x = state := by
    cases state
    cases same
    rfl
  have still (i : Nat) : HasFDerivAt (fun _ : Fin n → ℝ => state.rate.getD i 0) ((0 : ℝ) • coordinate n i) x := by
    rw [zero_smul]
    exact hasFDerivAt_const _ _
  have slope : HasSlope
      (fun z => b.total fun e row => b.kernel.pointResidual ((b.dataAt (among z)).inputs b.kernel.paramNames)
        b.tab.basisCount e fun i => coordinate n (row.getD i 0) y)
      (fun δ => b.total fun e row => b.kernel.pointTangent ((b.dataAt (among x)).inputs b.kernel.paramNames)
        state.rateWeight b.tab.basisCount e fun i j => coordinate n (row.getD i 0) y * coordinate n (row.getD j 0) δ) x := by
    refine HasSlope.sum_map fun u member => HasSlope.sum_map fun p present => ?_
    obtain ⟨row, points⟩ := mem_zip_zipIdx member
    have readable := readable_of_energy parts aligned (among x) points p present
    refine Kernel.hasFDerivAt_pointResidual lawful parts.spec parts.built (changes_of_rates state fun i => still i) ?_ _
      (ψ := fun δ j => coordinate n (u.1.getD j 0) δ) fun q unknown δ => ?_
    · intro pair member
      obtain ⟨test, trial⟩ := parts.linear pair member
      exact ⟨test.smooth _, trial.smooth (given.smooth _) (test.smooth _)⟩
    · have current := parts.current unknown
      rw [slope_apply parts.spec parts.built aligned.numbered row readable unknown, if_neg current.source,
        if_neg current.source]
  have linear := isLinearMap_energy (n := n) parts state.parameters (List.ofFn y)
  have residual : (fun z => b.total fun e row => b.kernel.pointResidual ((b.dataAt (among z)).inputs b.kernel.paramNames)
      b.tab.basisCount e fun i => coordinate n (row.getD i 0) y) = linear.mk' _ := by
    funext z
    exact residual_of_energy parts aligned (among z) given lawful rfl y
  rw [residual] at slope
  have unique := slope.eq_of_linear z
  rw [here] at unique
  exact unique

end Systems

/-! ### Blocks that are made -/

section Made

variable {ctx : Context ℝ} {places : List (Option (Nat × Option Nat))} {parts : List Part}
  (made : Made ctx places b parts)

include made

/-- A block on some places is aligned with the setting whose components are numbered. -/
theorem Made.aligned (even : ctx.space.Even) {width : Nat} {occupied : List Bool}
    (numbers : ctx.dofs = .ofOccupied width occupied) (fits : b.kernel.width = width) (dim : ctx.space.mesh.dim = s.dim) :
    b.Aligned s ctx.dofs.count where
  numbered := made.numbered even numbers fits
  shaped := by
    rw [made.count, ← dim]
    intro points member p present
    obtain ⟨net, x, mapped⟩ := made.mappedAt points member p present
    exact mapped.shaped
  dofs := by rw [made.dofs, made.data, List.length_map, List.length_map]
  points := by rw [made.points, made.data, List.length_map, List.length_map]

theorem Made.nonneg (nonneg : ∀ n, Quadrature.Nonneg (ctx.lines n)) :
    ∀ points ∈ b.tab.entities, ∀ p ∈ points, 0 ≤ p.weight := by
  refine made.forall_points fun facet points data found => ?_
  cases facet with
  | none => exact Tabulation.nonneg_volumeData found (Quadrature.nonneg_ofCell nonneg _ _)
  | some l => exact Tabulation.nonneg_facetData found (Quadrature.nonneg_ofCell nonneg _ _)

end Made

/-! ### Systems of energies -/

/-- A block with the kernel of an energy whose coefficient has a value. -/
structure Carries (rules : Calculus Quantity) (s : Setting) (n : Nat) (parameters : List (String × ℝ)) (b : Block ℝ)
    (E : Energy) : Prop where
  stores : b.Stores rules s E
  quadratic : E.Quadratic s
  given : E.modulus.Given parameters
  aligned : b.Aligned s n

/-- The energy of some blocks for two vectors of unknowns. -/
noncomputable def totalEnergy (s : Setting) (parameters : List (String × ℝ)) (blocks : List (Block ℝ))
    (energies : List Energy) (x y : Vec ℝ) : ℝ :=
  (List.zipWith (fun b E => b.energy s E parameters x y) blocks energies).sum

/-- The coefficients of the energy of some blocks. -/
noncomputable def stiffness (n : Nat) (s : Setting) (parameters : List (String × ℝ)) (blocks : List (Block ℝ))
    (energies : List Energy) : Matrix (Fin n) (Fin n) ℝ :=
  Matrix.of fun i j => totalEnergy s parameters blocks energies (List.ofFn (Pi.single i 1)) (List.ofFn (Pi.single j 1))

variable {parameters : List (String × ℝ)} {blocks : List (Block ℝ)} {energies : List Energy}

theorem totalEnergy_comm (x y : Vec ℝ) :
    totalEnergy s parameters blocks energies x y = totalEnergy s parameters blocks energies y x := by
  simp only [totalEnergy, energy_comm parameters x y]

theorem isSymm_stiffness : (stiffness n s parameters blocks energies).IsSymm :=
  Matrix.IsSymm.ext fun _ _ => totalEnergy_comm _ _

section Carried

variable (lawful : rules.Lawful) (carried : List.Forall₂ (Carries rules s n parameters) blocks energies)

include lawful carried

theorem isLinearMap_totalEnergy (y : Vec ℝ) :
    IsLinearMap ℝ fun x : Fin n → ℝ => totalEnergy s parameters blocks energies (List.ofFn x) y := by
  induction carried with
  | nil => exact ⟨fun _ _ => (add_zero 0).symm, fun c _ => (smul_zero c).symm⟩
  | @cons b E blocks energies own _ ih =>
      obtain ⟨name, boundary, made⟩ := own.stores
      obtain ⟨pairs, l, parts⟩ := Kernel.ofEnergy lawful own.quadratic made
      exact ((isLinearMap_energy parts parameters y).mk' _ + ih.mk' _).isLinear

/-- The matrix of the coefficients stands for the energy. -/
theorem dotProduct_stiffness (u w : Fin n → ℝ) :
    w ⬝ᵥ (stiffness n s parameters blocks energies).mulVec u =
      totalEnergy s parameters blocks energies (List.ofFn u) (List.ofFn w) := by
  have linear (y : Vec ℝ) := isLinearMap_totalEnergy lawful carried y
  let form : (Fin n → ℝ) →ₗ[ℝ] (Fin n → ℝ) →ₗ[ℝ] ℝ :=
    LinearMap.mk₂ ℝ (fun x y => totalEnergy s parameters blocks energies (List.ofFn x) (List.ofFn y))
      (fun x x' y => (linear _).map_add x x') (fun c x y => (linear _).map_smul c x)
      (fun x y y' => by
        rw [totalEnergy_comm, (linear _).map_add, totalEnergy_comm, totalEnergy_comm (List.ofFn y')])
      (fun c x y => by rw [totalEnergy_comm, (linear _).map_smul, totalEnergy_comm])
  have coefficients : LinearMap.toMatrix₂' ℝ form = stiffness n s parameters blocks energies := rfl
  rw [← coefficients, ← Matrix.toLinearMap₂'_apply', Matrix.toLinearMap₂'_toMatrix']
  exact totalEnergy_comm _ _

/-- Where coefficients and weights are not negative, the matrix is positive semidefinite. -/
theorem posSemidef_stiffness (moduli : ∀ E ∈ energies, 0 ≤ E.modulus.value parameters)
    (weights : ∀ b ∈ blocks, ∀ points ∈ b.tab.entities, ∀ p ∈ points, 0 ≤ p.weight) :
    (stiffness n s parameters blocks energies).PosSemidef := by
  refine .of_dotProduct_mulVec_nonneg (Matrix.conjTranspose_eq_transpose_of_trivial _ |>.trans isSymm_stiffness) fun u => ?_
  rw [star_trivial, dotProduct_stiffness lawful carried, totalEnergy, ← List.map_uncurry_zip_eq_zipWith]
  refine List.sum_nonneg (List.forall_mem_map.mpr fun t member => ?_)
  obtain ⟨block, energy⟩ := List.of_mem_zip member
  exact energy_self_nonneg (moduli t.2 energy) (weights t.1 block) _

/-- The system of energies at any state: the residual and the tangent, weighted with vectors, are the energy. -/
theorem assemble_energies {state : AssemblyState ℝ} {x : Fin n → ℝ} (given : state.parameters = parameters)
    (same : state.x = List.ofFn x) : ∃ sys, assemble blocks n state = .ok sys ∧ sys.residual.length = n ∧
      (∀ y, weighted (fun i => coordinate n i y) sys.residual.toArray =
        totalEnergy s parameters blocks energies (List.ofFn x) (List.ofFn y)) ∧
      ∀ y z, sys.tangent.weigh n (fun i j => coordinate n i y * coordinate n j z) =
        totalEnergy s parameters blocks energies (List.ofFn z) (List.ofFn y) := by
  subst given
  have kernels : List.Forall₂ (fun b E => (∃ pairs l, b.kernel.OfEnergy rules s E pairs l) ∧ b.Aligned s n ∧
      E.modulus.Given state.parameters) blocks energies := by
    refine carried.imp fun b E own => ?_
    obtain ⟨name, boundary, made⟩ := own.stores
    exact ⟨Kernel.ofEnergy lawful own.quadratic made, own.aligned, own.given⟩
  have sound : ∀ b ∈ blocks, b.Numbered n ∧ Kernel.Keyed b.kernel := by
    intro b member
    obtain ⟨E, -, ⟨pairs, l, parts⟩, aligned, -⟩ := Outcome.exists_of_matched_left kernels member
    exact ⟨aligned.numbered, Kernel.keyed parts.spec parts.built⟩
  have each : ∀ b ∈ blocks, ∃ cs, b.contributions state = .ok cs := by
    intro b member
    obtain ⟨E, -, ⟨pairs, l, parts⟩, aligned, value⟩ := Outcome.exists_of_matched_left kernels member
    exact contributions_of_energy parts aligned state value
  obtain ⟨sys, done⟩ := assemble_of_contributions each
  obtain ⟨length, residual, tangent⟩ := assemble_eq_ok sound done
  refine ⟨_, done, length, fun y => ?_, fun y z => ?_⟩
  · rw [residual, totalEnergy]
    refine congrArg List.sum (map_eq_zipWith (kernels.imp fun b E own => ?_))
    obtain ⟨⟨pairs, l, parts⟩, aligned, value⟩ := own
    exact residual_of_energy parts aligned state value lawful same y
  · rw [tangent, totalEnergy]
    refine congrArg List.sum (map_eq_zipWith (kernels.imp fun b E own => ?_))
    obtain ⟨⟨pairs, l, parts⟩, aligned, value⟩ := own
    exact tangent_of_energy parts aligned state value lawful same y z

/-- The tangent of energies is one matrix for all states, and the residual its product with the unknowns. -/
theorem assemble_stiffness {state : AssemblyState ℝ} {x : Fin n → ℝ} (given : state.parameters = parameters)
    (same : state.x = List.ofFn x) : ∃ sys, assemble blocks n state = .ok sys ∧
      (∀ i j : Fin n, sys.tangent.get i j = stiffness n s parameters blocks energies i j) ∧
      sys.residual = List.ofFn ((stiffness n s parameters blocks energies).mulVec x) := by
  obtain ⟨sys, done, length, residual, tangent⟩ := assemble_energies lawful carried given same
  refine ⟨sys, done, fun i j => ?_, ?_⟩
  · have entry := tangent (Pi.single i 1) (Pi.single j 1)
    simp only [coordinate_single] at entry
    rw [SparseMatrix.weigh_single _ i.isLt, sum_eq_single_of_mem j.val (mem_range.mpr j.isLt) fun r _ apart => by
      rw [if_neg apart, zero_mul], if_pos rfl, one_mul, totalEnergy_comm] at entry
    exact entry
  · refine List.ext_getElem (by simp [length]) fun i left right => ?_
    have inside : i < n := length ▸ left
    have entry := residual (Pi.single ⟨i, inside⟩ 1)
    simp only [coordinate_single] at entry
    rw [weighted_single (by simpa using left), ← dotProduct_stiffness lawful carried, single_one_dotProduct] at entry
    rw [List.getElem_ofFn, ← entry]
    simp [Array.getD, left]

end Carried

end Block

end Galerkin
