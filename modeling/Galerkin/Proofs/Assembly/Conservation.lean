import Mathlib
import Galerkin.Proofs.Assembly.Tangent
import Galerkin.Proofs.Assembly.Tasks
import Galerkin.Proofs.DofMap.Bijection
import Galerkin.Proofs.Kernel.Conservation
import Galerkin.Proofs.Linear.Sizes
import Galerkin.Proofs.Tabulation.Affine

/-!
Conservation: the residuals of a component at all control points sum up to what the points of all blocks supply to it,
as every basis sums to one and every share reaches numbers of its own component only.
-/

namespace Galerkin

open Finset
open Linear

namespace DofMap

variable {m : DofMap} {width next point c d i : Nat} {occupied : List Bool} {t : ℝ}

/-- `t` at the numbers of a component and zero elsewhere. -/
noncomputable def constantAt (m : DofMap) (c : Nat) (t : ℝ) (i : Nat) : ℝ := if i ∈ m.columns [c] then t else 0

/-- The vector with the same value at all control points for one component, and zero for the others. -/
noncomputable def constant (m : DofMap) (c : Nat) (t : ℝ) : Vec ℝ := (List.range m.count).map (m.constantAt c t)

theorem length_constant (m : DofMap) (c : Nat) (t : ℝ) : (m.constant c t).length = m.count := by
  rw [constant, List.length_map, List.length_range]

theorem getD_constant (inside : i < m.count) : (m.constant c t).getD i 0 = m.constantAt c t i := by
  rw [constant, List.getD_eq_getElem?_getD, List.getElem?_map, List.getElem?_range inside]
  rfl

theorem mem_columns : i ∈ m.columns [c] ↔ ∃ s, some s ∈ m.starts.toList ∧ i = s + c := by
  rw [columns, List.mem_flatMap]
  constructor
  · rintro ⟨start, member, inside⟩
    cases start with
    | none => cases inside
    | some s => exact ⟨s, member, List.mem_singleton.mp inside⟩
  · rintro ⟨s, member, rfl⟩
    exact ⟨some s, member, List.mem_singleton_self _⟩

/-- First numbers lie whole widths apart. -/
theorem dvd_of_mem_startsFrom {s : Nat} (member : some s ∈ startsFrom width next occupied) (aligned : width ∣ next) :
    width ∣ s := by
  induction occupied generalizing next with
  | nil => cases member
  | cons flag rest ih =>
      cases flag with
      | true =>
          cases List.mem_cons.mp member with
          | inl first =>
              cases first
              exact aligned
          | inr later => exact ih later (Nat.dvd_add aligned (Nat.dvd_refl width))
      | false => exact ih ((List.mem_cons.mp member).resolve_left (by simp)) aligned

/-- The number of a component belongs to no other component. -/
theorem mem_columns_of_row (numbered : ((ofOccupied width occupied).row point)[d]? = some (some i)) (component : c < width) :
    i ∈ (ofOccupied width occupied).columns [c] ↔ d = c := by
  obtain ⟨s, start, rfl, inside⟩ := start_of_row numbered
  have present : some s ∈ (ofOccupied width occupied).starts.toList :=
    Array.mem_toList_iff.mpr (Array.mem_of_getElem? start)
  rw [mem_columns]
  constructor
  · rintro ⟨other, member, same⟩
    obtain ⟨k, rfl⟩ := dvd_of_mem_startsFrom present (dvd_zero width)
    obtain ⟨l, rfl⟩ := dvd_of_mem_startsFrom member (dvd_zero width)
    have remainders := congrArg (· % width) same
    have below : d < width := inside
    simp only [Nat.mul_add_mod, Nat.mod_eq_of_lt below, Nat.mod_eq_of_lt component] at remainders
    exact remainders
  · rintro rfl
    exact ⟨s, present, rfl⟩

theorem columns_sublist (component : c < width) :
    ((ofOccupied width occupied).columns [c]).Sublist (List.range (ofOccupied width occupied).count) := by
  have one : [c].Sublist (List.range width) := List.singleton_sublist.mpr (List.mem_range.mpr component)
  rw [← columns_ofOccupied]
  refine List.Sublist.flatMap_right _ fun start _ => ?_
  cases start with
  | none => exact List.Sublist.refl []
  | some s => exact one.map (s + ·)

theorem weighted_constantAt {xs : Array ℝ} (distinct : (m.columns [c]).Nodup) (below : ∀ i ∈ m.columns [c], i < xs.size) :
    weighted (m.constantAt c 1) xs = ((m.columns [c]).map fun i => xs.getD i 0).sum := by
  have entries : ∀ i ∈ range xs.size, m.constantAt c 1 i * xs.getD i 0 =
      if i ∈ (m.columns [c]).toFinset then xs.getD i 0 else 0 := by
    intro i _
    simp only [constantAt, List.mem_toFinset, ite_mul, one_mul, zero_mul]
  have inside : (m.columns [c]).toFinset ⊆ range xs.size :=
    fun i member => mem_range.mpr (below i (List.mem_toFinset.mp member))
  rw [weighted, sum_congr rfl entries, sum_ite_mem, inter_eq_right.mpr inside, List.sum_toFinset _ distinct]

end DofMap

namespace Linear.SparseMatrix

/-- The terms of a row, each with the value at its column. -/
theorem sum_row {n : Nat} (row : List (Nat × ℝ)) {f : Nat → ℝ} (outside : ∀ j, n ≤ j → f j = 0) :
    (row.map fun u => u.2 * f u.1).sum = ∑ j ∈ range n, sumAt id row j * f j := by
  induction row with
  | nil => exact (sum_eq_zero fun j _ => by rw [sumAt_nil, zero_mul]).symm
  | cons u rest ih =>
      have first : ∑ j ∈ range n, (if u.1 = j then id u.2 else 0) * f j = u.2 * f u.1 := by
        simp only [ite_mul, zero_mul, id, sum_ite_eq, mem_range]
        by_cases inside : u.1 < n
        · rw [if_pos inside]
        · rw [if_neg inside, outside u.1 (not_lt.mp inside), mul_zero]
      simp only [sumAt_cons, add_mul, sum_add_distrib, first]
      rw [List.map_cons, List.sum_cons, ih]

theorem apply_eq_sums {n : Nat} {m : SparseMatrix ℝ} (ordered : Ordered n m) {v : Vec ℝ} (sized : v.length = n) :
    m.apply v = (List.range n).map fun i => ∑ j ∈ range n, m.get i j * v.getD j 0 := by
  have outside : ∀ j, n ≤ j → v.getD j 0 = 0 := fun j beyond => List.getD_eq_default _ _ (sized.trans_le beyond)
  refine List.ext_getElem (by simp [length_apply, ordered.rows]) fun i left right => ?_
  have inside : i < m.rows.size := length_apply m v ▸ left
  have row : m.rows.getD i [] = m.rows[i] := by simp [Array.getD, inside]
  have sums := sum_row (m.rows.getD i []) outside
  simp only [List.getElem_map, List.getElem_range, get, rowEntry_eq_sumAt (ordered.sorted i)]
  rw [← sums, row]
  simp [apply, Arithmetic.sumOf, total_eq_sum, Array.getD_eq_getD_getElem?]

end Linear.SparseMatrix

namespace Block

/-- A block whose bases sum to one, and whose numbers tell a component from the others. -/
structure Separates (m : DofMap) (c : Nat) (b : Block ℝ) : Prop where
  numbered : b.Numbered m.count
  unital : ∀ points ∈ b.tab.entities, ∀ p ∈ points, p.Unital b.tab.basisCount
  mem_iff : ∀ row ∈ b.dofs, ∀ a < b.tab.basisCount, ∀ d < b.kernel.width,
    row.getD (a * b.kernel.width + d) 0 ∈ m.columns [c] ↔ d = c

/-- What the points of a block supply to a component: the densities of the component itself and of its rate, not those
of their derivatives in space. -/
noncomputable def supply (c : Nat) (s : AssemblyState ℝ) (b : Block ℝ) : ℝ :=
  b.total fun e _ p => p.weight * ∑ i ∈ b.kernel.plain c,
    Kernel.densityOf (b.kernel.pointValues ((b.dataAt s).inputs b.kernel.paramNames) b.tab.basisCount e p)
      b.kernel.residual i

variable {m : DofMap} {c n : Nat} {b : Block ℝ} {blocks : List (Block ℝ)} {s : AssemblyState ℝ} {sys : System ℝ} {t : ℝ}

section Made

variable {ctx : Context ℝ} {places : List (Option (Nat × Option Nat))} {parts : List Part}
  (made : Made ctx places b parts)

include made

/-- What holds of all data of elements and of facets holds at all points of a block. -/
theorem Made.forall_points {P : PointData ℝ → Prop}
    (each : ∀ facet points data, ctx.dataOf facet points = .ok data → ∀ p ∈ data, P p) :
    ∀ points ∈ b.tab.entities, ∀ p ∈ points, P p := by
  intro points member p present
  rw [made.data] at member
  obtain ⟨part, among, rfl⟩ := List.mem_map.mp member
  obtain ⟨_, -, there, -, holds⟩ := Outcome.exists_of_matched made.located among
  exact each there.2 _ _ holds.data p present

/-- All points of a block stand at places of the reference cell. -/
theorem Made.mappedAt : ∀ points ∈ b.tab.entities, ∀ p ∈ points,
    ∃ net x, Tabulation.MappedAt ctx.space.element ctx.space.mesh.dim net x p := by
  refine made.forall_points fun facet points data found p member => ?_
  cases facet with
  | none =>
      obtain ⟨q, -, mapped⟩ := Outcome.exists_of_matched (Tabulation.volumeData_mapped found) member
      exact ⟨_, _, mapped⟩
  | some l =>
      obtain ⟨_, -, matched⟩ := Tabulation.facetData_mapped found
      obtain ⟨q, -, x, -, mapped⟩ := Outcome.exists_of_matched matched member
      exact ⟨_, _, mapped⟩

theorem Made.unital {k : Element.Kind} {cell : Cell} (known : Element.OfKind k cell ctx.space.element) :
    ∀ points ∈ b.tab.entities, ∀ p ∈ points, p.Unital b.tab.basisCount := by
  rw [made.count]
  intro points member p present
  obtain ⟨net, x, mapped⟩ := made.mappedAt points member p present
  exact mapped.unital known

variable (even : ctx.space.Even)

include even

/-- Each row of a block lists the numbers at the control points of an element. -/
theorem Made.elementDofs {row : List Nat} (member : row ∈ b.dofs) :
    ∃ points : List Nat, points.length = b.tab.basisCount ∧ ctx.dofs.elementDofs points = row.map some := by
  rw [made.dofs] at member
  obtain ⟨p, among, rfl⟩ := List.mem_map.mp member
  obtain ⟨_, -, _, -, holds⟩ := Outcome.exists_of_matched made.located among
  refine ⟨p.points, ?_, holds.dofs⟩
  rw [made.count]
  exact even p.points (Array.mem_of_getElem? holds.points)

variable {width : Nat} {occupied : List Bool} (numbers : ctx.dofs = .ofOccupied width occupied)
  (fits : b.kernel.width = width)

include numbers fits

theorem Made.numbered : b.Numbered ctx.dofs.count := by
  refine ⟨fun row member => ?_, fun row member i inside => ?_⟩
  · obtain ⟨points, count, same⟩ := made.elementDofs even member
    have lengths := congrArg List.length same
    rw [DofMap.length_elementDofs, List.length_map, numbers, count] at lengths
    rw [← lengths, fits]
    rfl
  · obtain ⟨points, -, same⟩ := made.elementDofs even member
    have listed : some i ∈ ctx.dofs.elementDofs points := same ▸ List.mem_map_of_mem inside
    obtain ⟨point, -, numbered⟩ := List.mem_flatMap.mp listed
    rw [numbers] at numbered ⊢
    exact DofMap.lt_count_ofOccupied numbered

theorem Made.mem_columns {c : Nat} (component : c < width) {row : List Nat} (member : row ∈ b.dofs) {a d : Nat}
    (point : a < b.tab.basisCount) (inside : d < b.kernel.width) :
    row.getD (a * b.kernel.width + d) 0 ∈ ctx.dofs.columns [c] ↔ d = c := by
  obtain ⟨points, count, same⟩ := made.elementDofs even member
  have bound := (made.numbered even numbers fits).inside member point inside
  have there : points[a]? = some points[a] := List.getElem?_eq_getElem (count.symm ▸ point)
  have rows : ∀ q ∈ points, (ctx.dofs.row q).length = b.kernel.width := by
    intro q _
    rw [DofMap.length_row, numbers, fits]
    rfl
  have number : (ctx.dofs.row points[a])[d]? = some (some (row.getD (a * b.kernel.width + d) 0)) := by
    have found := getElem?_flatMap rows there inside
    rw [← found, List.getD_eq_getElem _ _ bound]
    change (ctx.dofs.elementDofs points)[_]? = _
    rw [same, List.getElem?_map, List.getElem?_eq_getElem bound]
    rfl
  rw [numbers] at number ⊢
  exact DofMap.mem_columns_of_row number component

/-- A block on some places separates the components of the numbering that it is made with. -/
theorem Made.separates {k : Element.Kind} {cell : Cell} (known : Element.OfKind k cell ctx.space.element)
    {c : Nat} (component : c < width) : b.Separates ctx.dofs c :=
  ⟨made.numbered even numbers fits, made.unital known,
    fun _ member _ point _ inside => made.mem_columns even numbers fits component member point inside⟩

end Made

theorem total_congr {f g : Nat → List Nat → PointData ℝ → ℝ} (same : ∀ e row points, b.dofs[e]? = some row →
    b.tab.entities[e]? = some points → ∀ p ∈ points, f e row p = g e row p) : b.total f = b.total g := by
  refine congrArg List.sum (List.map_congr_left fun u member => ?_)
  obtain ⟨row, points⟩ := mem_zip_zipIdx member
  exact congrArg List.sum (List.map_congr_left fun p present => same _ _ _ row points p present)

theorem total_eq_zero {f : Nat → List Nat → PointData ℝ → ℝ} (zero : ∀ e row points, b.dofs[e]? = some row →
    b.tab.entities[e]? = some points → ∀ p ∈ points, f e row p = 0) : b.total f = 0 := by
  rw [total_congr (g := fun _ _ _ => 0) zero]
  simp [total]

/-- Where the pairs of its form are smooth, a block supplies to a component the derivatives of the test sides by the
component and by its rate, times the trial sides. -/
theorem supply_eq {rules : Calculus Quantity} (lawful : rules.Lawful) {setting : Setting} {name : String}
    {boundary : Bool} {form : Expr} {pairs : List (Formula Quantity × Formula Quantity)}
    (compiled : Kernel.ofForm rules setting name boundary form = .ok b.kernel)
    (expanded : WeakForm.expand setting name form = .ok pairs) (smooth : b.SmoothAt setting pairs s) (c : Nat) :
    b.supply c s = b.total fun e _ p => p.weight * ∑ q ∈ (unknownsOf setting pairs c).filter (·.axisOf = none),
      (pairs.map (pairDensity ((b.dataAt s).value setting b.tab.basisCount e p) q)).sum := by
  obtain ⟨_, l, again, spec, built⟩ := Kernel.ofForm_eq_ok lawful compiled
  cases again.symm.trans expanded
  refine total_congr fun e row points _ there p present => ?_
  have regular := fun pair among => (smooth e points there p present pair among).imp_right Formula.Smooth.defined
  rw [Kernel.sum_plain lawful spec built regular]

theorem Separates.constantAt (separates : b.Separates m c) {row : List Nat} (member : row ∈ b.dofs) (t : ℝ) :
    ∀ a < b.tab.basisCount, ∀ d < b.kernel.width,
      m.constantAt c t (row.getD (a * b.kernel.width + d) 0) = if d = c then t else 0 := by
  intro a point d component
  simp only [DofMap.constantAt, separates.mem_iff row member a point d component]

theorem ordered_assemble (numbered : ∀ b ∈ blocks, b.Numbered n) (done : assemble blocks n s = .ok sys) :
    SparseMatrix.Ordered n sys.tangent := by
  obtain ⟨parts, mapped, last⟩ := Outcome.bind_eq_ok.mp done
  cases last
  have below : ∀ c ∈ parts.flatten, c.Below n := by
    intro c member
    obtain ⟨cs, present, inside⟩ := List.mem_flatten.mp member
    obtain ⟨b, among, made⟩ := Outcome.exists_of_matched (Outcome.mapM_eq_ok.mp mapped) present
    exact (contributions_eq_ok made).below (numbered b among) c inside
  exact (Raises.foldl (fun c member => Contribution.gains_addTangent (below c member) fun _ _ => 0) _
    (SparseMatrix.ordered_zero n)).1

/-- A block that can be evaluated can be read at all points. -/
theorem readable_of_assemble (done : assemble blocks n s = .ok sys) (member : b ∈ blocks) {e : Nat}
    {points : List (PointData ℝ)} (here : b.tab.entities[e]? = some points) :
    ∀ p ∈ points, Kernel.Readable b.kernel ((b.dataAt s).inputs b.kernel.paramNames) e p := by
  obtain ⟨parts, mapped, _⟩ := Outcome.bind_eq_ok.mp done
  obtain ⟨cs, _, made⟩ := Outcome.exists_of_matched_left (Outcome.mapM_eq_ok.mp mapped) member
  exact (contributions_eq_ok made).readable here

section Assembled

variable (sound : ∀ b ∈ blocks, b.Separates m c ∧ Kernel.Keyed b.kernel) (done : assemble blocks m.count s = .ok sys)

include sound done

/-- The residuals of a component at all control points sum up to what all blocks supply to it. -/
theorem sum_residual (distinct : (m.columns [c]).Nodup) (below : ∀ i ∈ m.columns [c], i < m.count) :
    ((m.columns [c]).map fun i => sys.residual.getD i 0).sum = (blocks.map (supply c s)).sum := by
  obtain ⟨length, residual, -⟩ := assemble_eq_ok (fun b member => ⟨(sound b member).1.numbered, (sound b member).2⟩) done
  have entries : ((m.columns [c]).map fun i => sys.residual.getD i 0).sum =
      weighted (m.constantAt c 1) sys.residual.toArray := by
    rw [DofMap.weighted_constantAt distinct (by simpa [length] using below)]
    simp [Array.getD_eq_getD_getElem?]
  rw [entries, residual]
  refine congrArg List.sum (List.map_congr_left fun b member => total_congr fun e row points here there p present => ?_)
  obtain ⟨separates, keyed⟩ := sound b member
  have readable := readable_of_assemble done member there p present
  have unital := separates.unital points (List.mem_of_getElem? there) p present
  rw [Kernel.pointResidual_constant keyed (inputs_shaped b s _) readable unital
    (separates.constantAt (List.mem_of_getElem? here) 1), one_mul]

/-- Where no kernel reads a component itself, the tangent for values alone takes its constants to zero. -/
theorem apply_constant (omits : ∀ b ∈ blocks, ¬ b.kernel.Reads c) (still : s.rateWeight = 0) :
    sys.tangent.apply (m.constant c t) = Vec.zeros m.count := by
  obtain ⟨-, -, tangent⟩ := assemble_eq_ok (fun b member => ⟨(sound b member).1.numbered, (sound b member).2⟩) done
  have ordered := ordered_assemble (fun b member => (sound b member).1.numbered) done
  have row : ∀ i ∈ List.range m.count, ∑ j ∈ range m.count, sys.tangent.get i j * (m.constant c t).getD j 0 = 0 := by
    intro i member
    let ψ : Nat → ℝ := fun r => if r = i then 1 else 0
    calc ∑ j ∈ range m.count, sys.tangent.get i j * (m.constant c t).getD j 0
        = sys.tangent.weigh m.count fun r j => ψ r * m.constantAt c t j := by
          rw [SparseMatrix.weigh_single sys.tangent (List.mem_range.mp member)]
          exact sum_congr rfl fun j column => by rw [DofMap.getD_constant (mem_range.mp column), mul_comm]
      _ = (blocks.map fun b => 0).sum := by
          rw [tangent, still]
          refine congrArg List.sum (List.map_congr_left fun b among => total_eq_zero fun e row points here there p present => ?_)
          obtain ⟨separates, keyed⟩ := sound b among
          have readable := readable_of_assemble done among there p present
          have unital := separates.unital points (List.mem_of_getElem? there) p present
          exact Kernel.pointTangent_constant keyed (inputs_shaped b s _) readable unital
            (separates.constantAt (List.mem_of_getElem? here) t) (omits b among) fun r => ψ (row.getD r 0)
      _ = 0 := by simp
  rw [SparseMatrix.apply_eq_sums ordered (m.length_constant c t), List.map_congr_left row, List.map_const',
    List.length_range, Vec.zeros]

end Assembled

/-! ### Raising a component -/

theorem getD_add_constant {x : Vec ℝ} (sized : x.length = m.count) {i : Nat} (inside : i < m.count) :
    (Vec.add x (m.constant c t)).getD i 0 = x.getD i 0 + m.constantAt c t i := by
  have left : i < x.length := sized.symm ▸ inside
  have right : i < (m.constant c t).length := (m.length_constant c t).symm ▸ inside
  rw [← DofMap.getD_constant inside, Vec.add, List.getD_eq_getElem _ _ left, List.getD_eq_getElem _ _ right,
    List.getD_eq_getElem _ _ (by rw [List.length_zipWith]; exact lt_min left right), List.getElem_zipWith]

theorem get_gather (numbered : b.Numbered n) (x : Vec ℝ) {e a d : Nat} {row : List Nat} (here : b.dofs[e]? = some row)
    (point : a < b.tab.basisCount) (component : d < b.kernel.width) :
    (b.gather x).get e a d = .ok (x.getD (row.getD (a * b.kernel.width + d) 0) 0) := by
  have place := b.data_gather x e a d
  rw [numberAt_eq numbered here point component, Option.map_some] at place
  have inside : e < (b.gather x).elements ∧ a < (b.gather x).points ∧ d < (b.gather x).width :=
    ⟨(List.getElem?_eq_some_iff.mp here).1, point, component⟩
  unfold NodalValues.get
  rw [if_pos inside]
  split
  · next y found =>
      cases found.symm.trans place
      rfl
  · next missing => cases missing.symm.trans place

/-- A block reads the raised component raised and all others as before. -/
theorem gather_raised (separates : b.Separates m c) {x : Vec ℝ} (sized : x.length = m.count) (t : ℝ) :
    Kernel.Raised c t (b.gather x) (b.gather (Vec.add x (m.constant c t))) := by
  refine ⟨rfl, fun e a d => ?_⟩
  by_cases inside : e < b.dofs.length ∧ a < b.tab.basisCount ∧ d < b.kernel.width
  · obtain ⟨element, point, component⟩ := inside
    have here := List.getElem?_eq_getElem element
    have member := List.getElem_mem element
    have bound := separates.numbered.inside member point component
    have number : b.dofs[e].getD (a * b.kernel.width + d) 0 < m.count := by
      rw [List.getD_eq_getElem _ _ bound]
      exact separates.numbered.below _ member _ (List.getElem_mem bound)
    rw [get_gather separates.numbered _ here point component, get_gather separates.numbered _ here point component,
      getD_add_constant sized number, separates.constantAt member t a point d component]
    rfl
  · have outside (y : Vec ℝ) : (b.gather y).get e a d = .error .outOfRange := if_neg inside
    rw [outside, outside]
    rfl

/-- Where no kernel reads a component itself, raising it changes nothing that is assembled. -/
theorem assemble_raised (separates : ∀ b ∈ blocks, b.Separates m c) (omits : ∀ b ∈ blocks, ¬ b.kernel.Reads c)
    (sized : s.x.length = m.count) (t : ℝ) :
    assemble blocks n { s with x := Vec.add s.x (m.constant c t) } = assemble blocks n s := by
  have each : ∀ b ∈ blocks, b.contributions { s with x := Vec.add s.x (m.constant c t) } = b.contributions s := by
    intro b member
    rw [contributions, contributions]
    exact congrArg (· >>= fun systems => pure (List.zipWith Contribution.mk b.dofs systems))
      (Kernel.evaluate_raised (gather_raised (separates b member) sized t) (omits b member) (separates b member).unital ..)
  rw [assemble, assemble, Outcome.mapM_congr each]

end Block

end Galerkin
