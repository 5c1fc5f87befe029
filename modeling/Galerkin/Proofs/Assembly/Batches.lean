import Mathlib
import Galerkin.Proofs.ConsistentTangent

/-!
Batches without elements or facets. The numbers of no elements have no shape, so that a work piece without
elements, or a region that has a form and no facets, leaves a domain without blocks.
-/

namespace Galerkin

namespace Block

variable {α : Type} [Scalar α] {c : Context α} {w : WorkPiece} {r : Region}

/-- Why a region without facets has no block; without a form it needs none. -/
def emptyRegion (w : WorkPiece) (r : Region) : Option Failure :=
  match r.form, r.kernel with
  | none, _ => none
  | some _, none => some (.misuse (.regionNotCompiled w.name r.name))
  | some _, some _ => some .misshapen

/-- Why a work piece without elements has no block. -/
def emptyPiece (w : WorkPiece) : Failure :=
  match w.kernel with
  | none => .misuse (.pieceNotCompiled w.name)
  | some _ => .misshapen

theorem ofPiece_of_empty (empty : w.elements = []) : ofPiece c w = .error (emptyPiece w) := by
  unfold ofPiece emptyPiece
  cases w.kernel with
  | none => rfl
  | some k =>
      rw [empty]
      rfl

theorem emptyRegion_eq_none : emptyRegion w r = none ↔ r.form.isSome = false := by
  unfold emptyRegion
  cases r.form with
  | none => simp
  | some form => cases r.kernel <;> simp

theorem ofRegion_of_empty (empty : r.facets = []) {e : Failure} (fails : emptyRegion w r = some e) :
    ofRegion c w r = .error e := by
  unfold emptyRegion at fails
  unfold ofRegion
  split at fails
  · cases fails
  · next unready =>
      cases fails
      rw [unready]
      rfl
  · next ready =>
      cases fails
      rw [ready, empty]
      rfl

/-- The blocks of a work piece with one more region: the others do not depend on it. -/
theorem allOfPiece_addRegion {first last : List Region} (regions : w.regions = first ++ last)
    {blocks : List (Block α)} (built : allOfPiece c w = .ok blocks) (empty : r.facets = []) :
    allOfPiece c { w with regions := first ++ r :: last } = (emptyRegion w r).elim (.ok blocks) .error := by
  obtain ⟨inside, own, others⟩ := Outcome.bind_eq_ok.mp built
  cases outcome : emptyRegion w r with
  | none =>
      have unformed := emptyRegion_eq_none.mp outcome
      have same : (first ++ r :: last).filter (·.form.isSome) = w.regions.filter (·.form.isSome) := by
        rw [regions, List.filter_append, List.filter_cons_of_neg (by simp [unformed]), List.filter_append]
      refine Outcome.bind_eq_ok.mpr ⟨inside, own, ?_⟩
      rw [same]
      exact others
  | some e =>
      have formed : r.form.isSome = true := by
        by_contra absent
        rw [emptyRegion_eq_none.mpr (Bool.eq_false_iff.mpr absent)] at outcome
        cases outcome
      obtain ⟨outside, mapped, -⟩ := Outcome.bind_eq_ok.mp others
      rw [regions, List.filter_append] at mapped
      obtain ⟨earlier, done⟩ := Outcome.mapM_of_append mapped
      have listed : (first ++ r :: last).filter (·.form.isSome) =
          first.filter (·.form.isSome) ++ r :: last.filter (·.form.isSome) := by
        rw [List.filter_append, List.filter_cons, if_pos formed]
      refine Outcome.bind_eq_error.mpr (Or.inr ⟨inside, own, Outcome.bind_eq_error.mpr (Or.inl ?_)⟩)
      rw [listed]
      exact Outcome.mapM_eq_error done (ofRegion_of_empty empty outcome) _

/-! ### Domains -/

variable {lines : LineRules α} {d : Domain α} {blocks : List (Block α)}

theorem allOf_eq_ok : allOf lines d = .ok blocks ↔ ∃ x n parts, d.discretization = some x ∧ x.numbered = some n ∧
    d.pieces.mapM (allOfPiece ⟨x.space, n.dofs, lines⟩) = .ok parts ∧ parts.flatten = blocks := by
  unfold allOf
  constructor
  · intro built
    split at built
    · next x discretized =>
        split at built
        · next n numbered =>
            obtain ⟨parts, mapped, same⟩ := Outcome.bind_eq_ok.mp built
            exact ⟨x, n, parts, discretized, numbered, mapped, Except.ok.inj same⟩
        · cases built
    · cases built
  · rintro ⟨x, n, parts, discretized, numbered, mapped, same⟩
    simp only [discretized, numbered]
    exact Outcome.bind_eq_ok.mpr ⟨parts, mapped, congrArg Except.ok same⟩

theorem allOf_eq_error {x : Discretization α} {n : Galerkin.Numbered α} (discretized : d.discretization = some x)
    (numbered : x.numbered = some n) {pieces : List WorkPiece} {e : Failure}
    (fails : pieces.mapM (allOfPiece ⟨x.space, n.dofs, lines⟩) = .error e) :
    allOf lines { d with pieces } = .error e := by
  unfold allOf
  simp only [discretized, numbered]
  exact Outcome.bind_eq_error.mpr (Or.inl fails)

/-- Blocks are made only of work pieces with elements and, where there is a form, of regions with facets. -/
theorem nonempty_of_allOf (built : allOf lines d = .ok blocks) {w : WorkPiece} (member : w ∈ d.pieces) :
    w.elements ≠ [] ∧ ∀ r ∈ w.regions, r.form.isSome = true → r.facets ≠ [] := by
  obtain ⟨x, n, parts, -, -, mapped, -⟩ := allOf_eq_ok.mp built
  obtain ⟨part, -, made⟩ := Outcome.exists_of_matched_left (Outcome.mapM_eq_ok.mp mapped) member
  obtain ⟨inside, own, others⟩ := Outcome.bind_eq_ok.mp made
  obtain ⟨regions, outside, -⟩ := Outcome.bind_eq_ok.mp others
  constructor
  · intro empty
    rw [ofPiece_of_empty empty] at own
    cases own
  · intro r inner formed empty
    obtain ⟨b, -, done⟩ := Outcome.exists_of_matched_left (Outcome.mapM_eq_ok.mp outside)
      (List.mem_filter.mpr ⟨inner, formed⟩)
    cases outcome : emptyRegion w r with
    | none => exact absurd formed (Bool.eq_false_iff.mp (emptyRegion_eq_none.mp outcome))
    | some e =>
        rw [ofRegion_of_empty empty outcome] at done
        cases done

theorem allOf_addRegion (built : allOf lines d = .ok blocks) {before after : List WorkPiece} {w : WorkPiece}
    (pieces : d.pieces = before ++ w :: after) {first last : List Region} (regions : w.regions = first ++ last)
    {r : Region} (empty : r.facets = []) :
    allOf lines { d with pieces := before ++ { w with regions := first ++ r :: last } :: after } =
      (emptyRegion w r).elim (.ok blocks) .error := by
  obtain ⟨x, n, parts, discretized, numbered, mapped, same⟩ := allOf_eq_ok.mp built
  rw [pieces] at mapped
  obtain ⟨part, -, made⟩ := Outcome.exists_of_matched_left (Outcome.mapM_eq_ok.mp mapped)
    (List.mem_append_right before List.mem_cons_self)
  have changed := allOfPiece_addRegion regions made empty
  cases outcome : emptyRegion w r with
  | none =>
      rw [outcome] at changed
      refine allOf_eq_ok.mpr ⟨x, n, parts, discretized, numbered, ?_, same⟩
      rw [List.mapM_append, List.mapM_cons, changed.trans made.symm, ← List.mapM_cons, ← List.mapM_append]
      exact mapped
  | some e =>
      rw [outcome] at changed
      obtain ⟨earlier, done⟩ := Outcome.mapM_of_append mapped
      exact allOf_eq_error discretized numbered (Outcome.mapM_eq_error done changed after)

theorem allOf_addPiece (built : allOf lines d = .ok blocks) {before after : List WorkPiece}
    (pieces : d.pieces = before ++ after) {w : WorkPiece} (empty : w.elements = []) :
    allOf lines { d with pieces := before ++ w :: after } = .error (emptyPiece w) := by
  obtain ⟨x, n, parts, discretized, numbered, mapped, -⟩ := allOf_eq_ok.mp built
  rw [pieces] at mapped
  obtain ⟨earlier, done⟩ := Outcome.mapM_of_append mapped
  have fails : allOfPiece ⟨x.space, n.dofs, lines⟩ w = .error (emptyPiece w) :=
    Outcome.bind_eq_error.mpr (Or.inl (ofPiece_of_empty empty))
  exact allOf_eq_error discretized numbered (Outcome.mapM_eq_error done fails after)

/-- A batch without entities is neutral only where nothing is to be assembled on it: a region without facets
leaves the blocks as they are if it has no form, and no blocks are made if it has one; nor are any made with a work
piece without elements, nor of a domain that was compiled with such a batch. -/
theorem allOf_empty_batches {lines : LineRules ℝ} {d : Domain ℝ} {blocks : List (Block ℝ)}
    (built : allOf lines d = .ok blocks) :
    (∀ before w after, d.pieces = before ++ w :: after → ∀ first last, w.regions = first ++ last →
      ∀ r : Region, r.facets = [] →
        allOf lines { d with pieces := before ++ { w with regions := first ++ r :: last } :: after } =
          match r.form, r.kernel with
          | none, _ => .ok blocks
          | some _, none => .error (.misuse (.regionNotCompiled w.name r.name))
          | some _, some _ => .error .misshapen) ∧
      (∀ before after, d.pieces = before ++ after → ∀ w : WorkPiece, w.elements = [] →
        allOf lines { d with pieces := before ++ w :: after } =
          match w.kernel with
          | none => .error (.misuse (.pieceNotCompiled w.name))
          | some _ => .error .misshapen) ∧
      ∀ rules backend d₀, (Domain.compile rules backend).run.run d₀ = (.ok (), d) →
        ∀ w ∈ d₀.pieces, w.elements ≠ [] ∧ ∀ r ∈ w.regions, r.form.isSome = true → r.facets ≠ [] := by
  refine ⟨fun before w after pieces first last regions r empty => ?_, fun before after pieces w empty => ?_,
    fun rules backend d₀ compiled w member => ?_⟩
  · rw [allOf_addRegion built pieces regions empty, emptyRegion]
    cases r.form with
    | none => rfl
    | some form => cases r.kernel <;> rfl
  · rw [allOf_addPiece built pieces empty, emptyPiece]
    cases w.kernel <;> rfl
  · obtain ⟨_, -, progress⟩ := Domain.compile_progress compiled
    have listed : w.uncompiled ∈ d.pieces.map (·.uncompiled) := progress.pieces ▸ List.mem_map_of_mem member
    obtain ⟨v, present, same⟩ := List.mem_map.mp listed
    obtain ⟨-, elements, -, -, regions⟩ := WorkPiece.mk.inj same
    obtain ⟨some, others⟩ := nonempty_of_allOf built present
    refine ⟨elements ▸ some, fun r inside formed => ?_⟩
    have bare : { r with kernel := none } ∈ v.regions.map fun r => { r with kernel := none } :=
      regions ▸ List.mem_map_of_mem inside
    obtain ⟨q, among, equal⟩ := List.mem_map.mp bare
    obtain ⟨-, facets, form, -⟩ := Region.mk.inj equal
    exact facets ▸ others q among (form ▸ formed)

section Rod

open Simulation

/-- A region of the rod without facets. -/
def tip (form : Option Expr) (k : Option CompiledKernel) : Region := ⟨"tip", [], form, k⟩

noncomputable def rodWith (regions : List Region) (others : List WorkPiece) : Domain ℝ :=
  { compiledRod with
    pieces := ⟨"storage", [0], some storage, some ⟨storageKernel, .sequential⟩, regions⟩ :: others }

theorem allOf_rodWith :
    allOf midpointRules (rodWith [tip none none] []) = .ok [rodBlock] ∧
      allOf midpointRules (rodWith [tip (some storage) (some ⟨storageKernel, .sequential⟩)] []) =
        .error .misshapen ∧
      allOf midpointRules (rodWith [] [⟨"other", [], some storage, some ⟨storageKernel, .sequential⟩, []⟩]) =
        .error .misshapen := by
  obtain ⟨region, piece, -⟩ := allOf_empty_batches allOf_rod
  exact ⟨region [] _ [] rfl [] [] rfl (tip none none) rfl,
    region [] _ [] rfl [] [] rfl (tip (some storage) (some ⟨storageKernel, .sequential⟩)) rfl,
    piece [_] [] rfl ⟨"other", [], some storage, some ⟨storageKernel, .sequential⟩, []⟩ rfl⟩

def tipKernel : Kernel := { storageKernel with name := "storage/tip", boundary := true }

theorem ofForm_tip : Kernel.ofForm .textbook Kernel.line "storage/tip" true storage = .ok tipKernel := by cbv

/-- The rod has blocks, and none after a region without facets was given a form and compiled. -/
theorem allOf_tip_misshapen :
    allOf midpointRules compiledRod = .ok [rodBlock] ∧
      ∃ d, (do
        Domain.addBoundary "storage" "tip" []
        Domain.assignBoundaryForm "storage" "tip" storage
        Domain.compile .textbook "sequential").run.run compiledRod = (.ok (), d) ∧
      allOf midpointRules d = .error .misshapen := by
  let k : CompiledKernel := ⟨storageKernel, .sequential⟩
  let l : CompiledKernel := ⟨tipKernel, .sequential⟩
  refine ⟨allOf_rod, rodWith [tip (some storage) (some l)] [], ?_, ?_⟩
  · refine Outcome.run_bind_eq_ok.mpr ⟨(), rodWith [tip none none] [], rfl, ?_⟩
    refine Outcome.run_bind_eq_ok.mpr ⟨(), rodWith [tip (some storage) none] [], rfl, ?_⟩
    refine Outcome.run_bind_eq_ok.mpr ⟨_, _, rfl, ?_⟩
    refine Outcome.run_bind_eq_ok.mpr ⟨(), rodWith [tip (some storage) (some l)] [], ?_, rfl⟩
    refine Outcome.run_bind_eq_ok.mpr ⟨k, _, Outcome.run_lift_eq_ok.mpr ⟨?_, rfl⟩, ?_⟩
    · exact Outcome.bind_eq_ok.mpr ⟨_, ofForm_storage, rfl⟩
    · refine Outcome.run_bind_eq_ok.mpr ⟨(), rodWith [tip (some storage) none] [], rfl, ?_⟩
      refine Outcome.run_bind_eq_ok.mpr ⟨(), rodWith [tip (some storage) (some l)] [], ?_, rfl⟩
      refine Outcome.run_bind_eq_ok.mpr ⟨l, _, Outcome.run_lift_eq_ok.mpr ⟨?_, rfl⟩, rfl⟩
      exact Outcome.bind_eq_ok.mpr ⟨_, ofForm_tip, rfl⟩
  · have pieces : compiledRod.pieces = [] ++ ⟨"storage", [0], some storage, some k, []⟩ :: [] := rfl
    have regions : ([] : List Region) = [] ++ [] := rfl
    exact allOf_addRegion allOf_rod pieces regions rfl

end Rod

end Block

end Galerkin
