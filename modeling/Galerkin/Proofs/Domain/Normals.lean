import Mathlib
import Galerkin.Proofs.Domain.Conservation
import Galerkin.Proofs.Domain.Entities
import Galerkin.Proofs.Kernel.Refusals
import Galerkin.Proofs.Linearization.Normals

/-!
Facet normals stay on facets. The kernel inside a work piece has no slot for the normal, whatever was done to the
domain, so that assembly never asks for normals where there are none.
-/

namespace Galerkin

theorem SymbolTable.source_of_mem_slots {t : SymbolTable} {slots : List Slot} (unused : t.usesNormal = false)
    (arranged : t.slots = .ok slots) : ∀ s ∈ slots, s.source ≠ .normal := by
  intro s member normal
  unfold SymbolTable.slots at arranged
  split at arranged
  · obtain ⟨e, sorted, made⟩ := Outcome.exists_of_matched (Outcome.mapM_eq_ok.mp arranged) member
    rw [slot_eq_ok made] at normal
    have listed : e ∈ t.entries := (List.mergeSort_perm t.entries _).subset sorted
    have other := List.any_eq_false.mp unused e listed
    cases kind : e.1 with
    | normal c => exact other (by rw [kind]; rfl)
    | unknown field comps timeOrder axis =>
        rw [kind, Quantity.source] at normal
        split at normal <;> cases normal
    | _ => rw [kind] at normal; cases normal
  · cases arranged

namespace Kernel

/-- Does a kernel do without the facet normal? -/
structure Interior (k : Kernel) : Prop where
  unused : k.usesNormal = false
  slots : ∀ s ∈ k.slots, s.source ≠ .normal

theorem interior_ofForm {rules : Calculus Quantity} {s : Setting} {name : String} {form : Expr} {k : Kernel}
    (done : ofForm rules s name false form = .ok k) : k.Interior := by
  refine ⟨usesNormal_ofForm done, ?_⟩
  obtain ⟨l, linear, done⟩ := Outcome.bind_eq_ok.mp done
  unfold ofLinearization at done
  simp only at done
  split at done
  · cases done
  · obtain ⟨slots, arranged, done⟩ := Outcome.bind_eq_ok.mp done
    cases done
    exact SymbolTable.source_of_mem_slots (Linearization.usesNormal_ofForm linear) arranged

end Kernel

/-! ### Life cycles -/

namespace Domain

variable {rules : Calculus Quantity} {d : Domain ℝ}

/-- The kernels of all work pieces, apart from those of their regions, do without the facet normal. -/
def Sided (d : Domain ℝ) : Prop := ∀ w ∈ d.pieces, ∀ k, w.kernel = some k → k.kernel.Interior

theorem sided_ofMesh (mesh : Mesh ℝ) : (ofMesh mesh).Sided := nofun

theorem sided_modifyPiece {name : String} {f : WorkPiece → WorkPiece} (sided : d.Sided)
    (each : ∀ w ∈ d.pieces, ∀ k, (f w).kernel = some k → k.kernel.Interior) : (d.modifyPiece name f).Sided := by
  intro v member
  obtain ⟨w, piece, rfl⟩ := List.mem_map.mp member
  split
  · exact each w piece
  · exact sided w piece

theorem compileRegion_sided (s : Setting) (backend : String) (w : WorkPiece) (r : Region) :
    Outcome.Preserves Sided (compileRegion rules s backend w r) := by
  unfold compileRegion
  split
  · exact Outcome.preserves_lift_bind fun k _ => Outcome.preserves_modify fun d sided => sided_modifyPiece sided sided
  · exact Outcome.preserves_pure _

theorem compilePiece_sided (s : Setting) (backend : String) (w : WorkPiece) :
    Outcome.Preserves Sided (compilePiece rules s backend w) := by
  unfold compilePiece
  split
  · exact Outcome.preserves_throw _
  · refine Outcome.preserves_lift_bind fun k compiled => Outcome.preserves_bind ?_ fun _ =>
      Outcome.preserves_forM fun r _ => compileRegion_sided s backend w r
    refine Outcome.preserves_modify fun d sided => sided_modifyPiece sided fun v _ given same => ?_
    cases same
    exact Kernel.interior_ofForm (CompiledKernel.compile_eq_ok.mp compiled).1

theorem compile_sided (backend : String) : Outcome.Preserves Sided (compile rules backend : Work ℝ Unit) := by
  refine Outcome.preserves_get fun now _ => ?_
  split
  · exact Outcome.preserves_throw _
  · exact Outcome.preserves_forM fun w _ => compilePiece_sided _ backend w

theorem addPiece_sided (name : Option String) (elements : Option (List Int)) :
    Outcome.Preserves Sided (addPiece name elements : Work ℝ WorkPiece) := by
  refine Outcome.preserves_get fun now sided => ?_
  split
  · exact Outcome.preserves_throw _
  dsimp only
  split
  · exact Outcome.preserves_throw _
  refine Outcome.preserves_bind (Outcome.preserves_set fun w member k made => ?_) fun _ => Outcome.preserves_pure _
  rcases List.mem_append.mp member with old | new
  · exact sided w old k made
  · rw [List.mem_singleton.mp new] at made
    cases made

/-- A piece that is looked up may be put back with the kernel that it had. -/
theorem sided_replace {name : String} {w w' : WorkPiece} (sided : d.Sided) (found : d.piece name = .ok w)
    (same : w'.kernel = w.kernel) : (d.modifyPiece name fun _ => w').Sided :=
  sided_modifyPiece sided fun _ _ k made => sided w (piece_eq_ok found).1 k (same ▸ made)

theorem addBoundary_sided (sided : d.Sided) (piece region : String) (facets : List Int) :
    ((addBoundary piece region facets : Work ℝ Unit).run.run d).2.Sided := by
  unfold addBoundary
  rw [run_ask_bind]
  split
  · next w found =>
      unfold WorkPiece.addRegion
      split
      · exact sided
      · exact sided_replace sided found rfl
  · exact sided

theorem setElements_sided (sided : d.Sided) (name : String) (elements : List Int) :
    ((setElements name elements : Work ℝ WorkPiece).run.run d).2.Sided := by
  unfold setElements
  rw [run_ask_bind]
  split
  · next w found => exact sided_replace sided found rfl
  · exact sided

theorem perform_sided (sided : d.Sided) (op : Operation) : (d.perform rules op).2.Sided := by
  cases op with
  | addPiece name elements =>
      rw [perform_addPiece]
      exact addPiece_sided name elements d sided
  | addBoundary piece region facets => exact addBoundary_sided sided piece region facets
  | assignForm piece form => exact sided_modifyPiece sided fun _ _ _ => nofun
  | assignBoundaryForm piece region form => exact sided_modifyPiece sided sided
  | discretize family order quadratureOrder =>
      obtain ⟨-, pieces⟩ := discretize_frame family order quadratureOrder d ⟨rfl, rfl⟩
      rw [perform, Sided]
      exact pieces ▸ sided
  | compile backend => exact compile_sided backend d sided

/-- The domains of all life cycles, in which operations, changes of elements and changes elsewhere than in the work
pieces follow each other. -/
inductive Reached (rules : Calculus Quantity) : Domain ℝ → Prop where
  | ofMesh (mesh : Mesh ℝ) : Reached rules (.ofMesh mesh)
  | perform {d : Domain ℝ} (before : Reached rules d) (op : Operation) : Reached rules (d.perform rules op).2
  | setElements {d : Domain ℝ} (before : Reached rules d) (name : String) (elements : List Int) :
      Reached rules ((Domain.setElements name elements : Work ℝ WorkPiece).run.run d).2
  | elsewhere {d d' : Domain ℝ} (before : Reached rules d) (same : d'.pieces = d.pieces) : Reached rules d'

theorem Reached.sided (reached : Reached rules d) : d.Sided := by
  induction reached with
  | ofMesh mesh => exact sided_ofMesh mesh
  | perform _ op ih => exact perform_sided ih op
  | setElements _ name elements ih => exact setElements_sided ih name elements
  | elsewhere _ same ih => exact fun w member => ih w (same ▸ member)

theorem reached_after (mesh : Mesh ℝ) (ops : List Operation) : Reached rules ((ofMesh mesh).after rules ops) := by
  induction ops using List.reverseRecOn with
  | nil => exact .ofMesh mesh
  | append_singleton ops op ih =>
      rw [after_append]
      exact ih.perform op

end Domain

/-! ### Assembly -/

/-- Is a failure the lack of normals? -/
def Failure.LacksNormals (e : Failure) : Prop := ∃ name, e = .invalid (.needsNormals name)

namespace Kernel

theorem checkShape_avoids {name : String} {v : NodalValues ℝ} {expected : List Nat} :
    Outcome.Avoids Failure.LacksNormals (checkShape name v expected) := by
  unfold checkShape
  split
  · exact Outcome.avoids_ok _
  · exact Outcome.avoids_throw nofun

theorem paramValues_avoids (k : Kernel) (params : Parameters ℝ) :
    Outcome.Avoids Failure.LacksNormals (k.paramValues params) := by
  cases params <;> unfold paramValues <;> dsimp only <;> split
  all_goals first | exact Outcome.avoids_ok _ | exact Outcome.avoids_throw nofun

theorem evaluate_avoids {k : Kernel} {tab : Tabulation ℝ} (normals : k.usesNormal = true → tab.hasNormals = true)
    (state : NodalValues ℝ) (rate external : Option (NodalValues ℝ)) (params : Parameters ℝ) (rateWeight : ℝ) :
    Outcome.Avoids Failure.LacksNormals (k.evaluate tab state rate external params rateWeight) := by
  have provided : ¬(k.usesNormal && !tab.hasNormals) = true := by
    cases used : k.usesNormal with
    | false => exact Bool.false_ne_true
    | true => rw [normals used]; exact Bool.false_ne_true
  unfold evaluate
  refine Outcome.avoids_bind checkShape_avoids fun _ _ => Outcome.avoids_bind checkShape_avoids fun _ _ => ?_
  rw [if_neg provided]
  refine Outcome.avoids_bind (paramValues_avoids k params) fun values _ => ?_
  refine (onlyReads_systemsOf tab rateWeight).mono ?_
  rintro e ⟨name, rfl⟩
  exact nofun

end Kernel

namespace Block

variable {d : Domain ℝ} {lines : LineRules ℝ} {blocks : List (Block ℝ)}

/-- The block inside a piece has a kernel without the normal, and the points of the other blocks lie on facets. -/
theorem allOfPiece_normals {c : Context ℝ} {w : WorkPiece} (interior : ∀ k, w.kernel = some k → k.kernel.Interior)
    (built : allOfPiece c w = .ok blocks) : ∀ b ∈ blocks, b.kernel.usesNormal = true → b.tab.hasNormals = true := by
  obtain ⟨inside, first, built⟩ := Outcome.bind_eq_ok.mp built
  obtain ⟨regions, others, built⟩ := Outcome.bind_eq_ok.mp built
  cases built
  refine List.forall_mem_cons.mpr ⟨fun used => ?_, fun b member _ => ?_⟩
  · obtain ⟨k, parts, compiled, kernel, -⟩ := ofPiece_made first
    rw [kernel, (interior k compiled).unused] at used
    cases used
  · obtain ⟨r, -, done⟩ := Outcome.exists_of_matched (Outcome.mapM_eq_ok.mp others) member
    obtain ⟨k, parts, -, -, -, normals, -⟩ := ofRegion_made done
    exact normals

theorem allOf_normals (sided : d.Sided) (built : allOf lines d = .ok blocks) :
    ∀ b ∈ blocks, b.kernel.usesNormal = true → b.tab.hasNormals = true := by
  obtain ⟨x, n, parts, -, -, mapped, rfl⟩ := allOf_eq_ok.mp built
  intro b member
  obtain ⟨part, among, inside⟩ := List.mem_flatten.mp member
  obtain ⟨w, own, done⟩ := Outcome.exists_of_matched (Outcome.mapM_eq_ok.mp mapped) among
  exact allOfPiece_normals (sided w own) done b inside

theorem assemble_avoids (normals : ∀ b ∈ blocks, b.kernel.usesNormal = true → b.tab.hasNormals = true) (n : Nat)
    (s : AssemblyState ℝ) : Outcome.Avoids Failure.LacksNormals (assemble blocks n s) := by
  refine Outcome.avoids_bind (Outcome.avoids_mapM fun b member => ?_) fun _ _ => Outcome.avoids_ok _
  exact Outcome.avoids_bind (Kernel.evaluate_avoids (normals b member) _ _ _ _ _) fun _ _ => Outcome.avoids_ok _

end Block

/-! ### Both together -/

/-- A form is refused inside a domain exactly when the normal stands anywhere in it, be it in the body of a definition
that it accesses. So in every life cycle the kernels inside work pieces have no slot for the normal, and assembly does
not fail for the lack of normals. -/
theorem normals_stay_on_facets (rules : Calculus Quantity) :
    (∀ s name e pairs, WeakForm.expand s name e = .ok pairs →
      (Linearization.ofForm rules s name false e = .error (.malformed ⟨.normalInDomain, some name, none⟩) ↔
        e.hasNormal = true ∧ 0 < s.dim)) ∧
    (∀ (d : Definition) actual n e n', (d.access actual).run.run n = (.ok e, n') →
      e.hasNormal = d.body.hasNormal) ∧
    ∀ d, Domain.Reached rules d →
      (∀ w ∈ d.pieces, ∀ k, w.kernel = some k → k.kernel.usesNormal = false ∧ ∀ s ∈ k.kernel.slots, s.source ≠ .normal) ∧
      ∀ lines blocks, Block.allOf lines d = .ok blocks → ∀ n s name,
        Block.assemble blocks n s ≠ .error (.invalid (.needsNormals name)) := by
  refine ⟨fun s name e pairs expanded => Linearization.ofForm_eq_normalInDomain expanded,
    fun d actual n e n' accessed => Definition.hasNormal_access accessed, fun d reached => ?_⟩
  have sided := reached.sided
  refine ⟨fun w own k made => ⟨(sided w own k made).unused, (sided w own k made).slots⟩, ?_⟩
  intro lines blocks built n s name failed
  exact Block.assemble_avoids (Block.allOf_normals sided built) n s _ failed ⟨name, rfl⟩

section Conductor

open Domain Simulation

/-- A scalar paired with nothing: the square of the normal is multiplied by zero. -/
def vanishing : Expr :=
  .pairing (.bare ⟨"u", 0, false⟩) (.prod (.const (.int 0)) (.prod (.normal ⟨"i"⟩) (.normal ⟨"i"⟩)))

theorem reached_conductor :
    Reached .textbook (conductor (some rodDiscretization) (some ⟨conductionKernel, .sequential⟩)) := by
  have prepared : (Domain.ofMesh segment).after .textbook
      [.addPiece (some "conduction") (some [0]), .assignForm "conduction" conduction] = conductor none none := rfl
  have discretized : (conductor none none).perform .textbook (.discretize "lagrange" (.int 1) none) =
      (.ok (), conductor (some rodDiscretization) none) := discretize_conductor
  have compiled : (conductor (some rodDiscretization) none).perform .textbook (.compile "sequential") =
      (.ok (), conductor (some rodDiscretization) (some ⟨conductionKernel, .sequential⟩)) := compile_conductor
  have first : Reached .textbook (conductor none none) := prepared ▸ reached_after segment _
  have second := first.perform (.discretize "lagrange" (.int 1) none)
  rw [discretized] at second
  have third := second.perform (.compile "sequential")
  rwa [compiled] at third

/-- The normal is noticed where it makes no difference, and the conductor is assembled without it. -/
theorem normals_stay_off_conductor :
    Linearization.ofForm .textbook Kernel.line "form" false vanishing =
      .error (.malformed ⟨.normalInDomain, some "form", none⟩) ∧
    (∃ e, ((⟨"m", [⟨"i"⟩], .normal ⟨"i"⟩⟩ : Definition).access [⟨"j"⟩]).run.run 0 = (.ok e, 0) ∧ e.hasNormal = true) ∧
    (∀ s ∈ conductionKernel.slots, s.source ≠ .normal) ∧
    Block.allOf midpointRules (conductor (some rodDiscretization) (some ⟨conductionKernel, .sequential⟩)) =
      .ok [conductorBlock] ∧
    ∀ n s name, Block.assemble [conductorBlock] n s ≠ .error (.invalid (.needsNormals name)) := by
  obtain ⟨refused, accessed, reached⟩ := normals_stay_on_facets .textbook
  have expanded : ∃ pairs, WeakForm.expand Kernel.line "form" vanishing = .ok pairs := ⟨_, rfl⟩
  obtain ⟨pairs, expanded⟩ := expanded
  have body : ((⟨"m", [⟨"i"⟩], .normal ⟨"i"⟩⟩ : Definition).access [⟨"j"⟩]).run.run 0 = (.ok (.normal ⟨"j"⟩), 0) := by cbv
  obtain ⟨inside, assembled⟩ := reached _ reached_conductor
  refine ⟨(refused _ _ _ pairs expanded).mpr ⟨rfl, Nat.one_pos⟩, ⟨_, body, accessed _ _ _ _ _ body⟩, ?_, allOf_conductor, ?_⟩
  · exact (inside _ (List.mem_singleton_self _) _ rfl).2
  · exact assembled _ _ allOf_conductor

end Conductor

end Galerkin
