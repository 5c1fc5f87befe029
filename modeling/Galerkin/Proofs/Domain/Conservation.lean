import Mathlib
import Galerkin.Proofs.Assembly.Conservation
import Galerkin.Proofs.ConsistentTangent
import Galerkin.Proofs.Domain.Preparation

/-!
Conservation and translation invariance of a compiled domain, by what its forms mention of a component.
-/

namespace Galerkin

open Linear

namespace Domain

/-- Do test sides mention a component at most by its derivatives in space? -/
def TestsSlopes (s : Setting) (c : Nat) (forms : List Expr) : Prop :=
  ∀ form ∈ forms, ∀ name pairs, WeakForm.expand s name form = .ok pairs →
    ∀ pair ∈ pairs, ∀ q ∈ pair.1.atoms, ¬ q.Plain s c

/-- Do forms mention a component at most by its rate and by derivatives in space? -/
def Omits (s : Setting) (c : Nat) (forms : List Expr) : Prop :=
  ∀ form ∈ forms, ∀ name pairs, WeakForm.expand s name form = .ok pairs →
    ∀ pair ∈ pairs, ∀ q ∈ pair.1.atoms ++ pair.2.atoms, q.Plain s c → q.source = .rate

end Domain

namespace Block

variable {lines : LineRules ℝ} {d : Domain ℝ} {x : Discretization ℝ} {n : Galerkin.Numbered ℝ} {blocks : List (Block ℝ)}
  {b : Block ℝ}

theorem exists_made_of_piece {ctx : Context ℝ} {w : WorkPiece} (built : allOfPiece ctx w = .ok blocks) (member : b ∈ blocks) :
    ∃ k ∈ usedKernels w, b.kernel = k.kernel ∧ ∃ places parts, Made ctx places b parts := by
  obtain ⟨inside, first, built⟩ := Outcome.bind_eq_ok.mp built
  obtain ⟨regions, others, built⟩ := Outcome.bind_eq_ok.mp built
  cases built
  cases List.mem_cons.mp member with
  | inl here =>
      obtain ⟨k, parts, compiled, kernel, -, -, made⟩ := ofPiece_made first
      rw [here]
      exact ⟨k, List.mem_append_left _ (Option.mem_toList.mpr compiled), kernel, _, parts, made⟩
  | inr later =>
      obtain ⟨r, present, done⟩ := Outcome.exists_of_matched (Outcome.mapM_eq_ok.mp others) later
      obtain ⟨k, parts, compiled, kernel, -, -, made⟩ := ofRegion_made done
      exact ⟨k, List.mem_append_right _ (List.mem_filterMap.mpr ⟨r, present, compiled⟩), kernel, _, parts, made⟩

/-- Every block of a domain is made on places of its mesh, with a kernel of one of its pieces. -/
theorem exists_made (present : d.discretization = some x) (numbered : x.numbered = some n)
    (built : allOf lines d = .ok blocks) (member : b ∈ blocks) :
    ∃ w ∈ d.pieces, ∃ k ∈ usedKernels w, b.kernel = k.kernel ∧
      ∃ places parts, Made ⟨x.space, n.dofs, lines⟩ places b parts := by
  obtain ⟨_, _, parts, same, numbered', mapped, rfl⟩ := allOf_eq_ok.mp built
  cases present.symm.trans same
  cases numbered.symm.trans numbered'
  obtain ⟨part, among, inside⟩ := List.mem_flatten.mp member
  obtain ⟨w, own, done⟩ := Outcome.exists_of_matched (Outcome.mapM_eq_ok.mp mapped) among
  exact ⟨w, own, exists_made_of_piece done inside⟩

end Block

namespace Preparation

variable {P : Preparation} {s : Domain.Stages} {x : Discretization ℝ} {dofs : DofMap} {blocks : List (Block ℝ)} {c : Nat}

/-- Every block of a compiled domain is made on places of its mesh, with a kernel of one of its forms. -/
theorem Yields.made (yields : P.Yields s x dofs blocks) {b : Block ℝ} (member : b ∈ blocks) :
    (∃ places parts, Block.Made (P.context x dofs) places b parts) ∧
      ∃ form ∈ s.final.forms, ∃ name boundary, Kernel.ofForm P.rules (Domain.setting x) name boundary form = .ok b.kernel := by
  obtain ⟨d, d', unknowns, -, -, numbered, compiled, built⟩ := yields
  obtain ⟨y, same, progress⟩ := Domain.compile_progress compiled
  obtain ⟨kept, z, same', kernels⟩ := Domain.compile_eq_ok compiled
  cases same
  cases same'
  have forms : d'.forms = s.final.forms := Domain.forms_of_pieces progress.pieces
  obtain ⟨w, own, k, used, kernel, places, parts, held⟩ := Block.exists_made kept numbered built member
  obtain ⟨form, mine, name, boundary, compiledForm⟩ := kernels w own k used
  rw [← kernel] at compiledForm
  exact ⟨⟨places, parts, held⟩, form, forms ▸ mine, name, boundary, compiledForm⟩

/-- The blocks of a compiled domain have kernels of its forms and separate its components. -/
theorem Yields.separates (yields : P.Yields s x dofs blocks) (lawful : P.rules.Lawful) (component : c < dofs.width) :
    (∃ occupied, dofs = .ofOccupied dofs.width occupied) ∧ ∀ b ∈ blocks, b.Separates dofs c ∧
      ∃ form ∈ s.final.forms, ∃ name boundary pairs,
        Kernel.ofForm P.rules (Domain.setting x) name boundary form = .ok b.kernel ∧
          WeakForm.expand (Domain.setting x) name form = .ok pairs := by
  obtain ⟨discretized, rfl⟩ := yields.discretized
  refine ⟨⟨_, rfl⟩, fun b member => ?_⟩
  obtain ⟨⟨places, parts, made⟩, form, own, name, boundary, compiled⟩ := yields.made member
  obtain ⟨kind, known⟩ := discretized.ofKind
  obtain ⟨pairs, _, expanded, -, -⟩ := Kernel.ofForm_eq_ok lawful compiled
  have width := Kernel.width_ofForm lawful compiled
  exact ⟨made.separates discretized.fits.even rfl width known component, form, own, name, boundary, pairs, compiled, expanded⟩

end Preparation

namespace Domain

variable {P : Preparation} {s : Stages} {x : Discretization ℝ} {dofs : DofMap} {blocks : List (Block ℝ)}

/-- Discrete conservation and translation invariance, for every component of a compiled domain. The residuals of its
unknowns at all control points sum up to what the points of all blocks supply to it. What a block supplies are the
densities of the component and of its rate alone; where the form of the block is smooth, these are the derivatives of
the test sides by them, times the trial sides. If the test sides mention the component by derivatives in space only,
the sum is zero. If no form mentions the value of the component itself, a constant added to it everywhere changes
neither the residual nor the tangent, and the tangent for values alone takes the constant to zero. -/
theorem assemble_conserves (yields : P.Yields s x dofs blocks) (lawful : P.rules.Lawful) (sparse : P.rules.Sparse) {c : Nat}
    (component : c < dofs.width) :
    (∀ state sys, Block.assemble blocks dofs.count state = .ok sys →
      ((dofs.columns [c]).map fun i => sys.residual.getD i 0).sum = (blocks.map (Block.supply c state)).sum) ∧
    (∀ b ∈ blocks, ∃ form ∈ s.final.forms, ∃ name pairs, WeakForm.expand (setting x) name form = .ok pairs ∧
      ∀ state, b.SmoothAt (setting x) pairs state → b.supply c state = b.total fun e _ p => p.weight *
        ∑ q ∈ (unknownsOf (setting x) pairs c).filter (·.axisOf = none),
          (pairs.map (pairDensity ((b.dataAt state).value (setting x) b.tab.basisCount e p) q)).sum) ∧
    (TestsSlopes (setting x) c s.final.forms → ∀ state sys, Block.assemble blocks dofs.count state = .ok sys →
      ((dofs.columns [c]).map fun i => sys.residual.getD i 0).sum = 0) ∧
    (Omits (setting x) c s.final.forms → ∀ state, state.x.length = dofs.count → ∀ t,
      Block.assemble blocks dofs.count { state with x := Vec.add state.x (dofs.constant c t) } =
        Block.assemble blocks dofs.count state ∧
      ∀ sys, Block.assemble blocks dofs.count state = .ok sys → state.rateWeight = 0 →
        sys.tangent.apply (dofs.constant c t) = Vec.zeros dofs.count) := by
  obtain ⟨⟨occupied, numbers⟩, each⟩ := yields.separates lawful component
  have sound : ∀ b ∈ blocks, b.Separates dofs c ∧ Kernel.Keyed b.kernel := by
    intro b member
    obtain ⟨separates, _, -, _, _, _, compiled, -⟩ := each b member
    obtain ⟨_, _, -, spec, built⟩ := Kernel.ofForm_eq_ok lawful compiled
    exact ⟨separates, Kernel.keyed spec built⟩
  have columns : (dofs.columns [c]).Sublist (List.range dofs.count) := by
    rw [numbers]
    exact DofMap.columns_sublist component
  have distinct := columns.nodup List.nodup_range
  have below : ∀ i ∈ dofs.columns [c], i < dofs.count := fun i member => List.mem_range.mp (columns.subset member)
  have balance : ∀ state sys, Block.assemble blocks dofs.count state = .ok sys →
      ((dofs.columns [c]).map fun i => sys.residual.getD i 0).sum = (blocks.map (Block.supply c state)).sum :=
    fun _ _ done => Block.sum_residual sound done distinct below
  refine ⟨balance, fun b member => ?_, fun slopes state sys done => ?_, fun omits state sized t => ?_⟩
  · obtain ⟨-, form, own, name, boundary, pairs, compiled, expanded⟩ := each b member
    exact ⟨form, own, name, pairs, expanded, fun state smooth => Block.supply_eq lawful compiled expanded smooth c⟩
  · rw [balance state sys done]
    refine List.sum_eq_zero (List.forall_mem_map.mpr fun b member => ?_)
    obtain ⟨-, form, own, name, boundary, pairs, compiled, expanded⟩ := each b member
    refine Block.total_eq_zero fun e row points _ _ p _ => ?_
    have none := Finset.sum_eq_zero fun i plain => Kernel.densityOf_plain lawful sparse compiled expanded
      (slopes form own name pairs expanded) plain
        (b.kernel.pointValues ((b.dataAt state).inputs b.kernel.paramNames) b.tab.basisCount e p)
    rw [none, mul_zero]
  · have unread : ∀ b ∈ blocks, ¬ b.kernel.Reads c := by
      intro b member
      obtain ⟨-, form, own, name, boundary, pairs, compiled, expanded⟩ := each b member
      exact Kernel.not_reads lawful compiled expanded (omits form own name pairs expanded)
    refine ⟨Block.assemble_raised (fun b member => (sound b member).1) unread sized t, fun sys done still => ?_⟩
    exact Block.apply_constant sound done unread still

section Conductor

open Kernel (line)
open Simulation (segment segmentSpace make_segment rodPoints rodDiscretization midpoint midpointRules onVolumes_segment)

/-- The slope of a scalar paired with itself. -/
def conduction : Expr := .pairing (.field ⟨"u", 0, false⟩ [] [⟨"i"⟩] 0) (.field ⟨"u", 0, false⟩ [] [⟨"i"⟩] 0)

def slope : Quantity := .unknown "u" [] 0 (some 0)

def conductionKernel : Kernel where
  name := "conduction"
  dim := 1
  width := 1
  externalWidth := 0
  slots := [⟨"u_x0", .value, 0, some 0⟩]
  unknownCount := 1
  temporaries := []
  residual := [(0, .var 0)]
  tangent := [((0, 0), Formula.one)]
  paramNames := []
  usesNormal := false
  boundary := false

theorem ofForm_conduction : Kernel.ofForm .textbook line "conduction" false conduction = .ok conductionKernel := by cbv

/-- The segment with a form on its element, as far as it is discretized and compiled. -/
noncomputable def segmentWith (form : Expr) (x : Option (Discretization ℝ)) (k : Option CompiledKernel) : Domain ℝ :=
  ⟨segment, [⟨"conduction", [0], some form, k, []⟩], [], x⟩

noncomputable def segmentBlock (k : Kernel) : Block ℝ :=
  ⟨"conduction", none, k, [0], [[0, 1]], [[0, 1]], ⟨1, 1, 2, false, [[midpoint]]⟩⟩

theorem discretize_segment (form : Expr)
    (layouts : (segmentWith form none none).layouts = .ok (line.internal, line.external)) :
    (discretize "lagrange" (.int 1) none).run.run (segmentWith form none none) =
      (.ok (), segmentWith form (some rodDiscretization) none) := by
  have points : ControlPoints.make (segmentWith form none none).mesh.dim segmentSpace.positions line.internal
      line.external = rodPoints #[false, false] := by
    simp [ControlPoints.make, segmentSpace, rodPoints]
    exact ⟨rfl, rfl, rfl⟩
  refine Outcome.run_bind_eq_ok.mpr ⟨_, _, rfl, ?_⟩
  refine Outcome.run_bind_eq_ok.mpr ⟨_, _, Outcome.run_lift_eq_ok.mpr ⟨layouts, rfl⟩, ?_⟩
  refine Outcome.run_bind_eq_ok.mpr ⟨_, _, Outcome.run_lift_eq_ok.mpr ⟨rfl, rfl⟩, ?_⟩
  refine Outcome.run_bind_eq_ok.mpr ⟨_, _, Outcome.run_lift_eq_ok.mpr ⟨make_segment, rfl⟩, ?_⟩
  rw [points]
  rfl

theorem compile_segment {form : Expr} {k : Kernel} (made : Kernel.ofForm .textbook line "conduction" false form = .ok k) :
    (compile .textbook "sequential").run.run (segmentWith form (some rodDiscretization) none) =
      (.ok (), segmentWith form (some rodDiscretization) (some ⟨k, .sequential⟩)) := by
  refine Outcome.run_bind_eq_ok.mpr ⟨_, _, rfl, ?_⟩
  refine Outcome.run_bind_eq_ok.mpr ⟨(), segmentWith form (some rodDiscretization) (some ⟨k, .sequential⟩), ?_, rfl⟩
  refine Outcome.run_bind_eq_ok.mpr ⟨⟨k, .sequential⟩, _, Outcome.run_lift_eq_ok.mpr ⟨?_, rfl⟩, rfl⟩
  exact Outcome.bind_eq_ok.mpr ⟨_, made, rfl⟩

theorem allOf_segment (form : Expr) (k : Kernel) :
    Block.allOf midpointRules (segmentWith form (some rodDiscretization) (some ⟨k, .sequential⟩)) = .ok [segmentBlock k] := by
  let ctx : Block.Context ℝ := ⟨segmentSpace, ⟨1, #[some 0, some 1], 2⟩, midpointRules⟩
  let w : WorkPiece := ⟨"conduction", [0], some form, some ⟨k, .sequential⟩, []⟩
  have inside : Block.ofPiece ctx w = .ok (segmentBlock k) := by
    refine Outcome.bind_eq_ok.mpr ⟨[[0, 1]], rfl, Outcome.bind_eq_ok.mpr ⟨[[0, 1]], rfl, ?_⟩⟩
    exact Outcome.bind_eq_ok.mpr ⟨_, onVolumes_segment, rfl⟩
  have all : Block.allOfPiece ctx w = .ok [segmentBlock k] := Outcome.bind_eq_ok.mpr ⟨segmentBlock k, inside, rfl⟩
  exact Outcome.bind_eq_ok.mpr ⟨[[segmentBlock k]], Outcome.mapM_eq_ok.mpr (.cons all .nil), rfl⟩

/-- A work piece that covers the segment, as far as it is discretized and compiled. -/
noncomputable def conductor (x : Option (Discretization ℝ)) (k : Option CompiledKernel) : Domain ℝ :=
  ⟨segment, [⟨"conduction", [0], some conduction, k, []⟩], [], x⟩

theorem discretize_conductor :
    (discretize "lagrange" (.int 1) none).run.run (conductor none none) =
      (.ok (), conductor (some rodDiscretization) none) := by
  have layouts : (conductor none none).layouts = .ok (line.internal, line.external) := by cbv
  exact discretize_segment conduction layouts

theorem compile_conductor :
    (compile .textbook "sequential").run.run (conductor (some rodDiscretization) none) =
      (.ok (), conductor (some rodDiscretization) (some ⟨conductionKernel, .sequential⟩)) :=
  compile_segment ofForm_conduction

noncomputable def conductorBlock : Block ℝ :=
  ⟨"conduction", none, conductionKernel, [0], [[0, 1]], [[0, 1]], ⟨1, 1, 2, false, [[midpoint]]⟩⟩

theorem allOf_conductor :
    Block.allOf midpointRules (conductor (some rodDiscretization) (some ⟨conductionKernel, .sequential⟩)) =
      .ok [conductorBlock] := allOf_segment conduction conductionKernel

/-- A state of the conductor with values three and six. -/
noncomputable def warmed : AssemblyState ℝ := ⟨[], #[[], []], [(3 : ℚ), (6 : ℚ)], [0, 0], 0⟩

theorem assemble_conductor : ∃ sys, Block.assemble [conductorBlock] 2 warmed = .ok sys := by
  refine Block.assemble_of_contributions (List.forall_mem_singleton.mpr ?_)
  refine Block.contributions_of_readable rfl rfl (by decide) (List.forall_mem_nil _) fun e points here p present s slot => ?_
  cases e with
  | succ e => cases here
  | zero =>
      cases here
      cases List.mem_singleton.mp present
      cases List.mem_singleton.mp slot
      exact ⟨_, _, rfl, rfl⟩

theorem expand_conduction {name : String} {pairs : List (Formula Quantity × Formula Quantity)}
    (expanded : WeakForm.expand (setting rodDiscretization) name conduction = .ok pairs) :
    pairs = [(.var slope, .var slope)] := by
  have named := WeakForm.expand_rename expanded "conduction"
  exact (Except.ok.inj named).symm

/-- Only the slope of the conductor is mentioned, so its residuals cancel and a constant is not seen. -/
theorem assemble_conserves_conductor : ∃ sys, Block.assemble [conductorBlock] 2 warmed = .ok sys ∧
    ([0, 1].map fun i => sys.residual.getD i 0).sum = 0 ∧
    Block.assemble [conductorBlock] 2 { warmed with x := Vec.add warmed.x [5, 5] } = .ok sys ∧
    sys.tangent.apply [5, 5] = [0, 0] := by
  let P : Preparation := ⟨.textbook, midpointRules, "lagrange", .int 1, none, "sequential"⟩
  let s : Stages := ⟨conductor none none, conductor none none, rfl, rfl⟩
  have yields : P.Yields s rodDiscretization ⟨1, #[some 0, some 1], 2⟩ [conductorBlock] :=
    ⟨_, _, _, discretize_conductor, rfl, rfl, compile_conductor, allOf_conductor⟩
  obtain ⟨-, -, balance, invariance⟩ :=
    assemble_conserves yields Calculus.textbook_lawful Calculus.textbook_sparse (Nat.zero_lt_one)
  have plain : ¬ slope.Plain (setting rodDiscretization) 0 := by
    intro plain
    cases plain.axis
  have mentioned : ∀ form ∈ s.final.forms, ∀ name pairs,
      WeakForm.expand (setting rodDiscretization) name form = .ok pairs → ∀ pair ∈ pairs,
        ∀ q ∈ pair.1.atoms ++ pair.2.atoms, q = slope := by
    intro form own name pairs expanded pair member q inside
    cases List.mem_singleton.mp (own : form ∈ [conduction])
    cases List.mem_singleton.mp (expand_conduction expanded ▸ member)
    simpa [Formula.atoms] using inside
  have slopes : TestsSlopes (setting rodDiscretization) 0 s.final.forms := by
    intro form own name pairs expanded pair member q inside
    rw [mentioned form own name pairs expanded pair member q (List.mem_append_left _ inside)]
    exact plain
  have omits : Omits (setting rodDiscretization) 0 s.final.forms := by
    intro form own name pairs expanded pair member q inside own'
    rw [mentioned form own name pairs expanded pair member q inside] at own'
    exact absurd own' plain
  have constant : DofMap.constant ⟨1, #[some 0, some 1], 2⟩ 0 5 = [5, 5] := by
    simp [DofMap.constant, DofMap.constantAt, DofMap.columns, List.range_succ]
  obtain ⟨sys, done⟩ := assemble_conductor
  obtain ⟨unchanged, kernel⟩ := invariance omits warmed rfl 5
  rw [constant] at unchanged kernel
  exact ⟨sys, done, balance slopes warmed sys done, unchanged.trans done, kernel sys done rfl⟩

end Conductor

end Domain

end Galerkin
