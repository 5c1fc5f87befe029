import Mathlib
import Galerkin.Proofs.Domain.Rearrangement

/-!
Life cycles: the operations on a domain one after the other, each of which may fail. Once a domain was discretized,
nothing that its numbering depends on changes any more.
-/

namespace Galerkin

namespace Domain

/-- What can be asked of a domain from outside. -/
inductive Operation where
  | addPiece (name : Option String) (elements : Option (List Int))
  | addBoundary (piece region : String) (facets : List Int)
  | assignForm (piece : String) (form : Expr)
  | assignBoundaryForm (piece region : String) (form : Expr)
  | discretize (family : String) (order : Number) (quadratureOrder : Option Int)
  | compile (backend : String)

variable {rules : Calculus Quantity}

noncomputable def Operation.work (rules : Calculus Quantity) : Operation → Work ℝ Unit
  | addPiece name elements => do let _ ← Domain.addPiece name elements
  | addBoundary piece region facets => Domain.addBoundary piece region facets
  | assignForm piece form => Domain.assignForm piece form
  | assignBoundaryForm piece region form => Domain.assignBoundaryForm piece region form
  | discretize family order quadratureOrder => Domain.discretize family order quadratureOrder
  | compile backend => Domain.compile rules backend

/-- What comes of an operation, and the domain it leaves. -/
noncomputable def perform (rules : Calculus Quantity) (d : Domain ℝ) (op : Operation) : Except Failure Unit × Domain ℝ :=
  (op.work rules).run.run d

/-- A domain after some operations, whether they failed or not. -/
noncomputable def after (rules : Calculus Quantity) (d : Domain ℝ) (ops : List Operation) : Domain ℝ :=
  ops.foldl (fun d op => (d.perform rules op).2) d

theorem after_append (d : Domain ℝ) (first second : List Operation) :
    d.after rules (first ++ second) = (d.after rules first).after rules second := List.foldl_append

theorem after_cons (d : Domain ℝ) (op : Operation) (ops : List Operation) :
    d.after rules (op :: ops) = (d.perform rules op).2.after rules ops := rfl

variable {d d' d'' : Domain ℝ}

/-- Is there one piece at most of every name? -/
def Distinct (d : Domain ℝ) : Prop := (d.pieces.map (·.name)).Nodup

/-- Nothing has changed but the forms, the kernels and the regions of pieces. -/
structure Kept (d d' : Domain ℝ) : Prop where
  mesh : d'.mesh = d.mesh
  discretization : d'.discretization = d.discretization
  outlines : d'.pieces.map (·.outline) = d.pieces.map (·.outline)

theorem Kept.refl (d : Domain ℝ) : Kept d d := ⟨rfl, rfl, rfl⟩

theorem Kept.trans (first : Kept d d') (second : Kept d' d'') : Kept d d'' :=
  ⟨second.mesh.trans first.mesh, second.discretization.trans first.discretization,
    second.outlines.trans first.outlines⟩

theorem names_of_outlines (same : d'.pieces.map (·.outline) = d.pieces.map (·.outline)) :
    d'.pieces.map (·.name) = d.pieces.map (·.name) := by
  have names := congrArg (List.map Prod.fst) same
  rwa [List.map_map, List.map_map] at names

theorem kept_modifyPiece {name : String} {f : WorkPiece → WorkPiece}
    (same : ∀ w ∈ d.pieces, w.name = name → (f w).outline = w.outline) : Kept d (d.modifyPiece name f) := by
  refine ⟨rfl, rfl, ?_⟩
  rw [modifyPiece, List.map_map]
  refine List.map_congr_left fun w member => ?_
  rw [Function.comp_apply]
  split
  · next named => exact same w member named
  · rfl

/-- A change of some pieces that leaves outlines as they are keeps to what was kept so far. -/
theorem preserves_modifyPiece {name : String} {f : WorkPiece → WorkPiece} (same : ∀ w, (f w).outline = w.outline) :
    Outcome.Preserves (Kept d) (modify fun d => d.modifyPiece name f : Work ℝ Unit) :=
  Outcome.preserves_modify fun _ kept => kept.trans (kept_modifyPiece fun w _ _ => same w)

/-! ### One operation -/

theorem compileRegion_kept (s : Setting) (backend : String) (w : WorkPiece) (r : Region) :
    Outcome.Preserves (Kept d) (compileRegion rules s backend w r) := by
  unfold compileRegion
  split
  · exact Outcome.preserves_bind (Outcome.preserves_lift _) fun _ => preserves_modifyPiece fun _ => rfl
  · exact Outcome.preserves_pure _

theorem compilePiece_kept (s : Setting) (backend : String) (w : WorkPiece) :
    Outcome.Preserves (Kept d) (compilePiece rules s backend w) := by
  unfold compilePiece
  split
  · exact Outcome.preserves_throw _
  · exact Outcome.preserves_bind (Outcome.preserves_lift _) fun _ =>
      Outcome.preserves_bind (preserves_modifyPiece fun _ => rfl) fun _ =>
        Outcome.preserves_forM fun r _ => compileRegion_kept s backend w r

theorem compile_kept (backend : String) : Outcome.Preserves (Kept d) (compile rules backend : Work ℝ Unit) := by
  refine Outcome.preserves_get fun now _ => ?_
  split
  · exact Outcome.preserves_throw _
  · exact Outcome.preserves_forM fun w _ => compilePiece_kept _ backend w

theorem run_ask_bind {β γ : Type} (question : Domain ℝ → Except Failure β) (next : β → Work ℝ γ) (d : Domain ℝ) :
    (ask question >>= next).run.run d =
      match question d with
      | .ok b => (next b).run.run d
      | .error e => (.error e, d) := by
  have asked : (ask question).run.run d = (question d, d) := rfl
  rw [ExceptT.run_bind, StateT.run_bind, asked]
  cases question d <;> rfl

theorem eq_of_distinct (distinct : d.Distinct) {w v : WorkPiece} (first : w ∈ d.pieces) (second : v ∈ d.pieces)
    (same : w.name = v.name) : w = v := List.inj_on_of_nodup_map distinct first second same

theorem piece_eq_ok {name : String} {w : WorkPiece} (found : d.piece name = .ok w) : w ∈ d.pieces ∧ w.name = name := by
  unfold piece at found
  split at found
  · next here =>
      cases found
      exact ⟨List.mem_of_find?_eq_some here, by simpa using List.find?_some here⟩
  · cases found

theorem addBoundary_kept (distinct : d.Distinct) (piece region : String) (facets : List Int) :
    Kept d ((addBoundary piece region facets : Work ℝ Unit).run.run d).2 := by
  unfold addBoundary
  rw [run_ask_bind]
  split
  · next w found =>
      obtain ⟨member, named⟩ := piece_eq_ok found
      unfold WorkPiece.addRegion
      split
      · exact Kept.refl d
      · refine kept_modifyPiece fun v other same => ?_
        rw [eq_of_distinct distinct other member (same.trans named.symm)]
        rfl
  · exact Kept.refl d

/-- What is discretized stays as it is when this is tried again. -/
theorem discretize_again (present : d.discretization.isSome = true) (family : String) (order : Number)
    (quadratureOrder : Option Int) :
    ((discretize family order quadratureOrder : Work ℝ Unit).run.run d).2 = d := by
  have unchanged : Outcome.Preserves (· = d) (discretize family order quadratureOrder : Work ℝ Unit) := by
    refine Outcome.preserves_get fun now same => ?_
    dsimp only
    rw [if_pos (same ▸ present)]
    exact fun _ same => same
  exact unchanged d rfl

/-- Whatever comes of a discretization, the mesh and the pieces stay as they are. -/
theorem discretize_frame (family : String) (order : Number) (quadratureOrder : Option Int) :
    Outcome.Preserves (fun now => now.mesh = d.mesh ∧ now.pieces = d.pieces)
      (discretize family order quadratureOrder : Work ℝ Unit) := by
  refine Outcome.preserves_get fun now kept => ?_
  dsimp only
  split
  · exact fun _ kept => kept
  split
  · exact fun _ kept => kept
  refine Outcome.preserves_bind (Outcome.preserves_lift _) fun layouts => ?_
  refine Outcome.preserves_bind (Outcome.preserves_lift _) fun order => ?_
  refine Outcome.preserves_bind (Outcome.preserves_lift _) fun space => ?_
  refine Outcome.preserves_bind (Outcome.preserves_set kept) fun _ => ?_
  refine Outcome.preserves_bind (Outcome.preserves_forM fun w _ => ?_) fun _ => ?_
  · exact Outcome.preserves_bind (Outcome.preserves_lift _) fun _ => Outcome.preserves_modify fun _ kept => kept
  · exact Outcome.preserves_modify fun _ kept => kept

/-- A new piece has a new name and no regions, and comes before discretization. -/
theorem addPiece_cases (name : Option String) (elements : Option (List Int)) :
    let later := ((addPiece name elements : Work ℝ WorkPiece).run.run d).2
    later = d ∨ d.discretization = none ∧ later.mesh = d.mesh ∧
      ∃ w, w.regions = [] ∧ w.name ∉ d.pieces.map (·.name) ∧ later.pieces = d.pieces ++ [w] := by
  change _ ∨ _
  have start (next : Domain ℝ → Work ℝ WorkPiece) : (get >>= next).run.run d = (next d).run.run d := rfl
  unfold addPiece
  rw [start]
  dsimp only
  split
  · exact Or.inl rfl
  next fresh =>
  split
  · exact Or.inl rfl
  next unused =>
  refine Or.inr ⟨by simpa using fresh, rfl, _, rfl, ?_, rfl⟩
  simpa [WorkPiece.make] using unused

theorem perform_addPiece (rules : Calculus Quantity) (name : Option String) (elements : Option (List Int)) :
    (d.perform rules (.addPiece name elements)).2 =
      ((Domain.addPiece name elements : Work ℝ WorkPiece).run.run d).2 := by
  rw [perform, Operation.work, ExceptT.run_bind, StateT.run_bind]
  generalize (Domain.addPiece name elements : Work ℝ WorkPiece).run.run d = reached
  rcases reached with ⟨e | w, later⟩ <;> rfl

/-- What an operation can do: a domain that is not yet discretized gets one more piece, or control points, or nothing
changes but forms, kernels and regions. -/
theorem perform_cases (rules : Calculus Quantity) (distinct : d.Distinct) (op : Operation) :
    Kept d (d.perform rules op).2 ∨ d.discretization = none ∧ (d.perform rules op).2.mesh = d.mesh ∧
      ((d.perform rules op).2.pieces = d.pieces ∨
        ∃ w, w.name ∉ d.pieces.map (·.name) ∧ (d.perform rules op).2.pieces = d.pieces ++ [w]) := by
  cases op with
  | addPiece name elements =>
      have run := perform_addPiece rules (d := d) name elements
      rcases addPiece_cases (d := d) name elements with same | ⟨fresh, mesh, more⟩
      · exact Or.inl ((run.trans same).symm ▸ Kept.refl d)
      · obtain ⟨w, -, unused, pieces⟩ := more
        exact Or.inr ⟨fresh, run ▸ mesh, Or.inr ⟨w, unused, run ▸ pieces⟩⟩
  | addBoundary piece region facets => exact Or.inl (addBoundary_kept distinct piece region facets)
  | assignForm piece form => exact Or.inl (kept_modifyPiece fun _ _ _ => rfl)
  | assignBoundaryForm piece region form => exact Or.inl (kept_modifyPiece fun _ _ _ => rfl)
  | discretize family order quadratureOrder =>
      by_cases present : d.discretization.isSome = true
      · have same : (d.perform rules (.discretize family order quadratureOrder)).2 = d :=
          discretize_again present family order quadratureOrder
        exact Or.inl (same.symm ▸ Kept.refl d)
      · obtain ⟨mesh, pieces⟩ := discretize_frame family order quadratureOrder d ⟨rfl, rfl⟩
        exact Or.inr ⟨by simpa using present, mesh, Or.inl pieces⟩
  | compile backend => exact Or.inl (compile_kept backend d (Kept.refl d))

/-! ### All operations -/

theorem perform_distinct (rules : Calculus Quantity) (distinct : d.Distinct) (op : Operation) :
    (d.perform rules op).2.Distinct ∧ (d.perform rules op).2.mesh = d.mesh := by
  rcases perform_cases rules distinct op with kept | ⟨-, mesh, same | ⟨w, unused, more⟩⟩
  · exact ⟨by rw [Distinct, names_of_outlines kept.outlines]; exact distinct, kept.mesh⟩
  · exact ⟨by rw [Distinct, same]; exact distinct, mesh⟩
  · refine ⟨?_, mesh⟩
    rw [Distinct, more, List.map_append]
    refine List.nodup_append.mpr ⟨distinct, List.nodup_singleton _, fun a known b new same => unused ?_⟩
    have named : b = w.name := List.mem_singleton.mp new
    exact named ▸ same ▸ known

theorem after_distinct (rules : Calculus Quantity) (distinct : d.Distinct) (ops : List Operation) :
    (d.after rules ops).Distinct ∧ (d.after rules ops).mesh = d.mesh := by
  induction ops generalizing d with
  | nil => exact ⟨distinct, rfl⟩
  | cons op ops ih =>
      obtain ⟨first, mesh⟩ := perform_distinct rules distinct op
      obtain ⟨later, same⟩ := ih first
      exact ⟨later, same.trans mesh⟩

theorem after_kept (distinct : d.Distinct) (present : d.discretization.isSome = true) (ops : List Operation) :
    Kept d (d.after rules ops) := by
  induction ops generalizing d with
  | nil => exact Kept.refl d
  | cons op ops ih =>
      rcases perform_cases rules distinct op with kept | ⟨absent, -⟩
      · exact kept.trans (ih (perform_distinct rules distinct op).1 (kept.discretization ▸ present))
      · rw [absent] at present
        cases present

/-! ### Names -/

theorem wellNamed_modifyPiece {name : String} {f : WorkPiece → WorkPiece} (named : d.WellNamed)
    (same : ∀ w ∈ d.pieces, w.name = name → (f w).name = w.name)
    (regions : ∀ w ∈ d.pieces, w.name = name → ((f w).regions.map (·.name)).Nodup) :
    (d.modifyPiece name f).WellNamed where
  pieces := by
    have names : (d.modifyPiece name f).pieces.map (·.name) = d.pieces.map (·.name) := by
      rw [modifyPiece, List.map_map]
      refine List.map_congr_left fun w member => ?_
      rw [Function.comp_apply]
      split
      · next here => exact same w member here
      · rfl
    rw [names]
    exact named.pieces
  regions := by
    intro v member
    obtain ⟨w, piece, rfl⟩ := List.mem_map.mp member
    split
    · next here => exact regions w piece here
    · exact named.regions w piece

theorem regions_modifyRegion {w : WorkPiece} {name : String} {f : Region → Region} (same : ∀ r, (f r).name = r.name) :
    (w.modifyRegion name f).regions.map (·.name) = w.regions.map (·.name) := by
  rw [WorkPiece.modifyRegion, List.map_map]
  refine List.map_congr_left fun r _ => ?_
  rw [Function.comp_apply]
  split
  · exact same r
  · rfl

theorem wellNamed_modifyRegion (named : d.WellNamed) (piece region : String) {f : Region → Region}
    (same : ∀ r, (f r).name = r.name) : (d.modifyPiece piece (·.modifyRegion region f)).WellNamed :=
  wellNamed_modifyPiece named (fun _ _ _ => rfl) fun w member _ => by
    rw [regions_modifyRegion same]
    exact named.regions w member

theorem compile_wellNamed (backend : String) : Outcome.Preserves WellNamed (compile rules backend : Work ℝ Unit) := by
  refine Outcome.preserves_get fun now _ => ?_
  split
  · exact Outcome.preserves_throw _
  refine Outcome.preserves_forM fun w _ => ?_
  unfold compilePiece
  split
  · exact Outcome.preserves_throw _
  refine Outcome.preserves_bind (Outcome.preserves_lift _) fun _ => Outcome.preserves_bind ?_ fun _ =>
    Outcome.preserves_forM fun r _ => ?_
  · exact Outcome.preserves_modify fun d named =>
      wellNamed_modifyPiece named (fun _ _ _ => rfl) fun v member _ => named.regions v member
  · unfold compileRegion
    split
    · exact Outcome.preserves_bind (Outcome.preserves_lift _) fun _ =>
        Outcome.preserves_modify fun d named => wellNamed_modifyRegion named _ _ fun _ => rfl
    · exact Outcome.preserves_pure _

theorem addBoundary_wellNamed (named : d.WellNamed) (piece region : String) (facets : List Int) :
    ((addBoundary piece region facets : Work ℝ Unit).run.run d).2.WellNamed := by
  unfold addBoundary
  rw [run_ask_bind]
  split
  · next w found =>
      obtain ⟨member, here⟩ := piece_eq_ok found
      unfold WorkPiece.addRegion
      split
      · exact named
      · next unused =>
          refine wellNamed_modifyPiece named (fun v _ same => here.trans same.symm) fun _ _ _ => ?_
          rw [List.map_append]
          refine List.nodup_append.mpr ⟨named.regions w member, List.nodup_singleton _, fun a known b new same => ?_⟩
          obtain ⟨r, inside, rfl⟩ := List.mem_map.mp known
          have absent := List.find?_eq_none.mp unused r inside
          rw [List.map_cons, List.map_nil, List.mem_singleton] at new
          exact absent (decide_eq_true (same.trans new))
  · exact named

/-- Names tell pieces apart, and the regions of a piece, whatever is done. -/
theorem perform_wellNamed (rules : Calculus Quantity) (named : d.WellNamed) (op : Operation) :
    (d.perform rules op).2.WellNamed := by
  cases op with
  | addPiece name elements =>
      rw [perform_addPiece]
      rcases addPiece_cases (d := d) name elements with same | ⟨-, -, w, bare, unused, more⟩
      · rw [same]
        exact named
      · constructor
        · rw [more, List.map_append]
          refine List.nodup_append.mpr ⟨named.pieces, List.nodup_singleton _, fun a known b new same => unused ?_⟩
          rw [List.map_cons, List.map_nil, List.mem_singleton] at new
          exact new ▸ same ▸ known
        · intro v member
          rw [more] at member
          rcases List.mem_append.mp member with old | new
          · exact named.regions v old
          · rw [List.mem_singleton.mp new, bare]
            exact List.nodup_nil
  | addBoundary piece region facets => exact addBoundary_wellNamed named piece region facets
  | assignForm piece form =>
      exact wellNamed_modifyPiece named (fun _ _ _ => rfl) fun w member _ => named.regions w member
  | assignBoundaryForm piece region form => exact wellNamed_modifyRegion named piece region fun _ => rfl
  | discretize family order quadratureOrder =>
      obtain ⟨-, pieces⟩ := discretize_frame family order quadratureOrder d ⟨rfl, rfl⟩
      rw [perform]
      exact ⟨pieces ▸ named.pieces, pieces ▸ named.regions⟩
  | compile backend => exact compile_wellNamed backend d named

theorem after_wellNamed (rules : Calculus Quantity) (named : d.WellNamed) (ops : List Operation) :
    (d.after rules ops).WellNamed := by
  induction ops generalizing d with
  | nil => exact named
  | cons op ops ih => exact ih (perform_wellNamed rules named op)

theorem wellNamed_ofMesh (mesh : Mesh ℝ) : (ofMesh mesh).WellNamed := ⟨List.nodup_nil, nofun⟩

/-- A domain with control points, of which those of the elements of its pieces are occupied and numbered. -/
structure Occupied (d : Domain ℝ) (x : Discretization ℝ) : Prop where
  present : d.discretization = some x
  made : ∃ family order quadratureOrder, ElementSpace.make d.mesh family order quadratureOrder = .ok x.space
  points : ∃ rows internal external, d.pieces.mapM (pointsOf x.space) = .ok rows ∧
    x = numberedSpace x.space d.mesh.dim internal external (rows.map List.flatten).flatten

theorem pointsOf_congr {space : ElementSpace ℝ} (same : d'.pieces.map (·.outline) = d.pieces.map (·.outline)) :
    d'.pieces.mapM (pointsOf space) = d.pieces.mapM (pointsOf space) := by
  have outlined (ws : List WorkPiece) : ws.mapM (pointsOf space) =
      (ws.map (·.outline)).mapM fun o => o.2.mapM space.elementPoints := by
    rw [List.mapM_map]
    rfl
  rw [outlined, outlined, same]

theorem Occupied.kept {x : Discretization ℝ} (occupied : Occupied d x) (kept : Kept d d') : Occupied d' x where
  present := kept.discretization.trans occupied.present
  made := kept.mesh ▸ occupied.made
  points := by
    rw [pointsOf_congr kept.outlines, kept.mesh]
    exact occupied.points

theorem occupied_discretize {family : String} {order : Number} {quadratureOrder : Option Int}
    (done : (discretize family order quadratureOrder).run.run d = (.ok (), d')) :
    (∃ x, Occupied d' x) ∧ d'.pieces = d.pieces := by
  obtain ⟨-, -, internal, external, whole, space, rows, -, -, made, found, rfl⟩ := discretize_eq_ok_iff.mp done
  exact ⟨⟨_, rfl, ⟨family, whole, quadratureOrder, made⟩, rows, internal, external, found, rfl⟩, rfl⟩

theorem distinct_ofMesh (mesh : Mesh ℝ) : (ofMesh mesh).Distinct := List.nodup_nil

/-- Whatever is done before and after a discretization that succeeds, the points of the pieces are the occupied ones. -/
theorem occupied_after {mesh : Mesh ℝ} {before later : List Operation} {family : String} {order : Number}
    {quadratureOrder : Option Int}
    (succeeds : (((ofMesh mesh).after rules before).perform rules (.discretize family order quadratureOrder)).1 = .ok ()) :
    ∃ x, Occupied ((ofMesh mesh).after rules (before ++ .discretize family order quadratureOrder :: later)) x := by
  obtain ⟨distinct, -⟩ := after_distinct rules (distinct_ofMesh mesh) before
  rw [after_append, after_cons]
  generalize (ofMesh mesh).after rules before = d at succeeds distinct ⊢
  obtain ⟨d', reached⟩ : ∃ d', d.perform rules (.discretize family order quadratureOrder) = (.ok (), d') :=
    ⟨_, Prod.ext succeeds rfl⟩
  obtain ⟨⟨x, occupied⟩, pieces⟩ := occupied_discretize reached
  have again : d'.Distinct := by
    rw [Distinct, pieces]
    exact distinct
  have present : d'.discretization.isSome = true := by
    rw [occupied.present]
    rfl
  rw [reached]
  exact ⟨x, occupied.kept (after_kept again present later)⟩

/-- Every life cycle in which a discretization and later a compilation succeed, and blocks are made then, is one of a
domain at these two stages that yields those blocks. -/
theorem yields_after {mesh : Mesh ℝ} {before later : List Operation} {family : String} {order : Number}
    {quadratureOrder : Option Int} {backend : String} {lines : LineRules ℝ} {blocks : List (Block ℝ)}
    (succeeds : (((ofMesh mesh).after rules before).perform rules (.discretize family order quadratureOrder)).1 = .ok ())
    (compiled : (((ofMesh mesh).after rules (before ++ .discretize family order quadratureOrder :: later)).perform rules
      (.compile backend)).1 = .ok ())
    (built : Block.allOf lines (((ofMesh mesh).after rules
      (before ++ .discretize family order quadratureOrder :: later)).perform rules (.compile backend)).2 = .ok blocks) :
    ∃ s x dofs, s.start = (ofMesh mesh).after rules before ∧
      s.final = (ofMesh mesh).after rules (before ++ .discretize family order quadratureOrder :: later) ∧
      s.final.WellNamed ∧ Preparation.Yields ⟨rules, lines, family, order, quadratureOrder, backend⟩ s x dofs blocks := by
  have distinct := (after_distinct rules (distinct_ofMesh mesh) before).1
  have named := after_wellNamed rules (wellNamed_ofMesh mesh)
    (before ++ .discretize family order quadratureOrder :: later)
  rw [after_append, after_cons] at named compiled built ⊢
  generalize (ofMesh mesh).after rules before = start at *
  obtain ⟨d, reached⟩ : ∃ d, start.perform rules (.discretize family order quadratureOrder) = (.ok (), d) :=
    ⟨_, Prod.ext succeeds rfl⟩
  rw [reached] at named compiled built ⊢
  obtain ⟨-, -, internal, external, whole, space, rows, -, -, -, -, same⟩ := discretize_eq_ok_iff.mp reached
  obtain ⟨x, n, present, numbered⟩ : ∃ x n, d.discretization = some x ∧ x.numbered = some n := by
    rw [same]
    exact ⟨_, _, rfl, rfl⟩
  have again : d.Distinct := by
    rw [same]
    exact distinct
  have kept : Kept d (d.after rules later) := after_kept again (by rw [present]; rfl) later
  have mesh : (d.after rules later).mesh = start.mesh := by rw [kept.mesh, same]
  have outlines : (d.after rules later).pieces.map (·.outline) = start.pieces.map (·.outline) := by
    rw [kept.outlines, same]
  refine ⟨⟨start, _, mesh, outlines⟩, x, n.dofs, rfl, rfl, named, d, _, n.unknowns, reached, present, numbered, ?_, built⟩
  have held : { d.after rules later with discretization := some x } = d.after rules later := by
    rw [← present, ← kept.discretization]
  rw [held]
  exact Prod.ext compiled rfl

end Domain

end Galerkin
