import Mathlib
import Galerkin.Proofs.Assembly.Batches
import Galerkin.Proofs.Assembly.Renumbering
import Galerkin.Proofs.Domain
import Galerkin.Proofs.Domain.Compilation
import Galerkin.Proofs.Exact
import Galerkin.Proofs.WeakForm.Ranges

/-!
Discretization step by step: what it takes to give control points to a mesh, and which of them get unknowns. The
layouts of a domain depend on which fields occur in its forms, and neither on the order of the forms nor on how often
one of them is used.

What it takes to discretize and compile a domain and to make its blocks, and the jobs that these blocks do.
-/

namespace Galerkin

namespace ControlPoints

theorem occupy_append {α : Type} (c : ControlPoints α) (first second : List Nat) :
    (c.occupy first).occupy second = c.occupy (first ++ second) := by
  rw [occupy, occupy, occupy, List.foldl_append]

theorem getElem?_occupied (ids : List Nat) (flags : Array Bool) (p : Nat) :
    (ids.foldl (fun flags i => flags.set! i true) flags)[p]? = flags[p]?.map fun flag => flag || decide (p ∈ ids) := by
  induction ids generalizing flags with
  | nil => simp
  | cons i rest ih =>
      rw [List.foldl_cons, ih, Array.set!_eq_setIfInBounds, Array.getElem?_setIfInBounds]
      by_cases same : i = p
      · subst same
        by_cases inside : i < flags.size <;> simp [inside]
      · simp [same, Ne.symm same]

/-- The points that are occupied, among points of which none was. -/
theorem occupied_make {dim : Nat} {positions : Array (List ℝ)} {internal external : Layout} (ids : List Nat) (p : Nat) :
    ((make dim positions internal external).occupy ids).occupied[p]? =
      if p < positions.size then some (decide (p ∈ ids)) else none := by
  rw [occupy, getElem?_occupied, make, Array.getElem?_map]
  by_cases inside : p < positions.size <;> simp [inside]

end ControlPoints

namespace Domain

variable {d d' : Domain ℝ} {family : String} {order : Number} {quadratureOrder : Option Int}

/-- The control points of a space, of which some are occupied, and the numbers of their unknowns. -/
noncomputable def numberedSpace (space : ElementSpace ℝ) (dim : Nat) (internal external : Layout) (ids : List Nat) :
    Discretization ℝ :=
  numberUnknowns ⟨space, (ControlPoints.make dim space.positions internal external).occupy ids, none⟩

theorem occupyPieces_eq_ok {space : ElementSpace ℝ} {x : Discretization ℝ} {pieces : List WorkPiece}
    (present : d.discretization = some x) :
    (pieces.forM (occupyPiece space)).run.run d = (.ok (), d') ↔ ∃ rows, pieces.mapM (pointsOf space) = .ok rows ∧
      d' = { d with discretization := some { x with points := x.points.occupy (rows.map List.flatten).flatten } } := by
  obtain ⟨mesh, all, parameters, _⟩ := d
  cases present
  refine (Outcome.forM_eq_ok (f := pointsOf space)
    (fun done (_ : List WorkPiece) => (⟨mesh, all, parameters,
      some { x with points := x.points.occupy (done.map List.flatten).flatten }⟩ : Domain ℝ))
    (fun _ _ => True) ?_ (fun _ _ _ _ _ _ => trivial) [] pieces trivial).trans ?_
  · intro done w rest _ d'
    constructor
    · intro finished
      obtain ⟨rows, _, lifted, finished⟩ := Outcome.run_bind_eq_ok.mp finished
      obtain ⟨found, rfl⟩ := Outcome.run_lift_eq_ok.mp lifted
      cases finished
      refine ⟨rows, found, ?_⟩
      simp [modifyDiscretization, ControlPoints.occupy_append]
    · rintro ⟨rows, found, rfl⟩
      refine Outcome.run_bind_eq_ok.mpr ⟨rows, _, Outcome.run_lift_eq_ok.mpr ⟨found, rfl⟩, ?_⟩
      refine Prod.ext rfl ?_
      change modifyDiscretization _ _ = _
      simp [modifyDiscretization, ControlPoints.occupy_append]
  · simp

/-- What discretizing a domain takes and does. -/
theorem discretize_eq_ok_iff :
    (discretize family order quadratureOrder).run.run d = (.ok (), d') ↔ d.discretization = none ∧ d.pieces ≠ [] ∧
      ∃ internal external whole space rows, d.layouts = .ok (internal, external) ∧
        Element.wholeOrder d.mesh.cell family order = .ok whole ∧
        ElementSpace.make d.mesh family whole quadratureOrder = .ok space ∧
        d.pieces.mapM (pointsOf space) = .ok rows ∧
        d' = ⟨d.mesh, d.pieces, d.parameters,
          some (numberedSpace space d.mesh.dim internal external (rows.map List.flatten).flatten)⟩ := by
  unfold discretize
  constructor
  · intro done
    obtain ⟨start, _, got, done⟩ := Outcome.run_bind_eq_ok.mp done
    cases got
    simp only at done
    split at done
    · cases done
    split at done
    · cases done
    next fresh some =>
    obtain ⟨⟨internal, external⟩, _, laid, done⟩ := Outcome.run_bind_eq_ok.mp done
    obtain ⟨layouts, rfl⟩ := Outcome.run_lift_eq_ok.mp laid
    obtain ⟨whole, _, asked, done⟩ := Outcome.run_bind_eq_ok.mp done
    obtain ⟨ordered, rfl⟩ := Outcome.run_lift_eq_ok.mp asked
    obtain ⟨space, _, built, done⟩ := Outcome.run_bind_eq_ok.mp done
    obtain ⟨made, rfl⟩ := Outcome.run_lift_eq_ok.mp built
    obtain ⟨_, _, stored, done⟩ := Outcome.run_bind_eq_ok.mp done
    cases stored
    obtain ⟨_, _, occupied, done⟩ := Outcome.run_bind_eq_ok.mp done
    obtain ⟨rows, found, rfl⟩ := (occupyPieces_eq_ok rfl).mp occupied
    cases done
    exact ⟨by simpa using fresh, by simpa using some, internal, external, whole, space, rows, layouts, ordered, made,
      found, rfl⟩
  · rintro ⟨fresh, some, internal, external, whole, space, rows, layouts, ordered, made, found, rfl⟩
    refine Outcome.run_bind_eq_ok.mpr ⟨d, d, rfl, ?_⟩
    simp only [fresh, Option.isSome_none, List.isEmpty_iff, some, if_false, Bool.false_eq_true]
    refine Outcome.run_bind_eq_ok.mpr ⟨(internal, external), d, Outcome.run_lift_eq_ok.mpr ⟨layouts, rfl⟩, ?_⟩
    refine Outcome.run_bind_eq_ok.mpr ⟨whole, d, Outcome.run_lift_eq_ok.mpr ⟨ordered, rfl⟩, ?_⟩
    refine Outcome.run_bind_eq_ok.mpr ⟨space, d, Outcome.run_lift_eq_ok.mpr ⟨made, rfl⟩, ?_⟩
    refine Outcome.run_bind_eq_ok.mpr ⟨(), _, rfl, ?_⟩
    exact Outcome.run_bind_eq_ok.mpr ⟨(), _, (occupyPieces_eq_ok rfl).mpr ⟨rows, found, rfl⟩, rfl⟩

end Domain

/-! ### Fields in use -/

namespace Domain

variable {fs found : List Field}

/-- Is there one field at most of every name? -/
def Coherent (fs : List Field) : Prop := ∀ f ∈ fs, ∀ g ∈ fs, f.name = g.name → f = g

/-- The fields of a list, each once. -/
structure Collected (fs found : List Field) : Prop where
  coherent : Coherent fs
  mem : ∀ f, f ∈ found ↔ f ∈ fs
  distinct : (found.map (·.name)).Nodup

theorem collected_nil : Collected [] [] := ⟨fun _ impossible => (nomatch impossible), fun _ => Iff.rfl, List.nodup_nil⟩

theorem Coherent.mono {fewer : List Field} (coherent : Coherent fs) (less : ∀ f ∈ fewer, f ∈ fs) : Coherent fewer :=
  fun f first g second => coherent f (less f first) g (less g second)

theorem addField_collected {f : Field} {next : List Field} (collected : Collected fs found)
    (done : addField found f = .ok next) : Collected (fs ++ [f]) next := by
  unfold addField at done
  split at done
  · next absent =>
      cases done
      have apart : ∀ g ∈ fs, g.name ≠ f.name := fun g member => by
        simpa using List.find?_eq_none.mp absent g ((collected.mem g).mpr member)
      refine ⟨?_, fun g => ?_, ?_⟩
      · intro g first h second names
        rw [List.mem_append, List.mem_singleton] at first second
        rcases first with first | rfl <;> rcases second with second | rfl
        · exact collected.coherent g first h second names
        · exact absurd names (apart g first)
        · exact absurd names.symm (apart h second)
        · rfl
      · rw [List.mem_append, List.mem_append, collected.mem g]
      · rw [List.map_append, List.nodup_append]
        refine ⟨collected.distinct, List.nodup_singleton _, fun name known other new => ?_⟩
        obtain ⟨g, member, rfl⟩ := List.mem_map.mp known
        cases List.mem_singleton.mp new
        exact apart g ((collected.mem g).mp member)
  · next old present =>
      split at done
      · next same =>
          subst same
          cases done
          have known := (collected.mem old).mp (List.mem_of_find?_eq_some present)
          have listed : ∀ g, g ∈ fs ++ [old] ↔ g ∈ fs := fun g => by
            rw [List.mem_append, List.mem_singleton]
            exact or_iff_left_of_imp fun same => same ▸ known
          exact ⟨collected.coherent.mono fun g member => (listed g).mp member, fun g =>
            (collected.mem g).trans (listed g).symm, collected.distinct⟩
      · cases done

theorem addField_isOk {f : Field} (collected : Collected fs found) (coherent : Coherent (fs ++ [f])) :
    ∃ next, addField found f = .ok next := by
  unfold addField
  split
  · exact ⟨_, rfl⟩
  · next old present =>
      have known := (collected.mem old).mp (List.mem_of_find?_eq_some present)
      have names : old.name = f.name := by simpa using List.find?_some present
      rw [if_pos (coherent old (List.mem_append_left _ known) f (List.mem_append_right _ List.mem_cons_self) names)]
      exact ⟨_, rfl⟩

theorem collected_of_foldlM (done : fs.foldlM addField [] = .ok found) : Collected fs found :=
  Outcome.foldlM_induction done collected_nil fun _ _ _ _ _ collected added => addField_collected collected added

theorem foldlM_addField_isOk (coherent : Coherent fs) : ∃ found, fs.foldlM addField [] = .ok found := by
  induction fs using List.reverseRecOn with
  | nil => exact ⟨[], rfl⟩
  | append_singleton fs f ih =>
      obtain ⟨found, earlier⟩ := ih (coherent.mono fun g member => List.mem_append_left _ member)
      obtain ⟨next, last⟩ := addField_isOk (collected_of_foldlM earlier) coherent
      refine ⟨next, ?_⟩
      rw [List.foldlM_append]
      exact Outcome.bind_eq_ok.mpr ⟨found, earlier, Outcome.bind_eq_ok.mpr ⟨next, last, rfl⟩⟩

variable {d d' : Domain ℝ}

theorem fields_perm (forms : ∀ form, form ∈ d'.forms ↔ form ∈ d.forms) (done : d.fields = .ok found) :
    ∃ others, d'.fields = .ok others ∧ others.Perm found ∧ (found.map (·.name)).Nodup := by
  have listed : ∀ f, f ∈ d'.forms.flatMap (·.fields) ↔ f ∈ d.forms.flatMap (·.fields) := by
    simp only [List.mem_flatMap, forms, implies_true]
  have collected := collected_of_foldlM done
  obtain ⟨others, collects⟩ := foldlM_addField_isOk (collected.coherent.mono fun f => (listed f).mp)
  have again := collected_of_foldlM collects
  refine ⟨others, collects, ?_, collected.distinct⟩
  refine (List.perm_ext_iff_of_nodup again.distinct.of_map collected.distinct.of_map).mpr fun f => ?_
  rw [again.mem, collected.mem]
  exact listed f

theorem layouts_congr (dim : d'.mesh.dim = d.mesh.dim) (forms : ∀ form, form ∈ d'.forms ↔ form ∈ d.forms)
    {layouts : Layout × Layout} (done : d.layouts = .ok layouts) : d'.layouts = .ok layouts := by
  obtain ⟨found, collects, done⟩ := Outcome.bind_eq_ok.mp done
  obtain ⟨others, collects', same, distinct⟩ := fields_perm forms collects
  refine Outcome.bind_eq_ok.mpr ⟨others, collects', ?_⟩
  have parts (p : Field → Bool) : Layout.ofFields (others.filter p) d'.mesh.dim = Layout.ofFields (found.filter p) d.mesh.dim := by
    rw [dim]
    exact Layout.ofFields_perm (same.filter p) (distinct.sublist ((List.filter_sublist).map _)) _
  have empty : (others.filter (!·.external)).isEmpty = (found.filter (!·.external)).isEmpty :=
    (same.filter _).isEmpty_eq
  simp only [empty, parts]
  exact done

/-- The forms that a domain has when it is discretized have all their fields in its layouts. -/
theorem fits_of_layouts {internal external : Layout} (done : d.layouts = .ok (internal, external)) {form : Expr}
    (own : form ∈ d.forms) : Setting.Fits ⟨d.mesh.dim, internal, external⟩ form := by
  obtain ⟨found, collects, done⟩ := Outcome.bind_eq_ok.mp done
  dsimp only at done
  split at done
  · cases done
  obtain ⟨inner, made, done⟩ := Outcome.bind_eq_ok.mp done
  obtain ⟨outer, made', done⟩ := Outcome.bind_eq_ok.mp done
  cases done
  have collected := collected_of_foldlM collects
  obtain ⟨dim, inside⟩ := Layout.ofFields_eq_ok made
  obtain ⟨dim', outside⟩ := Layout.ofFields_eq_ok made'
  have names {fields : List Field} {p : Field → Bool} (same : fields.Perm (found.filter p)) : (fields.map (·.name)).Nodup :=
    (same.map _).nodup_iff.mpr (collected.distinct.sublist (List.filter_sublist.map _))
  refine ⟨⟨dim, dim', names inside, names outside⟩, fun f member => ?_⟩
  have known : f ∈ found := (collected.mem f).mpr (List.mem_flatMap.mpr ⟨form, own, member⟩)
  rw [Setting.Has]
  cases kind : f.external with
  | false => exact inside.mem_iff.mpr (List.mem_filter.mpr ⟨known, by simp [kind]⟩)
  | true => exact outside.mem_iff.mpr (List.mem_filter.mpr ⟨known, kind⟩)

end Domain

/-- What of a work piece decides which unknowns there are. -/
def WorkPiece.outline (w : WorkPiece) : String × List Int := (w.name, w.elements)

namespace Domain

/-- A domain when it is discretized and when it is compiled. In between, forms and regions may be given to its pieces. -/
structure Stages where
  start : Domain ℝ
  final : Domain ℝ
  mesh : final.mesh = start.mesh
  outlines : final.pieces.map (·.outline) = start.pieces.map (·.outline)

/-- All elements of all pieces, as far as they are there. -/
def numbers (d : Domain ℝ) : List (Option Nat) :=
  d.pieces.flatMap fun w => w.elements.map (position? d.mesh.elements.size)

theorem Stages.numbers (s : Stages) : s.final.numbers = s.start.numbers := by
  have outlined (d : Domain ℝ) : d.numbers =
      (d.pieces.map (·.outline)).flatMap fun o => o.2.map (position? d.mesh.elements.size) := by
    rw [List.flatMap_map]
    rfl
  rw [outlined, outlined, s.mesh, s.outlines]

end Domain

/-- How domains are discretized and compiled, and by which rules their bases are tabulated. -/
structure Preparation where
  rules : Calculus Quantity
  lines : LineRules ℝ
  family : String
  order : Number
  quadratureOrder : Option Int
  backend : String

namespace Preparation

variable {P : Preparation} {d : Domain ℝ} {s : Domain.Stages} {x : Discretization ℝ} {dofs : DofMap}
  {blocks : List (Block ℝ)}

/-- Does a domain get these control points, these numbers of its unknowns and these blocks? -/
def Yields (P : Preparation) (s : Domain.Stages) (x : Discretization ℝ) (dofs : DofMap) (blocks : List (Block ℝ)) :
    Prop :=
  ∃ d d' unknowns, (Domain.discretize P.family P.order P.quadratureOrder).run.run s.start = (.ok (), d) ∧
    d.discretization = some x ∧ x.numbered = some ⟨dofs, unknowns⟩ ∧
    (Domain.compile P.rules P.backend).run.run { s.final with discretization := some x } = (.ok (), d') ∧
    Block.allOf P.lines d' = .ok blocks

/-- What blocks are made in. -/
def context (P : Preparation) (x : Discretization ℝ) (dofs : DofMap) : Block.Context ℝ := ⟨x.space, dofs, P.lines⟩

/-- The numbers of the unknowns of a discretization. -/
noncomputable def dofsOf (x : Discretization ℝ) : DofMap :=
  .ofOccupied x.points.internal.width x.points.occupied.toList

/-- A discretization of a domain, made of the layouts of its fields, of its element space and of the points of its
pieces. -/
structure Discretized (P : Preparation) (d : Domain ℝ) (x : Discretization ℝ) : Prop where
  fresh : d.discretization = none
  some : d.pieces ≠ []
  parts : ∃ internal external whole rows, d.layouts = .ok (internal, external) ∧
    Element.wholeOrder d.mesh.cell P.family P.order = .ok whole ∧
    ElementSpace.make d.mesh P.family whole P.quadratureOrder = .ok x.space ∧
    d.pieces.mapM (Domain.pointsOf x.space) = .ok rows ∧
    x = Domain.numberedSpace x.space d.mesh.dim internal external (rows.map List.flatten).flatten

theorem Discretized.numbered (discretized : P.Discretized d x) :
    x.numbered = Option.some ⟨dofsOf x, .zeros (dofsOf x).count⟩ := by
  obtain ⟨_, _, _, _, -, -, -, -, same⟩ := discretized.parts
  rw [same]
  rfl

theorem Yields.discretized (yields : P.Yields s x dofs blocks) : P.Discretized s.start x ∧ dofs = dofsOf x := by
  obtain ⟨d, d', unknowns, discretized, present, numbered, -, -⟩ := yields
  obtain ⟨fresh, some, internal, external, whole, space, rows, layouts, order, made, found, rfl⟩ :=
    Domain.discretize_eq_ok_iff.mp discretized
  cases present
  cases numbered
  exact ⟨⟨fresh, some, internal, external, whole, rows, layouts, order, made, found, rfl⟩, rfl⟩

/-- A compiled piece and its blocks. -/
def PieceYields (P : Preparation) (x : Discretization ℝ) (w : WorkPiece) (blocks : List (Block ℝ)) : Prop :=
  ∃ v, Domain.compiledPiece P.rules (Domain.setting x) P.backend w = .ok v ∧
    Block.allOfPiece (P.context x (dofsOf x)) v = .ok blocks

theorem wellNamed_discretized (named : d.WellNamed) (x : Option (Discretization ℝ)) :
    Domain.WellNamed { d with discretization := x } := ⟨named.pieces, named.regions⟩

theorem yields_iff (named : s.final.WellNamed) : P.Yields s x dofs blocks ↔
    P.Discretized s.start x ∧ dofs = dofsOf x ∧
      ∃ parts, List.Forall₂ (P.PieceYields x) s.final.pieces parts ∧ parts.flatten = blocks := by
  constructor
  · rintro ⟨d, d', unknowns, discretized, present, numbered, compiled, built⟩
    obtain ⟨fresh, some, internal, external, whole, space, rows, layouts, order, made, found, rfl⟩ :=
      Domain.discretize_eq_ok_iff.mp discretized
    cases present
    cases numbered
    obtain ⟨y, pieces, same, mapped, rfl⟩ := (Domain.compile_eq_ok_iff (wellNamed_discretized named _)).mp compiled
    cases same
    obtain ⟨z, n, parts, same, numbered, all, rfl⟩ := Block.allOf_eq_ok.mp built
    cases same
    cases numbered
    refine ⟨⟨fresh, some, internal, external, whole, rows, layouts, order, made, found, rfl⟩, rfl, parts, ?_, rfl⟩
    exact Outcome.matched_comp.mp ⟨pieces, Outcome.mapM_eq_ok.mp mapped, Outcome.mapM_eq_ok.mp all⟩
  · rintro ⟨discretized, rfl, parts, each, rfl⟩
    obtain ⟨pieces, mapped, all⟩ := Outcome.matched_comp.mpr each
    have numbered := discretized.numbered
    obtain ⟨fresh, some, internal, external, whole, rows, layouts, order, made, found, same⟩ := discretized
    refine ⟨{ s.start with discretization := Option.some x },
      { s.final with pieces, discretization := Option.some x }, _, ?_, rfl, numbered, ?_, ?_⟩
    · exact Domain.discretize_eq_ok_iff.mpr ⟨fresh, some, internal, external, whole, x.space, rows, layouts, order, made,
        found, by rw [← same]⟩
    · exact (Domain.compile_eq_ok_iff (wellNamed_discretized named _)).mpr
        ⟨x, pieces, rfl, Outcome.mapM_eq_ok.mpr mapped, rfl⟩
    · exact Block.allOf_eq_ok.mpr ⟨x, _, parts, rfl, numbered, Outcome.mapM_eq_ok.mpr all, rfl⟩

theorem Discretized.mesh (discretized : P.Discretized d x) : x.space.mesh = d.mesh := by
  obtain ⟨_, _, _, _, -, -, made, -, -⟩ := discretized.parts
  exact (ElementSpace.make_shape made).1

theorem Discretized.fits (discretized : P.Discretized d x) :
    (P.context x (dofsOf x)).Fits (Domain.setting x) := by
  obtain ⟨_, _, _, _, -, -, made, -, -⟩ := discretized.parts
  obtain ⟨mesh, size, cell⟩ := ElementSpace.make_shape made
  refine ⟨ElementSpace.make_even made, rfl, ?_, ?_⟩
  · exact size.trans (congrArg (·.elements.size) mesh.symm)
  · exact (congrArg Mesh.dim mesh).trans (congrArg Cell.dim cell.symm)

theorem Discretized.ofKind (discretized : P.Discretized d x) : ∃ k, Element.OfKind k d.mesh.cell x.space.element := by
  obtain ⟨_, _, _, _, -, -, made, -, -⟩ := discretized.parts
  exact ElementSpace.make_ofKind made

theorem Discretized.setting (discretized : P.Discretized d x) : ∃ layouts, d.layouts = .ok layouts ∧
    Domain.setting x = ⟨d.mesh.dim, layouts.1, layouts.2⟩ := by
  obtain ⟨internal, external, _, _, layouts, -, made, -, same⟩ := discretized.parts
  refine ⟨(internal, external), layouts, ?_⟩
  rw [Domain.setting, discretized.mesh, same]
  rfl

theorem Discretized.tasks (discretized : P.Discretized s.start x) :
    s.final.tasks = s.final.pieces.flatMap (·.tasks (P.context x (dofsOf x)).space.mesh) := by
  rw [Domain.tasks, s.mesh, ← discretized.mesh]
  rfl

theorem Discretized.unique {y : Discretization ℝ} (first : P.Discretized d x) (second : P.Discretized d y) : x = y := by
  obtain ⟨-, -, internal, external, whole, rows, layouts, order, made, found, same⟩ := first
  obtain ⟨-, -, internal', external', whole', rows', layouts', order', made', found', same'⟩ := second
  cases layouts.symm.trans layouts'
  cases order.symm.trans order'
  have spaces := Except.ok.inj (made.symm.trans made')
  rw [spaces] at found same
  cases found.symm.trans found'
  exact same.trans same'.symm

/-- The blocks of a domain do one job for each of its tasks. -/
theorem Yields.jobs (yields : P.Yields s x dofs blocks) (named : s.final.WellNamed) : ∃ jobss,
    List.Forall₂ Block.Does blocks jobss ∧
      List.Forall₂ (Task.Becomes P.rules (Domain.setting x) (P.context x dofs)) s.final.tasks jobss.flatten := by
  obtain ⟨discretized, rfl, parts, each, rfl⟩ := (yields_iff named).mp yields
  rw [discretized.tasks]
  have fits := discretized.fits
  clear yields named discretized
  generalize s.final.pieces = pieces at each ⊢
  induction each with
  | nil => exact ⟨[], .nil, .nil⟩
  | cons own _ ih =>
      obtain ⟨v, compiled, built⟩ := own
      obtain ⟨first, does, become⟩ := Block.allOfPiece_does fits compiled built
      obtain ⟨rest, others, later⟩ := ih
      refine ⟨first ++ rest, List.rel_append does others, ?_⟩
      rw [List.flatMap_cons, List.flatten_append]
      exact List.rel_append become later

/-- The system of a domain is the sum of what its jobs contribute. -/
theorem Yields.assemble_eq_ok_iff (yields : P.Yields s x dofs blocks) (named : s.final.WellNamed) {jobs : List Job}
    (become : List.Forall₂ (Task.Becomes P.rules (Domain.setting x) (P.context x dofs)) s.final.tasks jobs)
    {state : AssemblyState ℝ} (fed : ∀ j ∈ jobs, j.Fed state) {n : Nat} {sys : System ℝ} :
    Block.assemble blocks n state = .ok sys ↔
      ∃ cs, List.Forall₂ (Job.Contributes state) jobs cs ∧ sys = .ofContributions n cs := by
  obtain ⟨jobss, does, own⟩ := yields.jobs named
  have same := List.right_unique_forall₂' Task.becomes_unique own become
  subst same
  exact Block.assemble_eq_ok_iff does fed

/-- Has every piece elements, and every region with a form facets? -/
def Filled (d : Domain ℝ) : Prop :=
  ∀ w ∈ d.pieces, w.elements ≠ [] ∧ ∀ r ∈ w.regions, r.form.isSome = true → r.facets ≠ []

theorem Yields.filled (yields : P.Yields s x dofs blocks) (named : s.final.WellNamed) : Filled s.final := by
  obtain ⟨discretized, -, parts, each, -⟩ := (yields_iff named).mp yields
  intro w member
  obtain ⟨part, -, v, compiled, made⟩ := Outcome.exists_of_matched_left each member
  obtain ⟨form, k, rs, -, -, mapped, rfl⟩ := Domain.compiledPiece_eq_ok.mp compiled
  have built : Block.allOf P.lines ⟨s.start.mesh, [{ w with kernel := some k, regions := rs }], [], some x⟩ = .ok part :=
    Block.allOf_eq_ok.mpr ⟨x, _, [part], rfl, discretized.numbered, Outcome.mapM_eq_ok.mpr (.cons made .nil),
      List.append_nil part⟩
  obtain ⟨elements, regions⟩ := Block.nonempty_of_allOf built (List.mem_singleton.mpr rfl)
  refine ⟨elements, fun r inner formed => ?_⟩
  obtain ⟨_, among, own⟩ := Outcome.exists_of_matched_left (Outcome.mapM_eq_ok.mp mapped) inner
  obtain ⟨kernel, rfl⟩ := Domain.name_compiledRegion own
  exact regions { r with kernel } among formed

theorem Discretized.pieces (discretized : P.Discretized s.start x) : s.final.pieces ≠ [] := by
  intro none
  have outlines := s.outlines
  rw [none] at outlines
  exact discretized.some (List.map_eq_nil_iff.mp outlines.symm)

theorem Yields.backend (yields : P.Yields s x dofs blocks) (named : s.final.WellNamed) :
    ∃ b, Backend.ofName P.backend = .ok b := by
  obtain ⟨discretized, -, parts, each, -⟩ := (yields_iff named).mp yields
  obtain ⟨w, member⟩ := List.exists_mem_of_ne_nil _ discretized.pieces
  obtain ⟨_, -, v, compiled, -⟩ := Outcome.exists_of_matched_left each member
  obtain ⟨_, k, _, -, compiled, -, -⟩ := Domain.compiledPiece_eq_ok.mp compiled
  exact ⟨k.backend, (CompiledKernel.compile_eq_ok.mp compiled).2⟩

/-- A discretized domain has blocks when all its tasks come to jobs. -/
theorem yields_of_jobs (named : s.final.WellNamed) (discretized : P.Discretized s.start x) (filled : Filled s.final)
    {b : Backend} (known : Backend.ofName P.backend = .ok b) {jobs : List Job}
    (become : List.Forall₂ (Task.Becomes P.rules (Domain.setting x) (P.context x (dofsOf x))) s.final.tasks jobs) :
    ∃ blocks, P.Yields s x (dofsOf x) blocks := by
  rw [discretized.tasks, List.flatMap_def] at become
  obtain ⟨jobss, each, -⟩ := Outcome.matched_flatten.mp become
  have pieces : ∀ w ∈ s.final.pieces, ∃ part, P.PieceYields x w part := by
    intro w member
    obtain ⟨own, -, tasks⟩ := Outcome.exists_of_matched_left (List.forall₂_map_left_iff.mp each) member
    obtain ⟨v, part, compiled, built⟩ := Block.allOfPiece_isOk discretized.fits known (filled w member).1
      (filled w member).2 tasks
    exact ⟨part, v, compiled, built⟩
  obtain ⟨parts, matched⟩ := Outcome.exists_matched pieces
  exact ⟨parts.flatten, (yields_iff named).mpr ⟨discretized, rfl, parts, matched, rfl⟩⟩

end Preparation

end Galerkin
