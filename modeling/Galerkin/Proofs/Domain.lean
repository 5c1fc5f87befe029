import Mathlib
import Galerkin.Proofs.Assembly.Numbering
import Galerkin.Simulation

/-!
What a discretized and compiled domain keeps to: its numbering is that of occupied control points, and every
kernel is that of one of its forms.
-/

namespace Galerkin

namespace Domain

variable {d d' : Domain ℝ}

/-- Occupying control points changes nothing else. -/
theorem occupyPiece_eq_ok {space : ElementSpace ℝ} {w : WorkPiece}
    (done : (occupyPiece space w).run.run d = (.ok (), d')) :
    ∃ ids, d' = modifyDiscretization (fun x => { x with points := x.points.occupy ids }) d := by
  obtain ⟨rows, _, found, done⟩ := Outcome.run_bind_eq_ok.mp done
  obtain ⟨_, rfl⟩ := Outcome.run_lift_eq_ok.mp found
  cases done
  exact ⟨rows.flatten, rfl⟩

theorem occupied_eq_ok {space : ElementSpace ℝ} {pieces : List WorkPiece} {x : Discretization ℝ}
    (present : d.discretization = some x) (done : (pieces.forM (occupyPiece space)).run.run d = (.ok (), d')) :
    ∃ occupied, d'.discretization = some { x with points := { x.points with occupied } } := by
  induction pieces generalizing d x with
  | nil =>
      cases done
      exact ⟨x.points.occupied, present⟩
  | cons w rest ih =>
      obtain ⟨_, later, first, others⟩ := Outcome.run_bind_eq_ok.mp done
      obtain ⟨ids, rfl⟩ := occupyPiece_eq_ok first
      have present : (modifyDiscretization (fun x => { x with points := x.points.occupy ids }) d).discretization =
          some { x with points := x.points.occupy ids } := congrArg (Option.map _) present
      obtain ⟨occupied, final⟩ := ih present others
      exact ⟨occupied, final⟩

theorem discretize_eq_ok {family : String} {order : Number} {quadratureOrder : Option Int}
    (done : (discretize family order quadratureOrder).run.run d = (.ok (), d')) :
    ∃ x, d'.discretization = some x ∧ x.space.Even ∧
      ∃ occupied unknowns, x.numbered = some ⟨.ofOccupied x.points.internal.width occupied, unknowns⟩ := by
  unfold discretize at done
  obtain ⟨start, _, got, done⟩ := Outcome.run_bind_eq_ok.mp done
  cases got
  simp only at done
  split at done
  · cases done
  split at done
  · cases done
  obtain ⟨⟨internal, external⟩, _, _, done⟩ := Outcome.run_bind_eq_ok.mp done
  obtain ⟨whole, _, _, done⟩ := Outcome.run_bind_eq_ok.mp done
  obtain ⟨space, _, made, done⟩ := Outcome.run_bind_eq_ok.mp done
  obtain ⟨_, _, stored, done⟩ := Outcome.run_bind_eq_ok.mp done
  cases stored
  obtain ⟨_, _, occupied, done⟩ := Outcome.run_bind_eq_ok.mp done
  cases done
  obtain ⟨flags, final⟩ := occupied_eq_ok rfl occupied
  have even := ElementSpace.make_even (Outcome.run_lift_eq_ok.mp made).1
  exact ⟨_, congrArg (Option.map numberUnknowns) final, even, _, _, rfl⟩

/-! ### Compilation -/

end Domain

/-- A work piece without its kernels. -/
def WorkPiece.uncompiled (w : WorkPiece) : WorkPiece :=
  { w with kernel := none, regions := w.regions.map fun r => { r with kernel := none } }

namespace Domain

variable {Good : CompiledKernel → Prop} {d₀ d d' : Domain ℝ} {done : Set (String × Option String)}

/-- A domain on its way from `d₀`: nothing but kernels has changed, and the kernels of the forms that are done
are good. A form is told by its work piece and its region. -/
structure Progress (Good : CompiledKernel → Prop) (d₀ d : Domain ℝ) (done : Set (String × Option String)) : Prop where
  discretization : d.discretization = d₀.discretization
  pieces : d.pieces.map (·.uncompiled) = d₀.pieces.map (·.uncompiled)
  inside : ∀ w ∈ d.pieces, (w.name, none) ∈ done → ∀ k ∈ w.kernel, Good k
  regions : ∀ w ∈ d.pieces, ∀ r ∈ w.regions, (w.name, some r.name) ∈ done → ∀ k ∈ r.kernel, Good k

theorem progress_refl (Good : CompiledKernel → Prop) (d : Domain ℝ) : Progress Good d d ∅ :=
  ⟨rfl, rfl, fun _ _ impossible => impossible.elim, fun _ _ _ _ impossible => impossible.elim⟩

/-- A change of the pieces with one name that leaves their forms as they are. -/
theorem pieces_modifyPiece {name : String} {f : WorkPiece → WorkPiece} (same : ∀ w, (f w).uncompiled = w.uncompiled) :
    (d.modifyPiece name f).pieces.map (·.uncompiled) = d.pieces.map (·.uncompiled) := by
  rw [modifyPiece, List.map_map]
  refine List.map_congr_left fun w _ => ?_
  rw [Function.comp_apply]
  split
  · exact same w
  · rfl

/-- One more kernel inside a work piece. -/
theorem Progress.inner (progress : Progress Good d₀ d done) {name : String} {k : CompiledKernel} (good : Good k) :
    Progress Good d₀ (d.modifyPiece name fun w => { w with kernel := some k }) (done ∪ {(name, none)}) where
  discretization := progress.discretization
  pieces := (pieces_modifyPiece (f := fun w => { w with kernel := some k }) fun _ => rfl).trans progress.pieces
  inside := by
    intro v member known k' here
    obtain ⟨w, present, rfl⟩ := List.mem_map.mp member
    by_cases same : w.name = name
    · rw [if_pos same] at here
      cases here
      exact good
    · rw [if_neg same] at known here
      exact progress.inside w present (known.resolve_right fun new => same (congrArg Prod.fst new)) k' here
  regions := by
    intro v member r inside known k' here
    obtain ⟨w, present, rfl⟩ := List.mem_map.mp member
    have earlier := known.resolve_right fun new => nomatch congrArg Prod.snd new
    by_cases same : w.name = name
    · rw [if_pos same] at inside earlier
      exact progress.regions w present r inside earlier k' here
    · rw [if_neg same] at inside earlier
      exact progress.regions w present r inside earlier k' here

theorem uncompiled_modifyRegion (w : WorkPiece) (region : String) (k : CompiledKernel) :
    (w.modifyRegion region fun r => { r with kernel := some k }).uncompiled = w.uncompiled := by
  rw [WorkPiece.uncompiled, WorkPiece.uncompiled, WorkPiece.modifyRegion, List.map_map]
  refine congrArg (WorkPiece.mk w.name w.elements w.form none) (List.map_congr_left fun r _ => ?_)
  rw [Function.comp_apply]
  split <;> rfl

/-- One more kernel on a region of a work piece. -/
theorem Progress.region (progress : Progress Good d₀ d done) {name region : String} {k : CompiledKernel}
    (good : Good k) :
    Progress Good d₀ (d.modifyPiece name fun w => w.modifyRegion region fun r => { r with kernel := some k })
      (done ∪ {(name, some region)}) where
  discretization := progress.discretization
  pieces := (pieces_modifyPiece fun w => uncompiled_modifyRegion w region k).trans progress.pieces
  inside := by
    intro v member known k' here
    obtain ⟨w, present, rfl⟩ := List.mem_map.mp member
    have earlier := known.resolve_right fun new => nomatch congrArg Prod.snd new
    by_cases same : w.name = name
    · rw [if_pos same] at earlier here
      exact progress.inside w present earlier k' here
    · rw [if_neg same] at earlier here
      exact progress.inside w present earlier k' here
  regions := by
    intro v member r inside known k' here
    obtain ⟨w, present, rfl⟩ := List.mem_map.mp member
    by_cases same : w.name = name
    · rw [if_pos same] at inside known
      obtain ⟨r, among, rfl⟩ := List.mem_map.mp inside
      by_cases equal : r.name = region
      · rw [if_pos equal] at here
        cases here
        exact good
      · rw [if_neg equal] at known here
        have earlier := known.resolve_right fun new => equal (Option.some.inj (congrArg Prod.snd new))
        exact progress.regions w present r among earlier k' here
    · rw [if_neg same] at inside known
      exact progress.regions w present r inside (known.resolve_right fun new => same (congrArg Prod.fst new)) k' here

theorem Progress.mono (progress : Progress Good d₀ d done) {fewer : Set (String × Option String)}
    (less : fewer ⊆ done) : Progress Good d₀ d fewer :=
  ⟨progress.discretization, progress.pieces, fun w member known => progress.inside w member (less known),
    fun w member r inside known => progress.regions w member r inside (less known)⟩

/-- Work on every entry of a list does what it does on each. -/
theorem Progress.forM {ι : Type} {xs : List ι} {work : ι → Work ℝ Unit} {slots : ι → Set (String × Option String)}
    (progress : Progress Good d₀ d done)
    (step : ∀ x ∈ xs, ∀ d d' done, Progress Good d₀ d done → (work x).run.run d = (.ok (), d') →
      Progress Good d₀ d' (done ∪ slots x))
    (finished : (xs.forM work).run.run d = (.ok (), d')) :
    Progress Good d₀ d' (done ∪ {s | ∃ x ∈ xs, s ∈ slots x}) := by
  induction xs generalizing d done with
  | nil =>
      cases finished
      refine progress.mono fun s known => known.resolve_right ?_
      rintro ⟨x, impossible, -⟩
      cases impossible
  | cons x rest ih =>
      obtain ⟨_, later, first, others⟩ := Outcome.run_bind_eq_ok.mp finished
      have after := ih (step x List.mem_cons_self d later done progress first)
        (fun y member => step y (List.mem_cons_of_mem x member)) others
      refine after.mono ?_
      rintro s (earlier | ⟨y, member, new⟩)
      · exact Or.inl (Or.inl earlier)
      · rcases List.mem_cons.mp member with rfl | further
        · exact Or.inl (Or.inr new)
        · exact Or.inr ⟨y, further, new⟩

variable {rules : Calculus Quantity} {s : Setting} {backend : String}

/-- The form of a region, if it has one. -/
def regionSlots (w : WorkPiece) (r : Region) : Set (String × Option String) :=
  {slot | r.form.isSome ∧ slot = (w.name, some r.name)}

/-- The forms of a work piece. -/
def pieceSlots (w : WorkPiece) : Set (String × Option String) :=
  {(w.name, none)} ∪ {slot | ∃ r ∈ w.regions, slot ∈ regionSlots w r}

/-- A kernel of one of some forms. -/
def KernelOf (rules : Calculus Quantity) (s : Setting) (forms : List Expr) (k : CompiledKernel) : Prop :=
  ∃ form ∈ forms, ∃ name boundary, Kernel.ofForm rules s name boundary form = .ok k.kernel

theorem kernelOf_compile {name : String} {boundary : Bool} {form : Expr} {forms : List Expr} {k : CompiledKernel}
    (member : form ∈ forms) (compiled : CompiledKernel.compile rules s name boundary backend form = .ok k) :
    KernelOf rules s forms k := by
  obtain ⟨kernel, made, compiled⟩ := Outcome.bind_eq_ok.mp compiled
  obtain ⟨_, _, compiled⟩ := Outcome.bind_eq_ok.mp compiled
  cases compiled
  exact ⟨form, member, name, boundary, made⟩

theorem compileRegion_progress {forms : List Expr} {w : WorkPiece} {r : Region}
    (known : ∀ form ∈ r.form, form ∈ forms) (progress : Progress (KernelOf rules s forms) d₀ d done)
    (finished : (compileRegion rules s backend w r).run.run d = (.ok (), d')) :
    Progress (KernelOf rules s forms) d₀ d' (done ∪ regionSlots w r) := by
  unfold compileRegion at finished
  split at finished
  · next form present =>
      obtain ⟨k, _, lifted, finished⟩ := Outcome.run_bind_eq_ok.mp finished
      obtain ⟨compiled, rfl⟩ := Outcome.run_lift_eq_ok.mp lifted
      cases finished
      refine (progress.region (kernelOf_compile (known form present) compiled)).mono ?_
      exact Set.union_subset_union_right _ fun slot new => new.2
  · next absent =>
      cases finished
      refine progress.mono fun slot known => known.resolve_right fun new => ?_
      obtain ⟨form, present⟩ := Option.isSome_iff_exists.mp new.1
      exact absent form present

theorem compilePiece_progress {forms : List Expr} {w : WorkPiece} (known : ∀ form ∈ w.forms, form ∈ forms)
    (progress : Progress (KernelOf rules s forms) d₀ d done)
    (finished : (compilePiece rules s backend w).run.run d = (.ok (), d')) :
    Progress (KernelOf rules s forms) d₀ d' (done ∪ pieceSlots w) := by
  unfold compilePiece at finished
  split at finished
  · cases finished
  · next form present =>
      obtain ⟨k, _, lifted, finished⟩ := Outcome.run_bind_eq_ok.mp finished
      obtain ⟨compiled, rfl⟩ := Outcome.run_lift_eq_ok.mp lifted
      obtain ⟨_, _, stored, finished⟩ := Outcome.run_bind_eq_ok.mp finished
      cases stored
      have own : form ∈ forms := known form (List.mem_append_left _ (Option.mem_toList.mpr present))
      have outer : ∀ r ∈ w.regions, ∀ form ∈ r.form, form ∈ forms := fun r member form here =>
        known form (List.mem_append_right _ (List.mem_filterMap.mpr ⟨r, member, here⟩))
      have after := (progress.inner (kernelOf_compile own compiled)).forM
        (fun r member _ _ _ => compileRegion_progress (outer r member)) finished
      rwa [Set.union_assoc] at after

/-- All forms of a domain. -/
def forms (d : Domain ℝ) : List Expr := d.pieces.flatMap (·.forms)

theorem forms_uncompiled (w : WorkPiece) : w.uncompiled.forms = w.forms := by
  rw [WorkPiece.forms, WorkPiece.forms, WorkPiece.uncompiled, List.filterMap_map]
  rfl

theorem forms_of_pieces (same : d'.pieces.map (·.uncompiled) = d.pieces.map (·.uncompiled)) : d'.forms = d.forms := by
  have forms (d : Domain ℝ) : d.forms = (d.pieces.map (·.uncompiled)).flatMap (·.forms) := by
    rw [Domain.forms, List.flatMap_map]
    simp only [forms_uncompiled]
  rw [forms d', forms d, same]

theorem compile_progress (finished : (compile rules backend).run.run d = (.ok (), d')) :
    ∃ x, d.discretization = some x ∧
      Progress (KernelOf rules (setting x) d.forms) d d' (∅ ∪ {s | ∃ w ∈ d.pieces, s ∈ pieceSlots w}) := by
  obtain ⟨_, _, got, finished⟩ := Outcome.run_bind_eq_ok.mp finished
  cases got
  split at finished
  · cases finished
  · next x present =>
      have known : ∀ w ∈ d.pieces, ∀ form ∈ w.forms, form ∈ d.forms :=
        fun w member form here => List.mem_flatMap.mpr ⟨w, member, here⟩
      exact ⟨x, present,
        (progress_refl _ d).forM (fun w member _ _ _ => compilePiece_progress (known w member)) finished⟩

/-- After compilation every kernel that blocks are made with is that of a form of the domain. -/
theorem compile_eq_ok (finished : (compile rules backend).run.run d = (.ok (), d')) :
    d'.discretization = d.discretization ∧ ∃ x, d.discretization = some x ∧
      ∀ w ∈ d'.pieces, ∀ k ∈ Block.usedKernels w, KernelOf rules (setting x) d'.forms k := by
  obtain ⟨x, present, progress⟩ := compile_progress finished
  rw [← forms_of_pieces progress.pieces] at progress
  refine ⟨progress.discretization, x, present, fun w member k used => ?_⟩
  have listed : w.uncompiled ∈ d'.pieces.map (·.uncompiled) := List.mem_map_of_mem member
  rw [progress.pieces] at listed
  obtain ⟨v, original, same⟩ := List.mem_map.mp listed
  have names : v.name = w.name := by injection same
  rcases List.mem_append.mp used with inner | outer
  · refine progress.inside w member (Or.inr ⟨v, original, Or.inl ?_⟩) k (Option.mem_toList.mp inner)
    exact congrArg (·, none) names.symm
  · obtain ⟨r, inside, here⟩ := List.mem_filterMap.mp outer
    obtain ⟨inside, formed⟩ := List.mem_filter.mp inside
    refine progress.regions w member r inside (Or.inr ⟨v, original, Or.inr ?_⟩) k here
    have bare : { r with kernel := none } ∈ v.uncompiled.regions := same ▸ List.mem_map_of_mem inside
    obtain ⟨q, among, equal⟩ := List.mem_map.mp bare
    obtain ⟨region, -, form, -⟩ := Region.mk.inj equal
    exact ⟨q, among, form ▸ formed, by rw [names, region]⟩

end Domain

end Galerkin
