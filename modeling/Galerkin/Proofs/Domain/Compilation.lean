import Mathlib
import Galerkin.Domain.Discretization
import Galerkin.Proofs.Kernel.Naming

/-!
Compilation piece by piece. Where names are distinct, working through the pieces of a domain and through the regions
of each gives every form the kernel of its own, and changes nothing else.
-/

namespace Galerkin

namespace Outcome

/-- Work on the entries of a list, one after the other, is done when each entry `x` is replaced by what `f` makes of
it. `S` is the state in which some entries are done and others are to do. -/
theorem forM_eq_ok {ε σ ι β : Type} {work : ι → ExceptT ε (StateM σ) Unit} {f : ι → Except ε β}
    (S : List β → List ι → σ) (Q : List β → List ι → Prop)
    (step : ∀ done x rest, Q done (x :: rest) → ∀ s', (work x).run.run (S done (x :: rest)) = (.ok (), s') ↔
      ∃ y, f x = .ok y ∧ s' = S (done ++ [y]) rest)
    (keep : ∀ done x rest y, Q done (x :: rest) → f x = .ok y → Q (done ++ [y]) rest)
    (done : List β) (xs : List ι) (start : Q done xs) {s' : σ} :
    (xs.forM work).run.run (S done xs) = (.ok (), s') ↔ ∃ ys, xs.mapM f = .ok ys ∧ s' = S (done ++ ys) [] := by
  induction xs generalizing done with
  | nil =>
      constructor
      · intro finished
        cases finished
        exact ⟨[], rfl, by rw [List.append_nil]⟩
      · rintro ⟨ys, mapped, rfl⟩
        cases mapped
        change _ = (Except.ok (), S (done ++ []) [])
        rw [List.append_nil]
        rfl
  | cons x rest ih =>
      change (work x >>= fun _ => rest.forM work).run.run (S done (x :: rest)) = _ ↔ _
      rw [run_bind_eq_ok]
      constructor
      · rintro ⟨_, later, first, others⟩
        obtain ⟨y, made, rfl⟩ := (step done x rest start later).mp first
        obtain ⟨ys, mapped, rfl⟩ := (ih _ (keep done x rest y start made)).mp others
        refine ⟨y :: ys, ?_, by rw [List.append_assoc, List.singleton_append]⟩
        rw [List.mapM_cons]
        exact bind_eq_ok.mpr ⟨y, made, bind_eq_ok.mpr ⟨ys, mapped, rfl⟩⟩
      · rintro ⟨all, mapped, rfl⟩
        rw [List.mapM_cons] at mapped
        obtain ⟨y, made, mapped⟩ := bind_eq_ok.mp mapped
        obtain ⟨ys, others, mapped⟩ := bind_eq_ok.mp mapped
        cases mapped
        refine ⟨(), _, (step done x rest start _).mpr ⟨y, made, rfl⟩, ?_⟩
        refine (ih _ (keep done x rest y start made)).mpr ⟨ys, others, ?_⟩
        rw [List.append_assoc, List.singleton_append]

end Outcome

namespace Domain

variable {α : Type} {rules : Calculus Quantity} {s : Setting} {backend : String}

/-- A region with the kernel of its form. -/
def compiledRegion (rules : Calculus Quantity) (s : Setting) (backend : String) (w : WorkPiece) (r : Region) :
    Except Failure Region :=
  match r.form with
  | none => pure r
  | some form => do
    let k ← CompiledKernel.compile rules s (w.regionLabel r) true backend form
    pure { r with kernel := some k }

/-- A work piece with the kernels of its forms. -/
def compiledPiece (rules : Calculus Quantity) (s : Setting) (backend : String) (w : WorkPiece) :
    Except Failure WorkPiece :=
  match w.form with
  | none => throw (.invalid (.noDomainForm w.name))
  | some form => do
    let k ← CompiledKernel.compile rules s w.name false backend form
    let regions ← w.regions.mapM (compiledRegion rules s backend w)
    pure { w with kernel := some k, regions }

/-- Names tell the work pieces of a domain apart, and the regions of each piece. -/
structure WellNamed (d : Domain α) : Prop where
  pieces : (d.pieces.map (·.name)).Nodup
  regions : ∀ w ∈ d.pieces, (w.regions.map (·.name)).Nodup

theorem modifyPiece_of_apart {d : Domain α} {before after : List WorkPiece} {w : WorkPiece}
    (apart : ∀ v ∈ before ++ after, v.name ≠ w.name) (f : WorkPiece → WorkPiece) :
    modifyPiece { d with pieces := before ++ w :: after } w.name f = { d with pieces := before ++ f w :: after } := by
  have others : ∀ vs : List WorkPiece, (∀ v ∈ vs, v.name ≠ w.name) →
      vs.map (fun v => if v.name = w.name then f v else v) = vs := by
    intro vs distinct
    refine (List.map_congr_left fun v member => if_neg (distinct v member)).trans (List.map_id _)
  rw [List.forall_mem_append] at apart
  simp [modifyPiece, others before apart.1, others after apart.2]

theorem modifyRegion_of_apart {w : WorkPiece} {before after : List Region} {r : Region}
    (apart : ∀ q ∈ before ++ after, q.name ≠ r.name) (f : Region → Region) :
    WorkPiece.modifyRegion { w with regions := before ++ r :: after } r.name f =
      { w with regions := before ++ f r :: after } := by
  have others : ∀ qs : List Region, (∀ q ∈ qs, q.name ≠ r.name) →
      qs.map (fun q => if q.name = r.name then f q else q) = qs := by
    intro qs distinct
    refine (List.map_congr_left fun q member => if_neg (distinct q member)).trans (List.map_id _)
  rw [List.forall_mem_append] at apart
  simp [WorkPiece.modifyRegion, others before apart.1, others after apart.2]

theorem compileRegion_eq_ok {d d' : Domain α} {before after : List WorkPiece} {w v : WorkPiece} (same : v.name = w.name)
    (apart : ∀ u ∈ before ++ after, u.name ≠ w.name) {first last : List Region} {r : Region}
    (others : ∀ q ∈ first ++ last, q.name ≠ r.name) :
    (compileRegion rules s backend w r).run.run
        { d with pieces := before ++ { v with regions := first ++ r :: last } :: after } = (.ok (), d') ↔
      ∃ r', compiledRegion rules s backend w r = .ok r' ∧
        d' = { d with pieces := before ++ { v with regions := (first ++ [r']) ++ last } :: after } := by
  obtain ⟨region, facets, form, kernel⟩ := r
  cases form with
  | none =>
      constructor
      · intro done
        cases done
        exact ⟨_, rfl, by rw [List.append_assoc, List.singleton_append]⟩
      · rintro ⟨_, found, rfl⟩
        cases found
        rw [List.append_assoc, List.singleton_append]
        rfl
  | some form =>
      have changed (k : CompiledKernel) :
          (modifyPiece { d with pieces := before ++ { v with regions := first ++ ⟨region, facets, form, kernel⟩ :: last } ::
            after } w.name fun u => u.modifyRegion region fun q => { q with kernel := some k }) =
          { d with pieces := before ++ { v with regions := (first ++ [⟨region, facets, form, some k⟩]) ++ last } ::
            after } := by
        have here := modifyRegion_of_apart (w := v) others fun q => { q with kernel := some k }
        rw [← same] at apart ⊢
        rw [modifyPiece_of_apart (w := { v with regions := first ++ ⟨region, facets, some form, kernel⟩ :: last }) apart,
          here, List.append_assoc, List.singleton_append]
      constructor
      · intro done
        obtain ⟨k, _, lifted, done⟩ := Outcome.run_bind_eq_ok.mp done
        obtain ⟨compiled, rfl⟩ := Outcome.run_lift_eq_ok.mp lifted
        cases done
        exact ⟨_, Outcome.bind_eq_ok.mpr ⟨k, compiled, rfl⟩, changed k⟩
      · rintro ⟨_, found, rfl⟩
        obtain ⟨k, compiled, found⟩ := Outcome.bind_eq_ok.mp found
        cases found
        rw [← changed k]
        exact Outcome.run_bind_eq_ok.mpr ⟨k, _, Outcome.run_lift_eq_ok.mpr ⟨compiled, rfl⟩, rfl⟩

theorem name_compiledRegion {w : WorkPiece} {r r' : Region} (done : compiledRegion rules s backend w r = .ok r') :
    ∃ kernel, r' = { r with kernel } := by
  unfold compiledRegion at done
  split at done
  · cases done
    exact ⟨_, rfl⟩
  · obtain ⟨k, -, done⟩ := Outcome.bind_eq_ok.mp done
    cases done
    exact ⟨_, rfl⟩

theorem compileRegions_eq_ok {d d' : Domain α} {before after : List WorkPiece} {w v : WorkPiece}
    (same : v.name = w.name) (apart : ∀ u ∈ before ++ after, u.name ≠ w.name)
    (regions : (v.regions.map (·.name)).Nodup) :
    (v.regions.forM (compileRegion rules s backend w)).run.run { d with pieces := before ++ v :: after } = (.ok (), d') ↔
      ∃ rs, v.regions.mapM (compiledRegion rules s backend w) = .ok rs ∧
        d' = { d with pieces := before ++ { v with regions := rs } :: after } := by
  refine (Outcome.forM_eq_ok (f := compiledRegion rules s backend w)
    (fun done todo => { d with pieces := before ++ { v with regions := done ++ todo } :: after })
    (fun done todo => ((done ++ todo).map (·.name)).Nodup) ?_ ?_ [] v.regions regions).trans ?_
  · intro done r rest distinct d'
    have others : ∀ q ∈ done ++ rest, q.name ≠ r.name := by
      rw [List.map_append, List.map_cons, List.nodup_middle, List.nodup_cons, ← List.map_append] at distinct
      exact fun q member same => distinct.1 (same ▸ List.mem_map_of_mem member)
    exact compileRegion_eq_ok same apart others
  · intro done r rest r' distinct made
    obtain ⟨kernel, rfl⟩ := name_compiledRegion made
    simpa using distinct
  · simp

theorem compilePiece_eq_ok {d d' : Domain α} {before after : List WorkPiece} {w : WorkPiece}
    (apart : ∀ u ∈ before ++ after, u.name ≠ w.name) (regions : (w.regions.map (·.name)).Nodup) :
    (compilePiece rules s backend w).run.run { d with pieces := before ++ w :: after } = (.ok (), d') ↔
      ∃ v, compiledPiece rules s backend w = .ok v ∧ d' = { d with pieces := (before ++ [v]) ++ after } := by
  obtain ⟨name, elements, form, kernel, inner⟩ := w
  cases form with
  | none =>
      constructor
      · intro done
        cases done
      · rintro ⟨_, found, -⟩
        cases found
  | some form =>
      have changed (k : CompiledKernel) :
          modifyPiece { d with pieces := before ++ ⟨name, elements, some form, kernel, inner⟩ :: after } name
              (fun w => { w with kernel := some k }) =
            { d with pieces := before ++ ⟨name, elements, some form, some k, inner⟩ :: after } :=
        modifyPiece_of_apart apart _
      have loop (k : CompiledKernel) (d' : Domain α) :
          (inner.forM (compileRegion rules s backend ⟨name, elements, some form, kernel, inner⟩)).run.run
              { d with pieces := before ++ ⟨name, elements, some form, some k, inner⟩ :: after } = (.ok (), d') ↔
            ∃ rs, inner.mapM (compiledRegion rules s backend ⟨name, elements, some form, kernel, inner⟩) = .ok rs ∧
              d' = { d with pieces := before ++ ⟨name, elements, some form, some k, rs⟩ :: after } :=
        compileRegions_eq_ok (v := ⟨name, elements, some form, some k, inner⟩) rfl apart regions
      constructor
      · intro done
        obtain ⟨k, _, lifted, done⟩ := Outcome.run_bind_eq_ok.mp done
        obtain ⟨compiled, rfl⟩ := Outcome.run_lift_eq_ok.mp lifted
        obtain ⟨_, _, stored, done⟩ := Outcome.run_bind_eq_ok.mp done
        cases stored
        dsimp only at done
        rw [changed k] at done
        obtain ⟨rs, mapped, rfl⟩ := (loop k d').mp done
        refine ⟨_, Outcome.bind_eq_ok.mpr ⟨k, compiled, Outcome.bind_eq_ok.mpr ⟨rs, mapped, rfl⟩⟩, ?_⟩
        rw [List.append_assoc, List.singleton_append]
      · rintro ⟨_, found, rfl⟩
        obtain ⟨k, compiled, found⟩ := Outcome.bind_eq_ok.mp found
        obtain ⟨rs, mapped, found⟩ := Outcome.bind_eq_ok.mp found
        cases found
        refine Outcome.run_bind_eq_ok.mpr ⟨k, _, Outcome.run_lift_eq_ok.mpr ⟨compiled, rfl⟩, ?_⟩
        refine Outcome.run_bind_eq_ok.mpr ⟨(), _, rfl, ?_⟩
        dsimp only
        rw [changed k]
        refine (loop k _).mpr ⟨rs, mapped, ?_⟩
        rw [List.append_assoc, List.singleton_append]

theorem compiledPiece_eq_ok {w v : WorkPiece} : compiledPiece rules s backend w = .ok v ↔
    ∃ form k rs, w.form = some form ∧ CompiledKernel.compile rules s w.name false backend form = .ok k ∧
      w.regions.mapM (compiledRegion rules s backend w) = .ok rs ∧ v = { w with kernel := some k, regions := rs } := by
  unfold compiledPiece
  cases w.form with
  | none => simp
  | some form =>
      constructor
      · intro done
        obtain ⟨k, compiled, done⟩ := Outcome.bind_eq_ok.mp done
        obtain ⟨rs, mapped, done⟩ := Outcome.bind_eq_ok.mp done
        exact ⟨form, k, rs, rfl, compiled, mapped, (Except.ok.inj done).symm⟩
      · rintro ⟨_, k, rs, same, compiled, mapped, rfl⟩
        cases same
        exact Outcome.bind_eq_ok.mpr ⟨k, compiled, Outcome.bind_eq_ok.mpr ⟨rs, mapped, rfl⟩⟩

/-- What compiling a domain does, where names are distinct. -/
theorem compile_eq_ok_iff {d d' : Domain α} (named : d.WellNamed) :
    (compile rules backend).run.run d = (.ok (), d') ↔ ∃ x pieces, d.discretization = some x ∧
      d.pieces.mapM (compiledPiece rules (setting x) backend) = .ok pieces ∧ d' = { d with pieces } := by
  obtain ⟨mesh, before, parameters, discretization⟩ := d
  cases discretization with
  | none =>
      constructor
      · intro done
        cases done
      · rintro ⟨_, _, impossible, -⟩
        cases impossible
  | some x =>
      have run : (before.forM (compilePiece rules (setting x) backend)).run.run ⟨mesh, before, parameters, some x⟩ =
          (.ok (), d') ↔ ∃ pieces, before.mapM (compiledPiece rules (setting x) backend) = .ok pieces ∧
            d' = ⟨mesh, pieces, parameters, some x⟩ := by
        refine (Outcome.forM_eq_ok (f := compiledPiece rules (setting x) backend)
          (fun done todo => (⟨mesh, done ++ todo, parameters, some x⟩ : Domain α))
          (fun done todo => ((done ++ todo).map (·.name)).Nodup ∧ ∀ w ∈ todo, (w.regions.map (·.name)).Nodup)
          ?_ ?_ [] before ⟨named.pieces, named.regions⟩).trans ?_
        · intro done w rest distinct d'
          have apart : ∀ u ∈ done ++ rest, u.name ≠ w.name := by
            have pieces := distinct.1
            rw [List.map_append, List.map_cons, List.nodup_middle, List.nodup_cons, ← List.map_append] at pieces
            exact fun u member same => pieces.1 (same ▸ List.mem_map_of_mem member)
          exact compilePiece_eq_ok (d := ⟨mesh, [], parameters, some x⟩) apart (distinct.2 w List.mem_cons_self)
        · intro done w rest v distinct made
          obtain ⟨_, _, _, _, _, _, rfl⟩ := compiledPiece_eq_ok.mp made
          exact ⟨by simpa using distinct.1, fun u member => distinct.2 u (List.mem_cons_of_mem w member)⟩
        · simp
      refine Iff.trans (Iff.of_eq rfl) (run.trans ⟨?_, ?_⟩)
      · rintro ⟨pieces, mapped, rfl⟩
        exact ⟨x, pieces, rfl, mapped, rfl⟩
      · rintro ⟨_, pieces, same, mapped, rfl⟩
        cases same
        exact ⟨pieces, mapped, rfl⟩

end Domain

end Galerkin
