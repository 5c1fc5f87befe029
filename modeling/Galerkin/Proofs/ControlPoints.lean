import Mathlib
import Galerkin.ControlPoints
import Galerkin.Grid
import Galerkin.Proofs.Layout
import Galerkin.Proofs.Outcome

/-!
Arrays that have as many entries as their sides ask for keep to that when they are stretched.

Prescribed values of external fields: a write puts single entries into cells of its field, at the control points that it
is for, and what is read is what was put there last.
-/

namespace Galerkin

namespace Grid

variable {α : Type}

/-- Are there as many entries as the sides ask for? -/
def Proper (g : Grid α) : Prop := g.entries.length = volume g.sides

theorem volume_append (first second : List Nat) : volume (first ++ second) = volume first * volume second := by
  induction first with
  | nil => exact (Nat.one_mul _).symm
  | cons n rest ih => rw [List.cons_append, volume, volume, ih, Nat.mul_assoc]

theorem volume_of_ones {sides : List Nat} (ones : ∀ n ∈ sides, n = 1) : volume sides = 1 := by
  induction sides with
  | nil => rfl
  | cons n rest ih =>
      rw [List.forall_mem_cons] at ones
      rw [volume, ones.1, ih ones.2]

@[simp] theorem length_pieces (width count : Nat) (xs : List α) : (pieces width count xs).length = count := by
  induction count generalizing xs with
  | zero => rfl
  | succ count ih => exact congrArg (· + 1) (ih _)

theorem length_of_mem_pieces {width count : Nat} {xs : List α} (size : xs.length = count * width) {piece : List α}
    (member : piece ∈ pieces width count xs) : piece.length = width := by
  induction count generalizing xs with
  | zero => cases member
  | succ count ih =>
      rw [Nat.succ_mul] at size
      rcases List.mem_cons.mp member with rfl | later
      · rw [List.length_take, size]
        omega
      · exact ih (by rw [List.length_drop, size, Nat.add_sub_cancel]) later

/-- Does a side fit another one, to which it may be stretched? -/
def Fits (wanted own : Nat) : Prop := own = 1 ∨ own = wanted

theorem fits_of_alignedSides {wanted own : List Nat} (aligned : alignedSides wanted own = some wanted) :
    List.Forall₂ Fits wanted (own ++ List.replicate (wanted.length - own.length) 1) := by
  induction wanted generalizing own with
  | nil =>
      cases Option.some.inj aligned
      exact .nil
  | cons s wanted ih =>
      cases own with
      | nil =>
          rw [List.nil_append, List.forall₂_iff_get]
          refine ⟨(List.length_replicate ..).symm, fun i _ inside => Or.inl ?_⟩
          rw [List.get_eq_getElem, List.getElem_replicate]
      | cons t own =>
          rw [alignedSides] at aligned
          obtain ⟨side, chosen, rest⟩ := Option.bind_eq_some_iff.mp aligned
          obtain ⟨tail, found, same⟩ := Option.map_eq_some_iff.mp rest
          cases same
          rw [List.length_cons, List.length_cons, Nat.add_sub_add_right, List.cons_append]
          refine .cons ?_ (ih found)
          split at chosen
          · exact Or.inr (Option.some.inj chosen)
          · split at chosen
            · next fits => exact fits
            · cases chosen

theorem length_repeated {wanted own : List Nat} (fits : List.Forall₂ Fits wanted own) {xs : List α}
    (size : xs.length = volume own) : (repeated (wanted.zip own) xs).length = volume wanted := by
  induction fits generalizing xs with
  | nil => exact size
  | @cons w o wanted own first rest ih =>
      have unzipped : (wanted.zip own).map (·.2) = own := List.map_snd_zip rest.length_eq.ge
      rw [volume] at size
      have all : (((pieces (volume own) o xs).map (repeated (wanted.zip own))).flatten).length = o * volume wanted := by
        rw [List.length_flatten, List.map_map]
        have each : ∀ piece ∈ pieces (volume own) o xs,
            (List.length ∘ repeated (wanted.zip own)) piece = volume wanted := fun piece member =>
          ih (length_of_mem_pieces size member)
        rw [List.map_congr_left each, List.map_const', List.sum_replicate, length_pieces, smul_eq_mul]
      rw [List.zip_cons_cons, repeated, unzipped, volume]
      split
      · next same => rw [all, same]
      · next apart =>
          have one : o = 1 := first.resolve_right apart
          rw [List.length_flatten, List.map_replicate, List.sum_replicate, all, one, smul_eq_mul, Nat.one_mul]

/-- A stretched array has the sides that it is stretched to. -/
theorem proper_of_stretch {sides : List Nat} {g h : Grid α} (proper : g.Proper) (done : g.stretch sides = .ok h) :
    h.sides = sides ∧ h.Proper := by
  obtain ⟨common, aligned, rest⟩ := Outcome.bind_eq_ok.mp done
  split at rest
  · cases rest
  · next same =>
      cases rest
      rw [not_not] at same
      subst same
      refine ⟨rfl, length_repeated ?_ ?_⟩
      · rw [commonSides] at aligned
        split at aligned
        · next found =>
            cases aligned
            rw [List.reverse_reverse] at found
            have fits := List.forall₂_reverse_iff.mpr (fits_of_alignedSides found)
            rw [List.reverse_append, List.reverse_replicate, List.reverse_reverse, List.length_reverse] at fits
            rw [List.length_reverse]
            exact fits
        · cases aligned
      · rw [volume_append, volume_of_ones fun n member => List.eq_of_mem_replicate member, Nat.one_mul]
        exact proper

theorem proper_of_fill {sides : List Nat} {g h : Grid α} (proper : g.Proper) (done : g.fill sides = .ok h) :
    h.sides = sides ∧ h.Proper := by
  unfold fill at done
  dsimp only at done
  split at done
  · next ones =>
      refine proper_of_stretch ?_ done
      have surplus : volume (g.sides.take (g.sides.length - sides.length)) = 1 :=
        volume_of_ones fun n member => by simpa using List.all_eq_true.mp ones n member
      have split := volume_append (g.sides.take (g.sides.length - sides.length))
        (g.sides.drop (g.sides.length - sides.length))
      rw [List.take_append_drop, surplus, Nat.one_mul] at split
      exact proper.trans split
  · cases done

end Grid

end Galerkin

/-! ### Prescribed values -/

namespace Galerkin

/-- A write of prescribed values: the field, what is written, and the control points that it is for, all of them if none
are given. -/
structure Prescription (α : Type) where
  field : String
  value : Grid α
  ids : Option (Grid Int)

/-- Do the arrays have the entries that their sides ask for? -/
def Prescription.Proper {α : Type} (p : Prescription α) : Prop :=
  p.value.Proper ∧ ∀ ids, p.ids = some ids → ids.Proper

namespace ControlPoints

variable {α : Type}

/-! ### Cells of stored rows -/

/-- The entry in a row and a column. -/
def cell (stored : Array (List α)) (place : Nat × Nat) : Option α := (stored[place.1]?).bind (·[place.2]?)

/-- Puts an entry into the cell in a row and a column. -/
def put (stored : Array (List α)) (t : (Nat × Nat) × α) : Array (List α) :=
  stored.modify t.1.1 fun row => row.set t.1.2 t.2

/-- Have all rows this width? -/
def Wide (width : Nat) (stored : Array (List α)) : Prop :=
  ∀ (i : Nat) (row : List α), stored[i]? = some row → row.length = width

variable {stored : Array (List α)} {width start size i k : Nat} {place : Nat × Nat} {x : α}

theorem wide_modify (wide : Wide width stored) {f : List α → List α} (same : ∀ row, (f row).length = row.length) :
    Wide width (stored.modify i f) := by
  intro j row found
  rw [Array.getElem?_modify] at found
  split at found
  · obtain ⟨old, there, rfl⟩ := Option.map_eq_some_iff.mp found
    rw [same, wide j old there]
  · exact wide j row found

theorem wide_put (wide : Wide width stored) (t : (Nat × Nat) × α) : Wide width (put stored t) :=
  wide_modify wide fun _ => List.length_set

theorem cell_put (wide : Wide width stored) (row : i < stored.size) (column : k < width) :
    cell (put stored ((i, k), x)) place = if place = (i, k) then some x else cell stored place := by
  obtain ⟨r, c⟩ := place
  rw [cell, cell, put, Array.getElem?_modify]
  dsimp only
  by_cases here : i = r
  · subst here
    have old := Array.getElem?_eq_getElem row
    have inside : k < stored[i].length := wide i _ old ▸ column
    rw [if_pos rfl, old, Option.map_some, Option.bind_some, Option.bind_some, List.getElem?_set]
    by_cases there : k = c
    · rw [if_pos there, if_pos inside, if_pos (by rw [there])]
    · rw [if_neg there, if_neg fun same => there (Prod.mk.inj same).2.symm]
  · rw [if_neg here, if_neg fun same => here (Prod.mk.inj same).1.symm]

/-- A cell has the entry that was put there last, or else the one that it had before. -/
theorem cell_foldl_put {log : List ((Nat × Nat) × α)} (wide : Wide width stored)
    (inside : ∀ t ∈ log, t.1.1 < stored.size ∧ t.1.2 < width) :
    cell (log.foldl put stored) place = (log.reverse.lookup place).or (cell stored place) := by
  induction log generalizing stored with
  | nil => rfl
  | cons t rest ih =>
      rw [List.forall_mem_cons] at inside
      have kept : (put stored t).size = stored.size := Array.size_modify
      rw [List.foldl_cons, ih (wide_put wide t) fun s later => kept.symm ▸ inside.2 s later, List.reverse_cons,
        List.lookup_append, Option.or_assoc, cell_put wide inside.1.1 inside.1.2, List.lookup_cons, List.lookup_nil]
      by_cases same : place = t.1
      · rw [if_pos same, beq_iff_eq.mpr same]
        rfl
      · rw [if_neg same, beq_false_of_ne same]
        rfl

/-! ### Writes as entries put into cells -/

theorem modify_congr {f g : List α → List α} (same : ∀ row, stored[i]? = some row → f row = g row) :
    stored.modify i f = stored.modify i g := by
  refine Array.ext_getElem? fun j => ?_
  rw [Array.getElem?_modify, Array.getElem?_modify]
  split
  · next here =>
      subst here
      exact Option.map_congr same
  · rfl

theorem modify_modify (f g : List α → List α) : (stored.modify i f).modify i g = stored.modify i fun row => g (f row) := by
  refine Array.ext_getElem? fun j => ?_
  simp only [Array.getElem?_modify]
  split
  · rw [Option.map_map]
    rfl
  · rfl

theorem patch_cons {row new : List α} (room : start < row.length) :
    patch start row (x :: new) = patch (start + 1) (row.set start x) new := by
  have first : (row.set start x).take (start + 1) = row.take start ++ [x] := by
    rw [List.take_add_one, List.getElem?_set_self room, List.take_set_of_le le_rfl]
    rfl
  have last : (row.set start x).drop (start + 1 + new.length) = row.drop (start + (new.length + 1)) := by
    rw [List.drop_set_of_lt (by omega)]
    congr 1
    omega
  rw [patch, patch, first, last, List.length_cons, List.append_cons]

/-- The cells of some columns in a row, with what is put there. -/
def rowEntries (start i : Nat) (new : List α) : List ((Nat × Nat) × α) :=
  (new.zipIdx start).map fun t => ((i, t.2), t.1)

theorem modify_patch {new : List α} (room : ∀ row, stored[i]? = some row → start + new.length ≤ row.length) :
    (stored.modify i fun row => patch start row new) = (rowEntries start i new).foldl put stored := by
  induction new generalizing start stored with
  | nil =>
      have same : ∀ row, stored[i]? = some row → patch start row [] = id row := fun row _ => by
        rw [patch, List.append_nil, List.length_nil, Nat.add_zero, List.take_append_drop]
        rfl
      rw [modify_congr same, show rowEntries start i ([] : List α) = [] from rfl, List.foldl_nil]
      refine Array.ext_getElem? fun j => ?_
      rw [Array.getElem?_modify]
      split
      · exact Option.map_id'
      · rfl
  | cons x new ih =>
      have entries : rowEntries start i (x :: new) = ((i, start), x) :: rowEntries (start + 1) i new := rfl
      have first : ∀ row, stored[i]? = some row → patch start row (x :: new) = patch (start + 1) (row.set start x) new := by
        intro row found
        have long := room row found
        rw [List.length_cons] at long
        exact patch_cons (by omega)
      rw [entries, List.foldl_cons, modify_congr first, ← ih, put, modify_modify]
      intro row found
      rw [put, Array.getElem?_modify, if_pos rfl] at found
      obtain ⟨old, there, rfl⟩ := Option.map_eq_some_iff.mp found
      have long := room old there
      rw [List.length_cons] at long
      rw [List.length_set]
      omega

/-- The cells of some columns in several rows. -/
def cells (start size : Nat) (targets : List Nat) : List (Nat × Nat) :=
  targets.flatMap fun i => (List.range' start size).map fun k => (i, k)

theorem mem_cells {targets : List Nat} :
    place ∈ cells start size targets ↔ place.1 ∈ targets ∧ start ≤ place.2 ∧ place.2 < start + size := by
  rw [cells, List.mem_flatMap]
  constructor
  · rintro ⟨i, target, member⟩
    obtain ⟨k, column, rfl⟩ := List.mem_map.mp member
    exact ⟨target, List.mem_range'_1.mp column⟩
  · rintro ⟨target, column⟩
    exact ⟨place.1, target, List.mem_map.mpr ⟨place.2, List.mem_range'_1.mpr column, rfl⟩⟩

theorem length_cells (targets : List Nat) : (cells start size targets).length = targets.length * size := by
  rw [cells, List.length_flatMap]
  simp

theorem rowEntries_eq_zip (new : List α) :
    rowEntries start i new = ((List.range' start new.length).map fun k => (i, k)).zip new := by
  rw [rowEntries, List.zipIdx_eq_zip_range', List.zip_map_left, ← List.zip_swap, List.map_map]
  rfl

theorem foldl_put_size (log : List ((Nat × Nat) × α)) : (log.foldl put stored).size = stored.size := by
  induction log generalizing stored with
  | nil => rfl
  | cons t rest ih => exact ih.trans Array.size_modify

theorem wide_foldl_put (wide : Wide width stored) (log : List ((Nat × Nat) × α)) : Wide width (log.foldl put stored) := by
  induction log generalizing stored with
  | nil => exact wide
  | cons t rest ih => exact ih (wide_put wide t)

/-- What is written row by row is put into the cells one after the other. -/
theorem write_eq_foldl_put (wide : Wide width stored) (room : start + size ≤ width) {targets : List Nat} {new : List α}
    (enough : new.length = targets.length * size) :
    write stored start targets (Grid.pieces size targets.length new) =
      ((cells start size targets).zip new).foldl put stored := by
  induction targets generalizing stored new with
  | nil => rfl
  | cons i targets ih =>
      rw [List.length_cons, Nat.succ_mul] at enough
      have first : (new.take size).length = size := by
        rw [List.length_take]
        omega
      have rest : (new.drop size).length = targets.length * size := by
        rw [List.length_drop]
        omega
      have parts : (cells start size (i :: targets)).zip new =
          rowEntries start i (new.take size) ++ (cells start size targets).zip (new.drop size) := by
        rw [rowEntries_eq_zip, first, ← List.zip_append (by rw [List.length_map, List.length_range', first]),
          List.take_append_drop]
        rfl
      have fits : ∀ row, stored[i]? = some row → start + (new.take size).length ≤ row.length := fun row found => by
        rw [first, wide i row found]
        exact room
      rw [parts, List.foldl_append, ← ih (wide_foldl_put wide _) rest, ← modify_patch fits]
      rfl

/-! ### Prescribed values -/

variable {c c' : ControlPoints α} {p : Prescription α}

/-- Is there a row of prescribed values for every control point, with a column for every component of the external
fields? -/
structure Stored (c : ControlPoints α) : Prop where
  rows : c.prescribed.size = c.size
  columns : Wide c.external.width c.prescribed

theorem stored_make [Zero α] (dim : Nat) (positions : Array (List α)) (internal external : Layout) :
    (make dim positions internal external).Stored where
  rows := Array.size_map
  columns := by
    intro i row found
    rw [make, Array.getElem?_map] at found
    obtain ⟨_, -, rfl⟩ := Option.map_eq_some_iff.mp found
    exact List.length_replicate

/-- The control points that a write is for, and the sides in which they are given. -/
def targets (c : ControlPoints α) : Option (Grid Int) → Except Failure (List Nat × List Nat)
  | none => pure ([c.size], List.range c.size)
  | some ids => do pure (ids.sides, ← resolve c.size ids.entries)

/-- The cells that a write is for, in the order of its entries, with what it puts there. -/
def assignments (c : ControlPoints α) (p : Prescription α) : Except Failure (List ((Nat × Nat) × α)) := do
  let (start, size) ← c.externalSpan p.field
  let (sides, rows) ← c.targets p.ids
  let new ← p.value.fill (sides ++ [size])
  pure ((cells start size rows).zip new.entries)

/-- The control points after a write; one that fails changes nothing. -/
def prescribe (c : ControlPoints α) (p : Prescription α) : ControlPoints α :=
  match c.setExternal p.field p.value p.ids with
  | .ok next => next
  | .error _ => c

/-- What a write puts where; nothing if it fails. -/
def assigned (c : ControlPoints α) (p : Prescription α) : List ((Nat × Nat) × α) := (c.assignments p).toOption.getD []

theorem setExternal_eq_ok : c.setExternal p.field p.value p.ids = .ok c' ↔
    ∃ start size sides rows new, c.externalSpan p.field = .ok (start, size) ∧ c.targets p.ids = .ok (sides, rows) ∧
      p.value.fill (sides ++ [size]) = .ok new ∧
      c' = { c with prescribed := write c.prescribed start rows (Grid.pieces size rows.length new.entries) } := by
  rw [setExternal]
  cases p.ids with
  | none =>
      constructor
      · intro done
        obtain ⟨⟨start, size⟩, span, done⟩ := Outcome.bind_eq_ok.mp done
        obtain ⟨new, filled, done⟩ := Outcome.bind_eq_ok.mp done
        cases done
        refine ⟨start, size, _, _, new, span, rfl, filled, ?_⟩
        rw [List.length_range]
      · rintro ⟨start, size, sides, rows, new, span, found, filled, rfl⟩
        cases found
        refine Outcome.bind_eq_ok.mpr ⟨(start, size), span, Outcome.bind_eq_ok.mpr ⟨new, filled, ?_⟩⟩
        rw [List.length_range]
        rfl
  | some ids =>
      -- Numbers that are given without sides are looked up once more before anything else.
      have checked (after : Except Failure (ControlPoints α)) (next : ControlPoints α) :
          (if ids.sides.isEmpty then do let _ ← resolve c.size ids.entries; after else after) = .ok next ↔
            (ids.sides.isEmpty → ∃ rows, resolve c.size ids.entries = .ok rows) ∧ after = .ok next := by
        split
        · next empty =>
            rw [Outcome.bind_eq_ok]
            exact ⟨fun ⟨rows, found, done⟩ => ⟨fun _ => ⟨rows, found⟩, done⟩, fun ⟨found, done⟩ =>
              (found empty).imp fun _ found => ⟨found, done⟩⟩
        · next some => exact (and_iff_right fun empty => absurd empty some).symm
      constructor
      · intro done
        obtain ⟨⟨start, size⟩, span, done⟩ := Outcome.bind_eq_ok.mp done
        obtain ⟨new, filled, done⟩ := Outcome.bind_eq_ok.mp ((checked _ _).mp done).2
        obtain ⟨rows, found, done⟩ := Outcome.bind_eq_ok.mp done
        cases done
        exact ⟨start, size, _, _, new, span, Outcome.bind_eq_ok.mpr ⟨rows, found, rfl⟩, filled, rfl⟩
      · rintro ⟨start, size, sides, rows, new, span, found, filled, rfl⟩
        obtain ⟨_, resolved, same⟩ := Outcome.bind_eq_ok.mp found
        cases same
        refine Outcome.bind_eq_ok.mpr ⟨(start, size), span, (checked _ _).mpr ⟨fun _ => ⟨rows, resolved⟩, ?_⟩⟩
        exact Outcome.bind_eq_ok.mpr ⟨new, filled, Outcome.bind_eq_ok.mpr ⟨rows, resolved, rfl⟩⟩

theorem externalSpan_eq_ok {name : String} {s : Nat × Nat} :
    c.externalSpan name = .ok s ↔ c.external.span? name = some s := by
  rw [externalSpan]
  cases c.external.span? name with
  | none => exact iff_of_false nofun nofun
  | some s' => exact ⟨fun same => congrArg _ (Except.ok.inj same), fun same => congrArg _ (Option.some.inj same)⟩

theorem externalSpan_le {name : String} (span : c.externalSpan name = .ok (start, size)) :
    start + size ≤ c.external.width :=
  Layout.span_le_width (externalSpan_eq_ok.mp span)

theorem targets_lt {ids : Option (Grid Int)} {sides rows : List Nat} (found : c.targets ids = .ok (sides, rows)) :
    ∀ i ∈ rows, i < c.size := by
  intro i member
  cases ids with
  | none =>
      cases found
      exact List.mem_range.mp member
  | some ids =>
      obtain ⟨_, resolved, same⟩ := Outcome.bind_eq_ok.mp found
      cases same
      obtain ⟨number, -, here⟩ := Outcome.exists_of_matched (Outcome.mapM_eq_ok.mp resolved) member
      split at here
      · next position =>
          cases here
          exact lt_of_position? position
      · cases here

theorem length_targets {ids : Option (Grid Int)} {sides rows : List Nat} (proper : ∀ given, ids = some given → given.Proper)
    (found : c.targets ids = .ok (sides, rows)) : rows.length = Grid.volume sides := by
  cases ids with
  | none =>
      cases found
      exact List.length_range.trans (Nat.mul_one _).symm
  | some ids =>
      obtain ⟨_, resolved, same⟩ := Outcome.bind_eq_ok.mp found
      cases same
      exact (Outcome.mapM_eq_ok.mp resolved).length_eq.symm.trans (proper ids rfl)

/-- A write that is carried out: its field and its control points are there, and its value fits. -/
structure Writes (c : ControlPoints α) (p : Prescription α) (start size : Nat) (rows : List Nat) (new : List α) :
    Prop where
  span : c.externalSpan p.field = .ok (start, size)
  targets : ∃ sides grid, c.targets p.ids = .ok (sides, rows) ∧ p.value.fill (sides ++ [size]) = .ok grid ∧
    grid.entries = new
  length : new.length = rows.length * size
  assigned : c.assigned p = (cells start size rows).zip new

/-- A write is carried out entry by entry, or not at all. -/
theorem prescribe_cases (stored : c.Stored) (proper : p.Proper) :
    c.prescribe p = { c with prescribed := (c.assigned p).foldl put c.prescribed } ∧
      ((∃ e, c.setExternal p.field p.value p.ids = .error e) ∧ c.assigned p = [] ∨
        ∃ start size rows new, c.Writes p start size rows new) := by
  cases done : c.setExternal p.field p.value p.ids with
  | error e =>
      have nothing : c.assigned p = [] := by
        rw [assigned]
        cases listed : c.assignments p with
        | error e => rfl
        | ok log =>
            obtain ⟨⟨start, size⟩, span, rest⟩ := Outcome.bind_eq_ok.mp listed
            obtain ⟨⟨sides, rows⟩, found, rest⟩ := Outcome.bind_eq_ok.mp rest
            obtain ⟨new, filled, -⟩ := Outcome.bind_eq_ok.mp rest
            have succeeds := setExternal_eq_ok.mpr ⟨start, size, sides, rows, new, span, found, filled, rfl⟩
            cases done.symm.trans succeeds
      refine ⟨?_, Or.inl ⟨⟨e, rfl⟩, nothing⟩⟩
      rw [prescribe, done, nothing]
      rfl
  | ok next =>
      obtain ⟨start, size, sides, rows, new, span, found, filled, rfl⟩ := setExternal_eq_ok.mp done
      obtain ⟨shape, full⟩ := Grid.proper_of_fill proper.1 filled
      have length : new.entries.length = rows.length * size := by
        rw [full, shape, Grid.volume_append, length_targets proper.2 found]
        exact congrArg _ (Nat.mul_one size)
      have listed : c.assignments p = .ok ((cells start size rows).zip new.entries) :=
        Outcome.bind_eq_ok.mpr ⟨(start, size), span, Outcome.bind_eq_ok.mpr ⟨(sides, rows), found,
          Outcome.bind_eq_ok.mpr ⟨new, filled, rfl⟩⟩⟩
      have log : c.assigned p = (cells start size rows).zip new.entries := by
        rw [assigned, listed]
        rfl
      refine ⟨?_, Or.inr ⟨start, size, rows, new.entries, span, ⟨sides, new, found, filled, rfl⟩, length, log⟩⟩
      rw [prescribe, done, log, ← write_eq_foldl_put stored.columns (externalSpan_le span) length]

/-- Is a cell in a column of the field of a write, and in a row that the write is for? -/
def Addresses (c : ControlPoints α) (p : Prescription α) (place : Nat × Nat) : Prop :=
  ∃ start size sides rows, c.externalSpan p.field = .ok (start, size) ∧ c.targets p.ids = .ok (sides, rows) ∧
    place.1 ∈ rows ∧ start ≤ place.2 ∧ place.2 < start + size

theorem Writes.addresses_iff {rows : List Nat} {new : List α} (writes : c.Writes p start size rows new) :
    place ∈ (c.assigned p).map (·.1) ↔ c.Addresses p place := by
  obtain ⟨sides, grid, found, -, -⟩ := writes.targets
  have keys : ((cells start size rows).zip new).map (·.1) = cells start size rows :=
    List.map_fst_zip (by rw [length_cells, writes.length])
  rw [writes.assigned, keys, mem_cells]
  constructor
  · rintro ⟨row, column⟩
    exact ⟨start, size, sides, rows, writes.span, found, row, column⟩
  · rintro ⟨start', size', sides', rows', span, found', row, column⟩
    cases writes.span.symm.trans span
    cases found.symm.trans found'
    exact ⟨row, column⟩

theorem addresses_of_mem_assigned (stored : c.Stored) (proper : p.Proper) {t : (Nat × Nat) × α}
    (member : t ∈ c.assigned p) : c.Addresses p t.1 := by
  rcases (prescribe_cases stored proper).2 with ⟨-, none⟩ | ⟨start, size, rows, new, writes⟩
  · rw [none] at member
    cases member
  · exact writes.addresses_iff.mp (List.mem_map_of_mem member)

theorem Addresses.bounds (addresses : c.Addresses p place) : place.1 < c.size ∧ place.2 < c.external.width := by
  obtain ⟨start, size, sides, rows, span, found, row, -, below⟩ := addresses
  exact ⟨targets_lt found place.1 row, below.trans_le (externalSpan_le span)⟩

theorem stored_foldl_put (stored : c.Stored) (log : List ((Nat × Nat) × α)) :
    Stored { c with prescribed := log.foldl put c.prescribed } :=
  ⟨(foldl_put_size log).trans stored.rows, wide_foldl_put stored.columns log⟩

/-- Writes that follow each other put their entries into cells one after the other. -/
theorem foldl_prescribe (stored : c.Stored) {ps : List (Prescription α)} (proper : ∀ p ∈ ps, p.Proper) :
    ps.foldl prescribe c = { c with prescribed := (ps.flatMap c.assigned).foldl put c.prescribed } := by
  induction ps generalizing c with
  | nil => rfl
  | cons p ps ih =>
      rw [List.forall_mem_cons] at proper
      rw [List.foldl_cons, (prescribe_cases stored proper.1).1, ih (stored_foldl_put stored _) proper.2, List.flatMap_cons,
        List.foldl_append]
      rfl

/-- What reading the values of an external field gives. -/
theorem externalOf_eq_ok (stored : c.Stored) (sorted : c.external.Sorted) {f : Field} (present : f ∈ c.external.fields) :
    ∃ rows, c.externalOf f.name = .ok rows ∧ rows.length = c.size ∧ ∀ i < c.size, ∀ comps,
      f.HasComponent c.external.dim comps → (rows[i]?).bind (·[Layout.rowMajor c.external.dim comps]?) =
        cell c.prescribed (i, c.external.columnOf f.name comps) := by
  obtain ⟨start, -, span⟩ := Layout.exists_span sorted.nodup present
  have here : c.externalSpan f.name = .ok (start, f.components c.external.dim) := by
    refine externalSpan_eq_ok.mpr ?_
    rw [Layout.span] at span
    split at span
    · next s found =>
        cases span
        exact found
    · cases span
  refine ⟨cut start (f.components c.external.dim) c.prescribed, Outcome.bind_eq_ok.mpr ⟨_, here, rfl⟩, ?_, ?_⟩
  · rw [cut, List.length_map, Array.length_toList, stored.rows]
  · intro i inside comps component
    have below := Layout.rowMajor_lt_components component
    rw [cut, cell, Layout.columnOf_of_flat (Layout.flat_of_span span comps), List.getElem?_map, Array.getElem?_toList]
    cases c.prescribed[i]? with
    | none => rfl
    | some row =>
        rw [Option.map_some, Option.bind_some, Option.bind_some, List.getElem?_take_of_lt below, List.getElem?_drop]

/-- What becomes of prescribed values in a sequence of writes. -/
structure Prescribed (c : ControlPoints α) (ps : List (Prescription α)) (c' : ControlPoints α) : Prop where
  frame : c' = { c with prescribed := c'.prescribed }
  /-- A write that is refused goes to no cell, and every other one to all of its cells. -/
  writes : ∀ p ∈ ps, (∃ e, c.setExternal p.field p.value p.ids = .error e) ∧ c.assigned p = [] ∨
    ∃ start size rows new, c.Writes p start size rows new
  outside : ∀ place, (∀ p ∈ ps, ¬c.Addresses p place) → cell c'.prescribed place = cell c.prescribed place
  /-- What is read is what was written last. -/
  read : ∀ f ∈ c.external.fields, ∃ rows, c'.externalOf f.name = .ok rows ∧ rows.length = c.size ∧
    ∀ i < c.size, ∀ comps, f.HasComponent c.external.dim comps →
      (rows[i]?).bind (·[Layout.rowMajor c.external.dim comps]?) =
        ((ps.flatMap c.assigned).reverse.lookup (i, c.external.columnOf f.name comps)).or
          (cell c.prescribed (i, c.external.columnOf f.name comps))

theorem prescribed_foldl (stored : c.Stored) (sorted : c.external.Sorted) {ps : List (Prescription α)}
    (proper : ∀ p ∈ ps, p.Proper) : c.Prescribed ps (ps.foldl prescribe c) := by
  have inside : ∀ t ∈ ps.flatMap c.assigned, t.1.1 < c.prescribed.size ∧ t.1.2 < c.external.width := by
    intro t member
    obtain ⟨p, listed, member⟩ := List.mem_flatMap.mp member
    rw [stored.rows]
    exact (addresses_of_mem_assigned stored (proper p listed) member).bounds
  rw [foldl_prescribe stored proper]
  refine ⟨rfl, fun p member => (prescribe_cases stored (proper p member)).2, fun place apart => ?_, fun f present => ?_⟩
  · have untouched : (ps.flatMap c.assigned).reverse.lookup place = none := by
      refine List.lookup_eq_none_iff.mpr fun t member => ?_
      obtain ⟨p, listed, member⟩ := List.mem_flatMap.mp (List.mem_reverse.mp member)
      refine bne_iff_ne.mpr fun same => apart p listed ?_
      rw [same]
      exact addresses_of_mem_assigned stored (proper p listed) member
    rw [cell_foldl_put stored.columns inside, untouched, Option.none_or]
  · obtain ⟨rows, found, length, entries⟩ := externalOf_eq_ok (stored_foldl_put stored (ps.flatMap c.assigned)) sorted present
    refine ⟨rows, found, length, fun i row comps component => ?_⟩
    rw [entries i row comps component, cell_foldl_put stored.columns inside]

end ControlPoints

/-- Fields of distinct names have one layout, in whatever order they come. Its columns are those of their components, one
for each, and the control points that have it for external fields keep what is prescribed apart. -/
theorem layout_tiles_and_keeps_apart {fields : List Field} (distinct : (fields.map (·.name)).Nodup) (dim : Nat) :
    ∃ l, Layout.ofFields fields dim = .ok l ∧ (∀ others, others.Perm fields → Layout.ofFields others dim = .ok l) ∧
      l.dim = dim ∧ l.fields.Perm fields ∧ l.Tiles ∧
      ∀ {α : Type} (c : ControlPoints α), c.external = l → c.Stored → ∀ ps : List (Prescription α),
        (∀ p ∈ ps, p.Proper) → c.Prescribed ps (ps.foldl ControlPoints.prescribe c) := by
  obtain ⟨l, made⟩ := Layout.ofFields_isOk distinct dim
  have sorted := Layout.sorted_ofFields made
  obtain ⟨same, listed⟩ := Layout.ofFields_eq_ok made
  refine ⟨l, made, fun others perm => (Layout.ofFields_perm perm distinct dim).trans made, same, listed, sorted.tiles, ?_⟩
  rintro α c rfl stored ps proper
  exact ControlPoints.prescribed_foldl stored sorted proper

section Plane

/-- A vector and a scalar. -/
def planeFields : List Field := [⟨"wind", 1, true⟩, ⟨"Te", 0, true⟩]

/-- Two points of the plane where nothing is prescribed yet. -/
def planePoints (external : Layout) : ControlPoints Nat := .make 2 #[[0, 0], [1, 0]] (Layout.empty 2) external

/-- The wind at the last point, and then a temperature everywhere. -/
def planeWrites : List (Prescription Nat) := [⟨"wind", ⟨[2], [3, 4]⟩, some ⟨[1], [-1]⟩⟩, ⟨"Te", ⟨[], [7]⟩, none⟩]

theorem plane_layout_tiles_and_keeps_apart :
    (planeFields.map (·.name)).Nodup ∧ (∀ p ∈ planeWrites, p.Proper) ∧ ∃ l, Layout.ofFields planeFields 2 = .ok l ∧
      l.Tiles ∧ (planePoints l).Prescribed planeWrites (planeWrites.foldl ControlPoints.prescribe (planePoints l)) := by
  have distinct : (planeFields.map (·.name)).Nodup := by decide
  have proper : ∀ p ∈ planeWrites, p.Proper := by
    simp [planeWrites, Prescription.Proper, Grid.Proper, Grid.volume]
  obtain ⟨l, made, -, -, -, tiles, keeps⟩ := layout_tiles_and_keeps_apart distinct 2
  exact ⟨distinct, proper, l, made, tiles, keeps (planePoints l) rfl (ControlPoints.stored_make ..) planeWrites proper⟩

example : (planeWrites.foldl ControlPoints.prescribe
    (planePoints ⟨2, [⟨"Te", 0, true⟩, ⟨"wind", 1, true⟩]⟩)).prescribed = #[[7, 0, 0], [7, 3, 4]] := by cbv

end Plane

end Galerkin
