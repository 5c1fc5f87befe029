import Mathlib
import Galerkin.ControlPoints
import Galerkin.Proofs.Assembly.Blocks
import Galerkin.Proofs.DofMap
import Galerkin.Proofs.Layout

/-!
The numbering of unknowns as a bijection: between the components of occupied control points and the numbers below the
count, between the columns of fields and these numbers, and between vectors and what the control points store.
-/

namespace Galerkin

namespace DofMap

variable {width next point other c d i j : Nat} {occupied : List Bool}

/-- The number of a component of a control point, if it has one. -/
def dof? (m : DofMap) (point component : Nat) : Option Nat := ((m.row point)[component]?).join

theorem dof?_eq_some : (ofOccupied width occupied).dof? point c = some i ↔
    On occupied point ∧ c < width ∧ i = Nat.count (On occupied) point * width + c := by
  rw [dof?, Option.join_eq_some_iff, row_ofOccupied, List.getElem?_map, Option.map_eq_some_iff]
  constructor
  · rintro ⟨k, here, same⟩
    obtain ⟨column, rfl⟩ := List.getElem?_eq_some_iff.mp here
    rw [List.length_range] at column
    rw [List.getElem_range] at same
    split at same
    · next on => exact ⟨on, column, (Option.some.inj same).symm⟩
    · cases same
  · rintro ⟨on, column, rfl⟩
    exact ⟨c, List.getElem?_range column, if_pos on⟩

theorem dof?_eq_none (column : c < width) :
    (ofOccupied width occupied).dof? point c = none ↔ ¬ On occupied point := by
  rw [Option.eq_none_iff_forall_not_mem]
  constructor
  · exact fun none on => none _ (dof?_eq_some.mpr ⟨on, column, rfl⟩)
  · exact fun off i numbered => off (dof?_eq_some.mp numbered).1

/-- Numbers ascend with the control points, and with the components of each. -/
theorem dof?_lt_iff (first : (ofOccupied width occupied).dof? point c = some i)
    (second : (ofOccupied width occupied).dof? other d = some j) :
    i < j ↔ point < other ∨ point = other ∧ c < d := by
  obtain ⟨on, column, rfl⟩ := dof?_eq_some.mp first
  obtain ⟨on', column', rfl⟩ := dof?_eq_some.mp second
  -- Each point takes `width` numbers behind those of the occupied points before it.
  have before {p q : Nat} (here : On occupied p) (less : p < q) {a b : Nat} (inside : a < width) :
      Nat.count (On occupied) p * width + a < Nat.count (On occupied) q * width + b := by
    have fewer : Nat.count (On occupied) p + 1 ≤ Nat.count (On occupied) q := Nat.count_strict_mono here less
    have room := Nat.mul_le_mul_right width fewer
    rw [Nat.succ_mul] at room
    omega
  rcases lt_trichotomy point other with less | rfl | more
  · exact iff_of_true (before on less column) (Or.inl less)
  · omega
  · have after := before on' more column' (b := c)
    omega

/-- What the numbers of components of control points are: one for each component of an occupied point, and all of them
in order. -/
structure Numbers (m : DofMap) (width : Nat) (occupied : List Bool) : Prop where
  size : m.rows.length = occupied.length
  none_iff : ∀ p < occupied.length, ∀ c < width, m.dof? p c = none ↔ occupied[p]? = some false
  onto : ∀ i < m.count, ∃! t : Nat × Nat, t.1 < occupied.length ∧ t.2 < width ∧ m.dof? t.1 t.2 = some i
  below : ∀ p c i, m.dof? p c = some i → i < m.count
  lt_iff : ∀ p c i q d j, m.dof? p c = some i → m.dof? q d = some j → (i < j ↔ p < q ∨ p = q ∧ c < d)

theorem length_startsFrom (width next : Nat) (occupied : List Bool) :
    (startsFrom width next occupied).length = occupied.length := by
  induction occupied generalizing next with
  | nil => rfl
  | cons flag rest ih =>
      cases flag with
      | true => exact congrArg (· + 1) (ih _)
      | false => exact congrArg (· + 1) (ih _)

theorem numbers_ofOccupied (width : Nat) (occupied : List Bool) : (ofOccupied width occupied).Numbers width occupied where
  size := by rw [rows, List.length_map, List.length_range, ofOccupied, List.size_toArray, length_startsFrom]
  none_iff := by
    intro p inside c column
    rw [dof?_eq_none column, On]
    obtain ⟨flag, here⟩ : ∃ flag, occupied[p]? = some flag := ⟨_, List.getElem?_eq_getElem inside⟩
    rw [here]
    cases flag <;> simp
  onto := by
    intro i inside
    obtain ⟨p, c, on, column, rfl⟩ := exists_on inside
    have here := dof?_eq_some.mpr ⟨on, column, rfl⟩
    refine ⟨(p, c), ⟨lt_of_on on, column, here⟩, ?_⟩
    rintro ⟨q, d⟩ ⟨-, -, there⟩
    have forth := dof?_lt_iff here there
    have back := dof?_lt_iff there here
    rw [Prod.mk.injEq]
    dsimp only at forth back
    omega
  below := by
    intro p c i numbered
    rw [dof?, Option.join_eq_some_iff] at numbered
    exact lt_count_ofOccupied (List.mem_of_getElem? numbered)
  lt_iff := fun p c i q d j => dof?_lt_iff

/-! ### Fields -/

section Columns

variable {m : DofMap}

theorem columns_append (first second : List Nat) : (m.columns (first ++ second)).Perm (m.columns first ++ m.columns second) := by
  refine List.Perm.trans (List.Perm.of_eq ?_) (List.flatMap_append_perm ..).symm
  refine List.flatMap_congr fun start _ => ?_
  cases start with
  | none => rfl
  | some s => exact List.map_append

theorem columns_flatten (parts : List (List Nat)) : (parts.map m.columns).flatten.Perm (m.columns parts.flatten) := by
  induction parts with
  | nil =>
      refine List.Perm.of_eq (List.flatMap_eq_nil_iff.mpr fun start _ => ?_).symm
      cases start <;> rfl
  | cons part rest ih =>
      rw [List.map_cons, List.flatten_cons, List.flatten_cons]
      exact (ih.append_left _).trans (columns_append _ _).symm

theorem columns_startsFrom (width next count : Nat) (occupied : List Bool) :
    columns ⟨width, (startsFrom width next occupied).toArray, count⟩ (List.range width) =
      List.range' next (occupied.count true * width) := by
  induction occupied generalizing next with
  | nil => simp [columns, startsFrom]
  | cons flag rest ih =>
      cases flag with
      | true =>
          have here : columns ⟨width, (startsFrom width next (true :: rest)).toArray, count⟩ (List.range width) =
              (List.range width).map (next + ·) ++
                columns ⟨width, (startsFrom width (next + width) rest).toArray, count⟩ (List.range width) := rfl
          rw [here, ih, List.count_cons_self, Nat.succ_mul, Nat.add_comm (_ * width), ← List.range'_eq_map_range]
          exact List.range'_append_1
      | false =>
          rw [List.count_cons_of_ne (by decide), ← ih]
          rfl

/-- The numbers of all columns are all numbers. -/
theorem columns_ofOccupied (width : Nat) (occupied : List Bool) :
    (ofOccupied width occupied).columns (List.range width) = List.range (ofOccupied width occupied).count := by
  exact (columns_startsFrom width 0 _ occupied).trans List.range_eq_range'.symm

/-- The fields of a layout share the numbers out among them, and so do the components of each field. -/
structure SharedOut (m : DofMap) (l : Layout) : Prop where
  fields : ∃ parts, l.fields.mapM (fun f => m.fieldDofs l f.name none) = .ok parts ∧ parts.flatten.Perm (List.range m.count)
  components : ∀ f ∈ l.fields, ∃ all parts, m.fieldDofs l f.name none = .ok all ∧
    (List.range (f.components l.dim)).mapM (fun c => m.fieldDofs l f.name (some (Int.ofNat c))) = .ok parts ∧
    parts.flatten.Perm all

theorem fieldDofs_of_span {l : Layout} {name : String} {s : Nat × Nat} (found : l.spans.lookup name = some s) :
    m.fieldDofs l name none = .ok (m.columns ((List.range s.2).map (s.1 + ·))) ∧
      ∀ c < s.2, m.fieldDofs l name (some (Int.ofNat c)) = .ok (m.columns [s.1 + c]) := by
  have span : l.span name = .ok s := by
    rw [Layout.span, Layout.span?, found]
    rfl
  refine ⟨Outcome.bind_eq_ok.mpr ⟨s, span, rfl⟩, fun c inside => Outcome.bind_eq_ok.mpr ⟨s, span, ?_⟩⟩
  have entry : entry? ((List.range s.2).map (s.1 + ·)) (Int.ofNat c) = some (s.1 + c) := by
    have position : position? ((List.range s.2).map (s.1 + ·)).length (Int.ofNat c) = some c := by
      simp [position?, inside]
    unfold entry?
    rw [position]
    simp [inside]
  simp only [entry]
  rfl

theorem sharedOut_ofOccupied {l : Layout} (distinct : l.names.Nodup) (occupied : List Bool) :
    (ofOccupied l.width occupied).SharedOut l where
  fields := by
    have each := Layout.spans_matched l.dim 0 distinct
    refine ⟨l.spans.map fun s => (ofOccupied l.width occupied).columns ((List.range s.2.2).map (s.2.1 + ·)),
      Outcome.mapM_eq_ok.mpr (List.forall₂_map_right_iff.mpr (each.imp fun f s own => (fieldDofs_of_span own.1).1)), ?_⟩
    have parts := columns_flatten (m := ofOccupied l.width occupied)
      (l.spans.map fun s => (List.range s.2.2).map (s.2.1 + ·))
    have all : (l.spans.map fun s => (List.range s.2.2).map (s.2.1 + ·)).flatten = List.range l.width :=
      (Layout.columns_spansFrom l.dim 0 l.fields).trans List.range_eq_range'.symm
    rw [List.map_map, all, columns_ofOccupied] at parts
    exact parts
  components := by
    intro f member
    obtain ⟨s, -, found, size⟩ := Outcome.exists_of_matched_left (Layout.spans_matched l.dim 0 distinct) member
    obtain ⟨whole, single⟩ := fieldDofs_of_span (m := ofOccupied l.width occupied) found
    refine ⟨_, ((List.range (f.components l.dim)).map fun c => [s.2.1 + c]).map (ofOccupied l.width occupied).columns,
      whole, ?_, ?_⟩
    · rw [List.map_map]
      refine Outcome.mapM_eq_ok.mpr (List.forall₂_map_right_iff.mpr (List.forall₂_same.mpr fun c inside => ?_))
      exact single c (by rw [size]; exact List.mem_range.mp inside)
    · refine (columns_flatten _).trans (List.Perm.of_eq ?_)
      rw [← size, ← List.flatMap_def, ← List.map_eq_flatMap]

end Columns

/-! ### Elements -/

/-- The numbers of an element with some control points: by point, then by component. -/
def NodeMajor (m : DofMap) (width : Nat) (points : List Nat) (dofs : List (Option Nat)) : Prop :=
  dofs.length = points.length * width ∧ ∀ a p c, points[a]? = some p → c < width →
    ∃ i, dofs[a * width + c]? = some (some i) ∧ m.dof? p c = some i

theorem nodeMajor_elementDofs {points : List Nat} (on : ∀ p ∈ points, On occupied p) :
    (ofOccupied width occupied).NodeMajor width points ((ofOccupied width occupied).elementDofs points) := by
  refine ⟨length_elementDofs _ _, fun a p c here column => ?_⟩
  have place : ((ofOccupied width occupied).elementDofs points)[a * width + c]? =
      ((ofOccupied width occupied).row p)[c]? := getElem?_flatMap (fun q _ => length_row _ q) here column
  have numbered := dof?_eq_some.mpr ⟨on p (List.mem_of_getElem? here), column, rfl⟩
  refine ⟨_, ?_, numbered⟩
  rw [place]
  exact Option.join_eq_some_iff.mp numbered

theorem table_eq_ok (m : DofMap) {rows : List (List Nat)} (some : rows ≠ []) : m.table rows = .ok (rows.map m.elementDofs) := by
  rw [table, if_neg (by simpa using some)]
  rfl

/-! ### Vectors and stored rows -/

section Stored

variable {α : Type}

theorem gather_scatter_from (width next count : Nat) (occupied : List Bool) {stored : List (List α)} (x : Array α)
    (rows : stored.length = occupied.length) (even : ∀ row ∈ stored, row.length = width)
    (enough : next + occupied.count true * width ≤ x.size) :
    gather ⟨width, (startsFrom width next occupied).toArray, count⟩
      (scatter ⟨width, (startsFrom width next occupied).toArray, count⟩ x stored.toArray) =
      (x.toList.drop next).take (occupied.count true * width) := by
  induction occupied generalizing next stored with
  | nil => simp [gather, startsFrom]
  | cons flag rest ih =>
      cases stored with
      | nil => cases rows
      | cons row others =>
          rw [List.forall_mem_cons] at even
          rw [List.length_cons, List.length_cons, Nat.add_right_cancel_iff] at rows
          cases flag with
          | true =>
              rw [List.count_cons_self, Nat.succ_mul] at enough ⊢
              have values : row.mapIdx (fun c old => x.getD (next + c) old) = (x.toList.drop next).take width := by
                refine List.ext_getElem (by simp [even.1]; omega) fun c left right => ?_
                rw [List.length_mapIdx, even.1] at left
                have inside : next + c < x.size := by omega
                simp [inside]
              have later := ih (next + width) rows even.2 (by omega)
              have split : (x.toList.drop next).take (rest.count true * width + width) =
                  (x.toList.drop next).take width ++ (x.toList.drop (next + width)).take (rest.count true * width) := by
                rw [Nat.add_comm _ width, List.take_add, List.drop_drop]
              rw [split, ← later, ← values]
              rfl
          | false =>
              rw [List.count_cons_of_ne (by decide)] at enough ⊢
              exact ih next rows even.2 enough

theorem gather_scatter {occupied : List Bool} {stored : Array (List α)} (rows : stored.size = occupied.length)
    (even : ∀ row ∈ stored, row.length = width) {x : List α} (length : x.length = (ofOccupied width occupied).count) :
    (ofOccupied width occupied).gather ((ofOccupied width occupied).scatter x.toArray stored) = x := by
  have count : (ofOccupied width occupied).count = occupied.count true * width := rfl
  have lists : stored.toList.length = occupied.length := rows
  have back := gather_scatter_from width 0 (occupied.count true * width) occupied x.toArray lists
    (fun row member => even row (Array.mem_toList_iff.mp member)) (by simp [length, count])
  refine back.trans ?_
  rw [List.drop_zero, List.take_of_length_le]
  simp [length, count]

theorem length_gather_from (width next count : Nat) {occupied : List Bool} {stored : List (List α)}
    (rows : stored.length = occupied.length) (even : ∀ row ∈ stored, row.length = width) :
    (gather ⟨width, (startsFrom width next occupied).toArray, count⟩ stored.toArray).length = occupied.count true * width := by
  induction occupied generalizing next stored with
  | nil => simp [gather, startsFrom]
  | cons flag rest ih =>
      cases stored with
      | nil => cases rows
      | cons row others =>
          rw [List.forall_mem_cons] at even
          rw [List.length_cons, List.length_cons, Nat.add_right_cancel_iff] at rows
          cases flag with
          | true =>
              have here : gather ⟨width, (startsFrom width next (true :: rest)).toArray, count⟩ (row :: others).toArray =
                  row ++ gather ⟨width, (startsFrom width (next + width) rest).toArray, count⟩ others.toArray := rfl
              rw [here, List.length_append, ih (next + width) rows even.2, even.1, List.count_cons_self, Nat.succ_mul,
                Nat.add_comm]
          | false =>
              rw [List.count_cons_of_ne (by decide)]
              exact ih next rows even.2

/-- Writing back a vector that holds, from some number on, what was read changes nothing. -/
theorem scatter_gather_from (width next count : Nat) {occupied : List Bool} {stored : List (List α)} {x : List α}
    (rows : stored.length = occupied.length) (even : ∀ row ∈ stored, row.length = width)
    (read : x.drop next = gather ⟨width, (startsFrom width next occupied).toArray, count⟩ stored.toArray) :
    scatter ⟨width, (startsFrom width next occupied).toArray, count⟩ x.toArray stored.toArray = stored.toArray := by
  induction occupied generalizing next stored with
  | nil =>
      rw [List.length_eq_zero_iff.mp rows]
      rfl
  | cons flag rest ih =>
      cases stored with
      | nil => cases rows
      | cons row others =>
          rw [List.forall_mem_cons] at even
          rw [List.length_cons, List.length_cons, Nat.add_right_cancel_iff] at rows
          cases flag with
          | true =>
              have here : x.drop next =
                  row ++ gather ⟨width, (startsFrom width (next + width) rest).toArray, count⟩ others.toArray := read
              have later := ih (next + width) rows even.2 (by
                rw [← List.drop_drop, here, ← even.1, List.drop_left])
              have values : row.mapIdx (fun c old => x.toArray.getD (next + c) old) = row := by
                refine List.ext_getElem List.length_mapIdx fun c left right => ?_
                have entry : x[next + c]? = some row[c] := by
                  rw [← List.getElem?_drop, here, List.getElem?_append_left right, List.getElem?_eq_getElem right]
                simp [Array.getD_eq_getD_getElem?, entry]
              have whole : scatter ⟨width, (startsFrom width next (true :: rest)).toArray, count⟩ x.toArray
                  (row :: others).toArray = (row.mapIdx (fun c old => x.toArray.getD (next + c) old) ::
                    (scatter ⟨width, (startsFrom width (next + width) rest).toArray, count⟩ x.toArray
                      others.toArray).toList).toArray := rfl
              rw [whole, values, later]
          | false =>
              have whole : scatter ⟨width, (startsFrom width next (false :: rest)).toArray, count⟩ x.toArray
                  (row :: others).toArray = (row :: (scatter ⟨width, (startsFrom width next rest).toArray, count⟩ x.toArray
                      others.toArray).toList).toArray := rfl
              rw [whole, ih next rows even.2 read]

theorem scatter_gather {occupied : List Bool} {stored : Array (List α)} (rows : stored.size = occupied.length)
    (even : ∀ row ∈ stored, row.length = width) :
    (ofOccupied width occupied).scatter ((ofOccupied width occupied).gather stored).toArray stored = stored :=
  have lists : stored.toList.length = occupied.length := rows
  scatter_gather_from width 0 _ lists (fun row member => even row (Array.mem_toList_iff.mp member)) rfl

/-- Rows of control points without unknowns keep what they hold. -/
theorem getElem?_scatter_of_off (x : Array α) (stored : Array (List α)) (off : occupied[point]? = some false) :
    ((ofOccupied width occupied).scatter x stored)[point]? = stored[point]? := by
  have start : (ofOccupied width occupied).starts[point]? = some none := by
    rw [ofOccupied, List.getElem?_toArray, getElem?_startsFrom, off]
    rfl
  rw [getElem?_scatter, start]
  cases stored[point]? <;> rfl

end Stored

end DofMap

namespace ControlPoints

variable {α : Type}

/-- Has every one of `count` control points `width` values and as many rates? -/
structure Holds (c : ControlPoints α) (count width : Nat) : Prop where
  values : c.values.size = count
  rates : c.rates.size = count
  valueRows : ∀ row ∈ c.values, row.length = width
  rateRows : ∀ row ∈ c.rates, row.length = width

/-- Reading unknowns from control points and writing them there undo each other, and points without unknowns are left
alone. -/
structure Exchanges (c : ControlPoints α) (m : DofMap) (occupied : List Bool) : Prop where
  gather_scatter : ∀ x xt : List α, x.length = m.count → xt.length = m.count →
    (c.scatter m x.toArray xt.toArray).gather m = (x, xt)
  scatter_gather : c.scatter m (c.gather m).1.toArray (c.gather m).2.toArray = c
  length_gather : (c.gather m).1.length = m.count ∧ (c.gather m).2.length = m.count
  off : ∀ (x xt : Array α) (p : Nat), occupied[p]? = some false →
    (c.scatter m x xt).values[p]? = c.values[p]? ∧ (c.scatter m x xt).rates[p]? = c.rates[p]?

theorem Holds.exchanges {c : ControlPoints α} {width : Nat} {occupied : List Bool} (holds : c.Holds occupied.length width) :
    c.Exchanges (.ofOccupied width occupied) occupied where
  gather_scatter := fun x xt length length' => Prod.ext
    (DofMap.gather_scatter holds.values holds.valueRows length) (DofMap.gather_scatter holds.rates holds.rateRows length')
  scatter_gather := by
    have values := DofMap.scatter_gather holds.values holds.valueRows
    have rates := DofMap.scatter_gather holds.rates holds.rateRows
    rw [scatter, gather]
    dsimp only
    rw [values, rates]
  length_gather := ⟨
    DofMap.length_gather_from width 0 _ (show c.values.toList.length = _ from holds.values)
      fun row member => holds.valueRows row (Array.mem_toList_iff.mp member),
    DofMap.length_gather_from width 0 _ (show c.rates.toList.length = _ from holds.rates)
      fun row member => holds.rateRows row (Array.mem_toList_iff.mp member)⟩
  off := fun x xt p off => ⟨DofMap.getElem?_scatter_of_off x _ off, DofMap.getElem?_scatter_of_off xt _ off⟩

end ControlPoints

namespace Numbering

/-- Once distributed over the occupied control points, the numbers below the count are those of the components of these
points, in order; fields and their components share them out; elements list them by node and then by component; and
vectors over them go to the control points and come back unchanged. -/
theorem distribute_bijective {fields : List Field} {dim : Nat} {l : Layout} (made : Layout.ofFields fields dim = .ok l)
    (occupied : List Bool) : ∃ m h, (⟨l.width, none⟩ : Numbering).distribute occupied = .ok (m, h) ∧ h.map = .ok m ∧
      m.count = occupied.count true * l.width ∧ m.Numbers l.width occupied ∧ m.SharedOut l ∧
      (∀ rows : List (List Nat), rows ≠ [] → (∀ points ∈ rows, ∀ p ∈ points, occupied[p]? = some true) →
        ∃ dofs, m.table rows = .ok dofs ∧ List.Forall₂ (m.NodeMajor l.width) rows dofs) ∧
      ∀ {α : Type} (c : ControlPoints α), c.Holds occupied.length l.width → c.Exchanges m occupied := by
  refine ⟨.ofOccupied l.width occupied, ⟨l.width, some (.ofOccupied l.width occupied)⟩, rfl, rfl, rfl,
    DofMap.numbers_ofOccupied _ _, DofMap.sharedOut_ofOccupied (Layout.names_nodup_ofFields made) _, ?_,
    fun c holds => holds.exchanges⟩
  intro rows some on
  refine ⟨_, DofMap.table_eq_ok _ some, List.forall₂_map_right_iff.mpr (List.forall₂_same.mpr fun points member => ?_)⟩
  exact DofMap.nodeMajor_elementDofs (on points member)

/-- A temperature and a displacement in the plane. -/
def thermoelastic : Layout := ⟨2, [⟨"T", 0, false⟩, ⟨"d", 1, false⟩]⟩

/-- Three control points of which the second has no unknowns. -/
def gap : ControlPoints Int :=
  ⟨2, thermoelastic, .empty 2, #[], #[[1, 2, 3], [4, 5, 6], [7, 8, 9]], #[[0, 0, 0], [0, 0, 1], [0, 0, 2]], #[], #[]⟩

theorem distribute_gap : ∃ m h, (⟨3, none⟩ : Numbering).distribute [true, false, true] = .ok (m, h) ∧
    m.Numbers 3 [true, false, true] ∧ m.SharedOut thermoelastic ∧ gap.Exchanges m [true, false, true] ∧
    m.fieldDofs thermoelastic "d" (some 1) = .ok [2, 5] ∧ m.fieldDofs thermoelastic "T" none = .ok [0, 3] ∧
    m.table [[2, 0]] = .ok [[some 3, some 4, some 5, some 0, some 1, some 2]] ∧
    m.NodeMajor 3 [2, 0] [some 3, some 4, some 5, some 0, some 1, some 2] ∧
    gap.gather m = ([1, 2, 3, 7, 8, 9], [0, 0, 0, 0, 0, 2]) := by
  have made : Layout.ofFields [⟨"d", 1, false⟩, ⟨"T", 0, false⟩] 2 = .ok thermoelastic := by cbv
  have holds : gap.Holds 3 3 := ⟨rfl, rfl, by decide, by decide⟩
  obtain ⟨m, h, distributed, -, -, numbers, shared, elements, exchanges⟩ :=
    distribute_bijective made [true, false, true]
  obtain ⟨dofs, table, nodes⟩ := elements [[2, 0]] (by decide) (by decide)
  cases distributed
  cases table
  exact ⟨_, _, rfl, numbers, shared, exchanges gap holds, rfl, rfl, rfl, (List.forall₂_cons.mp nodes).1, rfl⟩

end Numbering

end Galerkin
