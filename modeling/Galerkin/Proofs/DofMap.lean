import Mathlib
import Galerkin.DofMap

/-!
The numbers that control points get, and what stored rows hold once a vector was written to them.

The numbers of unknowns in closed form: a control point is numbered by how many occupied ones come before it. When the
control points get other numbers, so do the unknowns, and a component of a point stays a component of it.
-/

namespace Galerkin

namespace DofMap

variable {α : Type}

/-- The entries of the stored rows `old` that have a number stand in `new` as the vector has them. -/
def Holds (m : DofMap) (old new : Array (List α)) (x : List α) : Prop :=
  ∀ point row c i v, old[point]? = some row → c < row.length → (m.row point)[c]? = some (some i) →
    x[i]? = some v → (new[point]?.bind (·[c]?)) = some v

/-- The first number of a control point, when one of its components has a number. -/
theorem start_of_row {m : DofMap} {point c i : Nat} (numbered : (m.row point)[c]? = some (some i)) :
    ∃ s, m.starts[point]? = some (some s) ∧ i = s + c ∧ c < m.width := by
  rw [row, List.getElem?_map, Option.map_eq_some_iff] at numbered
  obtain ⟨k, inside, same⟩ := numbered
  obtain ⟨bound, rfl⟩ := List.getElem?_eq_some_iff.mp inside
  rw [List.getElem_range] at same
  rw [List.length_range] at bound
  obtain ⟨s, start, rfl⟩ := Option.map_eq_some_iff.mp same
  exact ⟨s, Option.join_eq_some_iff.mp start, rfl, bound⟩

theorem length_row (m : DofMap) (point : Nat) : (m.row point).length = m.width := by simp [row]

theorem length_elementDofs (m : DofMap) (points : List Nat) :
    (m.elementDofs points).length = points.length * m.width := by
  induction points with
  | nil => simp [elementDofs]
  | cons point rest ih =>
      rw [elementDofs, List.flatMap_cons, List.length_append, length_row, List.length_cons, Nat.succ_mul,
        Nat.add_comm, ← elementDofs, ih]

/-- The numbers of an occupied control point end before the count of all. -/
theorem startsFrom_le {width next s : Nat} {occupied : List Bool} (member : some s ∈ startsFrom width next occupied) :
    s + width ≤ next + occupied.count true * width := by
  induction occupied generalizing next with
  | nil => cases member
  | cons flag rest ih =>
      cases flag with
      | true =>
          rw [List.count_cons_self, Nat.succ_mul]
          rcases List.mem_cons.mp member with first | later
          · cases first
            omega
          · have bound := ih later
            omega
      | false =>
          rw [List.count_cons_of_ne (by decide)]
          exact ih ((List.mem_cons.mp member).resolve_left (by simp))

theorem lt_count_ofOccupied {width point i : Nat} {occupied : List Bool}
    (numbered : some i ∈ (ofOccupied width occupied).row point) : i < (ofOccupied width occupied).count := by
  obtain ⟨c, here⟩ := List.mem_iff_getElem?.mp numbered
  obtain ⟨s, start, rfl, inside⟩ := start_of_row here
  rw [ofOccupied, List.getElem?_toArray] at start
  have bound := startsFrom_le (List.mem_of_getElem? start)
  have column : c < width := inside
  simp only [ofOccupied]
  omega

theorem getElem?_scatter (m : DofMap) (x : Array α) (stored : Array (List α)) (point : Nat) :
    (m.scatter x stored)[point]? =
      m.starts[point]?.bind fun start => stored[point]?.map fun values =>
        match start with
        | some s => values.mapIdx fun c old => x.getD (s + c) old
        | none => values := by
  rw [scatter, List.getElem?_toArray, List.getElem?_map, List.zip, List.getElem?_zipWith,
    Array.getElem?_toList, Array.getElem?_toList]
  cases m.starts[point]? <;> cases stored[point]? <;> rfl

theorem scatter_holds (m : DofMap) (x : List α) (stored : Array (List α)) :
    m.Holds stored (m.scatter x.toArray stored) x := by
  intro point row c i v here inside numbered value
  obtain ⟨s, start, rfl, -⟩ := start_of_row numbered
  rw [getElem?_scatter, start, here]
  simp [inside, value]

/-- Writing the same vector once more changes nothing. -/
theorem scatter_scatter (m : DofMap) (x : Array α) (stored : Array (List α)) :
    m.scatter x (m.scatter x stored) = m.scatter x stored := by
  refine Array.ext_getElem? fun point => ?_
  rw [getElem?_scatter, getElem?_scatter]
  rcases m.starts[point]? with _ | _ | s
  · rfl
  · cases stored[point]? <;> rfl
  · have again : ∀ (i : Nat) (old : α), x[i]?.getD (x[i]?.getD old) = x[i]?.getD old := by
      intro i old
      cases x[i]? <;> rfl
    cases stored[point]? with
    | none => rfl
    | some values => simp [Function.comp_def, again]

end DofMap

/-! ### Closed form and other numbers -/

namespace DofMap

/-- Is a control point occupied? -/
abbrev On (occupied : List Bool) (point : Nat) : Prop := occupied[point]? = some true

variable {width next point i j : Nat} {occupied others : List Bool} {σ : Nat → Nat}

theorem getElem?_startsFrom : (startsFrom width next occupied)[point]? = occupied[point]?.map fun flag =>
    if flag then some (next + Nat.count (On occupied) point * width) else none := by
  induction occupied generalizing next point with
  | nil => rfl
  | cons flag rest ih =>
      cases point with
      | zero => cases flag <;> simp [startsFrom]
      | succ point =>
          have before : Nat.count (On (flag :: rest)) (point + 1) =
              Nat.count (On rest) point + if flag then 1 else 0 := by
            rw [Nat.count_succ']
            cases flag <;> simp [On]
          cases flag with
          | true =>
              rw [startsFrom, List.getElem?_cons_succ, List.getElem?_cons_succ, ih, before, if_pos rfl, Nat.succ_mul]
              congr 1
              funext flag
              rw [Nat.add_assoc, Nat.add_comm width]
          | false =>
              rw [startsFrom, List.getElem?_cons_succ, List.getElem?_cons_succ, ih, before]
              rfl

theorem row_ofOccupied : (ofOccupied width occupied).row point = (List.range width).map fun c =>
    if On occupied point then some (Nat.count (On occupied) point * width + c) else none := by
  have start : ((ofOccupied width occupied).starts[point]?).join =
      if On occupied point then some (Nat.count (On occupied) point * width) else none := by
    rw [ofOccupied, List.getElem?_toArray, getElem?_startsFrom, Nat.zero_add]
    by_cases on : On occupied point
    · rw [if_pos on, show occupied[point]? = some true from on]
      rfl
    · rw [if_neg on]
      cases found : occupied[point]? with
      | none => rfl
      | some flag =>
          cases flag with
          | false => rfl
          | true => exact absurd found on
  refine List.map_congr_left fun c _ => ?_
  rw [start]
  split <;> rfl

theorem count_on (occupied : List Bool) : Nat.count (On occupied) occupied.length = occupied.count true := by
  induction occupied with
  | nil => rfl
  | cons flag rest ih =>
      rw [List.length_cons, Nat.count_succ', List.count_cons, ← ih]
      cases flag <;> simp [On]

theorem exists_count {P : Nat → Prop} [DecidablePred P] {n k : Nat} (below : k < Nat.count P n) :
    ∃ m < n, P m ∧ Nat.count P m = k := by
  induction n with
  | zero => simp at below
  | succ n ih =>
      by_cases earlier : k < Nat.count P n
      · obtain ⟨m, inside, found⟩ := ih earlier
        exact ⟨m, inside.trans (Nat.lt_succ_self n), found⟩
      · rw [Nat.count_succ] at below
        split at below
        · next here => exact ⟨n, Nat.lt_succ_self n, here, by omega⟩
        · omega

/-- Flags of the same points under other numbers. -/
structure Carried (σ : Nat → Nat) (occupied others : List Bool) : Prop where
  length : others.length = occupied.length
  within : ∀ point < occupied.length, σ point < occupied.length
  apart : ∀ point < occupied.length, ∀ other < occupied.length, σ point = σ other → point = other
  flags : ∀ point < occupied.length, others[σ point]? = occupied[point]?

/-- The new number of an unknown, which stays the same component of its control point. -/
noncomputable def renumber (width : Nat) (occupied others : List Bool) (σ : Nat → Nat) (i : Nat) : Nat :=
  Nat.count (On others) (σ (Nat.nth (On occupied) (i / width))) * width + i % width

theorem lt_of_on (on : On occupied point) : point < occupied.length := (List.getElem?_eq_some_iff.mp on).1

/-- The quotient and the remainder of a number by the width. -/
theorem div_mod_of_lt {k c : Nat} (column : c < width) : (k * width + c) / width = k ∧ (k * width + c) % width = c := by
  have positive : 0 < width := by omega
  constructor
  · rw [Nat.mul_comm, Nat.mul_add_div positive, Nat.div_eq_of_lt column, Nat.add_zero]
  · rw [Nat.mul_add_mod', Nat.mod_eq_of_lt column]

theorem renumber_count (on : On occupied point) {c : Nat} (column : c < width) :
    renumber width occupied others σ (Nat.count (On occupied) point * width + c) =
      Nat.count (On others) (σ point) * width + c := by
  obtain ⟨quotient, remainder⟩ := div_mod_of_lt (k := Nat.count (On occupied) point) column
  rw [renumber, quotient, remainder, Nat.nth_count on]

/-- Every number is that of a component of an occupied point. -/
theorem exists_on (inside : i < (ofOccupied width occupied).count) :
    ∃ point c, On occupied point ∧ c < width ∧ i = Nat.count (On occupied) point * width + c := by
  have positive : 0 < width := Nat.pos_of_mul_pos_left (show 0 < occupied.count true * width by exact Nat.zero_lt_of_lt inside)
  have quotient : i / width < Nat.count (On occupied) occupied.length := by
    rw [count_on]
    exact Nat.div_lt_of_lt_mul (by rw [Nat.mul_comm]; exact inside)
  obtain ⟨point, -, on, count⟩ := exists_count quotient
  refine ⟨point, i % width, on, Nat.mod_lt _ positive, ?_⟩
  rw [count]
  exact (Nat.div_add_mod' i width).symm

variable (carried : Carried σ occupied others)

include carried

theorem Carried.on_iff (inside : point < occupied.length) : On others (σ point) ↔ On occupied point := by
  rw [On, On, carried.flags point inside]

theorem Carried.row (inside : point < occupied.length) : (ofOccupied width others).row (σ point) =
    ((ofOccupied width occupied).row point).map (Option.map (renumber width occupied others σ)) := by
  rw [row_ofOccupied, row_ofOccupied, List.map_map]
  refine List.map_congr_left fun c member => ?_
  rw [Function.comp_apply]
  by_cases on : On occupied point
  · rw [if_pos on, if_pos ((carried.on_iff inside).mpr on), Option.map_some,
      renumber_count on (List.mem_range.mp member)]
  · rw [if_neg on, if_neg (mt (carried.on_iff inside).mp on), Option.map_none]

theorem Carried.count : others.count true = occupied.count true := by
  rw [← count_on, ← count_on, carried.length, Nat.count_eq_card_filter_range, Nat.count_eq_card_filter_range]
  refine (Finset.card_nbij σ (fun point member => ?_) (fun point first other second same => ?_) fun other member => ?_).symm
  · rw [Finset.mem_coe, Finset.mem_filter, Finset.mem_range] at member ⊢
    exact ⟨carried.within point member.1, (carried.on_iff member.1).mpr member.2⟩
  · rw [Finset.mem_coe, Finset.mem_filter, Finset.mem_range] at first second
    exact carried.apart point first.1 other second.1 same
  · rw [Finset.mem_coe, Finset.mem_filter, Finset.mem_range] at member
    obtain ⟨point, inside, same⟩ := Finset.surj_on_of_inj_on_of_card_le (s := Finset.range occupied.length)
      (t := Finset.range occupied.length) (fun point _ => σ point)
      (fun point inside => Finset.mem_range.mpr (carried.within point (Finset.mem_range.mp inside)))
      (fun point other first second => carried.apart point (Finset.mem_range.mp first) other (Finset.mem_range.mp second))
      le_rfl other (Finset.mem_range.mpr member.1)
    rw [Finset.mem_range] at inside
    refine ⟨point, ?_, same.symm⟩
    rw [Finset.mem_coe, Finset.mem_filter, Finset.mem_range]
    exact ⟨inside, (carried.on_iff inside).mp (same ▸ member.2)⟩

theorem Carried.renumber_lt (inside : i < (ofOccupied width occupied).count) :
    renumber width occupied others σ i < (ofOccupied width occupied).count := by
  obtain ⟨point, c, on, column, rfl⟩ := exists_on inside
  have bound := lt_of_on on
  have below : Nat.count (On others) (σ point) < occupied.count true := by
    rw [← carried.count, ← count_on, carried.length]
    exact Nat.count_strict_mono ((carried.on_iff bound).mpr on) (carried.within point bound)
  rw [renumber_count on column]
  calc Nat.count (On others) (σ point) * width + c < Nat.count (On others) (σ point) * width + width := by omega
    _ = (Nat.count (On others) (σ point) + 1) * width := by rw [Nat.succ_mul]
    _ ≤ occupied.count true * width := Nat.mul_le_mul_right width below

theorem Carried.renumber_inj (first : i < (ofOccupied width occupied).count) (second : j < (ofOccupied width occupied).count)
    (equal : renumber width occupied others σ i = renumber width occupied others σ j) : i = j := by
  obtain ⟨point, c, on, column, rfl⟩ := exists_on first
  obtain ⟨other, c', on', column', rfl⟩ := exists_on second
  rw [renumber_count on column, renumber_count on' column'] at equal
  have quotient := congrArg (· / width) equal
  have remainder := congrArg (· % width) equal
  rw [(div_mod_of_lt column).1, (div_mod_of_lt column').1] at quotient
  rw [(div_mod_of_lt column).2, (div_mod_of_lt column').2] at remainder
  have images := Nat.count_injective ((carried.on_iff (lt_of_on on)).mpr on) ((carried.on_iff (lt_of_on on')).mpr on')
    quotient
  rw [carried.apart point (lt_of_on on) other (lt_of_on on') images, remainder]

end DofMap

end Galerkin
