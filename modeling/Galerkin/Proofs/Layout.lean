import Mathlib
import Galerkin.Layout
import Galerkin.Proofs.Entries
import Galerkin.Proofs.Outcome

/-!
Layouts: fields of distinct names have one layout, in whatever order they come, and every component of a field has a
column among those of the layout.

The columns of a layout and the components of its fields correspond: by name of the field, and for one field in the
order of the indices read from left to right. Each field has the columns of its span and no others.
-/

namespace Galerkin

namespace Layout

/-! ### Fields -/

theorem byName_iff {a b : Field} : byName a b = true ↔ a.name ≤ b.name := by
  rw [byName, Bool.not_eq_true', decide_eq_false_iff_not, not_lt]

theorem sorted_byName (fields : List Field) : (fields.mergeSort byName).Pairwise fun a b => byName a b = true := by
  refine List.pairwise_mergeSort (fun a b c first second => ?_) (fun a b => ?_) fields
  · exact byName_iff.mpr ((byName_iff.mp first).trans (byName_iff.mp second))
  · rw [Bool.or_eq_true, byName_iff, byName_iff]
    exact le_total _ _

/-- A layout has the fields that it is made of. -/
theorem ofFields_eq_ok {fields : List Field} {dim : Nat} {l : Layout} (done : ofFields fields dim = .ok l) :
    l.dim = dim ∧ l.fields.Perm fields := by
  unfold ofFields at done
  dsimp only at done
  split at done
  · cases done
    exact ⟨rfl, List.mergeSort_perm _ _⟩
  · cases done

/-- Fields of distinct names have one layout, in whatever order they come. -/
theorem ofFields_perm {fields others : List Field} (same : others.Perm fields) (distinct : (fields.map (·.name)).Nodup)
    (dim : Nat) : ofFields others dim = ofFields fields dim := by
  have sorted : others.mergeSort byName = fields.mergeSort byName := by
    refine List.Perm.eq_of_pairwise ?_ (sorted_byName others) (sorted_byName fields)
      ((List.mergeSort_perm _ _).trans (same.trans (List.mergeSort_perm _ _).symm))
    intro a b left right before after
    have names := le_antisymm (byName_iff.mp before) (byName_iff.mp after)
    refine List.inj_on_of_nodup_map distinct ?_ ?_ names
    · exact same.mem_iff.mp ((List.mergeSort_perm _ _).mem_iff.mp left)
    · exact (List.mergeSort_perm _ _).mem_iff.mp right
  rw [ofFields, ofFields, sorted]

theorem length_eraseDups_le (names : List String) : names.eraseDups.length ≤ names.length := by
  induction h : names.length using Nat.strong_induction_on generalizing names with
  | _ n ih =>
      subst h
      cases names with
      | nil => exact le_rfl
      | cons name rest =>
          have fewer : (rest.filter (!· == name)).length ≤ rest.length := List.length_filter_le _ _
          rw [List.eraseDups_cons, List.length_cons, List.length_cons]
          have shorter := ih _ (Nat.lt_succ_of_le fewer) _ rfl
          omega

/-- Names are distinct when dropping repetitions drops none. -/
theorem nodup_of_length_eraseDups {names : List String} (same : names.eraseDups.length = names.length) : names.Nodup := by
  induction names with
  | nil => exact List.nodup_nil
  | cons name rest ih =>
      rw [List.eraseDups_cons, List.length_cons, List.length_cons, Nat.add_right_cancel_iff] at same
      have shorter := length_eraseDups_le (rest.filter (!· == name))
      have all : rest.filter (!· == name) = rest := List.filter_sublist.eq_of_length_le (same ▸ shorter)
      rw [all] at same
      refine List.nodup_cons.mpr ⟨fun member => ?_, ih same⟩
      simpa using List.filter_eq_self.mp all name member

theorem eraseDups_of_nodup {names : List String} (distinct : names.Nodup) : names.eraseDups = names := by
  induction names with
  | nil => rfl
  | cons name rest ih =>
      rw [List.nodup_cons] at distinct
      have kept : rest.filter (!· == name) = rest :=
        List.filter_eq_self.mpr fun other member => by simpa using fun same : other = name => distinct.1 (same ▸ member)
      rw [List.eraseDups_cons, kept, ih distinct.2]

theorem ofFields_isOk {fields : List Field} (distinct : (fields.map (·.name)).Nodup) (dim : Nat) :
    ∃ l, ofFields fields dim = .ok l := by
  have sorted : ((fields.mergeSort byName).map (·.name)).Nodup :=
    ((List.mergeSort_perm fields byName).map _).nodup_iff.mpr distinct
  unfold ofFields
  dsimp only
  rw [eraseDups_of_nodup sorted, if_pos rfl]
  exact ⟨_, rfl⟩

theorem names_nodup_ofFields {fields : List Field} {dim : Nat} {l : Layout} (made : ofFields fields dim = .ok l) :
    l.names.Nodup := by
  unfold ofFields at made
  dsimp only at made
  split at made
  · next same =>
      cases made
      exact nodup_of_length_eraseDups same
  · cases made

/-! ### Spans -/

/-- The columns of a layout, field by field, are all columns in order. -/
theorem columns_spansFrom (dim start : Nat) (fields : List Field) :
    (spansFrom dim start fields).flatMap (fun s => (List.range s.2.2).map (s.2.1 + ·)) =
      List.range' start (totalSize (fields.map (·.components dim))) := by
  induction fields generalizing start with
  | nil => rfl
  | cons f rest ih =>
      rw [spansFrom, List.flatMap_cons, ih, List.map_cons, totalSize_cons, ← List.range'_eq_map_range, List.range'_append_1]

theorem keys_spansFrom (dim start : Nat) (fields : List Field) :
    (spansFrom dim start fields).map (·.1) = fields.map (·.name) := by
  induction fields generalizing start with
  | nil => rfl
  | cons f rest ih => rw [spansFrom, List.map_cons, ih, List.map_cons]

/-- A field's span is found under its name. -/
theorem spans_matched (dim start : Nat) {fields : List Field} (distinct : (fields.map (·.name)).Nodup) :
    List.Forall₂ (fun f s => (spansFrom dim start fields).lookup f.name = some s.2 ∧ s.2.2 = f.components dim) fields
      (spansFrom dim start fields) := by
  induction fields generalizing start with
  | nil => exact .nil
  | cons f rest ih =>
      rw [List.map_cons, List.nodup_cons] at distinct
      refine .cons ⟨by simp [spansFrom], rfl⟩ ?_
      have later := (List.forall₂_and_left _ _).mpr ⟨fun _ member => member, ih (start + f.components dim) distinct.2⟩
      refine later.imp fun g s own => ⟨?_, own.2.2⟩
      have apart : (g.name == f.name) = false :=
        beq_false_of_ne fun same => distinct.1 (same ▸ List.mem_map_of_mem own.1)
      rw [spansFrom, List.lookup_cons, apart]
      exact own.2.1

theorem flat_of_contains {l : Layout} {name : String} (present : l.contains name = true) (comps : List Nat) :
    ∃ column, l.flat name comps = .ok column := by
  have keyed : name ∈ l.spans.map (·.1) := by
    rw [spans, keys_spansFrom]
    exact List.contains_iff_mem.mp present
  have found : (l.spans.lookup name).isSome := by
    obtain ⟨s, member, rfl⟩ := List.mem_map.mp keyed
    exact List.lookup_isSome_iff.mpr ⟨s, member, beq_self_eq_true _⟩
  obtain ⟨s, here⟩ := Option.isSome_iff_exists.mp found
  refine ⟨s.1 + rowMajor l.dim comps, Outcome.bind_eq_ok.mpr ⟨s, ?_, rfl⟩⟩
  rw [span, span?, here]
  rfl

/-! ### Columns -/

theorem rowMajor_append (dim : Nat) (comps : List Nat) (c : Nat) :
    rowMajor dim (comps ++ [c]) = rowMajor dim comps * dim + c := by
  rw [rowMajor, List.foldl_append]
  rfl

theorem rowMajor_lt {dim : Nat} {comps : List Nat} (bounded : ∀ c ∈ comps, c < dim) :
    rowMajor dim comps < dim ^ comps.length := by
  induction comps using List.reverseRecOn with
  | nil => exact Nat.one_pos
  | append_singleton comps c ih =>
      have before := ih fun d member => bounded d (List.mem_append_left _ member)
      have last : c < dim := bounded c (List.mem_append_right _ (List.mem_singleton_self c))
      rw [rowMajor_append, List.length_append, List.length_singleton, pow_succ]
      calc rowMajor dim comps * dim + c < rowMajor dim comps * dim + dim := by omega
        _ = (rowMajor dim comps + 1) * dim := by ring
        _ ≤ dim ^ comps.length * dim := Nat.mul_le_mul_right dim before

theorem lookup_spansFrom (dim start : Nat) {fields : List Field} (distinct : (fields.map (·.name)).Nodup)
    {f : Field} (present : f ∈ fields) :
    ∃ first, (spansFrom dim start fields).lookup f.name = some (first, f.components dim) ∧
      first + f.components dim ≤ start + totalSize (fields.map (·.components dim)) := by
  induction fields generalizing start with
  | nil => cases present
  | cons head tail ih =>
      rw [List.map_cons, List.nodup_cons] at distinct
      rw [spansFrom, List.lookup_cons, List.map_cons, totalSize_cons]
      rcases List.mem_cons.mp present with rfl | later
      · exact ⟨start, by simp, by omega⟩
      · have apart : (f.name == head.name) = false := by
          refine beq_false_of_ne fun same => distinct.1 ?_
          rw [← same]
          exact List.mem_map_of_mem later
        rcases ih (start + head.components dim) distinct.2 later with ⟨first, found, bound⟩
        exact ⟨first, by simp [apart, found], by omega⟩

/-- The column of a component, zero where there is none. -/
def columnOf (l : Layout) (name : String) (comps : List Nat) : Nat :=
  (l.flat name comps).toOption.getD 0

theorem columnOf_of_flat {l : Layout} {name : String} {comps : List Nat} {column : Nat}
    (found : l.flat name comps = .ok column) : l.columnOf name comps = column := by
  rw [columnOf, found]
  rfl

theorem columnOf_lt_width {l : Layout} (distinct : l.names.Nodup) {f : Field} (present : f ∈ l.fields)
    {comps : List Nat} (rank : comps.length = f.rank) (bounded : ∀ c ∈ comps, c < l.dim) :
    l.columnOf f.name comps < l.width := by
  rcases lookup_spansFrom l.dim 0 distinct present with ⟨first, found, bound⟩
  have place : l.flat f.name comps = .ok (first + rowMajor l.dim comps) := by
    refine Outcome.bind_eq_ok.mpr ⟨(first, f.components l.dim), ?_, rfl⟩
    rw [span, span?, spans, found]
    rfl
  have inside := rowMajor_lt bounded
  rw [rank] at inside
  have size : f.components l.dim = l.dim ^ f.rank := rfl
  rw [columnOf_of_flat place, width]
  omega

end Layout

/-! ### Components -/

/-- Are these the indices of a component of a field: as many as its rank, each below the dimension? -/
def Field.HasComponent (f : Field) (dim : Nat) (comps : List Nat) : Prop :=
  comps.length = f.rank ∧ ∀ c ∈ comps, c < dim

namespace Layout

variable {dim : Nat}

theorem rowMajor_cons (dim c : Nat) (comps : List Nat) :
    rowMajor dim (c :: comps) = c * dim ^ comps.length + rowMajor dim comps := by
  induction comps using List.reverseRecOn with
  | nil => simp [rowMajor]
  | append_singleton comps d ih =>
      rw [← List.cons_append, rowMajor_append, ih, rowMajor_append, List.length_append, List.length_singleton, pow_succ]
      ring

/-- Positions are ordered as the indices are. -/
theorem rowMajor_lt_iff {left right : List Nat} (same : left.length = right.length) (boundedLeft : ∀ c ∈ left, c < dim)
    (boundedRight : ∀ c ∈ right, c < dim) : rowMajor dim left < rowMajor dim right ↔ left < right := by
  induction left generalizing right with
  | nil =>
      cases right with
      | nil => exact iff_of_false (lt_irrefl _) (lt_irrefl _)
      | cons d right => cases same
  | cons c left ih =>
      cases right with
      | nil => cases same
      | cons d right =>
          rw [List.forall_mem_cons] at boundedLeft boundedRight
          rw [List.length_cons, List.length_cons, Nat.add_right_cancel_iff] at same
          have rest := ih same boundedLeft.2 boundedRight.2
          have leftBelow := rowMajor_lt boundedLeft.2
          have rightBelow := rowMajor_lt boundedRight.2
          rw [← same] at rightBelow
          rw [rowMajor_cons, rowMajor_cons, ← same, List.cons_lt_cons_iff, ← rest]
          rcases lt_trichotomy c d with less | rfl | more
          · have room := Nat.mul_le_mul_right (dim ^ left.length) (Nat.succ_le_of_lt less)
            rw [Nat.succ_mul] at room
            omega
          · omega
          · have room := Nat.mul_le_mul_right (dim ^ left.length) (Nat.succ_le_of_lt more)
            rw [Nat.succ_mul] at room
            omega

theorem exists_rowMajor_eq {rank k : Nat} (inside : k < dim ^ rank) :
    ∃ comps : List Nat, comps.length = rank ∧ (∀ c ∈ comps, c < dim) ∧ rowMajor dim comps = k := by
  induction rank generalizing k with
  | zero =>
      refine ⟨[], rfl, fun c impossible => absurd impossible List.not_mem_nil, ?_⟩
      rw [pow_zero, Nat.lt_one_iff] at inside
      rw [inside]
      rfl
  | succ rank ih =>
      have positive : 0 < dim ^ rank := by
        refine Nat.pos_of_ne_zero fun none => ?_
        rw [pow_succ, none, Nat.zero_mul] at inside
        exact Nat.not_lt_zero _ inside
      obtain ⟨comps, length, bounded, position⟩ := ih (Nat.mod_lt k positive)
      refine ⟨k / dim ^ rank :: comps, congrArg (· + 1) length, List.forall_mem_cons.mpr ⟨?_, bounded⟩, ?_⟩
      · rw [Nat.div_lt_iff_lt_mul positive, Nat.mul_comm]
        exact inside
      · rw [rowMajor_cons, length, position, Nat.mul_comm]
        exact Nat.div_add_mod k (dim ^ rank)

theorem rowMajor_lt_components {f : Field} {comps : List Nat} (component : f.HasComponent dim comps) :
    rowMajor dim comps < f.components dim := by
  have below := rowMajor_lt component.2
  rw [component.1] at below
  exact below

theorem exists_component {f : Field} {k : Nat} (inside : k < f.components dim) :
    ∃ comps, f.HasComponent dim comps ∧ rowMajor dim comps = k := by
  have inside : k < dim ^ f.rank := inside
  obtain ⟨comps, rank, bounded, position⟩ := exists_rowMajor_eq inside
  exact ⟨comps, ⟨rank, bounded⟩, position⟩

/-! ### Spans of several fields -/

theorem start_le_of_mem_spansFrom {start : Nat} {fields : List Field} {s : String × Nat × Nat}
    (member : s ∈ spansFrom dim start fields) : start ≤ s.2.1 := by
  induction fields generalizing start with
  | nil => cases member
  | cons f rest ih =>
      rcases List.mem_cons.mp member with rfl | later
      · exact le_rfl
      · exact (Nat.le_add_right ..).trans (ih later)

theorem end_le_of_mem_spansFrom {start : Nat} {fields : List Field} {s : String × Nat × Nat}
    (member : s ∈ spansFrom dim start fields) : s.2.1 + s.2.2 ≤ start + totalSize (fields.map (·.components dim)) := by
  induction fields generalizing start with
  | nil => cases member
  | cons f rest ih =>
      rw [List.map_cons, totalSize_cons]
      rcases List.mem_cons.mp member with rfl | later
      · dsimp only
        omega
      · have below := ih later
        omega

/-- One span ends where a later one starts, or before. -/
theorem spansFrom_pairwise (dim start : Nat) (fields : List Field) :
    (spansFrom dim start fields).Pairwise fun s t => s.2.1 + s.2.2 ≤ t.2.1 := by
  induction fields generalizing start with
  | nil => exact .nil
  | cons f rest ih => exact .cons (fun t later => start_le_of_mem_spansFrom later) (ih _)

/-- Are the fields in order of their names, which are distinct? -/
def Sorted (l : Layout) : Prop := l.names.Pairwise (· < ·)

variable {l : Layout}

theorem Sorted.nodup (sorted : l.Sorted) : l.names.Nodup := sorted.imp fun less => less.ne

theorem sorted_ofFields {fields : List Field} (made : ofFields fields dim = .ok l) : l.Sorted := by
  have distinct := names_nodup_ofFields made
  unfold ofFields at made
  dsimp only at made
  split at made
  · cases made
    have weak : (fields.mergeSort byName).Pairwise fun f g => f.name ≤ g.name :=
      (sorted_byName fields).imp fun before => byName_iff.mp before
    exact (List.pairwise_map.mpr weak).imp₂ (fun _ _ before apart => lt_of_le_of_ne before apart) distinct
  · cases made

/-- Spans are ordered as the names of the fields are. -/
theorem Sorted.span_le (sorted : l.Sorted) {s t : String × Nat × Nat} (first : s ∈ l.spans) (second : t ∈ l.spans)
    (less : s.1 < t.1) : s.2.1 + s.2.2 ≤ t.2.1 := by
  have named : l.spans.Pairwise fun s t => s.1 < t.1 := by
    rw [← List.pairwise_map (f := Prod.fst) (R := (· < ·)), spans, keys_spansFrom]
    exact sorted
  have both := named.and (spansFrom_pairwise l.dim 0 l.fields)
  obtain ⟨i, iBound, rfl⟩ := List.getElem_of_mem first
  obtain ⟨j, jBound, rfl⟩ := List.getElem_of_mem second
  rcases lt_trichotomy i j with before | rfl | after
  · exact (List.pairwise_iff_getElem.mp both i j iBound jBound before).2
  · exact absurd less (lt_irrefl _)
  · exact absurd (List.pairwise_iff_getElem.mp both j i jBound iBound after).1 less.asymm

/-! ### All components -/

/-- Components of all fields: the name of the field and the indices. -/
def components (l : Layout) : Set (String × List Nat) := {p | ∃ f ∈ l.fields, f.name = p.1 ∧ f.HasComponent l.dim p.2}

/-- What a layout does: its columns are those of the components of its fields, one for each and in their order. -/
structure Tiles (l : Layout) : Prop where
  flat : ∀ p ∈ l.components, l.flat p.1 p.2 = .ok (l.columnOf p.1 p.2)
  bijective : Set.BijOn (fun p => l.columnOf p.1 p.2) l.components (Set.Iio l.width)
  increasing : ∀ p ∈ l.components, ∀ q ∈ l.components,
    l.columnOf p.1 p.2 < l.columnOf q.1 q.2 ↔ p.1 < q.1 ∨ p.1 = q.1 ∧ p.2 < q.2
  slice : ∀ f ∈ l.fields, ∃ start size, l.span f.name = .ok (start, size) ∧
    l.columnOf f.name '' {comps | f.HasComponent l.dim comps} = Set.Ico start (start + size)

theorem span_le_width {name : String} {start size : Nat} (found : l.span? name = some (start, size)) :
    start + size ≤ l.width := by
  have below := end_le_of_mem_spansFrom (mem_of_lookup found)
  rw [Nat.zero_add] at below
  exact below

theorem exists_span (distinct : l.names.Nodup) {f : Field} (present : f ∈ l.fields) :
    ∃ start, (f.name, start, f.components l.dim) ∈ l.spans ∧ l.span f.name = .ok (start, f.components l.dim) := by
  obtain ⟨start, found, -⟩ := lookup_spansFrom l.dim 0 distinct present
  refine ⟨start, mem_of_lookup found, ?_⟩
  rw [span, span?, spans, found]
  rfl

theorem flat_of_span {name : String} {s : Nat × Nat} (found : l.span name = .ok s) (comps : List Nat) :
    l.flat name comps = .ok (s.1 + rowMajor l.dim comps) :=
  Outcome.bind_eq_ok.mpr ⟨s, found, rfl⟩

theorem Sorted.columnOf_lt_iff (sorted : l.Sorted) {p q : String × List Nat} (left : p ∈ l.components)
    (right : q ∈ l.components) : l.columnOf p.1 p.2 < l.columnOf q.1 q.2 ↔ p.1 < q.1 ∨ p.1 = q.1 ∧ p.2 < q.2 := by
  obtain ⟨name, comps⟩ := p
  obtain ⟨name', comps'⟩ := q
  obtain ⟨f, inside, rfl, component⟩ := left
  obtain ⟨g, inside', rfl, component'⟩ := right
  obtain ⟨start, listed, found⟩ := exists_span sorted.nodup inside
  obtain ⟨start', listed', found'⟩ := exists_span sorted.nodup inside'
  have below := rowMajor_lt_components component
  have below' := rowMajor_lt_components component'
  dsimp only at below below' ⊢
  rw [columnOf_of_flat (flat_of_span found comps), columnOf_of_flat (flat_of_span found' comps')]
  rcases lt_trichotomy f.name g.name with less | same | more
  · have apart := sorted.span_le listed listed' less
    exact iff_of_true (by dsimp only at apart ⊢; omega) (Or.inl less)
  · obtain rfl : f = g := List.inj_on_of_nodup_map sorted.nodup inside inside' same
    obtain ⟨rfl, -⟩ := Prod.mk.inj (Except.ok.inj (found.symm.trans found'))
    rw [Nat.add_lt_add_iff_left, rowMajor_lt_iff (component.1.trans component'.1.symm) component.2 component'.2]
    exact ⟨fun less => Or.inr ⟨rfl, less⟩, fun either => either.elim (fun less => absurd less (lt_irrefl _)) And.right⟩
  · have apart := sorted.span_le listed' listed more
    refine iff_of_false (by dsimp only at apart ⊢; omega) ?_
    rintro (less | ⟨same, -⟩)
    · exact less.asymm more
    · exact more.ne' same

theorem Sorted.tiles (sorted : l.Sorted) : l.Tiles where
  flat := by
    rintro ⟨name, comps⟩ ⟨f, inside, rfl, -, -⟩
    obtain ⟨start, -, found⟩ := exists_span sorted.nodup inside
    rw [columnOf_of_flat (flat_of_span found comps), flat_of_span found comps]
  increasing := fun p left q right => sorted.columnOf_lt_iff left right
  slice := by
    intro f inside
    obtain ⟨start, -, found⟩ := exists_span sorted.nodup inside
    refine ⟨start, f.components l.dim, found, Set.Subset.antisymm ?_ ?_⟩
    · rintro _ ⟨comps, component, rfl⟩
      rw [columnOf_of_flat (flat_of_span found comps)]
      exact ⟨Nat.le_add_right .., Nat.add_lt_add_left (rowMajor_lt_components component) start⟩
    · rintro column ⟨above, below⟩
      obtain ⟨comps, component, position⟩ := exists_component (Nat.sub_lt_left_of_lt_add above below)
      refine ⟨comps, component, ?_⟩
      rw [columnOf_of_flat (flat_of_span found comps), position]
      exact Nat.add_sub_cancel' above
  bijective := by
    refine ⟨?_, ?_, ?_⟩
    · rintro ⟨name, comps⟩ ⟨f, inside, rfl, rank, bounded⟩
      exact columnOf_lt_width sorted.nodup inside rank bounded
    · intro p left q right same
      have before := (sorted.columnOf_lt_iff left right).not.mp same.not_lt
      have after := (sorted.columnOf_lt_iff right left).not.mp same.not_gt
      push Not at before after
      have names := le_antisymm after.1 before.1
      exact Prod.ext names (le_antisymm (after.2 names.symm) (before.2 names))
    · intro column inside
      have listed : column ∈ l.spans.flatMap fun s => (List.range s.2.2).map (s.2.1 + ·) := by
        rw [spans, columns_spansFrom, List.mem_range'_1, Nat.zero_add]
        exact ⟨Nat.zero_le _, inside⟩
      obtain ⟨s, own, place⟩ := List.mem_flatMap.mp listed
      obtain ⟨k, below, rfl⟩ := List.mem_map.mp place
      obtain ⟨f, present, found, size⟩ := Outcome.exists_of_matched (spans_matched l.dim 0 sorted.nodup) own
      rw [List.mem_range, size] at below
      obtain ⟨comps, component, rfl⟩ := exists_component below
      have span : l.span f.name = .ok s.2 := by
        rw [Layout.span, span?, spans, found]
        rfl
      exact ⟨(f.name, comps), ⟨f, present, rfl, component⟩, columnOf_of_flat (flat_of_span span comps)⟩

end Layout

end Galerkin
