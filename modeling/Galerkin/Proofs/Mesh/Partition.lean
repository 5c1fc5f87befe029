import Mathlib
import Galerkin.Proofs.Mesh.Facets

/-!
The facets of a mesh partition the sides of its elements: a facet is a set of sides with the same corners, and it is
numbered by the first of them. A mesh can be made exactly if no three sides have the same corners, and which sides
share a facet does not depend on the order of the elements or of their corners.
-/

namespace Galerkin

namespace Mesh

section Sides

variable (cell : Cell) (elements : List (List Nat))

/-- The sides of the elements in order: an element with the number of one of its facets. -/
def sides : List (Nat × Nat) := List.range elements.length ×ˢ List.range cell.facets.length

/-- The corners of a side as its element has them. -/
def sideCorners (s : Nat × Nat) : List Nat :=
  (cell.facets.getD s.2 []).map fun c => (elements.getD s.1 []).getD c 0

def sideKey (s : Nat × Nat) : List Nat := key (sideCorners cell elements s)

def sideKeys : List (List Nat) := (sides cell elements).map (sideKey cell elements)

variable {cell elements}

theorem mem_sides {s : Nat × Nat} : s ∈ sides cell elements ↔ s.1 < elements.length ∧ s.2 < cell.facets.length := by
  rw [sides, ← Prod.mk.eta (p := s), List.mem_product, List.mem_range, List.mem_range]

theorem nodup_sides : (sides cell elements).Nodup := List.nodup_range.product List.nodup_range

theorem zipIdx_eq_map_range {β : Type} (default : β) (xs : List β) :
    xs.zipIdx = (List.range xs.length).map fun i => (xs.getD i default, i) := by
  apply List.ext_getElem
  · simp
  · intro i inside _
    rw [List.length_zipIdx] at inside
    simp [inside]

theorem facetUses_eq : facetUses cell elements = (sides cell elements).map fun s => (sideCorners cell elements s, s) := by
  have product : sides cell elements =
      (List.range elements.length).flatMap fun e => (List.range cell.facets.length).map (Prod.mk e) := rfl
  rw [product, facetUses, zipIdx_eq_map_range [] elements, List.flatMap_map, List.map_flatMap]
  apply List.flatMap_congr
  intro e _
  dsimp only
  rw [zipIdx_eq_map_range [] cell.facets, List.map_map, List.map_map]
  rfl

theorem ownersAt_facetUses (k : List Nat) :
    ownersAt (facetUses cell elements) k = (sides cell elements).filter fun s => sideKey cell elements s = k := by
  rw [ownersAt, facetUses_eq, List.filter_map, List.map_map]
  exact List.map_id _

end Sides

section Table

variable {uses : List (List Nat × (Nat × Nat))} {corners : List Nat} {owner : Nat × Nat} {table : FacetTable}

/-- The table that some uses make. -/
def tableOf (uses : List (List Nat × (Nat × Nat))) : FacetTable :=
  uses.foldl (fun table use => addOwner use.1 use.2 table) []

theorem tableOf_append_singleton (uses : List (List Nat × (Nat × Nat))) (use : List Nat × (Nat × Nat)) :
    tableOf (uses ++ [use]) = addOwner use.1 use.2 (tableOf uses) := by
  rw [tableOf, List.foldl_append]
  rfl

/-- Facets come in the order of their first use. -/
theorem keys_tableOf (uses : List (List Nat × (Nat × Nat))) :
    (tableOf uses).map (·.1) = (uses.map fun use => key use.1).eraseDups := by
  induction uses using List.reverseRecOn with
  | nil => rfl
  | append_singleton uses use ih =>
      rw [tableOf_append_singleton, keys_addOwner, ih, List.map_append, List.eraseDups_append]
      split
      · next known =>
          rw [List.mem_eraseDups] at known
          simp [List.removeAll, known]
      · next absent =>
          rw [List.mem_eraseDups] at absent
          simp [List.removeAll, absent, List.eraseDups_cons]

/-- One more owner leaves the corners of the facets that are there. -/
theorem corners_addOwner {entry : List Nat × Facet} (member : entry ∈ addOwner corners owner table) :
    (∃ old ∈ table, old.1 = entry.1 ∧ old.2.corners = entry.2.corners) ∨
      key corners ∉ table.map (·.1) ∧ entry = (key corners, ⟨corners, [owner]⟩) := by
  induction table with
  | nil => exact .inr ⟨List.not_mem_nil, List.mem_singleton.mp member⟩
  | cons head rest ih =>
      rw [addOwner] at member
      split at member
      · next same =>
          rcases List.mem_cons.mp member with here | there
          · exact .inl ⟨head, List.mem_cons_self, by rw [here], by rw [here]⟩
          · exact .inl ⟨entry, List.mem_cons_of_mem _ there, rfl, rfl⟩
      · next apart =>
          rcases List.mem_cons.mp member with here | there
          · exact .inl ⟨head, List.mem_cons_self, by rw [here], by rw [here]⟩
          · rcases ih there with ⟨old, among, kept⟩ | ⟨absent, new⟩
            · exact .inl ⟨old, List.mem_cons_of_mem _ among, kept⟩
            · refine .inr ⟨?_, new⟩
              rw [List.map_cons, List.mem_cons, not_or]
              exact ⟨Ne.symm apart, absent⟩

/-- A facet has the corners of the first use with its key. -/
theorem first_tableOf (uses : List (List Nat × (Nat × Nat))) : ∀ entry ∈ tableOf uses,
    ((uses.filter fun use => key use.1 = entry.1).map (·.1)).head? = some entry.2.corners := by
  induction uses using List.reverseRecOn with
  | nil =>
      intro entry member
      cases member
  | append_singleton uses use ih =>
      intro entry member
      rw [tableOf_append_singleton] at member
      rw [List.filter_append, List.map_append, List.head?_append]
      rcases corners_addOwner member with ⟨old, among, same, kept⟩ | ⟨absent, new⟩
      · rw [← same, ih old among, ← kept]
        rfl
      · have none : (uses.filter fun use => key use.1 = entry.1) = [] := by
          rw [List.filter_eq_nil_iff]
          intro other listed same
          have equal : key other.1 = key use.1 := (of_decide_eq_true same).trans (by rw [new])
          exact absent (equal ▸ (tabled_foldl uses).listed other listed)
        rw [none, new]
        simp

end Table

theorem nodup_eraseDups (ks : List (List Nat)) : ks.eraseDups.Nodup := by
  induction ks using List.reverseRecOn with
  | nil => exact List.nodup_nil
  | append_singleton ks k ih =>
      rw [List.eraseDups_append]
      by_cases known : k ∈ ks
      · simpa [List.removeAll, known] using ih
      · have apart : ∀ k' ∈ ks.eraseDups, k' ≠ k := by
          intro k' among same
          exact known (List.mem_eraseDups.mp (same ▸ among))
        simpa [List.removeAll, known, List.eraseDups_cons, List.nodup_append, ih] using apart

section Made

variable {α : Type}

theorem vertexNumber_eq_ok_iff {count : Nat} (i : Int) (n : Nat) :
    vertexNumber count i = .ok n ↔ (0 ≤ i ∧ i < count) ∧ n = i.toNat := by
  unfold vertexNumber
  split
  · next inside =>
      rw [Outcome.pure_eq_ok]
      simp [inside, eq_comm]
  · next outside => simp [outside]

/-- What is checked of the vertices and the connectivity of a mesh before its facets are entered. -/
structure Accepted (cell : Cell) (vertexDim count : Nat) (c : Connectivity) : Prop where
  shape : ∃ n, c.shape = [n, cell.cornerCount]
  dim : vertexDim = cell.dim
  vertices : ∀ row ∈ c.rows, ∀ i ∈ row, 0 ≤ i ∧ i < count

/-- The elements of a mesh by its connectivity. -/
def elementsOf (c : Connectivity) : List (List Nat) := c.rows.map fun row => row.map Int.toNat

variable {cell : Cell} {vertexDim : Nat} {vertices : List (List α)} {c : Connectivity} {m : Mesh α}

theorem make_eq_ok : make cell vertexDim vertices c = .ok m ↔ Accepted cell vertexDim vertices.length c ∧
    (∀ entry ∈ facetTable cell (elementsOf c), entry.2.owners.length ≤ 2) ∧
    m = ⟨cell, vertices.toArray, (elementsOf c).toArray, ((facetTable cell (elementsOf c)).map (·.2)).toArray⟩ := by
  have numbered (row : List Int) (corners : List Nat) : row.mapM (vertexNumber vertices.length) = .ok corners ↔
      (∀ i ∈ row, 0 ≤ i ∧ i < vertices.length) ∧ corners = row.map Int.toNat :=
    Outcome.mapM_checked fun i n => vertexNumber_eq_ok_iff i n
  unfold make
  constructor
  · intro made
    dsimp only at made
    split at made
    · next n corners shape =>
        by_cases fits : corners = cell.cornerCount
        swap
        · rw [if_pos fits] at made
          cases made
        rw [if_neg (not_not.mpr fits)] at made
        split at made
        · cases made
        next same =>
        obtain ⟨elements, accepted, made⟩ := Outcome.bind_eq_ok.mp made
        obtain ⟨inside, rfl⟩ := (Outcome.mapM_checked numbered).mp accepted
        split at made
        · cases made
        next none =>
        cases made
        refine ⟨⟨⟨n, fits ▸ shape⟩, not_not.mp same, inside⟩, fun entry member => ?_, rfl⟩
        have few := List.find?_eq_none.mp none entry member
        simpa using few
    · cases made
  · rintro ⟨⟨⟨n, shape⟩, same, inside⟩, few, rfl⟩
    have accepted := (Outcome.mapM_checked numbered).mpr ⟨inside, rfl⟩
    have none : (facetTable cell (elementsOf c)).find? (fun entry => 2 < entry.2.owners.length) = none := by
      rw [List.find?_eq_none]
      intro entry member
      simpa using few entry member
    simp only [shape, ne_eq, not_true_eq_false, if_false, same]
    rw [accepted]
    dsimp only [bind, Except.bind]
    rw [show c.rows.map (fun row => row.map Int.toNat) = elementsOf c from rfl, none]
    rfl

end Made

section Partition

variable {α : Type}

abbrev sidesOf (m : Mesh α) : List (Nat × Nat) := sides m.cell m.elements.toList

abbrev keyOf (m : Mesh α) : Nat × Nat → List Nat := sideKey m.cell m.elements.toList

/-- Do two sides belong to one facet? -/
def Shares (m : Mesh α) (s t : Nat × Nat) : Prop := ∃ f : Facet, f ∈ m.facets ∧ s ∈ f.owners ∧ t ∈ f.owners

/-- The facets of a mesh are the classes of sides with the same corners, one or two of them, numbered in the order in which
they first appear. -/
structure Partitioned (m : Mesh α) : Prop where
  keys : m.facets.toList.map (fun f => key f.corners) = (m.sidesOf.map m.keyOf).eraseDups
  owners : ∀ f ∈ m.facets, f.owners = m.sidesOf.filter fun s => m.keyOf s = key f.corners
  few : ∀ f ∈ m.facets, f.owners.length = 1 ∨ f.owners.length = 2
  corners : ∀ f ∈ m.facets, f.owners.head?.map (sideCorners m.cell m.elements.toList) = some f.corners
  owned : ∀ s ∈ m.sidesOf, ∃! i : Nat, ∃ f, m.facets[i]? = some f ∧ s ∈ f.owners
  shared : ∀ s ∈ m.sidesOf, ∀ t ∈ m.sidesOf, m.Shares s t ↔ m.keyOf s = m.keyOf t
  named : ∀ (i : Nat) f, m.facets[i]? = some f → ∀ corners : List Int, corners.Perm (f.corners.map Int.ofNat) →
    m.facetId corners = .ok i
  increasing : m.boundaryFacets.Pairwise (· < ·)
  boundary : ∀ i : Nat, i ∈ m.boundaryFacets ↔ ∃ f, m.facets[i]? = some f ∧ f.owners.length = 1

variable {m : Mesh α}

theorem isBoundary_iff (f : Facet) : f.isBoundary ↔ f.owners.length = 1 := decide_eq_true_iff

theorem mem_boundaryFacets (m : Mesh α) (i : Nat) :
    i ∈ m.boundaryFacets ↔ ∃ f, m.facets[i]? = some f ∧ f.owners.length = 1 := by
  simp only [boundaryFacets, List.mem_map, List.mem_filter, isBoundary_iff, Prod.exists, List.mem_zipIdx_iff_getElem?,
    Array.getElem?_toList]
  constructor
  · rintro ⟨f, _, ⟨here, one⟩, rfl⟩
    exact ⟨f, here, one⟩
  · rintro ⟨f, here, one⟩
    exact ⟨f, i, ⟨here, one⟩, rfl⟩

theorem increasing_boundaryFacets (m : Mesh α) : m.boundaryFacets.Pairwise (· < ·) := by
  have places : (m.facets.toList.zipIdx.map (·.2)).Pairwise (· < ·) := by
    rw [List.zipIdx_map_snd]
    exact List.pairwise_lt_range'
  exact places.sublist (List.filter_sublist.map _)

/-- Sorting corner numbers as integers is sorting them. -/
theorem map_key (corners : List Nat) : (key corners).map Int.ofNat = (corners.map Int.ofNat).mergeSort (· ≤ ·) := by
  apply List.Perm.eq_of_pairwise' (r := (· ≤ ·))
  · rw [List.pairwise_map]
    exact (List.pairwise_mergeSort' (· ≤ ·) corners).imp fun before => Int.ofNat_le.mpr before
  · exact List.pairwise_mergeSort' (· ≤ ·) _
  · exact ((List.mergeSort_perm _ _).map _).trans (List.mergeSort_perm _ _).symm

/-- A facet is found by its corners in any order, if no other facet has them. -/
theorem facetId_eq_ok (distinct : (m.facets.toList.map fun f => key f.corners).Nodup) {i : Nat} {f : Facet}
    (here : m.facets[i]? = some f) {corners : List Int} (same : corners.Perm (f.corners.map Int.ofNat)) :
    m.facetId corners = .ok i := by
  have wanted : corners.mergeSort (· ≤ ·) = (key f.corners).map Int.ofNat := by
    rw [map_key]
    apply List.Perm.eq_of_pairwise' (r := (· ≤ ·))
    · exact List.pairwise_mergeSort' (· ≤ ·) _
    · exact List.pairwise_mergeSort' (· ≤ ·) _
    · exact ((List.mergeSort_perm _ _).trans same).trans (List.mergeSort_perm _ _).symm
  obtain ⟨inside, here⟩ := Array.getElem?_eq_some_iff.mp here
  have found : (m.facets.findIdx? fun g => (key g.corners).map Int.ofNat = corners.mergeSort (· ≤ ·)) = some i := by
    rw [Array.findIdx?_eq_some_iff_getElem]
    refine ⟨inside, by rw [here, wanted]; exact decide_eq_true rfl, fun j before equal => ?_⟩
    have keys : key m.facets[j].corners = key m.facets[i].corners := by
      rw [decide_eq_true_iff, wanted, here.symm] at equal
      exact List.map_injective_iff.mpr Int.ofNat_injective equal
    rw [List.nodup_iff_injective_getElem] at distinct
    have places := @distinct ⟨j, by simpa using before.trans inside⟩ ⟨i, by simpa using inside⟩ (by simpa using keys)
    exact absurd (congrArg Fin.val places) (Nat.ne_of_lt before)
  unfold facetId
  dsimp only
  rw [found]
  rfl

theorem mem_tableOf (table : m.facets = ((facetTable m.cell m.elements.toList).map (·.2)).toArray) {f : Facet}
    (member : f ∈ m.facets) : (key f.corners, f) ∈ tableOf (facetUses m.cell m.elements.toList) := by
  rw [table, List.mem_toArray, List.mem_map] at member
  obtain ⟨entry, among, rfl⟩ := member
  have same := ((tabled_foldl _).entered entry among).key
  rw [same]
  exact among

theorem keys_facets (table : m.facets = ((facetTable m.cell m.elements.toList).map (·.2)).toArray) :
    m.facets.toList.map (fun f => key f.corners) = (tableOf (facetUses m.cell m.elements.toList)).map (·.1) := by
  rw [table, List.toList_toArray, List.map_map]
  apply List.map_congr_left
  intro entry among
  exact ((tabled_foldl _).entered entry among).key

theorem owners_facets (table : m.facets = ((facetTable m.cell m.elements.toList).map (·.2)).toArray) {f : Facet}
    (member : f ∈ m.facets) : f.owners = m.sidesOf.filter fun s => m.keyOf s = key f.corners := by
  have entered := (tabled_foldl _).entered _ (mem_tableOf table member)
  rw [← ownersAt_facetUses]
  exact entered.owners

theorem partitioned_of_table (table : m.facets = ((facetTable m.cell m.elements.toList).map (·.2)).toArray)
    (few : ∀ f ∈ m.facets, f.owners.length ≤ 2) : m.Partitioned := by
  have keys : m.facets.toList.map (fun f => key f.corners) = (m.sidesOf.map m.keyOf).eraseDups := by
    rw [keys_facets table, keys_tableOf, facetUses_eq, List.map_map]
    rfl
  have distinct : (m.facets.toList.map fun f => key f.corners).Nodup := keys ▸ nodup_eraseDups _
  have owner {f : Facet} (member : f ∈ m.facets) (s : Nat × Nat) :
      s ∈ f.owners ↔ s ∈ m.sidesOf ∧ m.keyOf s = key f.corners := by
    rw [owners_facets table member, List.mem_filter, decide_eq_true_iff]
  have exists_facet {s : Nat × Nat} (side : s ∈ m.sidesOf) :
      ∃ (i : Nat) (f : Facet), m.facets[i]? = some f ∧ s ∈ f.owners := by
    have listed : m.keyOf s ∈ m.facets.toList.map fun f => key f.corners := by
      rw [keys, List.mem_eraseDups]
      exact List.mem_map_of_mem side
    obtain ⟨f, member, same⟩ := List.mem_map.mp listed
    have member := Array.mem_toList_iff.mp member
    obtain ⟨i, here⟩ := Array.mem_iff_getElem?.mp member
    exact ⟨i, f, here, (owner member s).mpr ⟨side, same.symm⟩⟩
  refine ⟨keys, fun f member => owners_facets table member, fun f member => ?_, fun f member => ?_, fun s side => ?_,
    fun s first t second => ⟨?_, fun same => ?_⟩, fun i f here corners same => facetId_eq_ok distinct here same,
    increasing_boundaryFacets m, mem_boundaryFacets m⟩
  · have listed := List.mem_map_of_mem (f := fun f => key f.corners) (Array.mem_toList_iff.mpr member)
    rw [keys, List.mem_eraseDups] at listed
    obtain ⟨s, side, same⟩ := List.mem_map.mp listed
    have some := List.length_pos_of_mem ((owner member s).mpr ⟨side, same⟩)
    have two := few f member
    omega
  · have first := first_tableOf _ _ (mem_tableOf table member)
    rw [facetUses_eq, List.filter_map, List.map_map, List.head?_map] at first
    rw [owners_facets table member]
    exact first
  · obtain ⟨i, f, here, owned⟩ := exists_facet side
    refine ⟨i, ⟨f, here, owned⟩, fun j other => ?_⟩
    obtain ⟨g, there, owned'⟩ := other
    have same := ((owner (Array.mem_of_getElem? there) s).mp owned').2.symm.trans
      ((owner (Array.mem_of_getElem? here) s).mp owned).2
    obtain ⟨inside, rfl⟩ := Array.getElem?_eq_some_iff.mp here
    obtain ⟨inside', rfl⟩ := Array.getElem?_eq_some_iff.mp there
    rw [List.nodup_iff_injective_getElem] at distinct
    exact congrArg Fin.val (@distinct ⟨j, by simpa using inside'⟩ ⟨i, by simpa using inside⟩ (by simpa using same))
  · rintro ⟨f, member, here, there⟩
    exact ((owner member s).mp here).2.trans ((owner member t).mp there).2.symm
  · obtain ⟨i, f, here, owned⟩ := exists_facet first
    have member := Array.mem_of_getElem? here
    refine ⟨f, member, owned, (owner member t).mpr ⟨second, ?_⟩⟩
    exact same.symm.trans ((owner member s).mp owned).2

end Partition

section Counting

variable {cell : Cell} {elements : List (List Nat)}

theorem length_ownersAt (k : List Nat) :
    (ownersAt (facetUses cell elements) k).length = (sideKeys cell elements).count k := by
  rw [ownersAt_facetUses, sideKeys, List.count, List.countP_map, List.countP_eq_length_filter]
  refine congrArg List.length (List.filter_congr fun s _ => ?_)
  exact (beq_eq_decide _ _).symm

/-- No facet has more than two owners exactly if no key comes up more than twice. -/
theorem few_owners_iff : (∀ entry ∈ facetTable cell elements, entry.2.owners.length ≤ 2) ↔
    ∀ k, (sideKeys cell elements).count k ≤ 2 := by
  have owners : ∀ entry ∈ facetTable cell elements, entry.2.owners.length = (sideKeys cell elements).count entry.1 := by
    intro entry member
    rw [((tabled_foldl _).entered entry member).owners, length_ownersAt]
  constructor
  · intro few k
    by_cases listed : k ∈ sideKeys cell elements
    · have known : k ∈ (tableOf (facetUses cell elements)).map (·.1) := by
        rw [keys_tableOf, facetUses_eq, List.map_map, List.mem_eraseDups]
        exact listed
      obtain ⟨entry, member, rfl⟩ := List.mem_map.mp known
      exact owners entry member ▸ few entry member
    · rw [List.count_eq_zero_of_not_mem listed]
      exact Nat.zero_le 2
  · intro few entry member
    exact owners entry member ▸ few entry.1

end Counting

theorem countP_eraseDups (ks : List (List Nat)) :
    ks.eraseDups.countP (fun k => ks.count k = 1) = ks.countP fun k => ks.count k = 1 := by
  rw [List.countP_eq_length_filter, List.countP_eq_length_filter]
  have single : (ks.filter fun k => ks.count k = 1).Nodup := by
    refine List.nodup_iff_count_le_one.mpr fun k => ?_
    by_cases listed : k ∈ ks.filter fun k => ks.count k = 1
    · exact (List.filter_sublist.count_le k).trans (of_decide_eq_true (List.mem_filter.mp listed).2).le
    · rw [List.count_eq_zero_of_not_mem listed]
      exact Nat.zero_le 1
  refine List.Perm.length_eq ((List.perm_ext_iff_of_nodup ((nodup_eraseDups ks).filter _) single).mpr fun k => ?_)
  rw [List.mem_filter, List.mem_filter, List.mem_eraseDups]

section Boundary

variable {α : Type} {m : Mesh α}

theorem Partitioned.length_owners (partitioned : m.Partitioned) {f : Facet} (member : f ∈ m.facets) :
    f.owners.length = (m.sidesOf.map m.keyOf).count (key f.corners) := by
  rw [partitioned.owners f member, ← ownersAt_facetUses]
  exact length_ownersAt _

/-- There are as many boundary facets as sides that share their corners with no other side. -/
theorem Partitioned.length_boundaryFacets (partitioned : m.Partitioned) :
    m.boundaryFacets.length = (m.sidesOf.map m.keyOf).countP fun k => (m.sidesOf.map m.keyOf).count k = 1 := by
  have facets : m.boundaryFacets.length = m.facets.toList.countP (·.isBoundary) := by
    rw [boundaryFacets, List.length_map, ← List.countP_eq_length_filter]
    conv_rhs => rw [← List.zipIdx_map_fst 0 m.facets.toList, List.countP_map]
    rfl
  rw [facets, ← countP_eraseDups, ← partitioned.keys, List.countP_map]
  refine List.countP_congr fun f member => ?_
  rw [isBoundary_iff, partitioned.length_owners (Array.mem_toList_iff.mp member), Function.comp_apply,
    decide_eq_true_iff]

end Boundary

section Rearranged

variable {α : Type} {cell : Cell} {π : Equiv.Perm Nat} {σ : Nat → Equiv.Perm Nat} {c c' : Connectivity}

/-- The sorted corners of each facet of an element. -/
def facetKeys (cell : Cell) (row : List Int) : List (List Nat) :=
  cell.facets.map fun facet => key (facet.map fun c => (row.map Int.toNat).getD c 0)

/-- An element with its corners in another order that keeps the corners of its facets; `σ` gives the facets their new
numbers. -/
structure Turned (cell : Cell) (σ : Equiv.Perm Nat) (row row' : List Int) : Prop where
  corners : row'.Perm row
  facets : ∀ l, (facetKeys cell row')[σ l]? = (facetKeys cell row)[l]?

/-- Connectivity of the same elements in another order and with turned corners: `π` gives an element its new number, and
`σ e` the facets of element `e` theirs. -/
structure Rearranged (cell : Cell) (π : Equiv.Perm Nat) (σ : Nat → Equiv.Perm Nat) (c c' : Connectivity) : Prop where
  shape : c'.shape = c.shape
  turned : ∀ e, Option.Rel (Turned cell (σ e)) c.rows[e]? c'.rows[π e]?

/-- The new name of a side. -/
def moved (π : Equiv.Perm Nat) (σ : Nat → Equiv.Perm Nat) (s : Nat × Nat) : Nat × Nat := (π s.1, σ s.1 s.2)

theorem moved_injective : Function.Injective (moved π σ) := by
  rintro ⟨e, l⟩ ⟨e', l'⟩ same
  have first : e = e' := π.injective (congrArg Prod.fst same)
  subst first
  have second : l = l' := (σ e).injective (congrArg Prod.snd same)
  rw [second]

theorem mem_sides_elementsOf {s : Nat × Nat} :
    s ∈ sides cell (elementsOf c) ↔ ∃ row, c.rows[s.1]? = some row ∧ s.2 < cell.facets.length := by
  rw [mem_sides, elementsOf, List.length_map]
  constructor
  · rintro ⟨inside, facet⟩
    exact ⟨c.rows[s.1], List.getElem?_eq_getElem inside, facet⟩
  · rintro ⟨row, here, facet⟩
    exact ⟨(List.getElem?_eq_some_iff.mp here).1, facet⟩

theorem sideKey_eq {s : Nat × Nat} {row : List Int} (here : c.rows[s.1]? = some row) (facet : s.2 < cell.facets.length) :
    (facetKeys cell row)[s.2]? = some (sideKey cell (elementsOf c) s) := by
  have element : (elementsOf c)[s.1]? = some (row.map Int.toNat) := by
    rw [elementsOf, List.getElem?_map, here]
    rfl
  rw [facetKeys, List.getElem?_map, List.getElem?_eq_getElem facet, Option.map_some, sideKey, sideCorners,
    List.getD_eq_getElem?_getD, List.getD_eq_getElem?_getD, element, List.getElem?_eq_getElem facet]
  rfl

theorem Turned.lt_iff {σ : Equiv.Perm Nat} {row row' : List Int} (turned : Turned cell σ row row') (l : Nat) :
    σ l < cell.facets.length ↔ l < cell.facets.length := by
  have outside : (facetKeys cell row')[σ l]? = none ↔ (facetKeys cell row)[l]? = none := by rw [turned.facets]
  rw [List.getElem?_eq_none_iff, List.getElem?_eq_none_iff, facetKeys, facetKeys, List.length_map, List.length_map] at outside
  omega

theorem Rearranged.row (rearranged : Rearranged cell π σ c c') {e : Nat} {row : List Int} (here : c.rows[e]? = some row) :
    ∃ row', c'.rows[π e]? = some row' ∧ Turned cell (σ e) row row' := by
  have related := rearranged.turned e
  rw [here] at related
  generalize c'.rows[π e]? = there at related
  cases related with
  | some turned => exact ⟨_, rfl, turned⟩

theorem Rearranged.row' (rearranged : Rearranged cell π σ c c') {e : Nat} {row' : List Int}
    (there : c'.rows[π e]? = some row') : ∃ row, c.rows[e]? = some row ∧ Turned cell (σ e) row row' := by
  have related := rearranged.turned e
  rw [there] at related
  generalize c.rows[e]? = here at related
  cases related with
  | some turned => exact ⟨_, rfl, turned⟩

theorem Rearranged.mem_sides_iff (rearranged : Rearranged cell π σ c c') (s : Nat × Nat) :
    moved π σ s ∈ sides cell (elementsOf c') ↔ s ∈ sides cell (elementsOf c) := by
  rw [mem_sides_elementsOf, mem_sides_elementsOf]
  constructor
  · rintro ⟨row', there, facet⟩
    obtain ⟨row, here, turned⟩ := rearranged.row' there
    exact ⟨row, here, (turned.lt_iff s.2).mp facet⟩
  · rintro ⟨row, here, facet⟩
    obtain ⟨row', there, turned⟩ := rearranged.row here
    exact ⟨row', there, (turned.lt_iff s.2).mpr facet⟩

/-- A side keeps its corners. -/
theorem Rearranged.sideKey_eq (rearranged : Rearranged cell π σ c c') {s : Nat × Nat}
    (side : s ∈ sides cell (elementsOf c)) :
    sideKey cell (elementsOf c') (moved π σ s) = sideKey cell (elementsOf c) s := by
  obtain ⟨row, here, facet⟩ := mem_sides_elementsOf.mp side
  obtain ⟨row', there, turned⟩ := rearranged.row here
  have old := Mesh.sideKey_eq here facet
  have new := Mesh.sideKey_eq (s := moved π σ s) there ((turned.lt_iff s.2).mpr facet)
  have kept : some (sideKey cell (elementsOf c') (moved π σ s)) = some (sideKey cell (elementsOf c) s) := by
    rw [← new, ← old]
    exact turned.facets s.2
  exact Option.some.inj kept

theorem Rearranged.sides (rearranged : Rearranged cell π σ c c') :
    ((sides cell (elementsOf c)).map (moved π σ)).Perm (sides cell (elementsOf c')) := by
  rw [List.perm_ext_iff_of_nodup (nodup_sides.map moved_injective) nodup_sides]
  intro t
  have back : moved π σ (π.symm t.1, (σ (π.symm t.1)).symm t.2) = t := by
    rw [moved, Equiv.apply_symm_apply, Equiv.apply_symm_apply]
  constructor
  · intro member
    obtain ⟨s, side, rfl⟩ := List.mem_map.mp member
    exact (rearranged.mem_sides_iff s).mpr side
  · intro side
    rw [← back] at side ⊢
    exact List.mem_map_of_mem ((rearranged.mem_sides_iff _).mp side)

/-- The moved sides among which the facets are found have the old keys. -/
theorem Rearranged.sideKeys (rearranged : Rearranged cell π σ c c') :
    (sideKeys cell (elementsOf c')).Perm (sideKeys cell (elementsOf c)) := by
  refine (rearranged.sides.symm.map _).trans (List.Perm.of_eq ?_)
  rw [List.map_map, Mesh.sideKeys]
  exact List.map_congr_left fun s side => rearranged.sideKey_eq side

theorem Rearranged.accepted_iff (rearranged : Rearranged cell π σ c c') (dim count : Nat) :
    Accepted cell dim count c' ↔ Accepted cell dim count c := by
  have inside : (∀ row ∈ c'.rows, ∀ i ∈ row, 0 ≤ i ∧ i < (count : Int)) ↔
      ∀ row ∈ c.rows, ∀ i ∈ row, 0 ≤ i ∧ i < (count : Int) := by
    constructor
    · intro each row member i among
      obtain ⟨e, here⟩ := List.mem_iff_getElem?.mp member
      obtain ⟨row', there, turned⟩ := rearranged.row here
      exact each row' (List.mem_of_getElem? there) i (turned.corners.mem_iff.mpr among)
    · intro each row' member i among
      obtain ⟨e, there⟩ := List.mem_iff_getElem?.mp member
      rw [← π.apply_symm_apply e] at there
      obtain ⟨row, here, turned⟩ := rearranged.row' there
      exact each row (List.mem_of_getElem? here) i (turned.corners.mem_iff.mp among)
  constructor
  · intro accepted
    exact ⟨rearranged.shape ▸ accepted.shape, accepted.dim, inside.mp accepted.vertices⟩
  · intro accepted
    exact ⟨rearranged.shape.symm ▸ accepted.shape, accepted.dim, inside.mpr accepted.vertices⟩

/-- Meshes with the same facets under other numbers: `move` gives every side its new name. -/
structure Corresponding (move : Nat × Nat → Nat × Nat) (m m' : Mesh α) : Prop where
  sides : (m.sidesOf.map move).Perm m'.sidesOf
  shared : ∀ s ∈ m.sidesOf, ∀ t ∈ m.sidesOf, m'.Shares (move s) (move t) ↔ m.Shares s t
  keys : (m'.facets.toList.map fun f => key f.corners).Perm (m.facets.toList.map fun f => key f.corners)
  facets : ∀ f ∈ m.facets, ∃ f' ∈ m'.facets, f'.corners.Perm f.corners ∧ f'.owners.Perm (f.owners.map move)

section Made

variable {vertexDim : Nat} {vertices : List (List α)} {m m' : Mesh α}

theorem made_iff : (∃ m : Mesh α, make cell vertexDim vertices c = .ok m) ↔
    Accepted cell vertexDim vertices.length c ∧ ∀ k, (sideKeys cell (elementsOf c)).count k ≤ 2 := by
  rw [← few_owners_iff]
  constructor
  · rintro ⟨m, made⟩
    have ⟨accepted, few, _⟩ := make_eq_ok.mp made
    exact ⟨accepted, few⟩
  · rintro ⟨accepted, few⟩
    exact ⟨_, make_eq_ok.mpr ⟨accepted, few, rfl⟩⟩

theorem partitioned_of_made (made : make cell vertexDim vertices c = .ok m) :
    m.cell = cell ∧ m.elements.toList = elementsOf c ∧ m.Partitioned := by
  obtain ⟨-, few, rfl⟩ := make_eq_ok.mp made
  refine ⟨rfl, rfl, partitioned_of_table rfl fun f member => ?_⟩
  obtain ⟨entry, among, rfl⟩ := List.mem_map.mp (List.mem_toArray.mp member)
  exact few entry among

theorem Rearranged.made_iff (rearranged : Rearranged cell π σ c c') :
    (∃ m' : Mesh α, make cell vertexDim vertices c' = .ok m') ↔ ∃ m : Mesh α, make cell vertexDim vertices c = .ok m := by
  rw [Mesh.made_iff, Mesh.made_iff, rearranged.accepted_iff]
  simp only [rearranged.sideKeys.count_eq]

theorem Rearranged.corresponding (rearranged : Rearranged cell π σ c c') (made : make cell vertexDim vertices c = .ok m)
    (made' : make cell vertexDim vertices c' = .ok m') : Corresponding (moved π σ) m m' := by
  obtain ⟨rfl, elements, partitioned⟩ := partitioned_of_made made
  obtain ⟨same, elements', partitioned'⟩ := partitioned_of_made made'
  have sides : (m.sidesOf.map (moved π σ)).Perm m'.sidesOf := by
    rw [sidesOf, sidesOf, same, elements, elements']
    exact rearranged.sides
  have kept : ∀ s ∈ m.sidesOf, m'.keyOf (moved π σ s) = m.keyOf s := by
    intro s side
    rw [sidesOf, elements] at side
    rw [keyOf, keyOf, same, elements, elements']
    exact rearranged.sideKey_eq side
  have keys : (m'.facets.toList.map fun f => key f.corners).Perm (m.facets.toList.map fun f => key f.corners) := by
    rw [partitioned.keys, partitioned'.keys, List.perm_ext_iff_of_nodup (nodup_eraseDups _) (nodup_eraseDups _)]
    intro k
    rw [List.mem_eraseDups, List.mem_eraseDups, sidesOf, sidesOf, keyOf, keyOf, same, elements, elements']
    exact rearranged.sideKeys.mem_iff
  refine ⟨sides, fun s first t second => ?_, keys, fun f member => ?_⟩
  · have among (s : Nat × Nat) (side : s ∈ m.sidesOf) : moved π σ s ∈ m'.sidesOf :=
      sides.mem_iff.mp (List.mem_map_of_mem side)
    rw [partitioned'.shared _ (among s first) _ (among t second), partitioned.shared s first t second, kept s first,
      kept t second]
  · have listed := keys.mem_iff.mpr (List.mem_map_of_mem (Array.mem_toList_iff.mpr member))
    obtain ⟨f', member', same⟩ := List.mem_map.mp listed
    have member' := Array.mem_toList_iff.mp member'
    refine ⟨f', member', key_eq_iff.mp same, ?_⟩
    have among : f'.owners.Perm ((m.sidesOf.map (moved π σ)).filter fun s => m'.keyOf s = key f'.corners) := by
      rw [partitioned'.owners f' member']
      exact (sides.filter _).symm
    have back : (m.sidesOf.map (moved π σ)).filter (fun s => m'.keyOf s = key f'.corners) = f.owners.map (moved π σ) := calc
      (m.sidesOf.map (moved π σ)).filter (fun s => m'.keyOf s = key f'.corners)
        = (m.sidesOf.filter fun s => m'.keyOf (moved π σ s) = key f'.corners).map (moved π σ) := List.filter_map
      _ = (m.sidesOf.filter fun s => m.keyOf s = key f.corners).map (moved π σ) := by
          rw [same, List.filter_congr fun s side => by rw [kept s side]]
      _ = f.owners.map (moved π σ) := by rw [partitioned.owners f member]
    exact back ▸ among

/-- A mesh can be made exactly if no three sides of its elements have the same corners. Its facets are then the classes
of sides with the same corners, and another order of the elements, or of the corners within them, changes no more than
the numbers and the order of elements and facets. -/
theorem facets_partition_sides (cell : Cell) (vertexDim : Nat) (vertices : List (List α)) (c : Connectivity) :
    ((∃ m : Mesh α, make cell vertexDim vertices c = .ok m) ↔
      Accepted cell vertexDim vertices.length c ∧ ∀ k, (sideKeys cell (elementsOf c)).count k ≤ 2) ∧
    (∀ m, make cell vertexDim vertices c = .ok m → m.cell = cell ∧ m.elements.toList = elementsOf c ∧ m.Partitioned) ∧
    ∀ π σ c', Rearranged cell π σ c c' →
      ((∃ m' : Mesh α, make cell vertexDim vertices c' = .ok m') ↔ ∃ m : Mesh α, make cell vertexDim vertices c = .ok m) ∧
      ∀ m m', make cell vertexDim vertices c = .ok m → make cell vertexDim vertices c' = .ok m' →
        Corresponding (moved π σ) m m' :=
  ⟨made_iff, fun _ made => partitioned_of_made made, fun _ _ _ rearranged =>
    ⟨rearranged.made_iff, fun _ _ made made' => rearranged.corresponding made made'⟩⟩

/-- Two triangles that make up a square. -/
def halves : Connectivity := ⟨[2, 3], [[0, 1, 2], [1, 3, 2]]⟩

/-- The same triangles in the other order, one of them turned. -/
def turnedHalves : Connectivity := ⟨[2, 3], [[3, 2, 1], [0, 1, 2]]⟩

/-- The facets of the second triangle move on by two when it is turned. -/
def turnOf (e : Nat) : Equiv.Perm Nat := if e = 1 then Equiv.swap 0 1 * Equiv.swap 0 2 else 1

theorem rearranged_halves : Rearranged .tri (Equiv.swap 0 1) turnOf halves turnedHalves where
  shape := rfl
  turned
    | 0 => .some ⟨.refl _, fun _ => rfl⟩
    | 1 => by
        refine .some ⟨by decide, fun l => ?_⟩
        have keys : facetKeys .tri [1, 3, 2] = [[1, 3], [2, 3], [1, 2]] := by cbv
        have keys' : facetKeys .tri [3, 2, 1] = [[2, 3], [1, 2], [1, 3]] := by cbv
        rw [keys, keys']
        match l with
        | 0 | 1 | 2 => rfl
        | l + 3 =>
            have beyond : turnOf 1 (l + 3) = l + 3 := by simp [turnOf, Equiv.swap_apply_def]
            rw [beyond]
            rfl
    | e + 2 => by
        rw [Equiv.swap_apply_of_ne_of_ne (by omega) (by omega)]
        exact .none

theorem facets_partition_sides_of_halves : ∃ m m' : Mesh Int,
    make .tri 2 [[0, 0], [1, 0], [0, 1], [1, 1]] halves = .ok m ∧
    make .tri 2 [[0, 0], [1, 0], [0, 1], [1, 1]] turnedHalves = .ok m' ∧
    m.Partitioned ∧ m'.Partitioned ∧ Corresponding (moved (Equiv.swap 0 1) turnOf) m m' := by
  have keys : sideKeys .tri (elementsOf halves) = [[0, 1], [1, 2], [0, 2], [1, 3], [2, 3], [1, 2]] := by cbv
  have few : ∀ k, (sideKeys .tri (elementsOf halves)).count k ≤ 2 := by
    intro k
    rw [keys]
    by_cases listed : k ∈ [[0, 1], [1, 2], [0, 2], [1, 3], [2, 3], [1, 2]]
    · revert k
      decide
    · rw [List.count_eq_zero_of_not_mem listed]
      exact Nat.zero_le 2
  have law := facets_partition_sides (α := Int) .tri 2 [[0, 0], [1, 0], [0, 1], [1, 1]] halves
  have law' := facets_partition_sides (α := Int) .tri 2 [[0, 0], [1, 0], [0, 1], [1, 1]] turnedHalves
  have ⟨m, made⟩ := law.1.mpr ⟨⟨⟨2, rfl⟩, rfl, by decide⟩, few⟩
  have ⟨alike, corresponding⟩ := law.2.2 _ _ _ rearranged_halves
  have ⟨m', made'⟩ := alike.mpr ⟨m, made⟩
  exact ⟨m, m', made, made', (law.2.1 m made).2.2, (law'.2.1 m' made').2.2, corresponding m m' made made'⟩

end Made

end Rearranged

end Mesh

end Galerkin
