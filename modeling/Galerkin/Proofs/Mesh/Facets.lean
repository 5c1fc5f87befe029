import Mathlib
import Galerkin.Mesh.Basic
import Galerkin.Proofs.Assembly.Tasks

/-!
The table of facets in closed form, and how it changes with the order of the elements: a facet keeps its corners, and
its owners get their new numbers.
-/

namespace Galerkin

namespace Mesh

theorem key_eq_iff {g h : List Nat} : key g = key h ↔ g.Perm h := by
  constructor
  · intro same
    have sorted (l : List Nat) : (key l).Perm l := List.mergeSort_perm l _
    exact (sorted g).symm.trans (same ▸ sorted h)
  · intro perm
    have sorted (l : List Nat) : (key l).Pairwise (· ≤ ·) := List.pairwise_mergeSort' (· ≤ ·) l
    exact (((List.mergeSort_perm g _).trans perm).trans (List.mergeSort_perm h _).symm).eq_of_pairwise' (sorted g) (sorted h)

/-- The owners that some uses enter for the facet with a key. -/
def ownersAt (uses : List (List Nat × (Nat × Nat))) (k : List Nat) : List (Nat × Nat) :=
  (uses.filter fun use => key use.1 = k).map (·.2)

theorem ownersAt_append_singleton (uses : List (List Nat × (Nat × Nat))) (use : List Nat × (Nat × Nat)) (k : List Nat) :
    ownersAt (uses ++ [use]) k = if key use.1 = k then ownersAt uses k ++ [use.2] else ownersAt uses k := by
  rw [ownersAt, List.filter_append, List.filter_singleton]
  split
  · next same => simp [ownersAt, same]
  · next apart => simp [ownersAt, apart]

/-- An entry of the table once some uses were entered. -/
structure Entered (uses : List (List Nat × (Nat × Nat))) (entry : List Nat × Facet) : Prop where
  key : Mesh.key entry.2.corners = entry.1
  owners : entry.2.owners = ownersAt uses entry.1

section Table

variable {uses : List (List Nat × (Nat × Nat))} {corners : List Nat} {owner : Nat × Nat} {table : FacetTable}

theorem keys_addOwner (corners : List Nat) (owner : Nat × Nat) (table : FacetTable) :
    (addOwner corners owner table).map (·.1) =
      if key corners ∈ table.map (·.1) then table.map (·.1) else table.map (·.1) ++ [key corners] := by
  induction table with
  | nil => rfl
  | cons entry rest ih =>
      obtain ⟨k, f⟩ := entry
      rw [addOwner]
      split
      · next same => simp [same]
      · next apart =>
          have differ : key corners ≠ k := Ne.symm apart
          simp only [List.map_cons, ih, List.mem_cons, differ, false_or]
          split <;> rfl

theorem entered_of_apart {entry : List Nat × Facet} (entered : Entered uses entry) (apart : entry.1 ≠ key corners) :
    Entered (uses ++ [(corners, owner)]) entry := by
  refine ⟨entered.key, ?_⟩
  rw [ownersAt_append_singleton, if_neg (Ne.symm apart)]
  exact entered.owners

theorem entered_addOwner (distinct : (table.map (·.1)).Nodup) (entered : ∀ entry ∈ table, Entered uses entry)
    (fresh : key corners ∈ table.map (·.1) ∨ ownersAt uses (key corners) = []) :
    ∀ entry ∈ addOwner corners owner table, Entered (uses ++ [(corners, owner)]) entry := by
  induction table with
  | nil =>
      have none := fresh.resolve_left (by simp)
      refine List.forall_mem_singleton.mpr ⟨rfl, ?_⟩
      rw [ownersAt_append_singleton, if_pos rfl, none]
      rfl
  | cons entry rest ih =>
      obtain ⟨k, f⟩ := entry
      rw [List.map_cons, List.nodup_cons] at distinct
      rw [List.forall_mem_cons] at entered
      rw [addOwner]
      split
      · next same =>
          refine List.forall_mem_cons.mpr ⟨⟨entered.1.key, ?_⟩, fun other member => ?_⟩
          · rw [ownersAt_append_singleton, if_pos same.symm]
            exact congrArg (· ++ [owner]) entered.1.owners
          · exact entered_of_apart (entered.2 other member) fun equal =>
              distinct.1 (List.mem_map.mpr ⟨other, member, equal.trans same.symm⟩)
      · next apart =>
          refine List.forall_mem_cons.mpr ⟨entered_of_apart entered.1 apart, ih distinct.2 entered.2 ?_⟩
          rw [List.map_cons, List.mem_cons] at fresh
          exact fresh.imp_left (Or.resolve_left · (Ne.symm apart))

/-- The table of some uses: one entry for each key, with its owners in order. -/
structure Tabled (uses : List (List Nat × (Nat × Nat))) (table : FacetTable) : Prop where
  distinct : (table.map (·.1)).Nodup
  entered : ∀ entry ∈ table, Entered uses entry
  listed : ∀ use ∈ uses, key use.1 ∈ table.map (·.1)

theorem tabled_foldl (uses : List (List Nat × (Nat × Nat))) :
    Tabled uses (uses.foldl (fun table use => addOwner use.1 use.2 table) []) := by
  induction uses using List.reverseRecOn with
  | nil => exact ⟨List.nodup_nil, fun _ impossible => (nomatch impossible), fun _ impossible => (nomatch impossible)⟩
  | append_singleton uses use ih =>
      rw [List.foldl_append, List.foldl_cons, List.foldl_nil]
      have keys := keys_addOwner use.1 use.2 (uses.foldl (fun table use => addOwner use.1 use.2 table) [])
      have kept : ∀ k ∈ (uses.foldl (fun table use => addOwner use.1 use.2 table) []).map (·.1),
          k ∈ (addOwner use.1 use.2 (uses.foldl (fun table use => addOwner use.1 use.2 table) [])).map (·.1) := by
        intro k member
        rw [keys]
        split
        · exact member
        · exact List.mem_append_left _ member
      refine ⟨?_, ?_, ?_⟩
      · rw [keys]
        split
        · exact ih.distinct
        · next absent => exact List.nodup_append.mpr ⟨ih.distinct, List.nodup_singleton _, fun k known l new same =>
            absent (List.mem_singleton.mp new ▸ same ▸ known)⟩
      · refine entered_addOwner ih.distinct ih.entered (or_iff_not_imp_left.mpr fun absent => ?_)
        rw [ownersAt, List.filter_eq_nil_iff.mpr, List.map_nil]
        intro other member same
        exact absent (of_decide_eq_true same ▸ ih.listed other member)
      · intro other member
        rcases List.mem_append.mp member with earlier | last
        · exact kept _ (ih.listed other earlier)
        · rw [List.mem_singleton.mp last, keys]
          split
          · assumption
          · exact List.mem_append_right _ List.mem_cons_self

end Table

variable {α : Type}

/-- A facet by its number. -/
def facet? (m : Mesh α) (i : Int) : Option Facet := if i < 0 then none else m.facets[i.toNat]?

/-- The sorted corners of a facet. -/
def facetKey? (m : Mesh α) (i : Int) : Option (List Nat) := (m.facet? i).map fun f => key f.corners

/-- A mesh as `make` leaves it: elements with the corners of the cell, all of them vertices, and their facets. -/
structure Formed (m : Mesh α) : Prop where
  corners : ∀ corners ∈ m.elements, corners.length = m.cell.cornerCount
  vertices : ∀ corners ∈ m.elements, ∀ v ∈ corners, v < m.vertices.size
  facets : m.facets = ((facetTable m.cell m.elements.toList).map (·.2)).toArray

theorem vertexNumber_eq_ok {count n : Nat} {i : Int} (found : vertexNumber count i = .ok n) : n < count := by
  unfold vertexNumber at found
  split at found
  · next inside =>
      cases found
      omega
  · cases found

theorem formed_make {cell : Cell} {dim : Nat} {vertices : List (List α)} {connectivity : Connectivity} {m : Mesh α}
    (even : ∀ row ∈ connectivity.rows, connectivity.shape[1]? = some row.length)
    (made : make cell dim vertices connectivity = .ok m) : m.Formed := by
  unfold make at made
  dsimp only at made
  split at made
  · next rows corners shape =>
      by_cases fits : corners = cell.cornerCount
      swap
      · rw [if_pos fits] at made
        cases made
      rw [if_neg (not_not.mpr fits)] at made
      split at made
      · cases made
      obtain ⟨elements, numbered, made⟩ := Outcome.bind_eq_ok.mp made
      split at made
      · cases made
      cases made
      have found : ∀ row ∈ elements.toArray, ∃ given ∈ connectivity.rows,
          List.Forall₂ (fun i v => vertexNumber vertices.length i = .ok v) given row := by
        intro row member
        obtain ⟨given, among, found⟩ :=
          Outcome.exists_of_matched (Outcome.mapM_eq_ok.mp numbered) (List.mem_toArray.mp member)
        exact ⟨given, among, Outcome.mapM_eq_ok.mp found⟩
      refine ⟨fun row member => ?_, fun row member v inside => ?_, rfl⟩
      · obtain ⟨given, among, matched⟩ := found row member
        have length := even given among
        rw [shape] at length
        rw [← matched.length_eq, ← Option.some.inj length, fits]
      · obtain ⟨given, -, matched⟩ := found row member
        obtain ⟨_, -, vertex⟩ := Outcome.exists_of_matched matched inside
        rw [List.size_toArray]
        exact vertexNumber_eq_ok vertex
  · cases made

theorem owners_of_facet? {m : Mesh α} (formed : m.Formed) {i : Int} {f : Facet} (found : m.facet? i = some f) :
    f.owners = ownersAt (facetUses m.cell m.elements.toList) (key f.corners) := by
  unfold facet? at found
  split at found
  · cases found
  · rw [formed.facets, List.getElem?_toArray] at found
    obtain ⟨entry, member, rfl⟩ := List.mem_map.mp (List.mem_of_getElem? found)
    have entered := (tabled_foldl _).entered entry member
    rw [entered.key]
    exact entered.owners

/-- Two meshes of the same elements in different orders: `τ` gives the new number of each. -/
structure Permuted (τ : Equiv.Perm Nat) (m m' : Mesh α) : Prop where
  cell : m'.cell = m.cell
  vertices : m'.vertices = m.vertices
  elements : ∀ e, m'.elements[τ e]? = m.elements[e]?

section Permuted

variable {m m' : Mesh α} {τ : Equiv.Perm Nat}

theorem Permuted.zipIdx (permuted : Permuted τ m m') :
    m'.elements.toList.zipIdx.Perm (m.elements.toList.zipIdx.map (Prod.map id τ)) := by
  have nodup (xs : List (List Nat)) : xs.zipIdx.Nodup := (List.nodup_zipIdx_map_snd xs).of_map
  refine (List.perm_ext_iff_of_nodup (nodup _) ((nodup _).map ?_)).mpr fun t => ?_
  · exact Function.Injective.prodMap Function.injective_id τ.injective
  · obtain ⟨corners, e⟩ := t
    rw [List.mem_zipIdx_iff_getElem?, Array.getElem?_toList, List.mem_map]
    constructor
    · intro here
      refine ⟨(corners, τ.symm e), ?_, by simp⟩
      rw [List.mem_zipIdx_iff_getElem?, Array.getElem?_toList, ← permuted.elements, Equiv.apply_symm_apply]
      exact here
    · rintro ⟨⟨_, e⟩, here, same⟩
      cases same
      rw [List.mem_zipIdx_iff_getElem?, Array.getElem?_toList] at here
      exact (permuted.elements e).trans here

theorem Permuted.size (permuted : Permuted τ m m') : m'.elements.size = m.elements.size := by
  have lengths := permuted.zipIdx.length_eq
  simpa using lengths

theorem Permuted.mem (permuted : Permuted τ m m') (corners : List Nat) : corners ∈ m'.elements ↔ corners ∈ m.elements := by
  rw [Array.mem_iff_getElem?, Array.mem_iff_getElem?]
  constructor
  · rintro ⟨e, here⟩
    exact ⟨τ.symm e, by rw [← permuted.elements, Equiv.apply_symm_apply, here]⟩
  · rintro ⟨e, here⟩
    exact ⟨τ e, (permuted.elements e).trans here⟩

theorem Permuted.ownersAt (permuted : Permuted τ m m') (k : List Nat) :
    (ownersAt (facetUses m'.cell m'.elements.toList) k).Perm
      ((ownersAt (facetUses m.cell m.elements.toList) k).map (Prod.map τ id)) := by
  have uses : (facetUses m'.cell m'.elements.toList).Perm
      ((facetUses m.cell m.elements.toList).map (Prod.map id (Prod.map τ id))) := by
    refine (permuted.zipIdx.flatMap_right _).trans (List.Perm.of_eq ?_)
    rw [List.flatMap_map, facetUses, List.map_flatMap, permuted.cell]
    refine List.flatMap_congr fun t _ => ?_
    rw [List.map_map]
    rfl
  refine ((uses.filter _).map _).trans (List.Perm.of_eq ?_)
  rw [List.filter_map, Mesh.ownersAt, List.map_map, List.map_map]
  rfl

/-- The new number of an element, counted from the same end. What is no element keeps its number. -/
def relabel (τ : Equiv.Perm Nat) (count : Nat) (e : Int) : Int :=
  match position? count e with
  | some k => if 0 ≤ e then τ k else (τ k : Int) - count
  | none => e

theorem Permuted.lt_iff (permuted : Permuted τ m m') (e : Nat) : τ e < m.elements.size ↔ e < m.elements.size := by
  have outside : m'.elements[τ e]? = none ↔ m'.elements.size ≤ τ e := Array.getElem?_eq_none_iff
  rw [permuted.elements, Array.getElem?_eq_none_iff, permuted.size] at outside
  omega

theorem Permuted.position?_relabel (permuted : Permuted τ m m') (e : Int) :
    position? m.elements.size (relabel τ m.elements.size e) = (position? m.elements.size e).map τ := by
  unfold relabel
  cases found : position? m.elements.size e with
  | none => exact found
  | some k =>
      have inside : τ k < m.elements.size := (permuted.lt_iff k).mpr (lt_of_position? found)
      dsimp only
      split
      · exact Block.position?_ofNat inside
      · rw [position?, if_neg (by omega), if_pos (by omega)]
        simp

/-- Counted from the front, an element has its new number exactly where it had its old one. -/
theorem Permuted.relabel_eq (permuted : Permuted τ m m') {k : Nat} (inside : k < m.elements.size) (e : Int) :
    relabel τ m.elements.size e = Int.ofNat (τ k) ↔ e = Int.ofNat k := by
  constructor
  · intro same
    have position := permuted.position?_relabel e
    rw [same, Block.position?_ofNat ((permuted.lt_iff k).mpr inside)] at position
    obtain ⟨j, found, equal⟩ := Option.map_eq_some_iff.mp position.symm
    cases τ.injective equal
    rw [relabel, found] at same
    dsimp only at same
    split at same
    · next front =>
        obtain ⟨n, rfl⟩ := Int.eq_ofNat_of_zero_le front
        rw [Block.position?_ofNat_eq_some found]
        rfl
    · rw [Int.ofNat_eq_natCast] at same
      omega
  · rintro rfl
    rw [relabel, Block.position?_ofNat inside]
    exact if_pos (Int.natCast_nonneg k)

end Permuted

/-- The uses of facets, by element and number of the facet there. -/
theorem mem_facetUses {cell : Cell} {elements : List (List Nat)} {use : List Nat × (Nat × Nat)} :
    use ∈ facetUses cell elements ↔ ∃ corners facet, elements[use.2.1]? = some corners ∧
      cell.facets[use.2.2]? = some facet ∧ use.1 = facet.map fun c => corners.getD c 0 := by
  simp only [facetUses, List.mem_flatMap, List.mem_map, Prod.exists, List.mem_zipIdx_iff_getElem?]
  constructor
  · rintro ⟨corners, e, here, facet, l, there, rfl⟩
    exact ⟨corners, facet, here, there, rfl⟩
  · rintro ⟨corners, facet, here, there, same⟩
    exact ⟨corners, _, here, facet, _, there, Prod.ext same.symm rfl⟩

/-- Owners of facets are elements of the mesh, with the number of the facet there. -/
theorem mem_owners_facet? {m : Mesh α} (formed : m.Formed) {f : Int} {F : Facet} (found : m.facet? f = some F)
    {o : Nat × Nat} (owner : o ∈ F.owners) : ∃ corners facet, m.elements[o.1]? = some corners ∧
      m.cell.facets[o.2]? = some facet ∧ key (facet.map fun c => corners.getD c 0) = key F.corners := by
  rw [owners_of_facet? formed found, ownersAt, List.mem_map] at owner
  obtain ⟨use, listed, rfl⟩ := owner
  obtain ⟨member, key⟩ := List.mem_filter.mp listed
  obtain ⟨corners, facet, here, there, same⟩ := mem_facetUses.mp member
  rw [Array.getElem?_toList] at here
  exact ⟨corners, facet, here, there, same ▸ of_decide_eq_true key⟩

end Mesh

namespace WorkPiece

variable {α : Type} {m m' : Mesh α} {w w' : WorkPiece}

/-- The elements of a work piece that own a facet, with the number of the facet in each. -/
def owners (m : Mesh α) (w : WorkPiece) (f : Int) : List (Nat × Nat) :=
  ((m.facet? f).elim [] (·.owners)).filter fun o => w.elements.contains (Int.ofNat o.1)

theorem owner?_eq_head? (m : Mesh α) (w : WorkPiece) (f : Int) : w.owner? m f = (w.owners m f).head? := by
  unfold owner? Block.ownerOf owners Mesh.facet?
  split
  · next missing =>
      rw [missing]
      rfl
  · next found =>
      rw [found]
      dsimp only [Option.elim]
      split
      · next here => rw [here]; rfl
      · next none => rw [none]; rfl

theorem owner?_lt (formed : m.Formed) {f : Int} {o : Nat × Nat} (owner : w.owner? m f = some o) :
    o.2 < m.cell.facets.length := by
  rw [owner?_eq_head?] at owner
  have listed := (List.mem_filter.mp (List.mem_of_head? owner)).1
  cases found : m.facet? f with
  | none =>
      rw [found] at listed
      cases listed
  | some F =>
      rw [found] at listed
      obtain ⟨_, _, -, there, -⟩ := Mesh.mem_owners_facet? formed found listed
      exact (List.getElem?_eq_some_iff.mp there).1

/-- The elements of a work piece that own the facet with given sorted corners, if there is such a facet. -/
def ownersOf (m : Mesh α) (w : WorkPiece) (k : Option (List Nat)) : List (Nat × Nat) :=
  (k.elim [] (Mesh.ownersAt (Mesh.facetUses m.cell m.elements.toList))).filter fun o =>
    w.elements.contains (Int.ofNat o.1)

theorem owners_eq_ownersOf (formed : m.Formed) (w : WorkPiece) (f : Int) :
    w.owners m f = w.ownersOf m (m.facetKey? f) := by
  unfold owners ownersOf Mesh.facetKey?
  cases found : m.facet? f with
  | none => rfl
  | some F =>
      dsimp only [Option.elim, Option.map]
      rw [Mesh.owners_of_facet? formed found]

/-- A facet has the same owners in a piece of the same elements, with their new numbers. -/
theorem ownersOf_permuted {τ : Equiv.Perm Nat} (permuted : Mesh.Permuted τ m m')
    (same : w'.elements.Perm (w.elements.map (Mesh.relabel τ m.elements.size))) (k : Option (List Nat)) :
    (w'.ownersOf m' k).Perm ((w.ownersOf m k).map (Prod.map τ id)) := by
  unfold ownersOf
  cases k with
  | none => exact List.Perm.refl _
  | some k =>
      dsimp only [Option.elim]
      refine ((permuted.ownersAt k).filter _).trans (List.Perm.of_eq ?_)
      rw [List.filter_map]
      refine congrArg _ (List.filter_congr fun o member => ?_)
      obtain ⟨use, listed, rfl⟩ := List.mem_map.mp member
      obtain ⟨_, _, here, -⟩ := Mesh.mem_facetUses.mp (List.mem_filter.mp listed).1
      have inside := (List.getElem?_eq_some_iff.mp here).1
      rw [Array.length_toList] at inside
      rw [Function.comp_apply, Prod.map_fst, Bool.eq_iff_iff, List.contains_iff_mem, List.contains_iff_mem, same.mem_iff,
        List.mem_map]
      simp only [permuted.relabel_eq inside, exists_eq_right]

/-- Owners come in the order of the elements, and in an element in the order of its facets. -/
theorem sorted_ownersOf (m : Mesh α) (w : WorkPiece) (k : Option (List Nat)) :
    (w.ownersOf m k).Pairwise (Prod.Lex (· < ·) (· < ·)) := by
  have uses : (Mesh.facetUses m.cell m.elements.toList).Pairwise fun u v =>
      Prod.Lex (· < ·) (· < ·) u.2 v.2 := by
    have numbered {β : Type} (xs : List β) : xs.zipIdx.Pairwise fun t u => t.2 < u.2 := by
      have places := List.pairwise_lt_range' (s := 0) (n := xs.length)
      rw [← List.zipIdx_map_snd 0 xs, List.pairwise_map] at places
      exact places
    refine List.pairwise_flatMap.mpr ⟨fun t _ => ?_, (numbered _).imp fun before u first v second => ?_⟩
    · rw [List.pairwise_map]
      refine List.Pairwise.imp (fun before => ?_) (numbered m.cell.facets)
      exact Prod.Lex.right _ before
    · obtain ⟨f, -, rfl⟩ := List.mem_map.mp first
      obtain ⟨g, -, rfl⟩ := List.mem_map.mp second
      exact Prod.Lex.left _ _ before
  refine List.Pairwise.filter _ ?_
  cases k with
  | none => exact List.Pairwise.nil
  | some k => exact List.pairwise_map.mpr (uses.filter _)

/-- Does the first owner of a facet in a piece come first under the new numbers, too? -/
def KeepsOwner (τ : Equiv.Perm Nat) (m : Mesh α) (w : WorkPiece) (f : Int) : Prop :=
  ∀ o ∈ w.owner? m f, ∀ o' ∈ w.owners m f, τ o.1 ≤ τ o'.1

/-- A facet whose first owner still comes first is owned by the same element, with its new number. -/
theorem head?_ownersOf_permuted {τ : Equiv.Perm Nat} (permuted : Mesh.Permuted τ m m')
    (same : w'.elements.Perm (w.elements.map (Mesh.relabel τ m.elements.size))) {k : Option (List Nat)}
    (keeps : ∀ o ∈ (w.ownersOf m k).head?, ∀ o' ∈ w.ownersOf m k, τ o.1 ≤ τ o'.1) :
    (w'.ownersOf m' k).head? = (w.ownersOf m k).head?.map (Prod.map τ id) := by
  have owners := ownersOf_permuted permuted same k
  have old := sorted_ownersOf m w k
  have new := sorted_ownersOf m' w' k
  generalize w.ownersOf m k = first at *
  generalize w'.ownersOf m' k = second at *
  cases second with
  | nil => rw [List.map_eq_nil_iff.mp owners.symm.eq_nil]; rfl
  | cons h rest =>
    obtain ⟨o', member, rfl⟩ := List.mem_map.mp (owners.mem_iff.mp List.mem_cons_self)
    cases first with
    | nil => cases member
    | cons o others =>
      refine congrArg some (congrArg (Prod.map τ id) ?_)
      rcases List.mem_cons.mp member with here | later
      · exact here
      have before := (List.pairwise_cons.mp old).1 o' later
      have moved := owners.symm.mem_iff.mp (List.mem_map_of_mem List.mem_cons_self)
      rcases List.mem_cons.mp moved with here | later
      · exact (Prod.map_injective.mpr ⟨τ.injective, Function.injective_id⟩ here).symm
      have after := (List.pairwise_cons.mp new).1 _ later
      have kept := keeps o rfl o' member
      rw [Prod.lex_def] at before after
      simp only [Prod.map_fst, Prod.map_snd, id, EmbeddingLike.apply_eq_iff_eq] at after
      omega

end WorkPiece

end Galerkin
