import Mathlib
import Galerkin.Proofs.SymbolTable

/-!
Frozen symbol tables: the order of the slots is that of the quantities and not that of the requests, the unknowns come
first, and every slot reads the column that the layouts give to its quantity.
-/

namespace Galerkin

/-- What a slot reads. -/
def Slot.place (s : Slot) : Source × Nat × Option Nat := (s.source, s.column, s.axis)

namespace SymbolTable

variable {t t' : SymbolTable} {q : Quantity} {requests others : List Request} {internal external : Layout}

/-! ### Columns -/

/-- Does a quantity belong to a field that the layouts have? -/
def Held (internal external : Layout) : Quantity → Prop
  | .unknown field _ _ _ => internal.contains field = true
  | .external field _ _ => external.contains field = true
  | _ => True

theorem held_of_quantity {r : Request} (asks : r.quantity internal external = .ok q) : Held internal external q := by
  cases r with
  | field f comps axis timeOrder =>
      simp only [Request.quantity, Quantity.ofField] at asks
      split at asks
      · split at asks
        · next present =>
            cases asks
            exact present
        · cases asks
      · split at asks
        · next present =>
            cases asks
            exact present
        · cases asks
  | param name =>
      cases asks
      trivial
  | normal comp =>
      cases asks
      trivial

theorem held_of_asked (member : q ∈ asked internal external requests) : Held internal external q := by
  obtain ⟨r, -, asks⟩ := List.mem_filterMap.mp member
  exact held_of_quantity (Outcome.toOption_eq_some.mp asks)

theorem slot_of_held (held : Held t.internal t.external q) (name : String) :
    t.slot q name = .ok ⟨name, q.source, t.columnOf q, q.axisOf⟩ := by
  have done : ∃ s, t.slot q name = .ok s := by
    cases q with
    | unknown field comps timeOrder axis =>
        obtain ⟨column, found⟩ := Layout.flat_of_contains held comps
        exact ⟨_, Outcome.bind_eq_ok.mpr ⟨column, found, rfl⟩⟩
    | external field comps axis =>
        obtain ⟨column, found⟩ := Layout.flat_of_contains held comps
        exact ⟨_, Outcome.bind_eq_ok.mpr ⟨column, found, rfl⟩⟩
    | param name => exact ⟨_, rfl⟩
    | normal comp => exact ⟨_, rfl⟩
  obtain ⟨s, done⟩ := done
  rw [done, slot_eq_ok done]

/-! ### Order -/

theorem symbolList_pairwise : t.symbolList.Pairwise fun a b => (compare a b != .gt) = true :=
  List.pairwise_map.mpr sorted_pairwise

/-- The order of the slots is settled by which quantities there are. -/
theorem symbolList_eq_of_perm (same : t'.quantities.Perm t.quantities) : t'.symbolList = t.symbolList := by
  refine List.Perm.eq_of_pairwise (fun a b _ _ => Quantity.before_antisymm) symbolList_pairwise symbolList_pairwise ?_
  exact symbolList_perm.trans (same.trans symbolList_perm.symm)

theorem paramNames_eq : t.paramNames = (t.quantities.filterMap Quantity.paramName?).mergeSort fun a b => !(b < a) := by
  rw [paramNames, quantities, List.filterMap_map]
  rfl

theorem paramNames_eq_of_perm (same : t'.quantities.Perm t.quantities) : t'.paramNames = t.paramNames := by
  have sorted (names : List String) :
      (names.mergeSort fun a b => !(b < a)).Pairwise fun a b => (!(decide (b < a))) = true := by
    refine List.pairwise_mergeSort (fun a b c first second => ?_) (fun a b => ?_) names
    · simp only [Bool.not_eq_true', decide_eq_false_iff_not, not_lt] at *
      exact first.trans second
    · simp only [Bool.or_eq_true, Bool.not_eq_true', decide_eq_false_iff_not, not_lt]
      exact le_total a b
  rw [paramNames_eq, paramNames_eq]
  refine List.Perm.eq_of_pairwise (fun a b _ _ before after => ?_) (sorted _) (sorted _) ?_
  · simp only [Bool.not_eq_true', decide_eq_false_iff_not, not_lt] at before after
    exact le_antisymm before after
  · exact (List.mergeSort_perm _ _).trans ((same.filterMap _).trans (List.mergeSort_perm _ _).symm)

theorem columnOf_eq_of_perm (internal : t'.internal = t.internal) (external : t'.external = t.external)
    (same : t'.quantities.Perm t.quantities) : t'.columnOf = t.columnOf := by
  funext q
  cases q with
  | unknown field comps timeOrder axis => rw [columnOf, columnOf, internal]
  | external field comps axis => rw [columnOf, columnOf, external]
  | param name => rw [columnOf, columnOf, paramNames_eq_of_perm same]
  | normal comp => rfl

/-! ### Slots -/

/-- Every quantity stands next to its name. -/
theorem Distinct.sorted_eq (distinct : t.Distinct) : t.sorted = t.symbolList.map fun q => (q, t.nameOf q) := by
  rw [symbolList, List.map_map]
  refine (List.map_id _).symm.trans (List.map_congr_left fun e member => ?_)
  have known : e ∈ t.entries := (List.mergeSort_perm _ _).mem_iff.mp member
  have named := mem_entries (t := t) (List.mem_map_of_mem known)
  exact List.inj_on_of_nodup_map distinct.quantities known named rfl

theorem Distinct.slots_eq (distinct : t.Distinct) (frozen : t.frozen = true)
    (held : ∀ q ∈ t.quantities, Held t.internal t.external q) :
    t.slots = .ok (t.symbolList.map fun q => ⟨t.nameOf q, q.source, t.columnOf q, q.axisOf⟩) := by
  rw [slots, if_pos frozen, distinct.sorted_eq]
  refine Outcome.mapM_eq_ok.mpr (List.forall₂_map_left_iff.mpr (List.forall₂_map_right_iff.mpr ?_))
  refine List.forall₂_same.mpr fun q member => slot_of_held (held q ?_) _
  exact symbolList_perm.mem_iff.mp member

/-- The slots of the unknowns, in their order, and then slots of other quantities. -/
theorem Distinct.unknowns_first (distinct : t.Distinct) (frozen : t.frozen = true) :
    ∃ first rest : List Quantity, t.symbolList = first ++ rest ∧ (∀ q ∈ first, q.isUnknown = true) ∧
      (∀ q ∈ rest, q.isUnknown = false) ∧ t.unknowns = first.map fun q => (q, t.nameOf q) := by
  have all : t.symbolList.filter Quantity.isUnknown = t.unknowns.map (·.1) := by
    rw [symbolList, unknowns, if_pos frozen, List.filter_map]
    rfl
  obtain ⟨rest, split⟩ := unknowns_prefix frozen
  have unknown : ∀ q ∈ t.unknowns.map (·.1), q.isUnknown = true := fun q member =>
    (List.mem_filter.mp (all ▸ member)).2
  rw [← split, List.filter_append, List.filter_eq_self.mpr unknown, List.append_right_eq_self] at all
  refine ⟨t.unknowns.map (·.1), rest, split.symm, unknown, fun q member => ?_, ?_⟩
  · exact Bool.eq_false_iff.mpr (List.filter_eq_nil_iff.mp all q member)
  · rw [List.map_map]
    refine (List.map_id _).symm.trans (List.map_congr_left fun e member => ?_)
    rw [unknowns, if_pos frozen, distinct.sorted_eq] at member
    obtain ⟨q, -, rfl⟩ := List.mem_map.mp (List.mem_of_mem_filter member)
    rfl

/-! ### Requests in any order -/

/-- A table that was empty, after some requests and frozen. -/
def frozenAfter (dim : Nat) (internal external : Layout) (requests : List Request) : SymbolTable :=
  ((empty dim internal external).serve requests).2.freeze

/-- What a frozen table is like: it knows the quantities that it was asked for and gives each its name. -/
structure Settled (t : SymbolTable) (internal external : Layout) (requests : List Request) : Prop where
  frozen : t.frozen = true
  layouts : t.internal = internal ∧ t.external = external
  distinct : t.Distinct
  known : ∀ q, q ∈ t.quantities ↔ q ∈ asked internal external requests

theorem settled_frozenAfter (dim : Nat) (internal external : Layout) (requests : List Request) :
    Settled (frozenAfter dim internal external requests) internal external requests ∧
      ((empty dim internal external).serve requests).1 = requests.map fun r =>
        (r.quantity internal external).map (frozenAfter dim internal external requests).nameOf := by
  have distinct : (empty dim internal external).Distinct := ⟨List.nodup_nil, List.nodup_nil⟩
  obtain ⟨served, answers⟩ := @served_opened (empty dim internal external) requests distinct rfl
  have apart : Distinct (frozenAfter dim internal external requests) := ⟨served.distinct.quantities, served.distinct.names⟩
  refine ⟨⟨rfl, ⟨served.internal, served.external⟩, apart, fun q => ?_⟩, answers⟩
  exact (served.known q).trans (or_iff_right List.not_mem_nil)

theorem Settled.slots_eq (settled : Settled t internal external requests) :
    t.slots = .ok (t.symbolList.map fun q => ⟨t.nameOf q, q.source, t.columnOf q, q.axisOf⟩) := by
  refine settled.distinct.slots_eq settled.frozen fun q known => ?_
  rw [settled.layouts.1, settled.layouts.2]
  exact held_of_asked ((settled.known q).mp known)

/-- Neither the order of requests nor their number matters to what the slots read. -/
theorem Settled.places_eq (settled : Settled t internal external requests) (settled' : Settled t' internal external others)
    (same : ∀ q, q ∈ asked internal external others ↔ q ∈ asked internal external requests) :
    t'.symbolList = t.symbolList ∧ t'.columnOf = t.columnOf := by
  have perm : t'.quantities.Perm t.quantities :=
    (List.perm_ext_iff_of_nodup settled'.distinct.quantities settled.distinct.quantities).mpr fun q =>
      (settled'.known q).trans ((same q).trans (settled.known q).symm)
  exact ⟨symbolList_eq_of_perm perm, columnOf_eq_of_perm (settled'.layouts.1.trans settled.layouts.1.symm)
    (settled'.layouts.2.trans settled.layouts.2.symm) perm⟩

/-- What a table that was empty says to requests before and after it is frozen, and what its slots are: symbols stand
for quantities, one for one, and only the set of the quantities asked for matters to what the slots read. -/
structure Identifies (dim : Nat) (internal external : Layout) (before after : List Request) (name : Quantity → String)
    (slots : List Slot) : Prop where
  injective : Set.InjOn name {q | q ∈ asked internal external before}
  opened : ((empty dim internal external).serve before).1 = before.map fun r => (r.quantity internal external).map name
  /-- The frozen table answers for what it knows, refuses what is new, and stays as it is. -/
  closed : (frozenAfter dim internal external before).serve after =
    (after.map fun r => do
      let q ← r.quantity internal external
      if q ∈ asked internal external before then .ok (name q) else .error (.misuse .frozenTable),
    frozenAfter dim internal external before)
  listed : (frozenAfter dim internal external before).slots = .ok slots
  order : ∀ others, (∀ q, q ∈ asked internal external others ↔ q ∈ asked internal external before) →
    ∃ slots', (frozenAfter dim internal external others).slots = .ok slots' ∧ slots'.map Slot.place = slots.map Slot.place
  /-- Unknown number `k` has slot number `k`. -/
  unknowns : ∃ first rest, slots = first ++ rest ∧ (∀ s ∈ first, s.isUnknown = true) ∧ (∀ s ∈ rest, s.isUnknown = false) ∧
    first.map (·.name) = (frozenAfter dim internal external before).unknowns.map (·.2)

theorem symbols_identify (dim : Nat) (internal external : Layout) (before after : List Request) :
    ∃ name slots, Identifies dim internal external before after name slots := by
  obtain ⟨settled, answers⟩ := settled_frozenAfter dim internal external before
  obtain ⟨first, rest, split, moving, still, unknowns⟩ := settled.distinct.unknowns_first settled.frozen
  refine ⟨_, _, ?_, answers, ?_, settled.slots_eq, fun others same => ?_, ?_⟩
  · intro q known r known' same
    exact settled.distinct.nameOf_injOn ((settled.known q).mpr known) ((settled.known r).mpr known') same
  · have served := @serve_frozen (frozenAfter dim internal external before) after settled.frozen
    simp only [settled.layouts, settled.known] at served
    exact served
  · obtain ⟨settled', -⟩ := settled_frozenAfter dim internal external others
    obtain ⟨symbols, columns⟩ := settled.places_eq settled' same
    refine ⟨_, settled'.slots_eq, ?_⟩
    rw [List.map_map, List.map_map, symbols, columns]
    rfl
  · rw [split, List.map_append]
    refine ⟨_, _, rfl, fun s member => ?_, fun s member => ?_, ?_⟩
    · obtain ⟨q, inside, rfl⟩ := List.mem_map.mp member
      exact (Quantity.slot_isUnknown ..).trans (moving q inside)
    · obtain ⟨q, inside, rfl⟩ := List.mem_map.mp member
      exact (Quantity.slot_isUnknown ..).trans (still q inside)
    · rw [unknowns, List.map_map, List.map_map]
      rfl

example : ((empty 2 ⟨2, [⟨"T", 0, false⟩, ⟨"T_x0", 0, false⟩]⟩ (Layout.empty 2)).serve
    [.field ⟨"T_x0", 0, false⟩ [] none 0, .field ⟨"T", 0, false⟩ [] (some 0) 0, .field ⟨"T", 0, false⟩ [] none 0,
      .param "T"]).1 = [.ok "T_x0", .ok "T_x0'", .ok "T", .ok "T'"] := rfl

/-- External fields are prescribed and have no rates: a rate of one has the symbol of its value. A field that no layout
has is refused as such before and after freezing. -/
theorem external_rate_has_symbol_of_value :
    (Request.field ⟨"Te", 0, true⟩ [] none 0 ≠ .field ⟨"Te", 0, true⟩ [] none 1) ∧
      ((empty 2 (Layout.empty 2) ⟨2, [⟨"Te", 0, true⟩]⟩).serve
        [.field ⟨"Te", 0, true⟩ [] none 0, .field ⟨"Te", 0, true⟩ [] none 1]).1 = [.ok "Te", .ok "Te"] ∧
      ((frozenAfter 2 (Layout.empty 2) ⟨2, [⟨"Te", 0, true⟩]⟩ []).serve [.field ⟨"u", 0, false⟩ [] none 0]).1 =
        [.error (.missing (.internalField "u"))] := by
  refine ⟨by decide, rfl, rfl⟩

end SymbolTable

end Galerkin
