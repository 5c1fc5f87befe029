import Mathlib
import Galerkin.SymbolTable
import Galerkin.Proofs.Layout

/-!
Requesting quantities, and the order of slots: every requested quantity has one slot, and the unknowns
have the first ones.

The names that a symbol table gives. A name is primed until no name in use is like it, so different quantities never
share one, and a quantity keeps its name however often it is asked for.
-/

namespace Galerkin

namespace Quantity

def kindRank : Quantity → Nat
  | unknown _ _ _ _ => 0
  | external _ _ _ => 1
  | param _ => 2
  | normal _ => 3

def label : Quantity → String
  | unknown field _ _ _ | external field _ _ => field
  | param name => name
  | normal _ => ""

def place : Quantity → List Nat
  | unknown _ comps _ _ | external _ comps _ => comps
  | _ => []

def number : Quantity → Nat
  | unknown _ _ t _ => t
  | normal c => c
  | _ => 0

def axisOf : Quantity → Option Nat
  | unknown _ _ _ axis | external _ _ axis => axis
  | _ => none

def source : Quantity → Source
  | unknown _ _ timeOrder _ => if timeOrder = 0 then .value else .rate
  | external _ _ _ => .external
  | param _ => .param
  | normal _ => .normal

/-- The order of slots, field by field. -/
def slotOrder : Quantity → Quantity → Ordering :=
  compareLex (compareOn kindRank) <| compareLex (compareOn label) <| compareLex (compareOn place) <|
    compareLex (compareOn number) (compareOn axisOf)

theorem compare_eq_slotOrder (a b : Quantity) : compare a b = slotOrder a b := by
  cases a with
  | unknown f comps t axis =>
      cases b with
      | unknown g comps' t' axis' =>
          show (compare f g).then ((compare comps comps').then ((compare t t').then
            ((compare axis axis').then .eq))) = _
          rw [Ordering.then_eq]
          rfl
      | external g comps' axis' => rfl
      | param name => rfl
      | normal c => rfl
  | external f comps axis =>
      cases b with
      | unknown g comps' t' axis' => rfl
      | external g comps' axis' =>
          show (compare f g).then ((compare comps comps').then ((compare axis axis').then .eq)) = _
          rw [Ordering.then_eq]
          rfl
      | param name => rfl
      | normal c => rfl
  | param name =>
      cases b with
      | unknown g comps t axis => rfl
      | external g comps axis => rfl
      | param name' => rfl
      | normal c => rfl
  | normal c =>
      cases b with
      | unknown g comps t axis => rfl
      | external g comps axis => rfl
      | param name => rfl
      | normal c' => rfl

/-- Unknowns come before all else. -/
theorem kindRank_le {a b : Quantity} (before : compare a b != .gt) : a.kindRank ≤ b.kindRank := by
  by_contra later
  have greater : compare a.kindRank b.kindRank = .gt := Nat.compare_eq_gt.mpr (by omega)
  have order : compare a b = .gt := by
    rw [compare_eq_slotOrder]
    show (compare a.kindRank b.kindRank).then _ = .gt
    rw [greater]
    rfl
  rw [order] at before
  cases before

instance : Std.TransCmp slotOrder :=
  inferInstanceAs (Std.TransCmp (compareLex (compareOn kindRank) <| compareLex (compareOn label) <|
    compareLex (compareOn place) <| compareLex (compareOn number) (compareOn axisOf)))

theorem before_iff (a b : Quantity) : (compare a b != .gt) = (slotOrder a b).isLE := by
  rw [compare_eq_slotOrder]
  cases slotOrder a b <;> rfl

/-- A quantity is known by its kind, its field or name, its components, its time order or number, and its axis. -/
theorem ext_of_keys {a b : Quantity} (kind : a.kindRank = b.kindRank) (label : a.label = b.label)
    (place : a.place = b.place) (number : a.number = b.number) (axis : a.axisOf = b.axisOf) : a = b := by
  cases a <;> cases b <;> simp_all [kindRank, Quantity.label, Quantity.place, Quantity.number, axisOf]

theorem eq_of_slotOrder {a b : Quantity} (same : slotOrder a b = .eq) : a = b := by
  simp only [slotOrder, compareLex, Ordering.then_eq_eq, compareOn, Std.LawfulEqOrd.compare_eq_iff_eq] at same
  obtain ⟨kind, label, place, number, axis⟩ := same
  exact ext_of_keys kind label place number axis

theorem before_antisymm {a b : Quantity} (forth : compare a b != .gt) (back : compare b a != .gt) : a = b := by
  rw [before_iff] at forth back
  exact eq_of_slotOrder (Std.OrientedCmp.isLE_antisymm forth back)

theorem before_trans {a b c : Quantity} (first : compare a b != .gt) (second : compare b c != .gt) :
    compare a c != .gt := by
  rw [before_iff] at *
  exact Std.TransCmp.isLE_trans first second

theorem before_total (a b : Quantity) : (compare a b != .gt || compare b a != .gt) = true := by
  have swap : slotOrder b a = (slotOrder a b).swap := Std.OrientedCmp.eq_swap
  rw [before_iff, before_iff, swap]
  cases slotOrder a b <;> rfl

theorem isUnknown_iff (q : Quantity) : q.isUnknown = true ↔ q.kindRank = 0 := by
  cases q <;> simp [isUnknown, kindRank]

theorem slot_isUnknown (q : Quantity) (name : String) (column : Nat) (axis : Option Nat) :
    (Slot.mk name q.source column axis).isUnknown = q.isUnknown := by
  cases q with
  | unknown field comps timeOrder axis =>
      simp only [Slot.isUnknown, source]
      split <;> rfl
  | _ => rfl

end Quantity

/-- Entries for which something holds come first if it never starts to hold later. -/
theorem prefix_of_pairwise {α : Type} {p : α → Bool} {xs : List α}
    (ordered : xs.Pairwise fun x y => p y → p x) : xs.filter p <+: xs := by
  induction ordered with
  | nil => exact List.prefix_rfl
  | @cons x xs first _ ih =>
      by_cases kept : p x
      · rw [List.filter_cons_of_pos kept]
        exact (List.prefix_cons_inj x).mpr ih
      · have none : xs.filter p = [] := by
          rw [List.filter_eq_nil_iff]
          intro y member holds
          exact kept (first y member holds)
        rw [List.filter_cons_of_neg kept, none]
        exact List.nil_prefix

namespace SymbolTable

variable {t t' : SymbolTable}

/-- The quantities requested so far. -/
def quantities (t : SymbolTable) : List Quantity := t.entries.map (·.1)

theorem lookup_isSome_iff (q : Quantity) : (t.entries.lookup q).isSome ↔ q ∈ t.quantities := by
  rw [quantities]
  induction t.entries with
  | nil => simp
  | cons head tail ih =>
      rw [List.lookup_cons, List.map_cons, List.mem_cons]
      by_cases same : q = head.1
      · simp [same]
      · have apart : (q == head.1) = false := beq_false_of_ne same
        simp only [apart, same, false_or]
        exact ih

/-- What requests do: the table holds what it held and what was asked for, each once. -/
structure Extends (t t' : SymbolTable) (asked : List Quantity) : Prop where
  dim : t'.dim = t.dim
  internal : t'.internal = t.internal
  external : t'.external = t.external
  distinct : t.quantities.Nodup → t'.quantities.Nodup
  members : ∀ q, q ∈ t'.quantities ↔ q ∈ t.quantities ∨ q ∈ asked

theorem request_eq_ok {q : Quantity} {name : String} (done : t.request q = .ok (name, t')) :
    Extends t t' [q] := by
  unfold request at done
  split at done
  · next found =>
      cases done
      have member : q ∈ t.quantities := (lookup_isSome_iff q).mp (found ▸ rfl)
      exact ⟨rfl, rfl, rfl, id, fun r => ⟨Or.inl, fun either =>
        either.elim id fun same => (List.mem_singleton.mp same) ▸ member⟩⟩
  · next absent =>
      split at done
      · cases done
      · cases done
        have fresh : q ∉ t.quantities := fun member => by
          have some := (lookup_isSome_iff q).mpr member
          rw [absent] at some
          cases some
        refine ⟨rfl, rfl, rfl, fun distinct => ?_, fun r => ?_⟩
        · rw [quantities, List.map_append]
          exact List.Nodup.append distinct (List.nodup_singleton q) (by simpa [quantities] using fresh)
        · simp [quantities]

theorem requestAll_eq_ok {asked : List Quantity} (done : t.requestAll asked = .ok t') :
    Extends t t' asked := by
  induction asked generalizing t with
  | nil =>
      cases done
      exact ⟨rfl, rfl, rfl, id, fun q => by simp⟩
  | cons q rest ih =>
      rw [requestAll] at done
      rcases Outcome.bind_eq_ok.mp done with ⟨⟨name, next⟩, first, later⟩
      have one := request_eq_ok first
      have all := ih later
      refine ⟨all.dim.trans one.dim, all.internal.trans one.internal, all.external.trans one.external,
        fun distinct => all.distinct (one.distinct distinct), fun r => ?_⟩
      rw [all.members, one.members, List.mem_singleton, List.mem_cons, or_assoc]

/-- The quantities in the order of their slots. -/
def symbolList (t : SymbolTable) : List Quantity := t.sorted.map (·.1)

theorem symbolList_perm : t.symbolList.Perm t.quantities := (List.mergeSort_perm _ _).map _

theorem mem_unknowns (frozen : t.frozen = true) {q : Quantity} :
    q ∈ t.unknowns.map (·.1) ↔ q ∈ t.quantities ∧ q.isUnknown = true := by
  rw [← symbolList_perm.mem_iff, unknowns, if_pos frozen, symbolList]
  simp only [List.mem_map, List.mem_filter]
  constructor
  · rintro ⟨e, ⟨member, unknown⟩, rfl⟩
    exact ⟨⟨e, member, rfl⟩, unknown⟩
  · rintro ⟨⟨e, member, rfl⟩, unknown⟩
    exact ⟨e, ⟨member, unknown⟩, rfl⟩

theorem usesNormal_iff : t.usesNormal = true ↔ ∃ q ∈ t.quantities, q.isNormal = true := by
  rw [usesNormal, List.any_eq_true, quantities]
  simp only [List.mem_map, exists_exists_and_eq_and]

theorem sorted_pairwise : t.sorted.Pairwise fun a b => (compare a.1 b.1 != .gt) = true := by
  apply List.pairwise_mergeSort
  · intro a b c first second
    exact Quantity.before_trans first second
  · intro a b
    exact Quantity.before_total a.1 b.1

theorem unknowns_prefix (frozen : t.frozen = true) : t.unknowns.map (·.1) <+: t.symbolList := by
  have first : t.sorted.Pairwise fun a b => b.1.isUnknown → a.1.isUnknown := by
    refine sorted_pairwise.imp fun {a b} before unknown => ?_
    have rank := Quantity.kindRank_le before
    rw [Quantity.isUnknown_iff] at unknown ⊢
    omega
  rw [unknowns, if_pos frozen]
  exact (prefix_of_pairwise first).map _

/-! ### Slots -/

/-- The column that the slot of a quantity reads. -/
def columnOf (t : SymbolTable) : Quantity → Nat
  | .unknown name comps _ _ => t.internal.columnOf name comps
  | .external name comps _ => t.external.columnOf name comps
  | .param name => t.paramNames.idxOf name
  | .normal comp => comp

theorem slot_eq_ok {q : Quantity} {name : String} {s : Slot} (done : t.slot q name = .ok s) :
    s = ⟨name, q.source, t.columnOf q, q.axisOf⟩ := by
  cases q with
  | unknown field comps timeOrder axis =>
      rcases Outcome.bind_eq_ok.mp done with ⟨column, found, last⟩
      cases last
      rw [columnOf, Layout.columnOf_of_flat found]
      rfl
  | external field comps axis =>
      rcases Outcome.bind_eq_ok.mp done with ⟨column, found, last⟩
      cases last
      rw [columnOf, Layout.columnOf_of_flat found]
      rfl
  | param name =>
      cases done
      rfl
  | normal comp =>
      cases done
      rfl

theorem mem_paramNames {name : String} : name ∈ t.paramNames ↔ .param name ∈ t.quantities := by
  rw [paramNames, (List.mergeSort_perm _ _).mem_iff, List.mem_filterMap, quantities, List.mem_map]
  constructor
  · rintro ⟨entry, member, found⟩
    refine ⟨entry, member, ?_⟩
    cases q : entry.1 with
    | param other =>
        rw [q] at found
        cases found
        rfl
    | _ =>
        rw [q] at found
        cases found
  · rintro ⟨entry, member, same⟩
    exact ⟨entry, member, by rw [same]; rfl⟩

end SymbolTable

/-! ### Names -/

namespace SymbolTable

/-- Is a name this long? -/
def atLeast (size : Nat) (name : String) : Bool := decide (size ≤ name.length)

theorem countP_longer_lt {used : List String} {name : String} (taken : name ∈ used) :
    used.countP (atLeast (name.length + 1)) < used.countP (atLeast name.length) := by
  obtain ⟨before, after, rfl⟩ := List.append_of_mem taken
  have longer (others : List String) :
      others.countP (atLeast (name.length + 1)) ≤ others.countP (atLeast name.length) :=
    List.countP_mono_left fun other _ long => decide_eq_true (Nat.le_of_succ_le (of_decide_eq_true long))
  have itself : atLeast name.length name = true := decide_eq_true le_rfl
  have short : ¬atLeast (name.length + 1) name = true := fun long =>
    Nat.not_succ_le_self _ (of_decide_eq_true long)
  rw [List.countP_append, List.countP_append, List.countP_cons_of_neg short, List.countP_cons_of_pos itself]
  exact Nat.add_lt_add_of_le_of_lt (longer before) (Nat.lt_succ_of_le (longer after))

/-- There are enough primes: only names as long as the one that is tried can be in its way, and each prime leaves one
of them behind. -/
theorem primed_notMem {used : List String} {fuel : Nat} {name : String}
    (enough : used.countP (atLeast name.length) ≤ fuel) : primed used fuel name ∉ used := by
  induction fuel generalizing name with
  | zero =>
      intro taken
      exact List.countP_eq_zero.mp (Nat.le_zero.mp enough) name taken (decide_eq_true le_rfl)
  | succ fuel ih =>
      rw [primed]
      split
      · next taken =>
          refine ih ?_
          rw [String.length_append, show "'".length = 1 from rfl]
          have fewer := countP_longer_lt (List.contains_iff_mem.mp taken)
          omega
      · next free => exact fun taken => free (List.contains_iff_mem.mpr taken)

variable {t t' : SymbolTable} {q : Quantity} {requests : List Request}

/-- The name for a new quantity. -/
def newName (t : SymbolTable) (q : Quantity) : String := primed t.names t.entries.length q.name

theorem newName_notMem : t.newName q ∉ t.names :=
  primed_notMem (List.countP_le_length.trans (List.length_map _).le)

theorem lookup_eq_none (new : q ∉ t.quantities) : t.entries.lookup q = none := by
  rw [← lookup_isSome_iff, Option.not_isSome_iff_eq_none] at new
  exact new

theorem lookup_eq_nameOf (known : q ∈ t.quantities) : t.entries.lookup q = some (t.nameOf q) := by
  obtain ⟨name, found⟩ := Option.isSome_iff_exists.mp ((lookup_isSome_iff q).mpr known)
  rw [nameOf, found, Option.getD_some]

/-- Known quantities are answered whether or not the table is frozen. -/
theorem request_known (known : q ∈ t.quantities) : t.request q = .ok (t.nameOf q, t) := by
  rw [request, lookup_eq_nameOf known]
  rfl

theorem request_frozen (new : q ∉ t.quantities) (frozen : t.frozen = true) :
    t.request q = .error (.misuse .frozenTable) := by
  rw [request, lookup_eq_none new]
  exact if_pos frozen

theorem request_new (new : q ∉ t.quantities) (opened : t.frozen = false) :
    t.request q = .ok (t.newName q, { t with entries := t.entries ++ [(q, t.newName q)] }) := by
  rw [request, lookup_eq_none new]
  exact if_neg (Bool.eq_false_iff.mp opened)

/-- An open table can be asked for anything. -/
theorem requestAll_isOk (opened : t.frozen = false) (asked : List Quantity) : ∃ t', t.requestAll asked = .ok t' := by
  induction asked generalizing t with
  | nil => exact ⟨t, rfl⟩
  | cons q rest ih =>
      by_cases known : q ∈ t.quantities
      · obtain ⟨t', done⟩ := ih opened
        exact ⟨t', Outcome.bind_eq_ok.mpr ⟨(t.nameOf q, t), request_known known, done⟩⟩
      · obtain ⟨t', done⟩ := ih (t := { t with entries := t.entries ++ [(q, t.newName q)] }) opened
        exact ⟨t', Outcome.bind_eq_ok.mpr ⟨_, request_new known opened, done⟩⟩

/-- A quantity keeps the name that it has. -/
theorem nameOf_of_prefix (more : t.entries <+: t'.entries) (known : q ∈ t.quantities) : t'.nameOf q = t.nameOf q := by
  rw [nameOf, more.lookup_eq_some (lookup_eq_nameOf known), Option.getD_some]

/-- Every quantity stands in the table once, and so does every name. -/
structure Distinct (t : SymbolTable) : Prop where
  quantities : t.quantities.Nodup
  names : t.names.Nodup

theorem mem_entries (known : q ∈ t.quantities) : (q, t.nameOf q) ∈ t.entries := mem_of_lookup (lookup_eq_nameOf known)

theorem Distinct.nameOf_injOn (distinct : t.Distinct) : Set.InjOn t.nameOf {q | q ∈ t.quantities} := by
  intro q known r known' same
  have entries := List.inj_on_of_nodup_map distinct.names (mem_entries known) (mem_entries known') same
  exact congrArg Prod.fst entries

theorem Distinct.append_new (distinct : t.Distinct) (new : q ∉ t.quantities) :
    Distinct { t with entries := t.entries ++ [(q, t.newName q)] } where
  quantities := by
    rw [SymbolTable.quantities, List.map_append]
    exact distinct.quantities.append (List.nodup_singleton q) (List.disjoint_singleton.mpr new)
  names := by
    rw [SymbolTable.names, List.map_append]
    exact distinct.names.append (List.nodup_singleton _) (List.disjoint_singleton.mpr newName_notMem)

/-- The quantities that some requests ask for. -/
def asked (internal external : Layout) (requests : List Request) : List Quantity :=
  requests.filterMap fun r => (r.quantity internal external).toOption

/-- What an open table is like after some requests. -/
structure Served (t t' : SymbolTable) (requests : List Request) : Prop where
  opened : t'.frozen = false
  internal : t'.internal = t.internal
  external : t'.external = t.external
  distinct : t'.Distinct
  more : t.entries <+: t'.entries
  known : ∀ q, q ∈ t'.quantities ↔ q ∈ t.quantities ∨ q ∈ asked t.internal t.external requests

/-- One request of an open table is answered with the name that its quantity has from then on. -/
theorem answer_opened (distinct : t.Distinct) (opened : t.frozen = false) {r : Request}
    (asks : r.quantity t.internal t.external = .ok q) :
    ∃ t', t.answer r = .ok (t'.nameOf q, t') ∧ Served t t' [r] := by
  have only : asked t.internal t.external [r] = [q] := by
    rw [asked, List.filterMap_cons, asks]
    rfl
  rw [answer, asks, Outcome.ok_bind]
  by_cases known : q ∈ t.quantities
  · refine ⟨t, request_known known, opened, rfl, rfl, distinct, List.prefix_rfl, fun p => ?_⟩
    rw [only, List.mem_singleton]
    exact (or_iff_left_of_imp fun same => same ▸ known).symm
  · have name : nameOf { t with entries := t.entries ++ [(q, t.newName q)] } q = t.newName q := by
      rw [nameOf, List.lookup_append, lookup_eq_none known, Option.none_or, List.lookup_cons_self, Option.getD_some]
    refine ⟨{ t with entries := t.entries ++ [(q, t.newName q)] }, ?_, opened, rfl, rfl, distinct.append_new known,
      List.prefix_append _ _, fun p => ?_⟩
    · rw [request_new known opened, name]
    · rw [only, quantities, List.map_append, List.mem_append]
      rfl

/-- A request that asks for nothing leaves an open table as it is. -/
theorem served_of_error (distinct : t.Distinct) (opened : t.frozen = false) {r : Request} {e : Failure}
    (asks : r.quantity t.internal t.external = .error e) : Served t t [r] := by
  refine ⟨opened, rfl, rfl, distinct, List.prefix_rfl, fun q => ?_⟩
  have nothing : asked t.internal t.external [r] = [] := by
    rw [asked, List.filterMap_cons, asks]
    rfl
  rw [nothing]
  exact (or_iff_left List.not_mem_nil).symm

theorem Served.cons {next : SymbolTable} {r : Request} (first : Served t next [r]) (later : Served next t' requests) :
    Served t t' (r :: requests) where
  opened := later.opened
  internal := later.internal.trans first.internal
  external := later.external.trans first.external
  distinct := later.distinct
  more := first.more.trans later.more
  known := by
    intro q
    have parts : asked t.internal t.external (r :: requests) =
        asked t.internal t.external [r] ++ asked t.internal t.external requests :=
      List.filterMap_append (l := [r])
    rw [later.known, first.known, first.internal, first.external, parts, List.mem_append, or_assoc]

theorem served_opened (distinct : t.Distinct) (opened : t.frozen = false) :
    Served t (t.serve requests).2 requests ∧
      (t.serve requests).1 = requests.map fun r =>
        (r.quantity t.internal t.external).map (t.serve requests).2.nameOf := by
  induction requests generalizing t with
  | nil =>
      refine ⟨⟨opened, rfl, rfl, distinct, List.prefix_rfl, fun q => ?_⟩, rfl⟩
      exact (or_iff_left_of_imp fun impossible => absurd impossible List.not_mem_nil).symm
  | cons r rest ih =>
      cases asks : r.quantity t.internal t.external with
      | error e =>
          have answered : t.answer r = .error e := by
            rw [answer, asks]
            rfl
          obtain ⟨served, answers⟩ := ih distinct opened
          simp only [serve, answered, List.map_cons, asks]
          exact ⟨(served_of_error distinct opened asks).cons served, congrArg _ answers⟩
      | ok q =>
          obtain ⟨next, answered, first⟩ := answer_opened distinct opened asks
          obtain ⟨served, answers⟩ := ih first.distinct first.opened
          have here : q ∈ next.quantities := by
            refine (first.known q).mpr (Or.inr ?_)
            rw [asked, List.filterMap_cons, asks]
            exact List.mem_cons_self
          rw [first.internal, first.external] at answers
          simp only [serve, answered, List.map_cons, asks]
          refine ⟨first.cons served, ?_⟩
          rw [answers, ← nameOf_of_prefix served.more here]
          rfl

/-- A frozen table never changes: it has the names of the quantities it knows, and refuses all others. -/
theorem serve_frozen (frozen : t.frozen = true) :
    t.serve requests = (requests.map fun r => do
      let q ← r.quantity t.internal t.external
      if q ∈ t.quantities then .ok (t.nameOf q) else .error (.misuse .frozenTable), t) := by
  induction requests with
  | nil => rfl
  | cons r rest ih =>
      have answered : t.answer r = (do
          let q ← r.quantity t.internal t.external
          if q ∈ t.quantities then .ok (t.nameOf q) else .error (.misuse .frozenTable)) >>=
          fun name => .ok (name, t) := by
        rw [answer]
        cases r.quantity t.internal t.external with
        | error e => rfl
        | ok q =>
            rw [Outcome.ok_bind, Outcome.ok_bind]
            split
            · next known => exact request_known known
            · next new => exact request_frozen new frozen
      rw [List.map_cons, serve, answered, ih]
      cases (do
        let q ← r.quantity t.internal t.external
        if q ∈ t.quantities then .ok (t.nameOf q) else .error (.misuse .frozenTable) : Except Failure String) with
      | error e => rfl
      | ok name => simp only [Outcome.ok_bind, ih]

end SymbolTable

end Galerkin
