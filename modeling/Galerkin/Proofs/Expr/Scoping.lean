import Mathlib
import Galerkin.Expr.Usage
import Galerkin.Proofs.Outcome

/-!
The scopes of an expression. A closed product, a field access and a pairing open a scope each; the index
analysis accepts an expression exactly when its scopes agree and no index has two of them at once.
-/

namespace Galerkin

namespace Usage

theorem foldl_unique (seen is : List Index) :
    is.foldl (fun seen i => if seen.contains i then seen else seen ++ [i]) seen =
      seen ++ (unique is).filter (!seen.contains ·) := by
  induction is generalizing seen with
  | nil => simp [unique]
  | cons head tail ih =>
      have alone : unique (head :: tail) = head :: (unique tail).filter (· ≠ head) := by
        refine (ih [head]).trans (congrArg (head :: ·) (List.filter_congr ?_))
        intro i _
        simp
      rw [List.foldl_cons, ih, alone]
      by_cases member : head ∈ seen
      · rw [if_pos (List.contains_iff_mem.mpr member), List.filter_cons_of_neg (by simp [member]),
          List.filter_filter]
        congr 1
        apply List.filter_congr
        intro i _
        by_cases same : i = head <;> simp [same, member]
      · rw [if_neg (by simp [member]), List.filter_cons_of_pos (by simp [member]),
          List.filter_filter, List.append_assoc, List.singleton_append]
        congr 2
        apply List.filter_congr
        intro i _
        simp

@[simp] theorem unique_nil : unique [] = [] := rfl

theorem unique_cons (i : Index) (is : List Index) :
    unique (i :: is) = i :: (unique is).filter (· ≠ i) := by
  refine (foldl_unique [i] is).trans (congrArg (i :: ·) (List.filter_congr ?_))
  intro j _
  simp

theorem unique_append (a b : List Index) :
    unique (a ++ b) = unique a ++ (unique b).filter (!(unique a).contains ·) := by
  rw [unique, List.foldl_append, foldl_unique (List.foldl _ [] a) b]
  rfl

@[simp] theorem mem_unique {i : Index} {is : List Index} : i ∈ unique is ↔ i ∈ is := by
  induction is with
  | nil => rfl
  | cons head tail ih =>
      rw [unique_cons]
      by_cases same : i = head <;> simp [same, ih]

theorem nodup_unique (is : List Index) : (unique is).Nodup := by
  induction is with
  | nil => exact List.nodup_nil
  | cons head tail ih =>
      rw [unique_cons, List.nodup_cons]
      exact ⟨by simp, ih.filter _⟩

theorem unique_of_nodup {is : List Index} (apart : is.Nodup) : unique is = is := by
  induction is with
  | nil => rfl
  | cons head tail ih =>
      rw [List.nodup_cons] at apart
      rw [unique_cons, ih apart.2, List.filter_eq_self.mpr]
      intro i member
      have other : i ≠ head := fun same => apart.1 (same ▸ member)
      simp [other]

theorem unique_sublist (is : List Index) : (unique is).Sublist is := by
  induction is with
  | nil => exact List.Sublist.refl _
  | cons head tail ih =>
      rw [unique_cons]
      exact (List.filter_sublist.trans ih).cons_cons head

theorem nodup_iff_length_unique {is : List Index} : is.Nodup ↔ (unique is).length = is.length := by
  constructor
  · intro apart
    rw [unique_of_nodup apart]
  · intro same
    rw [← (unique_sublist is).eq_of_length same]
    exact nodup_unique is

theorem mem_once {i : Index} {is : List Index} : i ∈ once is ↔ is.count i = 1 := by
  simp only [once, List.mem_filter, mem_unique, beq_iff_eq, and_iff_right_iff_imp]
  intro single
  exact List.count_pos_iff.mp (by omega)

theorem mem_twice {i : Index} {is : List Index} : i ∈ twice is ↔ is.count i = 2 := by
  simp only [twice, List.mem_filter, mem_unique, beq_iff_eq, and_iff_right_iff_imp]
  intro double
  exact List.count_pos_iff.mp (by omega)

theorem mem_twice_or_once {is : List Index} (small : ∀ i, is.count i ≤ 2) {i : Index}
    (member : i ∈ is) : i ∈ twice is ∨ i ∈ once is := by
  have positive := List.count_pos_iff.mpr member
  have limit := small i
  by_cases double : is.count i = 2
  · exact Or.inl (mem_twice.mpr double)
  · exact Or.inr (mem_once.mpr (by omega))

theorem nodup_once (is : List Index) : (once is).Nodup := (nodup_unique is).filter _

theorem nodup_twice (is : List Index) : (twice is).Nodup := (nodup_unique is).filter _

theorem once_of_nodup {is : List Index} (apart : is.Nodup) : once is = is := by
  rw [once, unique_of_nodup apart, List.filter_eq_self]
  intro i member
  exact beq_iff_eq.mpr (List.count_eq_one_of_mem apart member)

theorem twice_of_nodup {is : List Index} (apart : is.Nodup) : twice is = [] := by
  rw [List.eq_nil_iff_forall_not_mem]
  intro i member
  have double := mem_twice.mp member
  have single := List.nodup_iff_count_le_one.mp apart i
  omega

theorem noneOverused_eq_ok {is : List Index} {passed : Unit} :
    noneOverused is = .ok passed ↔ ∀ i, is.count i ≤ 2 := by
  unfold noneOverused
  constructor
  · intro accepted i
    by_contra many
    have member : i ∈ unique is := mem_unique.mpr (List.count_pos_iff.mp (by omega))
    split at accepted
    · cases accepted
    · next none =>
        have small := List.find?_eq_none.mp none i member
        simp only [decide_eq_true_eq] at small
        omega
  · intro small
    split
    · next i found =>
        have many := List.find?_some found
        have limit := small i
        simp only [decide_eq_true_eq] at many
        omega
    · rfl

theorem noneIn_eq_ok {reason : FormReason} {clash : List Index} {passed : Unit} :
    noneIn reason clash = .ok passed ↔ clash = [] := by
  unfold noneIn
  cases clash with
  | nil => exact iff_of_true rfl rfl
  | cons head tail =>
      constructor <;> intro impossible <;> cases impossible

theorem common_eq_nil {a b : List Index} : common a b = [] ↔ a.Disjoint b := by
  rw [common, List.filter_eq_nil_iff]
  constructor
  · intro none i left right
    exact none i left (List.contains_iff_mem.mpr right)
  · intro apart i left right
    exact apart left (List.contains_iff_mem.mp right)

theorem difference_eq_nil {a b : List Index} : difference a b = [] ↔ ∀ i, i ∈ a ↔ i ∈ b := by
  simp only [difference, List.append_eq_nil_iff, List.filter_eq_nil_iff, List.contains_eq_mem,
    Bool.not_eq_true', decide_eq_false_iff_not, not_not]
  constructor
  · rintro ⟨left, right⟩ i
    exact ⟨left i, right i⟩
  · intro same
    exact ⟨fun i => (same i).mp, fun i => (same i).mpr⟩

theorem agree_eq_ok {reason : List String → List String → FormReason} {a b : List Index}
    {passed : Unit} : agree reason a b = .ok passed ↔ ∀ i, i ∈ a ↔ i ∈ b := by
  rw [← difference_eq_nil]
  simp only [agree]
  cases difference a b with
  | nil => exact iff_of_true rfl rfl
  | cons head tail =>
      constructor <;> intro impossible <;> cases impossible

theorem checked_eq_ok {u w : Usage} : checked u = .ok w ↔ u.summed.Disjoint u.free ∧ u = w := by
  unfold checked
  simp only [Outcome.bind_eq_ok, noneIn_eq_ok, common_eq_nil, Outcome.pure_eq_ok, exists_const]

theorem ofFactors_eq_ok {u w : Usage} :
    ofFactors u = .ok w ↔
      (∀ i, u.free.count i ≤ 2) ∧ u.summed.Disjoint u.free ∧
        ⟨once u.free, u.summed ++ twice u.free⟩ = w := by
  unfold ofFactors
  simp only [Outcome.bind_eq_ok, noneOverused_eq_ok, noneIn_eq_ok, common_eq_nil,
    Outcome.pure_eq_ok, exists_const]

theorem unless_eq_ok {α β : Type} {c : Prop} [Decidable c] {reason : FormReason}
    {index : Option String} {f : β → Except Failure α} {rest : Except Failure α} {a : α} :
    (if c then failAt reason index >>= f else rest) = .ok a ↔ ¬ c ∧ rest = .ok a := by
  by_cases holds : c
  · rw [if_pos holds]
    constructor
    · intro impossible
      cases impossible
    · intro both
      exact absurd holds both.1
  · rw [if_neg holds]
    exact (and_iff_right holds).symm

theorem ofAccess_eq_ok {f : Field} {comps derivs : List Index} {t : Nat} {u : Usage} :
    ofAccess f comps derivs t = .ok u ↔
      comps.length = f.rank ∧ derivs.length ≤ 1 ∧ t ≤ 1 ∧ (f.external → t = 0) ∧
        (∀ i, (comps ++ derivs).count i ≤ 2) ∧
        ⟨once (comps ++ derivs), twice (comps ++ derivs)⟩ = u := by
  have rate : (¬ (decide (0 < t) && f.external) = true) ↔ (f.external → t = 0) := by
    cases f.external <;> simp
  unfold ofAccess
  simp only [unless_eq_ok]
  rcases derivs with _ | ⟨i, _ | ⟨j, rest⟩⟩
  · simp only [unless_eq_ok, rate, bne_iff_ne, ne_eq, not_not, not_lt, Outcome.bind_eq_ok,
      noneOverused_eq_ok, Outcome.pure_eq_ok, exists_const, List.length_nil, zero_le, true_and]
  · simp only [unless_eq_ok, rate, bne_iff_ne, ne_eq, not_not, not_lt, Outcome.bind_eq_ok,
      noneOverused_eq_ok, Outcome.pure_eq_ok, exists_const, List.length_singleton, le_refl,
      true_and]
  · constructor
    · rintro ⟨_, impossible⟩
      cases impossible
    · rintro ⟨_, impossible, _⟩
      simp at impossible

end Usage

namespace Expr

open Usage

/-- The indices that a node leaves free; an open product lists those of its factors, repetitions included. -/
def freeIn (asFactor : Bool) : Expr → List Index
  | field _ comps derivs _ => once (comps ++ derivs)
  | normal i => [i]
  | delta i j => if i = j then [] else [i, j]
  | sum a _ => freeIn false a
  | prod a b =>
    let occurrences := freeIn true a ++ freeIn true b
    if asFactor then occurrences else once occurrences
  | quot a _ => freeIn false a
  | _ => []

/-- The indices summed or paired somewhere inside a node. -/
def summedIn (asFactor : Bool) : Expr → List Index
  | field _ comps derivs _ => twice (comps ++ derivs)
  | delta i j => if i = j then [i] else []
  | sum a b | quot a b | power a b => summedIn false a ++ summedIn false b
  | prod a b =>
    let inner := summedIn true a ++ summedIn true b
    if asFactor then inner else inner ++ twice (freeIn true a ++ freeIn true b)
  | apply _ x => summedIn false x
  | pairing a b => summedIn false a ++ summedIn false b ++ freeIn false a
  | _ => []

/-- The scopes of a node agree, use no index more than twice, and do not use one that is summed further inside. -/
def Scoped (asFactor : Bool) : Expr → Prop
  | field f comps derivs t =>
    comps.length = f.rank ∧ derivs.length ≤ 1 ∧ t ≤ 1 ∧ (f.external → t = 0) ∧
      ∀ i, (comps ++ derivs).count i ≤ 2
  | bare f => f.rank = 0
  | sum a b =>
    Scoped false a ∧ Scoped false b ∧ (∀ i, i ∈ freeIn false a ↔ i ∈ freeIn false b) ∧
      (summedIn false a ++ summedIn false b).Disjoint (freeIn false a)
  | prod a b =>
    Scoped true a ∧ Scoped true b ∧
      (asFactor = false →
        (∀ i, (freeIn true a ++ freeIn true b).count i ≤ 2) ∧
        (summedIn true a ++ summedIn true b).Disjoint (freeIn true a ++ freeIn true b))
  | quot a b =>
    Scoped false a ∧ Scoped false b ∧ freeIn false b = [] ∧
      (summedIn false a ++ summedIn false b).Disjoint (freeIn false a)
  | power a b => Scoped false a ∧ Scoped false b ∧ freeIn false a = [] ∧ freeIn false b = []
  | apply _ x => Scoped false x ∧ freeIn false x = []
  | pairing a b =>
    Scoped false a ∧ Scoped false b ∧ (∀ i, i ∈ freeIn false a ↔ i ∈ freeIn false b) ∧
      (freeIn false a).Disjoint (summedIn false a ++ summedIn false b)
  | _ => True

theorem disjoint_twice_once (is : List Index) : (twice is).Disjoint (once is) := by
  intro i double single
  have two := mem_twice.mp double
  have one := mem_once.mp single
  omega

/-- Operands that must be closed are. -/
theorem closed_eq_ok {reason : FormReason} {free : List Index} {rest : Except Failure Usage} {u : Usage} :
    (match free with
      | i :: _ => failAt reason (some i.name)
      | [] => rest) = .ok u ↔ free = [] ∧ rest = .ok u := by
  cases free with
  | nil => exact (and_iff_right rfl).symm
  | cons i others =>
      constructor
      · intro impossible
        cases impossible
      · rintro ⟨impossible, _⟩
        cases impossible

/-- The index analysis accepts an expression exactly when it is well scoped. -/
theorem usageIn_eq_ok {asFactor : Bool} {e : Expr} {u : Usage} :
    usageIn asFactor e = .ok u ↔
      Scoped asFactor e ∧ ⟨freeIn asFactor e, summedIn asFactor e⟩ = u := by
  induction e generalizing asFactor u with
  | const value => simp [usageIn, Scoped, freeIn, summedIn]
  | param name => simp [usageIn, Scoped, freeIn, summedIn]
  | normal i => simp [usageIn, Scoped, freeIn, summedIn]
  | delta i j =>
      by_cases same : i = j <;> simp [usageIn, Scoped, freeIn, summedIn, same]
  | field f comps derivs t =>
      simp only [usageIn, Outcome.bind_eq_ok, ofAccess_eq_ok, checked_eq_ok, Scoped, freeIn, summedIn]
      constructor
      · rintro ⟨_, ⟨rank, first, early, rate, small, rfl⟩, _, same⟩
        exact ⟨⟨rank, first, early, rate, small⟩, same⟩
      · rintro ⟨⟨rank, first, early, rate, small⟩, same⟩
        exact ⟨_, ⟨rank, first, early, rate, small, rfl⟩, disjoint_twice_once _, same⟩
  | bare f =>
      simp only [usageIn, Outcome.bind_eq_ok, ofAccess_eq_ok, checked_eq_ok, Scoped, freeIn, summedIn]
      constructor
      · rintro ⟨_, ⟨rank, _, _, _, _, rfl⟩, _, same⟩
        exact ⟨rank.symm, same⟩
      · rintro ⟨rank, same⟩
        exact ⟨_, ⟨rank.symm, by simp, by simp, by simp, by simp, rfl⟩, disjoint_twice_once _, same⟩
  | sum a b iha ihb =>
      simp only [usageIn, Outcome.bind_eq_ok, iha, ihb, agree_eq_ok, checked_eq_ok, exists_const,
        Scoped, freeIn, summedIn]
      constructor
      · rintro ⟨_, ⟨left, rfl⟩, _, ⟨right, rfl⟩, same, apart, result⟩
        exact ⟨⟨left, right, same, apart⟩, result⟩
      · rintro ⟨⟨left, right, same, apart⟩, result⟩
        exact ⟨_, ⟨left, rfl⟩, _, ⟨right, rfl⟩, same, apart, result⟩
  | prod a b iha ihb =>
      simp only [usageIn, Outcome.bind_eq_ok, iha, ihb, Scoped, freeIn, summedIn]
      cases asFactor with
      | true =>
          simp only [↓reduceIte, Outcome.pure_eq_ok]
          constructor
          · rintro ⟨_, ⟨left, rfl⟩, _, ⟨right, rfl⟩, result⟩
            exact ⟨⟨left, right, by simp⟩, result⟩
          · rintro ⟨⟨left, right, _⟩, result⟩
            exact ⟨_, ⟨left, rfl⟩, _, ⟨right, rfl⟩, result⟩
      | false =>
          simp only [Bool.false_eq_true, ↓reduceIte, Outcome.bind_eq_ok, ofFactors_eq_ok,
            checked_eq_ok, forall_const]
          constructor
          · rintro ⟨_, ⟨left, rfl⟩, _, ⟨right, rfl⟩, _, ⟨small, apart, rfl⟩, _, result⟩
            exact ⟨⟨left, right, small, apart⟩, result⟩
          · rintro ⟨⟨left, right, small, apart⟩, result⟩
            refine ⟨_, ⟨left, rfl⟩, _, ⟨right, rfl⟩, _, ⟨small, apart, rfl⟩, ?_, result⟩
            rw [List.disjoint_append_left]
            refine ⟨?_, disjoint_twice_once _⟩
            intro i inner outer
            exact apart inner (mem_unique.mp (List.mem_of_mem_filter outer))
  | quot a b iha ihb =>
      simp only [usageIn, Outcome.bind_eq_ok, iha, ihb, Scoped, freeIn, summedIn]
      constructor
      · rintro ⟨_, ⟨left, rfl⟩, _, ⟨right, rfl⟩, rest⟩
        obtain ⟨closed, last⟩ := closed_eq_ok.mp rest
        obtain ⟨apart, result⟩ := checked_eq_ok.mp last
        exact ⟨⟨left, right, closed, apart⟩, result⟩
      · rintro ⟨⟨left, right, closed, apart⟩, result⟩
        have last := checked_eq_ok.mpr ⟨apart, result⟩
        exact ⟨_, ⟨left, rfl⟩, _, ⟨right, rfl⟩, closed_eq_ok.mpr ⟨closed, last⟩⟩
  | power a b iha ihb =>
      simp only [usageIn, Outcome.bind_eq_ok, iha, ihb, Scoped, freeIn, summedIn]
      constructor
      · rintro ⟨_, ⟨left, rfl⟩, _, ⟨right, rfl⟩, rest⟩
        obtain ⟨closed, result⟩ := closed_eq_ok.mp rest
        obtain ⟨base, exponent⟩ := List.append_eq_nil_iff.mp closed
        exact ⟨⟨left, right, base, exponent⟩, Except.ok.inj result⟩
      · rintro ⟨⟨left, right, base, exponent⟩, result⟩
        have closed := List.append_eq_nil_iff.mpr ⟨base, exponent⟩
        exact ⟨_, ⟨left, rfl⟩, _, ⟨right, rfl⟩, closed_eq_ok.mpr ⟨closed, congrArg Except.ok result⟩⟩
  | apply f x ih =>
      simp only [usageIn, Outcome.bind_eq_ok, ih, Scoped, freeIn, summedIn]
      constructor
      · rintro ⟨_, ⟨inner, rfl⟩, rest⟩
        obtain ⟨closed, result⟩ := closed_eq_ok.mp rest
        exact ⟨⟨inner, closed⟩, Except.ok.inj result⟩
      · rintro ⟨⟨inner, closed⟩, result⟩
        exact ⟨_, ⟨inner, rfl⟩, closed_eq_ok.mpr ⟨closed, congrArg Except.ok result⟩⟩
  | pairing a b iha ihb =>
      simp only [usageIn, Outcome.bind_eq_ok, iha, ihb, agree_eq_ok, noneIn_eq_ok, common_eq_nil,
        Outcome.pure_eq_ok, exists_const, Scoped, freeIn, summedIn]
      constructor
      · rintro ⟨_, ⟨left, rfl⟩, _, ⟨right, rfl⟩, same, apart, result⟩
        exact ⟨⟨left, right, same, apart⟩, result⟩
      · rintro ⟨⟨left, right, same, apart⟩, result⟩
        exact ⟨_, ⟨left, rfl⟩, _, ⟨right, rfl⟩, same, apart, result⟩

theorem freeIndices_eq_ok {e : Expr} {free : List Index} :
    e.freeIndices = .ok free ↔ Scoped false e ∧ freeIn false e = free := by
  simp only [freeIndices, usage, Outcome.bind_eq_ok, Outcome.pure_eq_ok, usageIn_eq_ok]
  constructor
  · rintro ⟨_, ⟨accepted, rfl⟩, result⟩
    exact ⟨accepted, result⟩
  · rintro ⟨accepted, result⟩
    exact ⟨_, ⟨accepted, rfl⟩, result⟩

theorem occurrences_of_scoped {e : Expr} (accepted : Scoped true e) :
    e.occurrences = .ok (freeIn true e) := by
  simp only [occurrences, Outcome.bind_eq_ok, Outcome.pure_eq_ok, usageIn_eq_ok]
  exact ⟨_, ⟨accepted, rfl⟩, rfl⟩

/-- What some factors leave free, repetitions included. -/
def exposed (fs : List Expr) : List Index := fs.flatMap (freeIn false)

/-- Nested products are one product to the index analysis. -/
theorem freeIn_factors (e : Expr) : freeIn true e = exposed e.factors := by
  induction e with
  | prod a b iha ihb =>
      rw [exposed, factors, List.flatMap_append, ← exposed, ← exposed, ← iha, ← ihb]
      rfl
  | _ => simp [exposed, factors, freeIn]

theorem nodup_freeIn (e : Expr) : (freeIn false e).Nodup := by
  induction e with
  | field f comps derivs t => exact nodup_once _
  | normal i => exact List.nodup_singleton i
  | delta i j =>
      by_cases same : i = j
      · simp [freeIn, same]
      · simp [freeIn, same]
  | sum a b iha _ => exact iha
  | prod a b _ _ => exact nodup_once _
  | quot a b iha _ => exact iha
  | _ => exact List.nodup_nil

theorem mem_indices_of_mem_freeIn {asFactor : Bool} {e : Expr} {i : Index}
    (member : i ∈ freeIn asFactor e) : i ∈ e.indices := by
  induction e generalizing asFactor with
  | field f comps derivs t => exact mem_unique.mp (List.mem_of_mem_filter member)
  | normal j => exact member
  | delta j k =>
      by_cases same : j = k
      · simp [freeIn, same] at member
      · simpa [freeIn, same, indices, leafIndices] using member
  | sum a b iha _ => exact List.mem_append_left _ (iha member)
  | prod a b iha ihb =>
      have inside : i ∈ freeIn true a ++ freeIn true b := by
        cases asFactor with
        | true => exact member
        | false => exact mem_unique.mp (List.mem_of_mem_filter member)
      rcases List.mem_append.mp inside with left | right
      · exact List.mem_append_left _ (iha left)
      · exact List.mem_append_right _ (ihb right)
  | quot a b iha _ => exact List.mem_append_left _ (iha member)
  | _ => cases member

theorem mem_indices_of_mem_summedIn {asFactor : Bool} {e : Expr} {i : Index} (member : i ∈ summedIn asFactor e) :
    i ∈ e.indices := by
  induction e generalizing asFactor with
  | field f comps derivs t => exact mem_unique.mp (List.mem_of_mem_filter member)
  | delta j k =>
    by_cases same : j = k
    · simpa [summedIn, same, indices, leafIndices] using member
    · simp [summedIn, same] at member
  | prod a b iha ihb =>
    have inside : i ∈ summedIn true a ++ summedIn true b ∨ i ∈ freeIn true a ++ freeIn true b := by
      cases asFactor with
      | true => exact Or.inl member
      | false =>
        rcases List.mem_append.mp member with inner | both
        · exact Or.inl inner
        · exact Or.inr (mem_unique.mp (List.mem_of_mem_filter both))
    rcases inside with inner | outer
    · exact List.mem_append.mpr ((List.mem_append.mp inner).imp iha ihb)
    · exact List.mem_append.mpr ((List.mem_append.mp outer).imp mem_indices_of_mem_freeIn mem_indices_of_mem_freeIn)
  | sum a b iha ihb | quot a b iha ihb | power a b iha ihb =>
    exact List.mem_append.mpr ((List.mem_append.mp member).imp iha ihb)
  | apply f x ih => exact ih member
  | pairing a b iha ihb =>
    rcases List.mem_append.mp member with inner | paired
    · exact List.mem_append.mpr ((List.mem_append.mp inner).imp iha ihb)
    · exact List.mem_append_left _ (mem_indices_of_mem_freeIn paired)
  | _ => cases member

theorem filter_unique_append {p : Index → Bool} {a b c d : List Index}
    (left : (unique a).filter p = (unique c).filter p)
    (right : (unique b).filter p = (unique d).filter p) :
    (unique (a ++ b)).filter p = (unique (c ++ d)).filter p := by
  have within : ∀ i, p i → (i ∈ a ↔ i ∈ c) := by
    intro i kept
    have same := congrArg (i ∈ ·) left
    simpa [kept] using same
  rw [unique_append, unique_append, List.filter_append, List.filter_append, left,
    List.filter_filter, List.filter_filter]
  congr 1
  calc (unique b).filter (fun i => p i && !(unique a).contains i)
      = ((unique b).filter p).filter (!(unique a).contains ·) := by
        rw [List.filter_filter]
        exact List.filter_congr fun i _ => Bool.and_comm _ _
    _ = ((unique d).filter p).filter (!(unique c).contains ·) := by
        rw [right]
        apply List.filter_congr
        intro i member
        have kept := List.of_mem_filter member
        simp [within i kept]
    _ = (unique d).filter (fun i => p i && !(unique c).contains i) := by
        rw [List.filter_filter]
        exact List.filter_congr fun i _ => Bool.and_comm _ _

/-- Of two operands, each is asked only about what it sums itself. -/
theorem filter_unique_operands {p : Index → Bool} {a b c d inner inner' : List Index}
    (outside : ∀ i, p i → i ∉ inner ++ inner')
    (left : (∀ i, p i → i ∉ inner) → (unique a).filter p = (unique c).filter p)
    (right : (∀ i, p i → i ∉ inner') → (unique b).filter p = (unique d).filter p) :
    (unique (a ++ b)).filter p = (unique (c ++ d)).filter p :=
  filter_unique_append (left fun i kept member => outside i kept (List.mem_append_left _ member))
    (right fun i kept member => outside i kept (List.mem_append_right _ member))

theorem filter_unique_absorb {p : Index → Bool} {a b : List Index}
    (inside : ∀ i ∈ b, p i → i ∈ a) : (unique (a ++ b)).filter p = (unique a).filter p := by
  rw [unique_append, List.filter_append, List.append_right_eq_self, List.filter_filter,
    List.filter_eq_nil_iff]
  intro i member both
  simp only [Bool.and_eq_true, Bool.not_eq_true', List.contains_eq_mem, mem_unique,
    decide_eq_false_iff_not] at both
  exact both.2 (inside i (mem_unique.mp member) both.1)

theorem filter_unique_closed {p : Index → Bool} {is : List Index} (none : ∀ i ∈ is, p i = false) :
    (unique is).filter p = [] := by
  rw [List.filter_eq_nil_iff]
  intro i member
  simp [none i (mem_unique.mp member)]

theorem filter_unique_once {p : Index → Bool} {is : List Index} (small : ∀ i, is.count i ≤ 2)
    (outside : ∀ i, p i → i ∉ twice is) : (unique (once is)).filter p = (unique is).filter p := by
  rw [unique_of_nodup (nodup_once is), once, List.filter_filter]
  apply List.filter_congr
  intro i member
  by_cases kept : p i
  · have positive := List.count_pos_iff.mpr (mem_unique.mp member)
    have limit := small i
    have other : is.count i ≠ 2 := fun double => outside i kept (mem_twice.mpr double)
    have single : is.count i = 1 := by omega
    simp [kept, single]
  · simp [kept]

/-- Where nothing is summed, indices appear in the order in which they are listed as free. -/
theorem filter_unique_indices {asFactor : Bool} {e : Expr} {p : Index → Bool}
    (accepted : Scoped asFactor e) (outside : ∀ i, p i → i ∉ summedIn asFactor e) :
    (unique e.indices).filter p = (unique (freeIn asFactor e)).filter p := by
  induction e generalizing asFactor with
  | const value => rfl
  | param name => rfl
  | bare f => rfl
  | normal i => rfl
  | field f comps derivs t =>
      exact (filter_unique_once accepted.2.2.2.2 outside).symm
  | delta i j =>
      by_cases same : i = j
      · subst same
        have none : p i = false := by
          by_contra kept
          exact outside i (by simpa using kept) (by simp [summedIn])
        simp [indices, leafIndices, freeIn, unique_cons, none]
      · simp [indices, leafIndices, freeIn, same]
  | sum a b iha ihb =>
      obtain ⟨left, right, same, _⟩ := accepted
      have outer := filter_unique_operands outside (iha left) (ihb right)
      exact outer.trans (filter_unique_absorb fun i member _ => (same i).mpr member)
  | prod a b iha ihb =>
      obtain ⟨left, right, closed⟩ := accepted
      have inner : ∀ i, p i → i ∉ summedIn true a ++ summedIn true b := by
        intro i kept member
        cases asFactor with
        | true => exact outside i kept member
        | false => exact outside i kept (List.mem_append_left _ member)
      have outer := filter_unique_operands inner (iha left) (ihb right)
      cases asFactor with
      | true => exact outer
      | false =>
          exact outer.trans (filter_unique_once (closed rfl).1
            fun i kept member => outside i kept (List.mem_append_right _ member)).symm
  | quot a b iha ihb =>
      obtain ⟨left, right, closed, _⟩ := accepted
      have outer := filter_unique_operands outside (iha left) (ihb right)
      rw [closed, List.append_nil] at outer
      exact outer
  | power a b iha ihb =>
      obtain ⟨left, right, base, exponent⟩ := accepted
      have outer := filter_unique_operands outside (iha left) (ihb right)
      rw [base, exponent] at outer
      exact outer
  | apply f x ih =>
      obtain ⟨inside, closed⟩ := accepted
      have inner := ih inside outside
      rw [closed] at inner
      exact inner
  | pairing a b iha ihb =>
      obtain ⟨left, right, same, _⟩ := accepted
      have inner : ∀ i, p i → i ∉ summedIn false a ++ summedIn false b := fun i kept member =>
        outside i kept (List.mem_append_left _ member)
      have outer := filter_unique_operands inner (iha left) (ihb right)
      refine outer.trans (filter_unique_closed ?_)
      intro i member
      have paired : i ∈ freeIn false a := by
        rcases List.mem_append.mp member with first | second
        · exact first
        · exact (same i).mpr second
      by_contra kept
      exact outside i (by simpa using kept) (List.mem_append_right _ paired)

/-- In a closed expression no index is both free and summed. -/
theorem disjoint_summedIn_freeIn {e : Expr} (accepted : Scoped false e) :
    (summedIn false e).Disjoint (freeIn false e) := by
  cases e with
  | field f comps derivs t => exact disjoint_twice_once _
  | sum a b => exact accepted.2.2.2
  | quot a b => exact accepted.2.2.2
  | prod a b =>
      intro i inner outer
      have single := mem_once.mp outer
      rcases List.mem_append.mp inner with inside | contracted
      · exact (accepted.2.2 rfl).2 inside (List.count_pos_iff.mp (by omega))
      · have double := mem_twice.mp contracted
        omega
  | delta j k =>
      by_cases same : j = k
      · simp [freeIn, same]
      · simp [summedIn, same]
  | normal i => exact List.disjoint_nil_left _
  | _ => exact List.disjoint_nil_right _

/-- The free indices come in the order of their first appearance. -/
theorem freeIn_eq_filter_indices {e : Expr} (accepted : Scoped false e) :
    freeIn false e = (unique e.indices).filter ((freeIn false e).contains ·) := by
  have kept : ∀ i, (freeIn false e).contains i → i ∉ summedIn false e := by
    intro i member inner
    exact disjoint_summedIn_freeIn accepted inner (List.contains_iff_mem.mp member)
  rw [filter_unique_indices accepted kept, unique_of_nodup (nodup_freeIn e), eq_comm,
    List.filter_eq_self]
  intro i member
  exact List.contains_iff_mem.mpr member

end Expr

end Galerkin
