import Mathlib
import Galerkin.Definition
import Galerkin.Proofs.Entries
import Galerkin.Proofs.Expansion.Hygiene
import Galerkin.Proofs.Expr.Substitution

/-!
Accesses of tensor definitions: the actual indices take the place of the declared ones, and nothing that the
body sums is captured.
-/

namespace Galerkin

open Usage

namespace Expansion

variable {K : Type} [ExactNumbers K]

/-- The components of an expression have some values, read at the values of its free indices. -/
def Tabulates (s : Setting) (v : Quantity → K) (e : Expr) (value : (Index → Nat) → K) : Prop :=
  ∃ entries free, components s e = .ok entries ∧ e.freeIndices = .ok free ∧
    ∀ ρ : Index → Nat, (∀ i ∈ free, ρ i < s.dim) →
      (entries.lookup (free.map ρ)).map (·.eval v) = some (value ρ)

theorem tabulates_meaning {s : Setting} {e : Expr} (v : Quantity → K) (accepted : e.Scoped false)
    (plain : e.hasPairing = false) (known : ∀ f ∈ e.fields, s.Knows f) :
    Tabulates s v e (e.meaning s.dim v) := by
  have each : ∀ env ∈ Assignment.all s.dim (e.freeIn false),
      ∃ entry, (do pure (env.map (·.2), ← expand s env e)) = Except.ok entry ∧
        entry.1 = env.map (·.2) ∧ entry.2.eval v = e.meaning s.dim v env.toFun := by
    intro env member
    obtain ⟨x, found, value⟩ := expand_value (v := v) accepted plain known (Assignment.covers_of_mem_all member)
    exact ⟨(env.map (·.2), x), Outcome.bind_eq_ok.mpr ⟨x, found, rfl⟩, rfl, value⟩
  obtain ⟨entries, found, matched⟩ := Outcome.mapM_of_forall each
  have whole := Expr.freeIndices_eq_ok.mpr ⟨accepted, rfl⟩
  refine ⟨entries, e.freeIn false, Outcome.bind_eq_ok.mpr ⟨_, whole, found⟩, whole, ?_⟩
  intro ρ small
  have keys : entries.map (·.1) = (Assignment.all s.dim (e.freeIn false)).map (·.map (·.2)) :=
    Outcome.map_eq_of_matched (matched.imp fun _ _ related => related.1)
  have listed : (e.freeIn false).map ρ ∈ entries.map (·.1) := by
    rw [keys, Assignment.mem_all_values]
    exact ⟨List.length_map _, List.forall_mem_map.mpr small⟩
  cases here : entries.lookup ((e.freeIn false).map ρ) with
  | none =>
    obtain ⟨entry, member, same⟩ := List.mem_map.mp listed
    exact absurd (List.lookup_eq_none_iff.mp here entry member) (by simp [same])
  | some x =>
    obtain ⟨env, inside, key, value⟩ := Outcome.exists_of_matched matched (mem_of_lookup here)
    rw [Option.map_some, value]
    refine congrArg some (Expr.meaning_congr accepted.balanced fun i free => ?_)
    rw [← Assignment.toFun_of_mem_all (Expr.nodup_freeIn e) inside] at key
    exact (List.map_inj_left.mp key i free).symm

theorem Tabulates.unique {s : Setting} {e : Expr} {v : Quantity → K} {g h : (Index → Nat) → K}
    (first : Tabulates s v e g) (second : Tabulates s v e h) {ρ : Index → Nat} (small : ∀ i, ρ i < s.dim) :
    g ρ = h ρ := by
  obtain ⟨_, _, expanded, free, values⟩ := first
  obtain ⟨_, _, again, same, others⟩ := second
  cases expanded.symm.trans again
  cases free.symm.trans same
  exact Option.some.inj ((values ρ fun i _ => small i).symm.trans (others ρ fun i _ => small i))

end Expansion

namespace Expr

@[simp] theorem fields_rename (f : Index → Index) (e : Expr) : (e.rename f).fields = e.fields := by
  induction e <;> simp_all [rename, fields]

end Expr

theorem Index.ofName_eq_ok {name : String} {i : Index} (named : Index.ofName name = .ok i) : i = ⟨name⟩ := by
  unfold Index.ofName at named
  split at named
  · cases named
  · split at named <;> cases named
    rfl

theorem Index.fresh_eq_ok {base : String} {n n' : Nat} {dummy : Index}
    (drawn : (Index.fresh base).run.run n = (.ok dummy, n')) :
    dummy = ⟨Index.freshName n base⟩ ∧ n' = n + 1 := by
  obtain ⟨number, later, taken, named⟩ := Outcome.run_bind_eq_ok.mp drawn
  cases taken
  cases checked : Index.ofName (Index.freshName n base) with
  | error e =>
    rw [checked] at named
    cases named
  | ok i =>
    rw [checked] at named
    cases named
    exact ⟨Index.ofName_eq_ok checked, rfl⟩

namespace Definition

/-! ### The names that an access issues -/

/-- The indices of a list that a renaming does not cover, each once. -/
def Renaming.missing (r : Renaming) (is : List Index) : List Index :=
  (unique is).filter fun i => !(r.lookup i).isSome

/-- Dummies for some indices, numbered from `n` on. -/
def dummiesFrom (n : Nat) : List Index → List Index
  | [] => []
  | i :: rest => ⟨Index.freshName n i.name⟩ :: dummiesFrom (n + 1) rest

/-- The indices of the body that are not declared, each once. -/
def inner (d : Definition) : List Index := (unique d.body.indices).filter fun i => !d.indices.contains i

/-- The dummies that an access issues when `n` is the next number. -/
def issued (d : Definition) (n : Nat) : List Index := dummiesFrom n d.inner

/-- The names that an access gives to the indices of the body. -/
def named (d : Definition) (actual : List Index) (n : Nat) : Index → Index :=
  Renaming.apply (d.indices.zip actual ++ d.inner.zip (d.issued n))

theorem Renaming.missing_cons_covered {r : Renaming} {i : Index} (rest : List Index)
    (covered : (r.lookup i).isSome) : r.missing (i :: rest) = r.missing rest := by
  rw [missing, unique_cons, List.filter_cons_of_neg (by rw [covered]; decide), List.filter_filter]
  refine List.filter_congr fun j _ => ?_
  by_cases same : j = i
  · rw [same, covered]
    rfl
  · rw [decide_eq_true same, Bool.and_true]

theorem Renaming.missing_cons_new {r : Renaming} {i : Index} (rest : List Index) (dummy : Index)
    (new : (r.lookup i).isSome = false) : r.missing (i :: rest) = i :: missing (r ++ [(i, dummy)]) rest := by
  rw [missing, unique_cons, List.filter_cons_of_pos (by rw [new]; decide), List.filter_filter, missing]
  refine congrArg (i :: ·) (List.filter_congr fun j _ => ?_)
  rw [List.lookup_append, Option.isSome_or]
  by_cases same : j = i
  · simp [same]
  · simp [same, List.lookup_cons, beq_false_of_ne same]

theorem length_dummiesFrom (n : Nat) (is : List Index) : (dummiesFrom n is).length = is.length := by
  induction is generalizing n with
  | nil => rfl
  | cons i rest ih => rw [dummiesFrom, List.length_cons, List.length_cons, ih]

theorem freshen_eq_ok {is : List Index} {r r' : Renaming} {n n' : Nat}
    (done : (freshen is r).run.run n = (.ok r', n')) :
    r' = r ++ (r.missing is).zip (dummiesFrom n (r.missing is)) ∧ n' = n + (r.missing is).length := by
  induction is generalizing r n with
  | nil =>
    cases done
    exact ⟨(List.append_nil _).symm, rfl⟩
  | cons i rest ih =>
    rw [freshen] at done
    cases covered : (r.lookup i).isSome with
    | true =>
      rw [if_pos covered] at done
      rw [Renaming.missing_cons_covered rest covered]
      exact ih done
    | false =>
      rw [if_neg (by rw [covered]; decide)] at done
      obtain ⟨dummy, later, drawn, others⟩ := Outcome.run_bind_eq_ok.mp done
      obtain ⟨rfl, rfl⟩ := Index.fresh_eq_ok drawn
      obtain ⟨names, count⟩ := ih others
      rw [names, count, Renaming.missing_cons_new rest _ covered, dummiesFrom, List.zip_cons_cons, List.append_assoc,
        List.length_cons]
      exact ⟨rfl, by omega⟩

theorem Renaming.lookup_zip_isSome {is js : List Index} (same : is.length = js.length) (i : Index) :
    (List.lookup i (is.zip js)).isSome = is.contains i := by
  induction is generalizing js with
  | nil => rfl
  | cons k rest ih =>
    obtain ⟨j, others, rfl⟩ := List.exists_cons_of_length_eq_add_one same.symm
    rw [List.zip_cons_cons, List.lookup_cons, List.contains_cons]
    cases i == k with
    | true => rfl
    | false => exact ih (Nat.succ.inj same)

/-- Distinct names become the ones they are listed with. -/
theorem Renaming.map_apply_zip {is js : List Index} (apart : is.Nodup) (same : is.length = js.length) :
    is.map (apply (is.zip js)) = js := by
  induction is generalizing js with
  | nil => exact (List.length_eq_zero_iff.mp same.symm).symm
  | cons k rest ih =>
    obtain ⟨j, others, rfl⟩ := List.exists_cons_of_length_eq_add_one same.symm
    obtain ⟨new, apart⟩ := List.nodup_cons.mp apart
    have later : ∀ i ∈ rest, apply ((k, j) :: rest.zip others) i = apply (rest.zip others) i := by
      intro i member
      have other : i ≠ k := fun equal => new (equal ▸ member)
      rw [apply, apply, List.lookup_cons, beq_false_of_ne other]
    rw [List.zip_cons_cons, List.map_cons, List.map_congr_left later, ih apart (Nat.succ.inj same), apply,
      List.lookup_cons, BEq.rfl]
    rfl

/-- The declared indices are distinct and are the free ones of an accepted body. -/
structure Formed (d : Definition) : Prop where
  declared : d.indices.Nodup
  accepted : d.body.Scoped false
  sides : ∀ i, i ∈ d.indices ↔ i ∈ d.body.freeIn false

theorem make_eq_ok {name : String} {indices : List Index} {body : Expr} {d : Definition}
    (made : make name indices body = .ok d) : d = ⟨name, indices, body⟩ ∧ d.Formed := by
  unfold make at made
  split at made
  · cases made
  · rename_i once
    obtain ⟨free, found, made⟩ := Outcome.bind_eq_ok.mp made
    obtain ⟨accepted, rfl⟩ := Expr.freeIndices_eq_ok.mp (Outcome.mapError_eq_ok.mp found)
    simp only at made
    split at made
    · rename_i agree
      cases made
      exact ⟨rfl, nodup_iff_length_unique.mpr (by simpa using once), accepted,
        difference_eq_nil.mp (List.isEmpty_iff.mp agree)⟩
    · cases made

/-- An access draws a number for each index of the body that is not declared. -/
theorem access_drawn {d : Definition} {actual : List Index} {e : Expr} {n n' : Nat}
    (accessed : (d.access actual).run.run n = (.ok e, n')) :
    d.indices.length = actual.length ∧ e = d.body.rename (d.named actual n) ∧ n' = n + d.inner.length := by
  unfold access at accessed
  split at accessed
  · cases accessed
  · rename_i fits
    have same : d.indices.length = actual.length := (by simpa [rank] using fits : actual.length = _).symm
    obtain ⟨names, later, drawn, result⟩ := Outcome.run_bind_eq_ok.mp accessed
    cases result
    have covered : Renaming.missing (d.indices.zip actual) d.body.indices = d.inner := by
      simp only [Renaming.missing, Renaming.lookup_zip_isSome same, inner]
    obtain ⟨names, count⟩ := freshen_eq_ok drawn
    rw [names, count, covered]
    exact ⟨same, rfl, rfl⟩

theorem access_eq_ok {d : Definition} {actual : List Index} {e : Expr} {n n' : Nat}
    (accessed : (d.access actual).run.run n = (.ok e, n')) :
    d.indices.length = actual.length ∧ e = d.body.rename (d.named actual n) :=
  (access_drawn accessed).imp_right And.left

/-! ### What an access means -/

variable {d : Definition} {actual : List Index} {n : Nat}

theorem Formed.map_named (formed : d.Formed) (fits : d.indices.length = actual.length) :
    d.indices.map (d.named actual n) = actual ∧ d.inner.map (d.named actual n) = d.issued n := by
  have issues : d.inner.length = (d.issued n).length := (length_dummiesFrom n d.inner).symm
  have apart : (d.indices ++ d.inner).Nodup := by
    refine List.nodup_append'.mpr ⟨formed.declared, (nodup_unique _).filter _, ?_⟩
    intro i declared other
    simp [inner, declared] at other
  have whole : (d.indices ++ d.inner).map (d.named actual n) = actual ++ d.issued n := by
    rw [named, ← List.zip_append fits]
    exact Renaming.map_apply_zip apart (by rw [List.length_append, List.length_append, fits, issues])
  rw [List.map_append] at whole
  exact List.append_inj whole (by rw [List.length_map, fits])

theorem Formed.named_of_declared (formed : d.Formed) (fits : d.indices.length = actual.length) {i : Index}
    (member : i ∈ d.indices) : d.named actual n i = Renaming.apply (d.indices.zip actual) i := by
  have names := (formed.map_named (n := n) fits).1.trans (Renaming.map_apply_zip formed.declared fits).symm
  exact List.map_inj_left.mp names i member

theorem Formed.mem_inner_of_summed (formed : d.Formed) {i : Index} (member : i ∈ d.body.summedIn false) :
    i ∈ d.inner := by
  have inside := Expr.mem_indices_of_mem_summedIn member
  have other : i ∉ d.indices := fun declared =>
    Expr.disjoint_summedIn_freeIn formed.accepted member ((formed.sides i).mp declared)
  simp [inner, inside, other]

/-- New names that differ among themselves and from the actual ones keep apart what the body sums. -/
theorem Formed.renamed (formed : d.Formed) (fits : d.indices.length = actual.length)
    (accepted : (d.body.rename (d.named actual n)).Scoped false) (distinct : (d.issued n).Nodup)
    (apart : (d.issued n).Disjoint actual) : Expr.Renamed (d.named actual n) d.body := by
  obtain ⟨declared, others⟩ := formed.map_named (n := n) fits
  refine ⟨formed.accepted, accepted, fun b summed i inside same => ?_⟩
  have dummy := formed.mem_inner_of_summed summed
  have issued : d.named actual n b ∈ d.issued n := others ▸ List.mem_map_of_mem dummy
  by_cases outer : i ∈ d.indices
  · have given : d.named actual n i ∈ d.indices.map (d.named actual n) := List.mem_map_of_mem outer
    rw [declared] at given
    exact absurd (same ▸ given) (apart issued)
  · rw [← others] at distinct
    exact List.inj_on_of_nodup_map distinct (by simp [inner, inside, outer]) dummy same

/-- The free indices of the body take the actual names, in some order. -/
theorem Formed.perm_actual (formed : d.Formed) (fits : d.indices.length = actual.length) :
    ((d.body.freeIn false).map (d.named actual n)).Perm actual := by
  have same : (d.body.freeIn false).Perm d.indices :=
    (List.perm_ext_iff_of_nodup (Expr.nodup_freeIn _) formed.declared).mpr fun i => (formed.sides i).symm
  have names := same.map (d.named actual n)
  rwa [(formed.map_named fits).1] at names

variable {K : Type} [ExactNumbers K]

/-- What an access expands to: the body at the actual indices, summed over those that occur twice. -/
theorem Formed.tabulates {s : Setting} (formed : d.Formed) (v : Quantity → K)
    (fits : d.indices.length = actual.length) (renamed : Expr.Renamed (d.named actual n) d.body)
    (plain : d.body.hasPairing = false) (known : ∀ f ∈ d.body.fields, s.Knows f)
    (pairs : ∀ x, actual.count x ≤ 2) :
    Expansion.Tabulates s v (d.body.rename (d.named actual n)) fun ρ =>
      sumOver s.dim (twice actual) ρ fun σ =>
        d.body.meaning s.dim v (σ ∘ Renaming.apply (d.indices.zip actual)) := by
  have names := formed.perm_actual (n := n) fits
  have few : Expr.AtMostPairs (d.named actual n) d.body := fun x => by
    rw [names.count_eq]
    exact pairs x
  have value := Expansion.tabulates_meaning (s := s) v renamed.after (by simpa using plain) (by simpa using known)
  convert value using 2 with ρ
  rw [renamed.substitutes few, sumOver_perm (perm_twice names)]
  refine sumOver_congr fun σ _ => Expr.meaning_congr formed.accepted.balanced fun i member => ?_
  exact congrArg σ (formed.named_of_declared fits ((formed.sides i).mpr member)).symm

/-- The free indices of an access are the actual indices that occur once, and its components are those of the
body at the actual indices, summed over the indices that occur twice. -/
theorem access_substitutes {name : String} {indices free : List Index} {body e : Expr} {n' : Nat}
    (made : make name indices body = .ok d) (accessed : (d.access actual).run.run n = (.ok e, n'))
    (accepted : e.freeIndices = .ok free) (distinct : (d.issued n).Nodup) (apart : (d.issued n).Disjoint actual) :
    (free.Nodup ∧ ∀ x, x ∈ free ↔ actual.count x = 1) ∧
    ∀ (s : Setting) (v : Quantity → K), body.hasPairing = false → (∀ f ∈ body.fields, s.Knows f) →
      (∀ x, actual.count x ≤ 2) →
      ∃ value, Expansion.Tabulates s v body value ∧
        Expansion.Tabulates s v e fun ρ =>
          sumOver s.dim (twice actual) ρ fun σ => value (σ ∘ Renaming.apply (indices.zip actual)) := by
  obtain ⟨same, formed⟩ := make_eq_ok made
  obtain ⟨fits, rfl⟩ := access_eq_ok accessed
  obtain ⟨inside, rfl⟩ := Expr.freeIndices_eq_ok.mp accepted
  have renamed := formed.renamed fits inside distinct apart
  refine ⟨⟨Expr.nodup_freeIn _, fun x => ?_⟩, fun s v plain known pairs => ?_⟩
  · rw [← (formed.perm_actual fits).count_eq]
    exact renamed.follows.free x
  · cases same
    exact ⟨body.meaning s.dim v, Expansion.tabulates_meaning v formed.accepted plain known,
      formed.tabulates v fits renamed plain known pairs⟩

section Example

/-- The stretch of a deformation, whose body sums the index `k`. -/
def stretched (u : Field) : Expr := .prod (.field u [⟨"k"⟩] [⟨"i"⟩] 0) (.field u [⟨"k"⟩] [⟨"j"⟩] 0)

/-- Its trace, named by the very index that its body sums. -/
theorem access_stretched :
    let u : Field := ⟨"u", 1, false⟩
    let s : Setting := ⟨2, ⟨2, [u]⟩, .empty 2⟩
    let k : Index := ⟨"k"⟩
    ∃ d e, make "stretch" [⟨"i"⟩, ⟨"j"⟩] (stretched u) = .ok d ∧
      (d.access [k, k]).run.run 0 = (.ok e, 1) ∧ e.freeIndices = .ok [] ∧
      ∃ value, Expansion.Tabulates s (fun _ => (3 : ℝ)) (stretched u) value ∧
        Expansion.Tabulates s (fun _ => (3 : ℝ)) e fun ρ =>
          sumOver 2 [k] ρ fun σ => value (σ ∘ Renaming.apply [(⟨"i"⟩, k), (⟨"j"⟩, k)]) := by
  intro u s k
  let d : Definition := ⟨"stretch", [⟨"i"⟩, ⟨"j"⟩], stretched u⟩
  let e : Expr := .prod (.field u [⟨"_k0"⟩] [k] 0) (.field u [⟨"_k0"⟩] [k] 0)
  have made : make "stretch" [⟨"i"⟩, ⟨"j"⟩] (stretched u) = .ok d := rfl
  have accessed : (d.access [k, k]).run.run 0 = (.ok e, 1) := rfl
  have accepted : e.freeIndices = .ok [] := rfl
  have apart : ∀ x ∈ d.issued 0, x ∉ [k, k] := by decide
  obtain ⟨-, values⟩ := access_substitutes (K := ℝ) made accessed accepted (by decide) fun x => apart x
  refine ⟨d, e, made, accessed, accepted, values s _ rfl ?_ ?_⟩
  · intro f member
    have same : f = u := by simpa [stretched, Expr.fields] using member
    rw [same]
    rfl
  · intro x
    by_cases same : x = k <;> simp [same, eq_comm]

/-- A product of two fields, none of whose four indices is summed. -/
def outer (a b : Field) : Expr := .prod (.field a [⟨"i"⟩, ⟨"j"⟩] [] 0) (.field b [⟨"k"⟩, ⟨"l"⟩] [] 0)

/-- One index in all four places is accepted, but each factor sums it on its own: a product of two traces and
not the sum over the common index. -/
theorem access_outer_apart :
    let a : Field := ⟨"a", 2, false⟩
    let b : Field := ⟨"b", 2, false⟩
    let s : Setting := ⟨2, ⟨2, [a, b]⟩, .empty 2⟩
    let m : Index := ⟨"m"⟩
    let v : Quantity → ℝ := fun q =>
      if q = .unknown "a" [0, 0] 0 none ∨ q = .unknown "b" [1, 1] 0 none then 1 else 0
    ∃ d e, make "outer" [⟨"i"⟩, ⟨"j"⟩, ⟨"k"⟩, ⟨"l"⟩] (outer a b) = .ok d ∧
      (d.access [m, m, m, m]).run.run 0 = (.ok e, 0) ∧ e.freeIndices = .ok [] ∧
      (d.issued 0).Nodup ∧ (d.issued 0).Disjoint [m, m, m, m] ∧
      ¬∃ value, Expansion.Tabulates s v (outer a b) value ∧
        Expansion.Tabulates s v e fun ρ => sumOver 2 [m] ρ fun σ =>
          value (σ ∘ Renaming.apply ([⟨"i"⟩, ⟨"j"⟩, ⟨"k"⟩, ⟨"l"⟩].zip [m, m, m, m])) := by
  intro a b s m v
  let d : Definition := ⟨"outer", [⟨"i"⟩, ⟨"j"⟩, ⟨"k"⟩, ⟨"l"⟩], outer a b⟩
  let e : Expr := .prod (.field a [m, m] [] 0) (.field b [m, m] [] 0)
  have accepted : e.freeIndices = .ok [] := rfl
  refine ⟨d, e, rfl, rfl, accepted, List.nodup_nil, List.disjoint_nil_left _, ?_⟩
  rintro ⟨value, body, access⟩
  have known : ∀ f ∈ [a, b], s.Knows f := by
    intro f member
    rcases List.mem_pair.mp member with rfl | rfl <;> rfl
  have bodyMeaning := Expansion.tabulates_meaning (s := s) v (e := outer a b)
    (Expr.freeIndices_eq_ok.mp rfl).1 rfl known
  have accessMeaning := Expansion.tabulates_meaning (s := s) v (Expr.freeIndices_eq_ok.mp accepted).1 rfl known
  have common : ∀ c < 2, value (Function.update (fun _ => 0) m c ∘
      Renaming.apply ([⟨"i"⟩, ⟨"j"⟩, ⟨"k"⟩, ⟨"l"⟩].zip [m, m, m, m])) = 0 := by
    intro c small
    rw [body.unique bodyMeaning]
    · have apart : v (Quantity.ofAccess a [c, c] none 0) * v (Quantity.ofAccess b [c, c] none 0) = 0 := by
        by_cases first : c = 0 <;> simp [v, a, b, Quantity.ofAccess, first]
      exact apart
    · intro i
      rw [Function.comp_apply, Function.update_apply]
      split
      · exact small
      · exact Nat.two_pos
  have total : e.meaning 2 v (fun _ => 0) = 1 := by
    have traces : e.meaning 2 v (fun _ => 0) =
        (∑ c ∈ Finset.range 2, v (Quantity.ofAccess a [c, c] none 0)) *
          ∑ c ∈ Finset.range 2, v (Quantity.ofAccess b [c, c] none 0) := rfl
    simp [traces, v, a, b, Quantity.ofAccess]
  have zero : sumOver 2 [m] (fun _ => 0) (fun σ =>
      value (σ ∘ Renaming.apply ([⟨"i"⟩, ⟨"j"⟩, ⟨"k"⟩, ⟨"l"⟩].zip [m, m, m, m]))) = 0 :=
    Finset.sum_eq_zero fun c member => common c (Finset.mem_range.mp member)
  have same := access.unique accessMeaning (ρ := fun _ => 0) (fun _ => by decide)
  exact zero_ne_one (zero.symm.trans (same.trans total))

end Example

end Definition

end Galerkin
