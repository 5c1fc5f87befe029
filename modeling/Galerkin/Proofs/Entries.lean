import Mathlib

/-!
Lists of keys with something to each key: what is found at a key, and the sum of the values that stand at it.
-/

namespace Galerkin

section Lookup

variable {κ β : Type} [BEq κ] [LawfulBEq κ] {entries : List (κ × β)}

theorem mem_of_lookup {key : κ} {b : β} (found : entries.lookup key = some b) : (key, b) ∈ entries := by
  obtain ⟨before, after, rfl, -⟩ := List.lookup_eq_some_iff.mp found
  exact List.mem_append_right before List.mem_cons_self

theorem lookup_of_mem (distinct : (entries.map (·.1)).Nodup) {entry : κ × β} (member : entry ∈ entries) :
    entries.lookup entry.1 = some entry.2 := by
  obtain ⟨before, behind, rfl⟩ := List.append_of_mem member
  refine List.lookup_eq_some_iff.mpr ⟨before, behind, rfl, fun other earlier => ?_⟩
  rw [List.map_append, List.map_cons, List.nodup_append] at distinct
  exact bne_iff_ne.mpr (distinct.2.2 _ (List.mem_map_of_mem earlier) _ List.mem_cons_self).symm

end Lookup

variable {κ β γ K : Type} [DecidableEq κ] [AddCommMonoid K]

/-- The sum of the values of all entries with a key. -/
def sumAt (value : β → K) (entries : List (κ × β)) (key : κ) : K :=
  (entries.map fun t => if t.1 = key then value t.2 else 0).sum

@[simp] theorem sumAt_nil (value : β → K) (key : κ) : sumAt value [] key = 0 := rfl

@[simp] theorem sumAt_cons (value : β → K) (t : κ × β) (entries : List (κ × β)) (key : κ) :
    sumAt value (t :: entries) key = (if t.1 = key then value t.2 else 0) + sumAt value entries key := by
  simp [sumAt]

theorem sumAt_append (value : β → K) (xs ys : List (κ × β)) (key : κ) :
    sumAt value (xs ++ ys) key = sumAt value xs key + sumAt value ys key := by
  simp [sumAt]

theorem sumAt_perm {value : β → K} {xs ys : List (κ × β)} (same : xs.Perm ys) (key : κ) :
    sumAt value xs key = sumAt value ys key :=
  (same.map _).sum_eq

theorem sumAt_of_notMem {value : β → K} {entries : List (κ × β)} {key : κ}
    (absent : key ∉ entries.map (·.1)) : sumAt value entries key = 0 := by
  induction entries with
  | nil => rfl
  | cons head tail ih =>
      rw [List.map_cons, List.mem_cons, not_or] at absent
      rw [sumAt_cons, if_neg (Ne.symm absent.1), ih absent.2, add_zero]

theorem sumAt_of_mem {value : β → K} {entries : List (κ × β)} {key : κ} {b : β}
    (distinct : (entries.map (·.1)).Nodup) (member : (key, b) ∈ entries) :
    sumAt value entries key = value b := by
  induction entries with
  | nil => cases member
  | cons head tail ih =>
      rw [List.map_cons, List.nodup_cons] at distinct
      rcases List.mem_cons.mp member with rfl | later
      · rw [sumAt_cons, if_pos rfl, sumAt_of_notMem distinct.1, add_zero]
      · have apart : head.1 ≠ key := fun same =>
          distinct.1 (same ▸ List.mem_map_of_mem later)
        rw [sumAt_cons, if_neg apart, zero_add, ih distinct.2 later]

/-- Where every key has one entry, the sum at a key is the value of its entry. -/
theorem sumAt_eq_lookup [BEq κ] [LawfulBEq κ] {value : β → K} {entries : List (κ × β)}
    (distinct : (entries.map (·.1)).Nodup) (key : κ) :
    sumAt value entries key = ((entries.lookup key).map value).getD 0 := by
  cases found : entries.lookup key with
  | none =>
      refine sumAt_of_notMem fun member => ?_
      obtain ⟨t, inside, rfl⟩ := List.mem_map.mp member
      exact absurd (List.lookup_eq_none_iff.mp found t inside) (by simp)
  | some b =>
      exact sumAt_of_mem distinct (mem_of_lookup found)

theorem sumAt_filter {value : β → K} {p : κ × β → Bool} {entries : List (κ × β)}
    (dropped : ∀ t ∈ entries, p t = false → value t.2 = 0) (key : κ) :
    sumAt value (entries.filter p) key = sumAt value entries key := by
  induction entries with
  | nil => rfl
  | cons head tail ih =>
      have rest := ih fun t member => dropped t (List.mem_cons_of_mem head member)
      cases kept : p head with
      | true => rw [List.filter_cons_of_pos kept, sumAt_cons, sumAt_cons, rest]
      | false =>
          have none := dropped head List.mem_cons_self kept
          rw [List.filter_cons_of_neg (by simp [kept]), sumAt_cons, rest, none, ite_self, zero_add]

theorem sumAt_matched {value : β → K} {value' : γ → K} {xs : List (κ × β)} {ys : List (κ × γ)}
    (matched : List.Forall₂ (fun x y => x.1 = y.1 ∧ value x.2 = value' y.2) xs ys) (key : κ) :
    sumAt value xs key = sumAt value' ys key := by
  induction matched with
  | nil => rfl
  | cons first _ ih => rw [sumAt_cons, sumAt_cons, first.1, first.2, ih]

omit [DecidableEq κ] in
/-- New things to the keys of old ones. -/
theorem zip_matched {R : β → γ → Prop} {entries : List (κ × β)} {new : List γ}
    (matched : List.Forall₂ R (entries.map (·.2)) new) :
    List.Forall₂ (fun x y => y.1 = x.1 ∧ R x.2 y.2) entries ((entries.map (·.1)).zip new) := by
  induction entries generalizing new with
  | nil =>
      cases matched
      exact .nil
  | cons head tail ih =>
      cases matched with
      | cons first rest => exact .cons ⟨rfl, first⟩ (ih rest)

end Galerkin
