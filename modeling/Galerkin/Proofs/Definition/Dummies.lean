import Mathlib
import Galerkin.Proofs.Definition
import Galerkin.Proofs.Reading.Parse

/-!
Names of dummies. A name and its number are written without a mark between them, so that a name which ends in
digits may meet a shorter one with a larger number; apart from that no two dummies are the same.
-/

namespace Galerkin

namespace Index

/-- The letters that a dummy shares with the name it stands for. -/
def stem (base : String) : List Char := base.toList.dropWhile (· == '_')

/-- Does the dummy numbered `n` meet a later one, because what its base has more than the later base, followed by
the digits of its number, makes the digits of the later number? -/
def Meets (base : String) (n : Nat) (later : String) (m : Nat) : Prop :=
  ∃ more, stem base = stem later ++ more ∧ Nat.toDigits 10 m = more ++ Nat.toDigits 10 n

theorem toList_freshName (n : Nat) (base : String) :
    (freshName n base).toList = '_' :: (stem base ++ Nat.toDigits 10 n) := by
  simp [freshName, stem, String.toList_append]

theorem length_toDigits_mono {n m : Nat} (ordered : n ≤ m) :
    (Nat.toDigits 10 n).length ≤ (Nat.toDigits 10 m).length := by
  have some : 0 < (Nat.toDigits 10 m).length := Nat.length_toDigits_pos
  rw [Nat.length_toDigits_le_iff (by decide) some]
  exact ordered.trans_lt ((Nat.length_toDigits_le_iff (by decide) some).mp le_rfl)

theorem freshName_eq_iff {n m : Nat} (ordered : n ≤ m) (base later : String) :
    freshName n base = freshName m later ↔ Meets base n later m := by
  rw [← String.toList_inj, toList_freshName, toList_freshName, List.cons.injEq, List.append_eq_append_iff]
  constructor
  · rintro ⟨-, ⟨more, longer, digits⟩ | found⟩
    · have none : more = [] := by
        have size := congrArg List.length digits
        rw [List.length_append] at size
        have bound := length_toDigits_mono ordered
        exact List.length_eq_zero_iff.mp (by omega)
      subst none
      exact ⟨[], by simpa using longer.symm, by simpa using digits.symm⟩
    · exact found
  · exact fun found => ⟨rfl, Or.inr found⟩

/-- Only a base that ends in a digit meets a later one. -/
theorem Meets.isDigit {base later : String} {n m : Nat} (meets : Meets base n later m) (before : n < m) :
    ∃ c, (stem base).getLast? = some c ∧ c.isDigit := by
  obtain ⟨more, longer, digits⟩ := meets
  cases last : more.getLast? with
  | none =>
      rw [List.getLast?_eq_none_iff] at last
      rw [last, List.nil_append] at digits
      have value := congrArg (fun ds => Nat.ofDigitChars 10 ds 0) digits
      rw [Nat.ofDigitChars_ten_toDigits, Nat.ofDigitChars_ten_toDigits] at value
      omega
  | some c =>
      refine ⟨c, by rw [longer, List.getLast?_append, last]; rfl, ?_⟩
      have member : c ∈ Nat.toDigits 10 m := digits ▸ List.mem_append_left _ (List.mem_of_getLast? last)
      exact Nat.isDigit_of_mem_toDigits (by decide) (by decide) member

end Index

namespace Definition

/-- No two of the dummies that some indices get from the number `n` on meet. -/
def Unmet (n : Nat) (is : List Index) : Prop :=
  (is.zipIdx n).Pairwise fun i j => ¬Index.Meets i.1.name i.2 j.1.name j.2

theorem dummiesFrom_append (n : Nat) (is js : List Index) :
    dummiesFrom n (is ++ js) = dummiesFrom n is ++ dummiesFrom (n + is.length) js := by
  induction is generalizing n with
  | nil => rfl
  | cons i rest ih =>
      rw [List.cons_append, dummiesFrom, dummiesFrom, ih, List.length_cons, List.cons_append, Nat.add_right_comm]
      rfl

theorem mem_dummiesFrom {n : Nat} {is : List Index} {x : Index} :
    x ∈ dummiesFrom n is ↔ ∃ t ∈ is.zipIdx n, x = ⟨Index.freshName t.2 t.1.name⟩ := by
  induction is generalizing n with
  | nil => simp [dummiesFrom]
  | cons i rest ih => simp [dummiesFrom, List.zipIdx_cons, ih]

theorem nodup_dummiesFrom_iff {n : Nat} {is : List Index} : (dummiesFrom n is).Nodup ↔ Unmet n is := by
  induction is generalizing n with
  | nil => simp [dummiesFrom, Unmet]
  | cons i rest ih =>
      rw [dummiesFrom, List.nodup_cons, ih, mem_dummiesFrom]
      unfold Unmet
      rw [List.zipIdx_cons, List.pairwise_cons]
      refine and_congr_left fun _ => ?_
      rw [not_exists]
      refine forall_congr' fun t => ?_
      rw [not_and]
      refine forall_congr' fun member => not_congr ?_
      have later : n ≤ t.2 := Nat.le_of_succ_le (List.le_snd_of_mem_zipIdx member)
      rw [Index.mk.injEq]
      exact Index.freshName_eq_iff later _ _

/-- Bases that end in letters never meet. -/
theorem unmet_of_letters (n : Nat) {is : List Index}
    (letters : ∀ i ∈ is, ∀ c, (Index.stem i.name).getLast? = some c → c.isDigit = false) : Unmet n is := by
  have numbers : (is.zipIdx n).Pairwise fun i j => i.2 < j.2 := by
    rw [← List.pairwise_map (f := Prod.snd), List.zipIdx_map_snd]
    exact List.pairwise_lt_range'
  refine numbers.imp_of_mem fun {i j} member _ before meets => ?_
  obtain ⟨c, last, digit⟩ := meets.isDigit before
  obtain ⟨-, -, here⟩ := List.mem_zipIdx member
  rw [letters i.1 (here ▸ List.getElem_mem _) c last] at digit
  cases digit

/-! ### Names drawn one after the other -/

theorem mapM_fresh_eq_ok {is dummies : List Index} {n n' : Nat}
    (drawn : (is.mapM fun i => Index.fresh i.name).run.run n = (.ok dummies, n')) :
    dummies = dummiesFrom n is ∧ n' = n + is.length := by
  induction is generalizing n dummies with
  | nil =>
      cases drawn
      exact ⟨rfl, rfl⟩
  | cons i rest ih =>
      rw [List.mapM_cons] at drawn
      obtain ⟨dummy, m, first, others⟩ := Outcome.run_bind_eq_ok.mp drawn
      obtain ⟨tail, m', second, last⟩ := Outcome.run_bind_eq_ok.mp others
      cases last
      obtain ⟨rfl, rfl⟩ := Index.fresh_eq_ok first
      obtain ⟨rfl, rfl⟩ := ih second
      exact ⟨rfl, by rw [List.length_cons]; omega⟩

theorem mapM_fresh_isOk {is : List Index} (known : Reading.Known is) (n : Nat) :
    ∃ dummies n', (is.mapM fun i => Index.fresh i.name).run.run n = (.ok dummies, n') := by
  induction is generalizing n with
  | nil => exact ⟨[], n, rfl⟩
  | cons i rest ih =>
      obtain ⟨first, others⟩ := List.forall_mem_cons.mp known
      obtain ⟨tail, n', drawn⟩ := ih others (n + 1)
      refine ⟨⟨Index.freshName n i.name⟩ :: tail, n', ?_⟩
      rw [List.mapM_cons]
      refine Outcome.run_bind_eq_ok.mpr ⟨_, n + 1, ?_, Outcome.run_bind_eq_ok.mpr ⟨tail, n', drawn, rfl⟩⟩
      refine Outcome.run_bind_eq_ok.mpr ⟨n, n + 1, rfl, ?_⟩
      rw [Index.ofName_freshName first n]
      rfl

/-! ### Definitions accessed one after the other -/

/-- An access has actual indices and dummies of its own only. -/
theorem mem_indices_access {d : Definition} {actual : List Index} {n n' : Nat} {e : Expr}
    (accessed : (d.access actual).run.run n = (.ok e, n')) {x : Index} (member : x ∈ e.indices) :
    x ∈ actual ∨ x ∈ d.issued n := by
  obtain ⟨fits, rfl, -⟩ := access_drawn accessed
  rw [Expr.indices_rename] at member
  obtain ⟨i, inside, rfl⟩ := List.mem_map.mp member
  have issues : d.inner.length = (d.issued n).length := (length_dummiesFrom n d.inner).symm
  have listed : (List.lookup i (d.indices.zip actual ++ d.inner.zip (d.issued n))).isSome := by
    rw [List.lookup_append, Option.isSome_or, Renaming.lookup_zip_isSome fits, Renaming.lookup_zip_isSome issues]
    by_cases declared : i ∈ d.indices <;> simp [declared, inner, inside]
  obtain ⟨x, found⟩ := Option.isSome_iff_exists.mp listed
  have name : d.named actual n i = x := by rw [named, Renaming.apply, found, Option.getD_some]
  rw [name]
  exact (List.mem_append.mp (mem_of_lookup found)).imp (fun outer => (List.of_mem_zip outer).2) fun own => (List.of_mem_zip own).2

/-- A definition and the actual indices of an access. -/
abbrev Use := Definition × List Index

/-- The indices that some accesses replace by dummies. -/
def replaced (uses : List Use) : List Index := uses.flatMap (·.1.inner)

section Accesses

variable {uses : List Use} {es : List Expr} {n n' : Nat}

theorem accesses_cons {use : Use}
    (accessed : ((use :: uses).mapM fun use : Use => use.1.access use.2).run.run n = (.ok es, n')) :
    ∃ e rest, es = e :: rest ∧ (use.1.access use.2).run.run n = (.ok e, n + use.1.inner.length) ∧
      (uses.mapM fun use : Use => use.1.access use.2).run.run (n + use.1.inner.length) = (.ok rest, n') := by
  rw [List.mapM_cons] at accessed
  obtain ⟨e, m, first, others⟩ := Outcome.run_bind_eq_ok.mp accessed
  obtain ⟨rest, _, second, last⟩ := Outcome.run_bind_eq_ok.mp others
  cases last
  obtain ⟨-, -, rfl⟩ := access_drawn first
  exact ⟨e, rest, rfl, first, second⟩

theorem length_accesses (accessed : (uses.mapM fun use : Use => use.1.access use.2).run.run n = (.ok es, n')) :
    es.length = uses.length := by
  induction uses generalizing n es with
  | nil =>
      cases accessed
      rfl
  | cons use others ih =>
      obtain ⟨e, rest, rfl, -, later⟩ := accesses_cons accessed
      rw [List.length_cons, List.length_cons, ih later]

/-- What an access finds is an actual index or one of the dummies issued since the first of the accesses. -/
theorem mem_indices_accesses (accessed : (uses.mapM fun use : Use => use.1.access use.2).run.run n = (.ok es, n')) :
    ∀ a ∈ uses.zip es, ∀ x ∈ a.2.indices, x ∈ a.1.2 ∨ x ∈ dummiesFrom n (replaced uses) := by
  induction uses generalizing n es with
  | nil => simp
  | cons use others ih =>
      obtain ⟨e, rest, rfl, first, later⟩ := accesses_cons accessed
      rw [replaced, List.flatMap_cons, ← replaced, dummiesFrom_append, List.zip_cons_cons, List.forall_mem_cons]
      constructor
      · intro x member
        exact (mem_indices_access first member).imp_right (List.mem_append_left _)
      · intro a among x member
        exact (ih later a among x member).imp_right (List.mem_append_right _)

/-- Two accesses share actual indices only, if no two of the dummies meet. -/
theorem pairwise_accesses (accessed : (uses.mapM fun use : Use => use.1.access use.2).run.run n = (.ok es, n'))
    (unmet : Unmet n (replaced uses)) :
    (uses.zip es).Pairwise fun a b => ∀ x ∈ a.2.indices, x ∈ b.2.indices → x ∈ a.1.2 ∨ x ∈ b.1.2 := by
  induction uses generalizing n es with
  | nil => simp
  | cons use others ih =>
      obtain ⟨e, rest, rfl, first, later⟩ := accesses_cons accessed
      rw [← nodup_dummiesFrom_iff, replaced, List.flatMap_cons, ← replaced, dummiesFrom_append,
        List.nodup_append'] at unmet
      obtain ⟨-, distinct, apart⟩ := unmet
      rw [List.zip_cons_cons, List.pairwise_cons]
      refine ⟨fun b among x here there => ?_, ih later (nodup_dummiesFrom_iff.mp distinct)⟩
      rcases mem_indices_access first here with actual | own
      · exact Or.inl actual
      · rcases mem_indices_accesses later b among x there with actual | other
        · exact Or.inr actual
        · exact absurd other (apart own)

end Accesses

/-- The dummies of some indices are distinct exactly if no two of them meet; and then accesses of definitions, one
after the other, share none. -/
theorem dummies_nodup_iff (n : Nat) (is : List Index) :
    (Reading.Known is → ∃ dummies, (is.mapM fun i => Index.fresh i.name).run.run n = (.ok dummies, n + is.length)) ∧
    (∀ dummies n', (is.mapM fun i => Index.fresh i.name).run.run n = (.ok dummies, n') →
      (dummies.Nodup ↔ Unmet n is)) ∧
    ∀ (uses : List Use) (es : List Expr) (n' : Nat), replaced uses = is →
      (uses.mapM fun use : Use => use.1.access use.2).run.run n = (.ok es, n') → Unmet n is →
      es.length = uses.length ∧
      (uses.zip es).Pairwise fun a b => ∀ x ∈ a.2.indices, x ∈ b.2.indices → x ∈ a.1.2 ∨ x ∈ b.1.2 := by
  refine ⟨fun known => ?_, fun dummies n' drawn => ?_, fun uses es n' same accessed unmet => ?_⟩
  · obtain ⟨dummies, n', drawn⟩ := mapM_fresh_isOk known n
    obtain ⟨-, rfl⟩ := mapM_fresh_eq_ok drawn
    exact ⟨dummies, drawn⟩
  · obtain ⟨rfl, -⟩ := mapM_fresh_eq_ok drawn
    exact nodup_dummiesFrom_iff
  · exact ⟨length_accesses accessed, pairwise_accesses accessed (same ▸ unmet)⟩

section Example

/-- The square of a vector, whose body sums the index `k`. -/
def square (k : String) : Definition :=
  ⟨"square", [], .prod (.field ⟨"u", 1, false⟩ [⟨k⟩] [] 0) (.field ⟨"u", 1, false⟩ [⟨k⟩] [] 0)⟩

/-- A dummy that is renamed again and a plain index. -/
theorem dummies_renamed_again :
    ∃ a b, ([(square "_m1", []), (square "m", [])].mapM fun use : Use => use.1.access use.2).run.run 0 = (.ok [a, b], 2) ∧
      ∀ x ∈ a.indices, x ∉ b.indices := by
  have accessed : ([(square "_m1", []), (square "m", [])].mapM fun use : Use => use.1.access use.2).run.run 0 =
      (.ok [(square "_m10").body, (square "_m1").body], 2) := rfl
  have unmet : Unmet 0 [⟨"_m1"⟩, ⟨"m"⟩] := by
    rw [← nodup_dummiesFrom_iff]
    decide
  obtain ⟨-, -, accesses⟩ := dummies_nodup_iff 0 [⟨"_m1"⟩, ⟨"m"⟩]
  obtain ⟨-, pairs⟩ := accesses _ _ _ rfl accessed unmet
  refine ⟨_, _, accessed, fun x here there => ?_⟩
  have apart := (List.pairwise_cons.mp pairs).1 _ (List.mem_singleton_self _) x here there
  simp at apart

/-- Ten numbers later `m` gets the dummy that `m1` got first; a product that accesses both definitions counts it
four times and is malformed. -/
theorem dummies_meet :
    let is : List Index := ⟨"m1"⟩ :: List.replicate 9 ⟨"k"⟩ ++ [⟨"m"⟩]
    (∃ dummies, (is.mapM fun i => Index.fresh i.name).run.run 0 = (.ok dummies, 11) ∧ ¬dummies.Nodup) ∧
    ∃ e, ((square "m1").access []).run.run 0 = (.ok e, 1) ∧ ((square "m").access []).run.run 10 = (.ok e, 11) ∧
      e.freeIndices = .ok [] ∧ ∀ free, (Expr.prod e e).freeIndices ≠ .ok free := by
  intro is
  have drawn : (is.mapM fun i => Index.fresh i.name).run.run 0 = (.ok (dummiesFrom 0 is), 11) := rfl
  refine ⟨⟨_, drawn, by decide⟩, (square "_m10").body, rfl, rfl, rfl, fun free accepted => ?_⟩
  cases accepted

end Example

end Definition

end Galerkin
