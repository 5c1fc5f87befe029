import Mathlib
import Galerkin.Proofs.Expr.Meaning

/-!
Expansion is hygienic: where every free index has a value and no index summed inside has one, no sum is
left out and no value is missing, so the formula has the value of the expression.
-/

namespace Galerkin

open Usage

namespace Assignment

/-- The values of an assignment, with zero for the indices that have none. -/
def toFun (env : Assignment) (i : Index) : Nat := (env.lookup i).getD 0

theorem value_of_covers {env : Assignment} {i : Index} (covered : env.covers i) :
    env.value i = .ok (env.toFun i) := by
  obtain ⟨c, found⟩ := Option.isSome_iff_exists.mp covered
  simp only [value, toFun, found]
  rfl

theorem mapM_value {env : Assignment} {is : List Index} (covered : ∀ i ∈ is, env.covers i) :
    is.mapM env.value = .ok (is.map env.toFun) := by
  rw [Outcome.mapM_eq_ok, List.forall₂_map_right_iff, List.forall₂_same]
  intro i member
  exact value_of_covers (covered i member)

theorem lookup_isSome_iff (env : Assignment) (i : Index) :
    (env.lookup i).isSome ↔ i ∈ env.map (·.1) := by
  induction env with
  | nil => simp
  | cons head tail ih =>
      obtain ⟨j, c⟩ := head
      by_cases same : i = j
      · simp [same]
      · rw [List.lookup_cons, beq_false_of_ne same, ih]
        simp [same]

theorem covers_append (a b : Assignment) (i : Index) :
    covers (a ++ b) i = (a.covers i || b.covers i) := by
  simp only [covers, List.lookup_append]
  cases a.lookup i <;> rfl

theorem keys_of_mem_all {dim : Nat} {is : List Index} {values : Assignment}
    (member : values ∈ all dim is) : values.map (·.1) = is := by
  induction is generalizing values with
  | nil =>
      rw [all, List.mem_singleton] at member
      rw [member]
      rfl
  | cons head tail ih =>
      simp only [all, List.mem_flatMap, List.mem_map] at member
      obtain ⟨c, _, rest, inside, rfl⟩ := member
      rw [List.map_cons, ih inside]

theorem covers_of_mem_all {dim : Nat} {is : List Index} {values : Assignment}
    (member : values ∈ all dim is) (i : Index) : values.covers i ↔ i ∈ is := by
  rw [covers, lookup_isSome_iff, keys_of_mem_all member]

/-- The assignments give each tuple of values below the dimension to the indices once. -/
theorem mem_all_values {dim : Nat} {is : List Index} {key : List Nat} :
    key ∈ (all dim is).map (·.map (·.2)) ↔ key.length = is.length ∧ ∀ c ∈ key, c < dim := by
  induction is generalizing key with
  | nil =>
      rw [all, List.map_singleton, List.mem_singleton, List.map_nil]
      constructor
      · rintro rfl
        exact ⟨rfl, by simp⟩
      · rintro ⟨none, _⟩
        exact List.length_eq_zero_iff.mp none
  | cons head tail ih =>
      simp only [all, List.map_flatMap, List.map_map, List.mem_flatMap, List.mem_range]
      constructor
      · rintro ⟨c, small, member⟩
        obtain ⟨values, inside, rfl⟩ := List.mem_map.mp member
        obtain ⟨length, rest⟩ := ih.mp (List.mem_map_of_mem inside)
        refine ⟨by simpa using length, ?_⟩
        intro d listed
        rcases List.mem_cons.mp listed with rfl | later
        · exact small
        · exact rest d later
      · rintro ⟨length, small⟩
        cases key with
        | nil => simp at length
        | cons c rest =>
            have inside := ih.mpr ⟨by simpa using length,
              fun d later => small d (List.mem_cons_of_mem c later)⟩
            obtain ⟨values, member, rfl⟩ := List.mem_map.mp inside
            exact ⟨c, small c List.mem_cons_self, List.mem_map.mpr ⟨values, member, rfl⟩⟩

theorem nodup_all_values (dim : Nat) (is : List Index) :
    ((all dim is).map (·.map (·.2))).Nodup := by
  induction is with
  | nil => exact List.nodup_singleton _
  | cons head tail ih =>
      have rows (c : Nat) : ((all dim tail).map ((head, c) :: ·)).map (·.map (·.2)) =
          ((all dim tail).map (·.map (·.2))).map (c :: ·) := by
        rw [List.map_map, List.map_map]
        rfl
      rw [all, List.map_flatMap, List.nodup_flatMap]
      constructor
      · intro c _
        rw [rows]
        exact ih.map (List.cons_injective)
      · apply List.Pairwise.imp _ List.nodup_range
        intro c d apart
        rw [Function.onFun, rows, rows]
        intro key first second
        obtain ⟨_, _, rfl⟩ := List.mem_map.mp first
        obtain ⟨_, _, same⟩ := List.mem_map.mp second
        exact apart (List.cons.inj same).1.symm

theorem toFun_cons (i : Index) (c : Nat) (env : Assignment) :
    toFun ((i, c) :: env) = Function.update env.toFun i c := by
  funext j
  by_cases same : j = i
  · rw [same, Function.update_self]
    simp [toFun]
  · rw [Function.update_of_ne same]
    simp only [toFun, List.lookup_cons, beq_false_of_ne same]

theorem toFun_of_mem_all {dim : Nat} {is : List Index} (apart : is.Nodup) {values : Assignment}
    (member : values ∈ all dim is) : is.map values.toFun = values.map (·.2) := by
  induction is generalizing values with
  | nil =>
      rw [all, List.mem_singleton] at member
      rw [member]
      rfl
  | cons head tail ih =>
      rw [List.nodup_cons] at apart
      simp only [all, List.mem_flatMap, List.mem_map] at member
      obtain ⟨c, _, rest, inside, rfl⟩ := member
      rw [List.map_cons, List.map_cons, ← ih apart.2 inside, toFun_cons, Function.update_self]
      congr 1
      apply List.map_congr_left
      intro i later
      have other : i ≠ head := by
        rintro rfl
        exact apart.1 later
      exact Function.update_of_ne other _ _

/-- An assignment may move behind one that gives values to other indices. -/
theorem toFun_append_cons {values env : Assignment} {i : Index} (c : Nat)
    (other : values.covers i = false) :
    toFun (values ++ (i, c) :: env) = toFun ((i, c) :: (values ++ env)) := by
  have missing : values.lookup i = none := Option.isSome_eq_false_iff.mp other |> Option.isNone_iff_eq_none.mp
  funext j
  by_cases same : j = i
  · subst same
    simp [toFun, List.lookup_append, missing]
  · simp [toFun, List.lookup_append, List.lookup_cons, beq_false_of_ne same]

/-- A sum over indices runs through all assignments of values to them. -/
theorem sumOver_toFun {K : Type} [AddCommMonoid K] {dim : Nat} {is : List Index}
    (apart : is.Nodup) (env : Assignment) (f : (Index → Nat) → K) :
    sumOver dim is env.toFun f = ((all dim is).map fun values => f (toFun (values ++ env))).sum := by
  induction is generalizing env with
  | nil => simp [sumOver, all]
  | cons head tail ih =>
      rw [List.nodup_cons] at apart
      calc sumOver dim (head :: tail) env.toFun f
          = ((List.range dim).map fun c =>
              sumOver dim tail (Function.update env.toFun head c) f).sum := rfl
        _ = ((List.range dim).map fun c =>
              ((all dim tail).map fun values => f (toFun ((head, c) :: (values ++ env)))).sum).sum := by
            congr 1
            apply List.map_congr_left
            intro c _
            rw [← toFun_cons, ih apart.2]
            congr 1
            apply List.map_congr_left
            intro values member
            have other : values.covers head = false := by
              rw [Bool.eq_false_iff, ne_eq, covers_of_mem_all member]
              exact apart.1
            rw [toFun_append_cons c other]
        _ = ((all dim (head :: tail)).map fun values => f (toFun (values ++ env))).sum := by
            rw [all, List.map_flatMap, List.flatMap, List.sum_flatten, List.map_map]
            congr 1
            apply List.map_congr_left
            intro c _
            rw [Function.comp_apply, List.map_map]
            rfl

end Assignment

namespace Expansion

variable {K : Type} [ExactNumbers K] {v : Quantity → K} {s : Setting}

theorem foldlM_add {α : Type} {f : α → Except Failure Scalars} {g : α → K} {xs : List α}
    (each : ∀ a ∈ xs, ∃ x, f a = .ok x ∧ x.eval v = g a) (start : Scalars) :
    ∃ y, xs.foldlM (fun total a => do pure (.add total (← f a))) start = .ok y ∧
      y.eval v = start.eval v + (xs.map g).sum := by
  induction xs generalizing start with
  | nil => exact ⟨start, rfl, by simp⟩
  | cons a rest ih =>
      obtain ⟨x, found, value⟩ := each a List.mem_cons_self
      obtain ⟨y, folded, total⟩ := ih (fun b member => each b (List.mem_cons_of_mem a member))
        (.add start x)
      refine ⟨y, ?_, ?_⟩
      · rw [List.foldlM_cons]
        exact Outcome.bind_eq_ok.mpr ⟨_, Outcome.bind_eq_ok.mpr ⟨x, found, rfl⟩, folded⟩
      · rw [total, Formula.eval_add, value, List.map_cons, List.sum_cons, add_assoc]

/-- The sum over some indices has the value of the sum that rebinds them. -/
theorem summed_value {dim : Nat} {is : List Index} {env : Assignment}
    {term : Assignment → Except Failure Scalars} {g : (Index → Nat) → K} (apart : is.Nodup)
    (each : ∀ values ∈ Assignment.all dim is,
      ∃ x, term (values ++ env) = .ok x ∧ x.eval v = g (Assignment.toFun (values ++ env))) :
    ∃ y, summed dim is env term = .ok y ∧ y.eval v = sumOver dim is env.toFun g := by
  rw [Assignment.sumOver_toFun apart]
  cases is with
  | nil =>
      obtain ⟨x, found, value⟩ := each [] List.mem_cons_self
      exact ⟨x, found, by simpa [Assignment.all] using value⟩
  | cons head tail =>
      obtain ⟨y, folded, total⟩ := foldlM_add each Formula.zero
      refine ⟨y, folded, ?_⟩
      rw [total, Formula.eval_zero, zero_add]

theorem contracted_of_fresh {env : Assignment} {is : List Index}
    (fresh : ∀ i ∈ twice is, env.covers i = false) : contracted env is = twice is := by
  rw [contracted, List.filter_eq_self]
  intro i member
  rw [fresh i member]
  rfl

/-- Inside a sum over the indices that occur twice, every index that occurs has a value. -/
theorem covers_inside {dim : Nat} {env values : Assignment} {is : List Index}
    (small : ∀ i, is.count i ≤ 2) (covered : ∀ i ∈ once is, env.covers i)
    (member : values ∈ Assignment.all dim (twice is)) {i : Index} (occurs : i ∈ is) :
    Assignment.covers (values ++ env) i := by
  rw [Assignment.covers_append, Bool.or_eq_true]
  rcases mem_twice_or_once small occurs with double | single
  · exact Or.inl ((Assignment.covers_of_mem_all member i).mpr double)
  · exact Or.inr (covered i single)

theorem access_value {f : Field} (known : s.Knows f) (env : Assignment) (comps derivs : List Index)
    (t : Nat) (small : ∀ i, (comps ++ derivs).count i ≤ 2)
    (covered : ∀ i ∈ once (comps ++ derivs), env.covers i)
    (fresh : ∀ i ∈ twice (comps ++ derivs), env.covers i = false) :
    ∃ x, access s env f comps derivs t = .ok x ∧
      x.eval v = sumOver s.dim (twice (comps ++ derivs)) env.toFun fun ρ =>
        v (Quantity.ofAccess f (comps.map ρ) (derivs.head?.map ρ) t) := by
  rw [access, contracted_of_fresh fresh]
  apply summed_value (nodup_twice _)
  intro values member
  have has : ∀ i ∈ comps ++ derivs, Assignment.covers (values ++ env) i := fun i occurs =>
    covers_inside small covered member occurs
  have components := Assignment.mapM_value fun i inside => has i (List.mem_append_left _ inside)
  refine ⟨.var (Quantity.ofAccess f (comps.map _) (derivs.head?.map _) t),
    Outcome.bind_eq_ok.mpr ⟨_, components, ?_⟩, rfl⟩
  cases derivs with
  | nil =>
      exact Outcome.bind_eq_ok.mpr ⟨none, rfl,
        Outcome.bind_eq_ok.mpr ⟨_, Quantity.ofField_eq_ok known _ _ _, rfl⟩⟩
  | cons i rest =>
      have axis := Assignment.value_of_covers (has i (by simp))
      exact Outcome.bind_eq_ok.mpr ⟨_, Outcome.map_eq_ok.mpr ⟨_, axis, rfl⟩,
        Outcome.bind_eq_ok.mpr ⟨_, Quantity.ofField_eq_ok known _ _ _, rfl⟩⟩

theorem eval_collect (product : Option Scalars) (x : Scalars) :
    (collect product x).eval v = product.elim 1 (·.eval v) * x.eval v := by
  cases product with
  | none => simp [collect]
  | some p => rfl

/-- Wherever its free indices have values and those summed inside have none, the formula of a node multiplies
the product it is collected onto by the value of the node. -/
def Faithful (s : Setting) (v : Quantity → K) (e : Expr) : Prop :=
  ∀ (product : Option Scalars) (env : Assignment), e.Scoped product.isSome →
    (∀ i ∈ e.freeIn product.isSome, env.covers i) →
    (∀ i ∈ e.summedIn product.isSome, env.covers i = false) →
    ∃ x, expandOnto s product env e = .ok x ∧
      x.eval v = product.elim 1 (·.eval v) * e.meaningIn s.dim v product.isSome env.toFun

namespace Faithful

variable {a b x : Expr}

theorem closed (faithful : Faithful s v x) {env : Assignment} (accepted : x.Scoped false)
    (covered : ∀ i ∈ x.freeIn false, env.covers i)
    (fresh : ∀ i ∈ x.summedIn false, env.covers i = false) :
    ∃ y, expandOnto s none env x = .ok y ∧ y.eval v = x.meaningIn s.dim v false env.toFun := by
  obtain ⟨y, found, value⟩ := faithful none env accepted covered fresh
  exact ⟨y, found, value.trans (one_mul _)⟩

theorem field {f : Field} (known : s.Knows f) (comps derivs : List Index) (t : Nat) :
    Faithful s v (.field f comps derivs t) := by
  intro product env accepted covered fresh
  obtain ⟨x, found, value⟩ := access_value (v := v) known env comps derivs t accepted.2.2.2.2
    covered fresh
  refine ⟨_, Outcome.bind_eq_ok.mpr ⟨x, found, rfl⟩, ?_⟩
  rw [eval_collect, value]
  rfl

theorem bare {f : Field} (known : s.Knows f) : Faithful s v (.bare f) := by
  intro product env _ _ _
  obtain ⟨x, found, value⟩ := access_value (v := v) known env [] [] 0 (by simp) (by simp [once])
    (by simp [twice])
  refine ⟨_, Outcome.bind_eq_ok.mpr ⟨x, found, rfl⟩, ?_⟩
  rw [eval_collect, value]
  rfl

theorem delta (i j : Index) : Faithful s v (.delta i j) := by
  intro product env _ covered fresh
  by_cases same : i = j
  · subst same
    have free : env.covers i = false := fresh i (by simp [Expr.summedIn])
    refine ⟨collect product (Formula.ofRat s.dim), ?_, ?_⟩
    · simp only [expandOnto, free, decide_true, Bool.not_false, Bool.and_self, ↓reduceIte]
      rfl
    · rw [eval_collect, Formula.eval_ofRat, Expr.meaningIn, if_pos rfl, Rat.cast_natCast]
  · have first := Assignment.value_of_covers (covered i (by simp [Expr.freeIn, same]))
    have second := Assignment.value_of_covers (covered j (by simp [Expr.freeIn, same]))
    refine ⟨collect product (if env.toFun i = env.toFun j then Formula.one else Formula.zero),
      ?_, ?_⟩
    · simp only [expandOnto, same, decide_false, Bool.false_and, Bool.false_eq_true, ↓reduceIte]
      exact Outcome.bind_eq_ok.mpr ⟨_, first, Outcome.bind_eq_ok.mpr ⟨_, second, rfl⟩⟩
    · rw [eval_collect, Expr.meaningIn, if_neg same]
      by_cases equal : env.toFun i = env.toFun j
      · rw [if_pos equal, if_pos equal, Formula.eval_one]
      · rw [if_neg equal, if_neg equal, Formula.eval_zero]

theorem sum (left : Faithful s v a) (right : Faithful s v b) : Faithful s v (.sum a b) := by
  intro product env accepted covered fresh
  obtain ⟨first, second, same, _⟩ := accepted
  obtain ⟨x, foundx, valuex⟩ := left.closed first covered
    fun i member => fresh i (List.mem_append_left _ member)
  obtain ⟨y, foundy, valuey⟩ := right.closed second
    (fun i member => covered i ((same i).mpr member))
    fun i member => fresh i (List.mem_append_right _ member)
  refine ⟨_, Outcome.bind_eq_ok.mpr ⟨x, foundx, Outcome.bind_eq_ok.mpr ⟨y, foundy, rfl⟩⟩, ?_⟩
  rw [eval_collect, Formula.eval_add, valuex, valuey]
  rfl

theorem quot (left : Faithful s v a) (right : Faithful s v b) : Faithful s v (.quot a b) := by
  intro product env accepted covered fresh
  obtain ⟨first, second, closed, _⟩ := accepted
  obtain ⟨x, foundx, valuex⟩ := left.closed first covered
    fun i member => fresh i (List.mem_append_left _ member)
  obtain ⟨y, foundy, valuey⟩ := right.closed second (by simp [closed])
    fun i member => fresh i (List.mem_append_right _ member)
  refine ⟨_, Outcome.bind_eq_ok.mpr ⟨x, foundx, Outcome.bind_eq_ok.mpr ⟨y, foundy, rfl⟩⟩, ?_⟩
  rw [eval_collect, Formula.eval_mul, Formula.eval_inverse, valuex, valuey, ← div_eq_mul_inv]
  rfl

theorem power (left : Faithful s v a) (right : Faithful s v b) : Faithful s v (.power a b) := by
  intro product env accepted _ fresh
  obtain ⟨first, second, base, exponent⟩ := accepted
  obtain ⟨x, foundx, valuex⟩ := left.closed first (by simp [base])
    fun i member => fresh i (List.mem_append_left _ member)
  obtain ⟨y, foundy, valuey⟩ := right.closed second (by simp [exponent])
    fun i member => fresh i (List.mem_append_right _ member)
  refine ⟨_, Outcome.bind_eq_ok.mpr ⟨x, foundx, Outcome.bind_eq_ok.mpr ⟨y, foundy, rfl⟩⟩, ?_⟩
  rw [eval_collect, Formula.eval_pow, valuex, valuey]
  rfl

theorem apply (f : Function) (inner : Faithful s v x) : Faithful s v (.apply f x) := by
  intro product env accepted _ fresh
  obtain ⟨y, found, value⟩ := inner.closed accepted.1 (by simp [accepted.2]) fresh
  refine ⟨_, Outcome.bind_eq_ok.mpr ⟨y, found, rfl⟩, ?_⟩
  rw [eval_collect, eval_function, value]
  rfl

/-- The factors of an open product are multiplied on one after the other. -/
theorem factors (left : Faithful s v a) (right : Faithful s v b) (p : Scalars) {env : Assignment}
    (first : a.Scoped true) (second : b.Scoped true)
    (covered : ∀ i ∈ a.freeIn true ++ b.freeIn true, env.covers i)
    (fresh : ∀ i ∈ a.summedIn true ++ b.summedIn true, env.covers i = false) :
    ∃ x, (do let q ← expandOnto s (some p) env a
             expandOnto s (some q) env b) = .ok x ∧
      x.eval v = p.eval v *
        (a.meaningIn s.dim v true env.toFun * b.meaningIn s.dim v true env.toFun) := by
  obtain ⟨x, foundx, valuex⟩ := left (some p) env first
    (fun i member => covered i (List.mem_append_left _ member))
    fun i member => fresh i (List.mem_append_left _ member)
  obtain ⟨y, foundy, valuey⟩ := right (some x) env second
    (fun i member => covered i (List.mem_append_right _ member))
    fun i member => fresh i (List.mem_append_right _ member)
  refine ⟨y, Outcome.bind_eq_ok.mpr ⟨x, foundx, foundy⟩, ?_⟩
  rw [valuey, Option.elim_some, valuex, Option.elim_some]
  exact mul_assoc _ _ _

theorem prod (left : Faithful s v a) (right : Faithful s v b) : Faithful s v (.prod a b) := by
  intro product env accepted covered fresh
  obtain ⟨first, second, closed⟩ := accepted
  cases product with
  | some p => exact factors left right p first second covered fresh
  | none =>
      obtain ⟨small, apart⟩ := closed rfl
      have sums : contracted env (a.freeIn true ++ b.freeIn true) =
          twice (a.freeIn true ++ b.freeIn true) :=
        contracted_of_fresh fun i member => fresh i (List.mem_append_right _ member)
      -- The values of the summed indices reach no index that a factor sums itself.
      have inside : ∀ values ∈ Assignment.all s.dim (twice (a.freeIn true ++ b.freeIn true)),
          ∀ i ∈ a.summedIn true ++ b.summedIn true,
            Assignment.covers (values ++ env) i = false := by
        intro values member i inner
        rw [Assignment.covers_append, fresh i (List.mem_append_left _ inner), Bool.or_false,
          Bool.eq_false_iff, ne_eq, Assignment.covers_of_mem_all member]
        intro double
        exact apart inner (mem_unique.mp (List.mem_of_mem_filter double))
      have total : ∃ y, summed s.dim (twice (a.freeIn true ++ b.freeIn true)) env (fun env => do
            let p ← expandOnto s (some Formula.one) env a
            expandOnto s (some p) env b) = .ok y ∧
          y.eval v = sumOver s.dim (twice (a.freeIn true ++ b.freeIn true)) env.toFun fun ρ =>
            a.meaningIn s.dim v true ρ * b.meaningIn s.dim v true ρ := by
        apply summed_value (nodup_twice _)
        intro values member
        obtain ⟨x, found, value⟩ := factors left right Formula.one first second
          (fun i occurs => covers_inside small covered member occurs) (inside values member)
        exact ⟨x, found, by rw [value, Formula.eval_one, one_mul]⟩
      obtain ⟨y, found, value⟩ := total
      have whole : Expr.Scoped true (.prod a b) := ⟨first, second, by simp⟩
      refine ⟨y, Outcome.bind_eq_ok.mpr ⟨_, Expr.occurrences_of_scoped whole, ?_⟩, ?_⟩
      · exact (congrArg (summed s.dim · env _) sums).trans found
      · rw [value, Option.elim_none, one_mul]
        rfl

end Faithful

theorem faithful {e : Expr} (plain : e.hasPairing = false) (known : ∀ f ∈ e.fields, s.Knows f) :
    Faithful s v e := by
  induction e with
  | const n =>
      intro product env _ _ _
      refine ⟨_, rfl, ?_⟩
      rw [eval_collect, Formula.eval_ofNumber]
      rfl
  | param name => exact fun product env _ _ _ => ⟨_, rfl, eval_collect _ _⟩
  | field f comps derivs t => exact .field (known f (by simp [Expr.fields])) comps derivs t
  | bare f => exact .bare (known f (by simp [Expr.fields]))
  | normal i =>
      intro product env _ covered _
      have found := Assignment.value_of_covers (covered i (by simp [Expr.freeIn]))
      exact ⟨_, Outcome.bind_eq_ok.mpr ⟨_, found, rfl⟩, eval_collect _ _⟩
  | delta i j => exact .delta i j
  | apply f x ih => exact .apply f (ih plain known)
  | pairing a b => cases plain
  | sum a b iha ihb =>
      rw [Expr.hasPairing, Bool.or_eq_false_iff] at plain
      have left := iha plain.1 fun f member => known f (List.mem_append_left _ member)
      have right := ihb plain.2 fun f member => known f (List.mem_append_right _ member)
      exact left.sum right
  | prod a b iha ihb =>
      rw [Expr.hasPairing, Bool.or_eq_false_iff] at plain
      have left := iha plain.1 fun f member => known f (List.mem_append_left _ member)
      have right := ihb plain.2 fun f member => known f (List.mem_append_right _ member)
      exact left.prod right
  | quot a b iha ihb =>
      rw [Expr.hasPairing, Bool.or_eq_false_iff] at plain
      have left := iha plain.1 fun f member => known f (List.mem_append_left _ member)
      have right := ihb plain.2 fun f member => known f (List.mem_append_right _ member)
      exact left.quot right
  | power a b iha ihb =>
      rw [Expr.hasPairing, Bool.or_eq_false_iff] at plain
      have left := iha plain.1 fun f member => known f (List.mem_append_left _ member)
      have right := ihb plain.2 fun f member => known f (List.mem_append_right _ member)
      exact left.power right

/-- The formula of an expression under values of exactly its free indices. -/
theorem expand_value {e : Expr} (accepted : e.Scoped false) (plain : e.hasPairing = false)
    (known : ∀ f ∈ e.fields, s.Knows f) {env : Assignment}
    (exact : ∀ i, env.covers i ↔ i ∈ e.freeIn false) :
    ∃ x, expand s env e = .ok x ∧ x.eval v = e.meaning s.dim v env.toFun := by
  apply (faithful plain known).closed accepted
  · exact fun i free => (exact i).mpr free
  · intro i inner
    rw [Bool.eq_false_iff, ne_eq, exact]
    exact fun free => Expr.disjoint_summedIn_freeIn accepted inner free

/-- Components of an accepted expression: one for each tuple of values of its free indices, with the value
that the expression has there when every sum in it rebinds its index. -/
theorem components_eq_meaning {e : Expr} {free : List Index} (v : Quantity → K)
    (plain : e.hasPairing = false) (accepted : e.freeIndices = .ok free)
    (known : ∀ f ∈ e.fields, s.Knows f) :
    free.Nodup ∧ free = (unique e.indices).filter (free.contains ·) ∧
    ∃ entries, components s e = .ok entries ∧ (entries.map (·.1)).Nodup ∧
      (∀ key, key ∈ entries.map (·.1) ↔ key.length = free.length ∧ ∀ c ∈ key, c < s.dim) ∧
      ∀ entry ∈ entries, ∀ ρ : Index → Nat, free.map ρ = entry.1 →
        entry.2.eval v = e.meaning s.dim v ρ := by
  obtain ⟨inside, rfl⟩ := Expr.freeIndices_eq_ok.mp accepted
  refine ⟨Expr.nodup_freeIn e, Expr.freeIn_eq_filter_indices inside, ?_⟩
  have each : ∀ env ∈ Assignment.all s.dim (e.freeIn false),
      ∃ entry, (do pure (env.map (·.2), ← expand s env e)) = Except.ok entry ∧
        entry.1 = env.map (·.2) ∧ ∀ ρ : Index → Nat, (e.freeIn false).map ρ = entry.1 →
          entry.2.eval v = e.meaning s.dim v ρ := by
    intro env member
    obtain ⟨x, found, value⟩ := expand_value (v := v) inside plain known
      (Assignment.covers_of_mem_all member)
    refine ⟨(env.map (·.2), x), Outcome.bind_eq_ok.mpr ⟨x, found, rfl⟩, rfl, ?_⟩
    intro ρ same
    rw [value]
    apply Expr.meaning_congr inside.balanced
    rw [← Assignment.toFun_of_mem_all (Expr.nodup_freeIn e) member] at same
    exact fun i free => (List.map_inj_left.mp same i free).symm
  obtain ⟨entries, found, matched⟩ := Outcome.mapM_of_forall each
  have keys : entries.map (·.1) = (Assignment.all s.dim (e.freeIn false)).map (·.map (·.2)) :=
    Outcome.map_eq_of_matched (matched.imp fun _ _ related => related.1)
  refine ⟨entries, Outcome.bind_eq_ok.mpr ⟨_, accepted, found⟩, ?_, ?_, ?_⟩
  · rw [keys]
    exact Assignment.nodup_all_values _ _
  · intro key
    rw [keys, Assignment.mem_all_values]
  · intro entry member
    obtain ⟨env, _, related⟩ := Outcome.exists_of_matched matched member
    exact related.2

section Example

/-- A vector times the square of its length, where the length has the only sum. -/
def cubed (u : Field) : Expr :=
  .prod (.field u [⟨"i"⟩] [] 0)
    (.sum (.const (.int 0)) (.prod (.field u [⟨"j"⟩] [] 0) (.field u [⟨"j"⟩] [] 0)))

theorem components_cubed :
    let u : Field := ⟨"u", 1, false⟩
    let s : Setting := ⟨2, ⟨2, [u]⟩, .empty 2⟩
    ∃ entries, components s (cubed u) = .ok entries ∧
      ∀ entry ∈ entries, ∀ ρ : Index → Nat, [(⟨"i"⟩ : Index)].map ρ = entry.1 →
        entry.2.eval (fun _ => (3 : ℝ)) = (cubed u).meaning 2 (fun _ => 3) ρ := by
  intro u s
  have accepted : (cubed u).freeIndices = .ok [⟨"i"⟩] := rfl
  obtain ⟨_, _, entries, found, _, _, values⟩ := components_eq_meaning (s := s)
    (fun _ => (3 : ℝ)) rfl accepted (by
      intro f member
      have same : f = u := by simpa [cubed, Expr.fields] using member
      rw [same]
      rfl)
  exact ⟨entries, found, values⟩

end Example

end Expansion

end Galerkin
