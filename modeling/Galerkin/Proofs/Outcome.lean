import Mathlib
import Galerkin.Failure

/-!
When work that may fail succeeds: one rule for each way to put such work together.
-/

namespace Galerkin

namespace Outcome

variable {ε ε' α β γ : Type}

@[simp] theorem pure_eq_ok (a b : α) : (pure a : Except ε α) = .ok b ↔ a = b := by
  constructor
  · intro same
    exact Except.ok.inj same
  · intro same
    rw [same]
    rfl

@[simp] theorem throw_eq_ok (e : ε) (b : α) : (throw e : Except ε α) = .ok b ↔ False := by
  constructor
  · intro same
    cases same
  · exact False.elim

theorem ok_bind (a : α) (f : α → Except ε β) : (Except.ok a >>= f) = f a := rfl

theorem bind_eq_ok {x : Except ε α} {f : α → Except ε β} {b : β} :
    x >>= f = .ok b ↔ ∃ a, x = .ok a ∧ f a = .ok b := by
  cases x with
  | error e =>
      constructor
      · intro same
        cases same
      · rintro ⟨a, impossible, _⟩
        cases impossible
  | ok a =>
      constructor
      · intro same
        exact ⟨a, rfl, same⟩
      · rintro ⟨_, same, result⟩
        cases same
        exact result

theorem toOption_eq_some {x : Except ε α} {a : α} : x.toOption = some a ↔ x = .ok a := by
  cases x with
  | error e => exact iff_of_false nofun nofun
  | ok b => exact ⟨fun same => congrArg _ (Option.some.inj same), fun same => congrArg _ (Except.ok.inj same)⟩

theorem exists_of_isSome {x : Except ε α} (some : x.toOption.isSome) : ∃ a, x = .ok a := by
  cases x with
  | error e => cases some
  | ok a => exact ⟨a, rfl⟩

theorem bind_eq_error {x : Except ε α} {f : α → Except ε β} {e : ε} :
    x >>= f = .error e ↔ x = .error e ∨ ∃ a, x = .ok a ∧ f a = .error e := by
  cases x with
  | error d =>
      constructor
      · intro same
        cases same
        exact Or.inl rfl
      · rintro (same | ⟨a, impossible, _⟩)
        · cases same
          rfl
        · cases impossible
  | ok a =>
      constructor
      · intro failed
        exact Or.inr ⟨a, rfl, failed⟩
      · rintro (impossible | ⟨_, same, failed⟩)
        · cases impossible
        · cases same
          exact failed

/-- Work on a state goes on from the state that its first part leaves. -/
theorem run_bind_eq_ok {σ : Type} {work : ExceptT ε (StateM σ) α} {next : α → ExceptT ε (StateM σ) β} {b : β}
    {s s' : σ} :
    (work >>= next).run.run s = (.ok b, s') ↔
      ∃ a later, work.run.run s = (.ok a, later) ∧ (next a).run.run later = (.ok b, s') := by
  rw [ExceptT.run_bind, StateT.run_bind]
  rcases work.run.run s with ⟨e | a, later⟩
  · constructor
    · intro done
      cases done
    · rintro ⟨a, _, impossible, -⟩
      cases impossible
  · constructor
    · intro done
      exact ⟨a, later, rfl, done⟩
    · rintro ⟨_, _, same, done⟩
      cases same
      exact done

/-- Work on a state fails in its first part, or goes on from the state that this part leaves. -/
theorem run_bind_eq_error {σ : Type} {work : ExceptT ε (StateM σ) α} {next : α → ExceptT ε (StateM σ) β} {f : ε}
    {s s' : σ} :
    (work >>= next).run.run s = (.error f, s') ↔
      work.run.run s = (.error f, s') ∨
        ∃ a later, work.run.run s = (.ok a, later) ∧ (next a).run.run later = (.error f, s') := by
  rw [ExceptT.run_bind, StateT.run_bind]
  rcases work.run.run s with ⟨g | a, later⟩
  · constructor
    · intro failed
      cases failed
      exact Or.inl rfl
    · rintro (failed | ⟨_, _, impossible, -⟩)
      · cases failed
        rfl
      · cases impossible
  · constructor
    · intro failed
      exact Or.inr ⟨a, later, rfl, failed⟩
    · rintro (impossible | ⟨_, _, same, failed⟩)
      · cases impossible
      · cases same
        exact failed

theorem run_lift_eq_ok {σ : Type} {x : Except ε α} {a : α} {s s' : σ} :
    (liftM x : ExceptT ε (StateM σ) α).run.run s = (.ok a, s') ↔ x = .ok a ∧ s = s' := by
  cases x with
  | error e =>
      constructor
      · intro done
        cases done
      · rintro ⟨impossible, _⟩
        cases impossible
  | ok b =>
      constructor
      · intro done
        cases done
        exact ⟨rfl, rfl⟩
      · rintro ⟨same, rfl⟩
        cases same
        rfl

theorem run_lift_eq_error {σ : Type} {x : Except ε α} {e : ε} {s s' : σ} :
    (liftM x : ExceptT ε (StateM σ) α).run.run s = (.error e, s') ↔ x = .error e ∧ s = s' := by
  cases x with
  | error f =>
      constructor
      · intro failed
        cases failed
        exact ⟨rfl, rfl⟩
      · rintro ⟨same, rfl⟩
        cases same
        rfl
  | ok b =>
      constructor
      · intro failed
        cases failed
      · rintro ⟨impossible, _⟩
        cases impossible

/-- Does some work keep to a property of the state, whether it fails or not? -/
def Preserves {σ : Type} (P : σ → Prop) (work : ExceptT ε (StateM σ) α) : Prop := ∀ s, P s → P (work.run.run s).2

section Preserves

variable {σ : Type} {P : σ → Prop}

theorem preserves_pure (a : α) : Preserves P (pure a : ExceptT ε (StateM σ) α) := fun _ holds => holds

theorem preserves_throw (e : ε) : Preserves P (throw e : ExceptT ε (StateM σ) α) := fun _ holds => holds

theorem preserves_lift (x : Except ε α) : Preserves P (liftM x : ExceptT ε (StateM σ) α) := by
  intro s holds
  cases x <;> exact holds

theorem preserves_modify {f : σ → σ} (each : ∀ s, P s → P (f s)) :
    Preserves P (modify f : ExceptT ε (StateM σ) PUnit) := fun s holds => each s holds

theorem preserves_set {s : σ} (holds : P s) : Preserves P (set s : ExceptT ε (StateM σ) PUnit) := fun _ _ => holds

theorem preserves_bind {work : ExceptT ε (StateM σ) α} {next : α → ExceptT ε (StateM σ) β}
    (first : Preserves P work) (second : ∀ a, Preserves P (next a)) : Preserves P (work >>= next) := by
  intro s holds
  have kept := first s holds
  rw [ExceptT.run_bind, StateT.run_bind]
  generalize work.run.run s = reached at kept ⊢
  rcases reached with ⟨e | a, later⟩
  · exact kept
  · exact second a later kept

theorem preserves_lift_bind {x : Except ε α} {next : α → ExceptT ε (StateM σ) β}
    (second : ∀ a, x = .ok a → Preserves P (next a)) : Preserves P (liftM x >>= next) := by
  intro s holds
  cases x with
  | error e => exact holds
  | ok a => exact second a rfl s holds

theorem preserves_get {next : σ → ExceptT ε (StateM σ) β} (second : ∀ s, P s → Preserves P (next s)) :
    Preserves P (get >>= next) := fun s holds => second s holds s holds

theorem preserves_forM {work : α → ExceptT ε (StateM σ) PUnit} {xs : List α} (each : ∀ x ∈ xs, Preserves P (work x)) :
    Preserves P (xs.forM work) := by
  induction xs with
  | nil => exact preserves_pure _
  | cons x xs ih =>
      rw [List.forall_mem_cons] at each
      exact preserves_bind each.1 fun _ => ih each.2

end Preserves

theorem map_eq_ok {x : Except ε α} {f : α → β} {b : β} :
    f <$> x = .ok b ↔ ∃ a, x = .ok a ∧ f a = b := by
  cases x with
  | error e =>
      constructor
      · intro same
        cases same
      · rintro ⟨a, impossible, _⟩
        cases impossible
  | ok a =>
      constructor
      · intro same
        exact ⟨a, rfl, Except.ok.inj same⟩
      · rintro ⟨_, same, rfl⟩
        cases same
        rfl

theorem mapError_eq_ok {x : Except ε α} {f : ε → ε'} {a : α} :
    x.mapError f = .ok a ↔ x = .ok a := by
  cases x with
  | error e =>
      constructor <;> intro same <;> cases same
  | ok b =>
      constructor <;> intro same <;> cases same <;> rfl

theorem mapM_eq_ok {f : α → Except ε β} {xs : List α} {ys : List β} :
    xs.mapM f = .ok ys ↔ List.Forall₂ (fun x y => f x = .ok y) xs ys := by
  induction xs generalizing ys with
  | nil =>
      rw [List.mapM_nil, pure_eq_ok, List.forall₂_nil_left_iff]
      exact eq_comm
  | cons x xs ih =>
      rw [List.mapM_cons, bind_eq_ok]
      constructor
      · rintro ⟨y, first, rest⟩
        obtain ⟨tail, mapped, same⟩ := bind_eq_ok.mp rest
        rw [pure_eq_ok] at same
        subst same
        exact .cons first (ih.mp mapped)
      · rintro (_ | ⟨first, rest⟩)
        exact ⟨_, first, bind_eq_ok.mpr ⟨_, ih.mpr rest, rfl⟩⟩

theorem mapM_congr {f g : α → Except ε β} {xs : List α} (same : ∀ x ∈ xs, f x = g x) : xs.mapM f = xs.mapM g := by
  induction xs with
  | nil => rfl
  | cons x rest ih =>
      rw [List.mapM_cons, List.mapM_cons, same x List.mem_cons_self, ih fun y later => same y (List.mem_cons_of_mem x later)]

/-- Entries that are checked and mapped: all of them pass the check. -/
theorem mapM_checked {f : α → Except ε β} {P : α → Prop} {g : α → β} (each : ∀ x y, f x = .ok y ↔ P x ∧ y = g x)
    {xs : List α} {ys : List β} : xs.mapM f = .ok ys ↔ (∀ x ∈ xs, P x) ∧ ys = xs.map g := by
  rw [mapM_eq_ok]
  simp only [each]
  rw [List.forall₂_and_left, eq_comm (a := ys), ← List.forall₂_eq_eq_eq, List.forall₂_map_left_iff]
  simp only [eq_comm]

/-- Work done on each entry of a list succeeds when it succeeds on every entry. -/
theorem mapM_of_forall {f : α → Except ε β} {R : α → β → Prop} {xs : List α}
    (each : ∀ x ∈ xs, ∃ y, f x = .ok y ∧ R x y) :
    ∃ ys, xs.mapM f = .ok ys ∧ List.Forall₂ R xs ys := by
  induction xs with
  | nil => exact ⟨[], rfl, .nil⟩
  | cons x xs ih =>
      obtain ⟨y, first, related⟩ := each x List.mem_cons_self
      obtain ⟨ys, rest, matched⟩ := ih fun z member => each z (List.mem_cons_of_mem x member)
      refine ⟨y :: ys, ?_, .cons related matched⟩
      rw [List.mapM_cons]
      exact bind_eq_ok.mpr ⟨y, first, bind_eq_ok.mpr ⟨ys, rest, rfl⟩⟩

/-- Work done on a list succeeds on its beginning if it succeeds on the whole. -/
theorem mapM_of_append {f : α → Except ε β} {before after : List α} {ys : List β}
    (all : (before ++ after).mapM f = .ok ys) : ∃ zs, before.mapM f = .ok zs := by
  rw [List.mapM_append] at all
  obtain ⟨zs, first, -⟩ := bind_eq_ok.mp all
  exact ⟨zs, first⟩

/-- Work done on a list fails as it does on the first entry where it fails. -/
theorem mapM_eq_error {f : α → Except ε β} {before : List α} {ys : List β} (first : before.mapM f = .ok ys)
    {x : α} {e : ε} (fails : f x = .error e) (after : List α) : (before ++ x :: after).mapM f = .error e := by
  rw [List.mapM_append, List.mapM_cons, first]
  exact bind_eq_error.mpr (Or.inr ⟨ys, rfl, bind_eq_error.mpr (Or.inl (bind_eq_error.mpr (Or.inl fails)))⟩)

/-- Work done on a list that fails does so at the first entry where it fails. -/
theorem exists_first_of_mapM_eq_error {f : α → Except ε β} {xs : List α} {e : ε} (fails : xs.mapM f = .error e) :
    ∃ before x after, xs = before ++ x :: after ∧ (∃ ys, before.mapM f = .ok ys) ∧ f x = .error e := by
  induction xs with
  | nil => cases fails
  | cons x xs ih =>
      rw [List.mapM_cons] at fails
      rcases bind_eq_error.mp fails with here | ⟨y, first, fails⟩
      · exact ⟨[], x, xs, rfl, ⟨[], rfl⟩, here⟩
      · rcases bind_eq_error.mp fails with later | ⟨_, -, impossible⟩
        · obtain ⟨before, z, after, rfl, ⟨ys, known⟩, there⟩ := ih later
          refine ⟨x :: before, z, after, rfl, ⟨y :: ys, ?_⟩, there⟩
          rw [List.mapM_cons, first, known]
          rfl
        · cases impossible

/-- Work done on a list fails as it does on one of the entries. -/
theorem exists_of_mapM_eq_error {f : α → Except ε β} {xs : List α} {e : ε} (fails : xs.mapM f = .error e) :
    ∃ x ∈ xs, f x = .error e := by
  obtain ⟨before, x, after, rfl, -, here⟩ := exists_first_of_mapM_eq_error fails
  exact ⟨x, List.mem_append_right _ List.mem_cons_self, here⟩

/-- Does some work fail exactly when there are faults, and as the first of them says? -/
def FirstOf (faults : List ε) (x : Except ε α) : Prop := ∀ e, x = .error e ↔ faults.head? = some e

theorem firstOf_nil {x : Except ε α} : FirstOf [] x ↔ ∃ a, x = .ok a := by
  cases x with
  | error e => exact iff_of_false (fun first => nomatch (first e).mp rfl) fun ⟨_, impossible⟩ => nomatch impossible
  | ok a => exact iff_of_true (fun _ => ⟨nofun, nofun⟩) ⟨a, rfl⟩

theorem firstOf_cons {x : Except ε α} {e : ε} {rest : List ε} : FirstOf (e :: rest) x ↔ x = .error e := by
  constructor
  · intro first
    exact (first e).mpr rfl
  · rintro rfl d
    rw [List.head?_cons, Option.some.injEq]
    exact ⟨Except.error.inj, congrArg _⟩

theorem firstOf_bind {x : Except ε α} {f : α → Except ε β} {faults more : List ε} (first : FirstOf faults x)
    (second : ∀ a, x = .ok a → FirstOf more (f a)) : FirstOf (faults ++ more) (x >>= f) := by
  cases faults with
  | nil =>
      obtain ⟨a, rfl⟩ := firstOf_nil.mp first
      exact second a rfl
  | cons e rest =>
      rw [firstOf_cons.mp first, List.cons_append]
      exact firstOf_cons.mpr rfl

theorem firstOf_mapM {f : α → Except ε β} {faults : α → List ε} {xs : List α}
    (each : ∀ x ∈ xs, FirstOf (faults x) (f x)) : FirstOf (xs.flatMap faults) (xs.mapM f) := by
  induction xs with
  | nil => exact firstOf_nil.mpr ⟨[], rfl⟩
  | cons x xs ih =>
      rw [List.forall_mem_cons] at each
      rw [List.flatMap_cons, List.mapM_cons, ← List.append_nil (xs.flatMap faults)]
      exact firstOf_bind each.1 fun _ _ => firstOf_bind (ih each.2) fun _ _ => firstOf_nil.mpr ⟨_, rfl⟩

/-- Does some work never fail in a certain way? -/
def Avoids (bad : ε → Prop) (x : Except ε α) : Prop := ∀ e, x = .error e → ¬bad e

section Avoids

variable {bad : ε → Prop}

theorem Avoids.mono {worse : ε → Prop} {x : Except ε α} (avoids : Avoids bad x) (fewer : ∀ e, worse e → bad e) :
    Avoids worse x := fun e fails other => avoids e fails (fewer e other)

theorem avoids_ok (a : α) : Avoids bad (.ok a : Except ε α) := nofun

theorem avoids_throw {e : ε} (good : ¬bad e) : Avoids bad (throw e : Except ε α) := by
  intro d fails
  cases fails
  exact good

theorem avoids_bind {x : Except ε α} {f : α → Except ε β} (first : Avoids bad x)
    (second : ∀ a, x = .ok a → Avoids bad (f a)) : Avoids bad (x >>= f) := by
  intro e fails
  rcases bind_eq_error.mp fails with here | ⟨a, done, later⟩
  · exact first e here
  · exact second a done e later

theorem avoids_mapM {f : α → Except ε β} {xs : List α} (each : ∀ x ∈ xs, Avoids bad (f x)) :
    Avoids bad (xs.mapM f) := by
  intro e fails
  obtain ⟨x, member, here⟩ := exists_of_mapM_eq_error fails
  exact each x member e here

theorem avoids_foldlM {f : β → α → Except ε β} {xs : List α} (each : ∀ x ∈ xs, ∀ b, Avoids bad (f b x)) (start : β) :
    Avoids bad (xs.foldlM f start) := by
  induction xs generalizing start with
  | nil => exact avoids_ok start
  | cons x rest ih =>
      rw [List.forall_mem_cons] at each
      exact avoids_bind (each.1 start) fun b _ => ih each.2 b

/-- Where the second part of some work can fail in one way only, all other failures are those of the first part. -/
theorem firstOf_bind_avoids {x : Except ε α} {f : α → Except ε β} {faults : List ε} (first : FirstOf faults x)
    (good : ∀ e ∈ faults, bad e) (second : ∀ a, x = .ok a → Avoids bad (f a)) (e : ε) :
    x >>= f = .error e ∧ bad e ↔ faults.head? = some e := by
  rw [← first e]
  constructor
  · rintro ⟨fails, other⟩
    rcases bind_eq_error.mp fails with here | ⟨a, done, later⟩
    · exact here
    · exact absurd other (second a done e later)
  · intro fails
    exact ⟨bind_eq_error.mpr (Or.inl fails), good e (List.mem_of_mem_head? ((first e).mp fails))⟩

end Avoids

theorem bind_congr {x : Except ε α} {f g : α → Except ε β} (same : ∀ a, x = .ok a → f a = g a) :
    x >>= f = x >>= g := by
  cases x with
  | error e => rfl
  | ok a => exact same a rfl

theorem foldlM_congr {f g : β → α → Except ε β} {xs : List α} (same : ∀ x ∈ xs, ∀ b, f b x = g b x) (start : β) :
    xs.foldlM f start = xs.foldlM g start := by
  induction xs generalizing start with
  | nil => rfl
  | cons x rest ih =>
      rw [List.foldlM_cons, List.foldlM_cons, same x List.mem_cons_self]
      exact congrArg _ (funext fun b => ih (fun y later => same y (List.mem_cons_of_mem x later)) b)

/-- A fold succeeds when all of its steps do, if no step depends on the ones before it for that. -/
theorem foldlM_isOk_iff {f : β → α → Except ε β} {P : α → Prop} (each : ∀ b x, (∃ c, f b x = .ok c) ↔ P x)
    {xs : List α} {start : β} : (∃ last, xs.foldlM f start = .ok last) ↔ ∀ x ∈ xs, P x := by
  induction xs generalizing start with
  | nil => exact iff_of_true ⟨start, rfl⟩ (List.forall_mem_nil _)
  | cons x xs ih =>
      rw [List.forall_mem_cons, ← each start x, List.foldlM_cons]
      constructor
      · rintro ⟨last, done⟩
        obtain ⟨b, first, rest⟩ := bind_eq_ok.mp done
        exact ⟨⟨b, first⟩, ih.mp ⟨last, rest⟩⟩
      · rintro ⟨⟨b, first⟩, others⟩
        obtain ⟨last, rest⟩ := ih.mpr others
        exact ⟨last, bind_eq_ok.mpr ⟨b, first, rest⟩⟩

/-- What each step of a fold carries on to the entries done so far holds when all of them are done. -/
theorem foldlM_induction {f : β → α → Except ε β} {P : List α → β → Prop} {xs : List α} {start last : β}
    (done : xs.foldlM f start = .ok last) (base : P [] start)
    (step : ∀ earlier, ∀ x ∈ xs, ∀ b c, P earlier b → f b x = .ok c → P (earlier ++ [x]) c) : P xs last := by
  induction xs using List.reverseRecOn generalizing last with
  | nil =>
      cases done
      exact base
  | append_singleton xs x ih =>
      rw [List.foldlM_append] at done
      obtain ⟨b, before, rest⟩ := bind_eq_ok.mp done
      obtain ⟨_, here, same⟩ := bind_eq_ok.mp rest
      cases same
      have kept := ih before fun earlier y member =>
        step earlier y (List.mem_append_left _ member)
      exact step xs x (List.mem_append_right _ List.mem_cons_self) b last kept here

theorem exists_of_matched {R : α → β → Prop} {xs : List α} {ys : List β}
    (matched : List.Forall₂ R xs ys) {y : β} (member : y ∈ ys) : ∃ x ∈ xs, R x y := by
  induction matched with
  | nil => cases member
  | @cons x z xs zs first _ ih =>
      rcases List.mem_cons.mp member with rfl | later
      · exact ⟨x, List.mem_cons_self, first⟩
      · obtain ⟨w, inside, related⟩ := ih later
        exact ⟨w, List.mem_cons_of_mem x inside, related⟩

theorem exists_of_matched_left {R : α → β → Prop} {xs : List α} {ys : List β}
    (matched : List.Forall₂ R xs ys) {x : α} (member : x ∈ xs) : ∃ y ∈ ys, R x y :=
  exists_of_matched matched.flip member

theorem getElem?_of_matched {R : α → β → Prop} {xs : List α} {ys : List β}
    (matched : List.Forall₂ R xs ys) {i : Nat} {x : α} (here : xs[i]? = some x) :
    ∃ y, ys[i]? = some y ∧ R x y := by
  induction matched generalizing i with
  | nil => cases here
  | @cons z y zs ys first _ ih =>
      cases i with
      | zero =>
          cases here
          exact ⟨y, rfl, first⟩
      | succ i => exact ih here

theorem exists_matched {R : α → β → Prop} {xs : List α} (each : ∀ x ∈ xs, ∃ y, R x y) : ∃ ys, List.Forall₂ R xs ys := by
  induction xs with
  | nil => exact ⟨[], .nil⟩
  | cons x xs ih =>
      obtain ⟨y, related⟩ := each x List.mem_cons_self
      obtain ⟨ys, matched⟩ := ih fun z member => each z (List.mem_cons_of_mem x member)
      exact ⟨y :: ys, .cons related matched⟩

theorem matched_comp {R : α → β → Prop} {S : β → γ → Prop} {xs : List α} {zs : List γ} :
    (∃ ys, List.Forall₂ R xs ys ∧ List.Forall₂ S ys zs) ↔ List.Forall₂ (fun x z => ∃ y, R x y ∧ S y z) xs zs := by
  constructor
  · rintro ⟨ys, first, second⟩
    induction first generalizing zs with
    | nil =>
        cases second
        exact .nil
    | cons here _ ih =>
        cases second with
        | cons there rest => exact .cons ⟨_, here, there⟩ (ih rest)
  · intro both
    induction both with
    | nil => exact ⟨[], .nil, .nil⟩
    | cons here _ ih =>
        obtain ⟨y, left, right⟩ := here
        obtain ⟨ys, first, second⟩ := ih
        exact ⟨y :: ys, .cons left first, .cons right second⟩

theorem matched_append {R : α → β → Prop} {xs ys : List α} {zs : List β} :
    List.Forall₂ R (xs ++ ys) zs ↔ ∃ us vs, List.Forall₂ R xs us ∧ List.Forall₂ R ys vs ∧ us ++ vs = zs := by
  constructor
  · intro matched
    induction xs generalizing zs with
    | nil => exact ⟨[], zs, .nil, matched, rfl⟩
    | cons x xs ih =>
        cases matched with
        | cons first rest =>
            obtain ⟨us, vs, left, right, rfl⟩ := ih rest
            exact ⟨_ :: us, vs, .cons first left, right, rfl⟩
  · rintro ⟨us, vs, left, right, rfl⟩
    exact List.rel_append left right

theorem matched_flatten {R : α → β → Prop} {xss : List (List α)} {zs : List β} :
    List.Forall₂ R xss.flatten zs ↔ ∃ zss, List.Forall₂ (List.Forall₂ R) xss zss ∧ zss.flatten = zs := by
  constructor
  · intro matched
    induction xss generalizing zs with
    | nil =>
        cases matched
        exact ⟨[], .nil, rfl⟩
    | cons xs xss ih =>
        obtain ⟨us, vs, own, others, rfl⟩ := matched_append.mp matched
        obtain ⟨zss, each, rfl⟩ := ih others
        exact ⟨us :: zss, .cons own each, rfl⟩
  · rintro ⟨zss, each, rfl⟩
    exact List.rel_flatten each

theorem matched_filter {R : α → β → Prop} {p : α → Bool} {q : β → Bool} {xs : List α} {ys : List β}
    (matched : List.Forall₂ R xs ys) (same : ∀ x y, R x y → p x = q y) :
    List.Forall₂ (fun x y => R x y ∧ p x = true) (xs.filter p) (ys.filter q) := by
  induction matched with
  | nil => exact .nil
  | @cons x y xs ys first _ ih =>
      rw [List.filter_cons, List.filter_cons, ← same x y first]
      split
      · next kept => exact .cons ⟨first, kept⟩ ih
      · exact ih

/-- Lists whose parts agree up to order agree up to order. -/
theorem flatMap_perm {f : α → List γ} {g : β → List γ} {xs : List α} {ys : List β}
    (matched : List.Forall₂ (fun x y => (g y).Perm (f x)) xs ys) : (ys.flatMap g).Perm (xs.flatMap f) := by
  induction matched with
  | nil => exact .refl _
  | cons first _ ih => exact first.append ih

theorem matched_congr {R S : α → β → Prop} {xs : List α} {ys : List β} (same : ∀ x ∈ xs, ∀ y, R x y ↔ S x y) :
    List.Forall₂ R xs ys ↔ List.Forall₂ S xs ys := by
  constructor <;> intro matched
  · exact ((List.forall₂_and_left _ _).mpr ⟨fun _ member => member, matched⟩).imp fun x y both =>
      (same x both.1 y).mp both.2
  · exact ((List.forall₂_and_left _ _).mpr ⟨fun _ member => member, matched⟩).imp fun x y both =>
      (same x both.1 y).mpr both.2

/-- Entries that come with their positions, related to others whatever these positions are. -/
theorem matched_zipIdx {R : α × Nat → β → Prop} {S : α → β → Prop} {xs : List α} {ys : List β}
    (same : ∀ i x, xs[i]? = some x → ∀ y, R (x, i) y ↔ S x y) :
    List.Forall₂ R xs.zipIdx ys ↔ List.Forall₂ S xs ys := by
  rw [matched_congr (S := fun t y => S t.1 y), ← List.forall₂_map_left_iff (f := Prod.fst) (R := S),
    List.zipIdx_map_fst]
  intro t member y
  exact same t.2 t.1 (List.mem_zipIdx_iff_getElem?.mp member) y

/-- The results of a second pass, over the inputs next to the results of a first one, put next to the inputs again. -/
theorem matched_zipWith {δ ζ : Type} {R : α → β → Prop} {S : γ → δ → Prop} {f : β → α → γ} {g : δ → α → ζ} {xs : List α}
    {ys : List β} {zs : List δ} (first : List.Forall₂ R xs ys) (second : List.Forall₂ S (List.zipWith f ys xs) zs) :
    List.Forall₂ (fun x w => ∃ y z, R x y ∧ S (f y x) z ∧ w = g z x) xs (List.zipWith g zs xs) := by
  induction first generalizing zs with
  | nil =>
      rw [List.zipWith_nil_right]
      exact .nil
  | cons here _ ih =>
      cases second with
      | cons there rest => exact .cons ⟨_, _, here, there, rfl⟩ (ih rest)

theorem map_eq_of_matched {g : α → γ} {h : β → γ} {xs : List α} {ys : List β}
    (matched : List.Forall₂ (fun x y => h y = g x) xs ys) : ys.map h = xs.map g := by
  induction matched with
  | nil => rfl
  | cons first _ ih => rw [List.map_cons, List.map_cons, first, ih]

/-- Do two pieces of work fail together, and otherwise have related results? -/
structure Alike (R : α → β → Prop) (x : Except ε α) (y : Except ε β) : Prop where
  forth : ∀ a, x = .ok a → ∃ b, y = .ok b ∧ R a b
  back : ∀ b, y = .ok b → ∃ a, x = .ok a ∧ R a b

end Outcome

end Galerkin
