import Mathlib
import Galerkin.Proofs.Exact
import Galerkin.TimeStepping.Run

/-!
The course of a run: all its tries at steps, one after the other, and how they end.

What a run of many time steps keeps to, whatever becomes of its tries: how they are sized and how many there
are, what is reported about them, and where they lead.
-/

namespace Galerkin

/-- One try at a step: its size, the state it was made in, how it failed if it did, and the state it left. -/
structure Trial (σ α : Type) where
  dt : α
  before : σ
  failure : Option Failure
  after : σ

namespace Trial

variable {σ α : Type}

def outcome (t : Trial σ α) : Except Failure Unit :=
  match t.failure with
  | none => .ok ()
  | some f => .error f

/-- The tries that finished a step. -/
def commits (log : List (Trial σ α)) : List (Trial σ α) := log.filter (·.failure.isNone)

def failures (log : List (Trial σ α)) : List Failure := log.filterMap (·.failure)

@[simp] theorem commits_nil : commits ([] : List (Trial σ α)) = [] := rfl

@[simp] theorem failures_nil : failures ([] : List (Trial σ α)) = [] := rfl

@[simp] theorem commits_cons_done (dt : α) (s s' : σ) (log : List (Trial σ α)) :
    commits (⟨dt, s, none, s'⟩ :: log) = ⟨dt, s, none, s'⟩ :: commits log := rfl

@[simp] theorem commits_cons_failed (dt : α) (s s' : σ) (f : Failure) (log : List (Trial σ α)) :
    commits (⟨dt, s, some f, s'⟩ :: log) = commits log := rfl

@[simp] theorem failures_cons_done (dt : α) (s s' : σ) (log : List (Trial σ α)) :
    failures (⟨dt, s, none, s'⟩ :: log) = failures log := rfl

@[simp] theorem failures_cons_failed (dt : α) (s s' : σ) (f : Failure) (log : List (Trial σ α)) :
    failures (⟨dt, s, some f, s'⟩ :: log) = f :: failures log := rfl

end Trial

namespace Runner

variable {σ α ω : Type} [Arithmetic α]

/-- The course of a run that may take `n` more steps and try the next one `k` times again: its tries, how it
ends, and the state it leaves. -/
inductive Course (r : Runner σ α ω) (p : StepPolicy α) :
    Nat → Nat → α → σ → List (Trial σ α) → Except Failure RunStatus → σ → Prop where
  | full {k dt s} : Course r p 0 k dt s [] (.ok .maxSteps) s
  | done {n k dt s s' log e final} (made : r.attempt dt s = (.ok (), s'))
      (unsteady : r.steady (r.observe s').1 = .ok false)
      (rest : Course r p n p.maxRetries.toNat dt (r.observe s').2 log e final) :
      Course r p (n + 1) k dt s (⟨dt, s, none, s'⟩ :: log) e final
  | steady {n k dt s s'} (made : r.attempt dt s = (.ok (), s'))
      (steady : r.steady (r.observe s').1 = .ok true) :
      Course r p (n + 1) k dt s [⟨dt, s, none, s'⟩] (.ok .steady) (r.observe s').2
  | unclear {n k dt s s' f} (made : r.attempt dt s = (.ok (), s'))
      (unclear : r.steady (r.observe s').1 = .error f) :
      Course r p (n + 1) k dt s [⟨dt, s, none, s'⟩] (.error f) (r.observe s').2
  | rejected {n k dt s f s' log e final} (made : r.attempt dt s = (.error f, s'))
      (recoverable : f.recoverable = true) (large : ¬dt * p.reduction < p.dtMin)
      (rest : Course r p (n + 1) k (dt * p.reduction) s' log e final) :
      Course r p (n + 1) (k + 1) dt s (⟨dt, s, some f, s'⟩ :: log) e final
  | givenUp {n k dt s f s'} (made : r.attempt dt s = (.error f, s')) (recoverable : f.recoverable = true)
      (spent : k = 0 ∨ dt * p.reduction < p.dtMin) :
      Course r p (n + 1) k dt s [⟨dt, s, some f, s'⟩] (.ok .diverged) s'
  | aborted {n k dt s f s'} (made : r.attempt dt s = (.error f, s')) (fatal : f.recoverable = false) :
      Course r p (n + 1) k dt s [⟨dt, s, some f, s'⟩] (.error f) s'

variable (r : Runner σ α ω) (p : StepPolicy α)

/-- What is seen after the finished steps of a log. -/
def views (log : List (Trial σ α)) : List ω := (Trial.commits log).map fun t => (r.observe t.after).1

/-- The report on a run that had seen and suffered something before its tries. -/
def summary (seen : List ω) (error : Option Failure) (log : List (Trial σ α)) (status : RunStatus) :
    RunResult ω :=
  let seen := seen ++ r.views log
  ⟨status, seen.length, seen, (Trial.failures log).getLast?.or error⟩

/-- How a run goes on with `n` more steps when a step has come to an end. -/
def afterStep (n : Nat) (seen : List ω) : StepOutcome σ α → Except Failure (RunResult ω) × σ
  | .aborted f state => (.error f, state)
  | .givenUp f state => (.ok ⟨.diverged, seen.length, seen, some f⟩, state)
  | .done dt error state =>
    let (view, state) := r.observe state
    let s : RunState σ α ω := ⟨dt, error, seen ++ [view], state⟩
    match r.steady view with
    | .error f => (.error f, state)
    | .ok true => s.finish .steady
    | .ok false => r.steps p n s

theorem steps_succ (n : Nat) (s : RunState σ α ω) :
    r.steps p (n + 1) s =
      r.afterStep p n s.seen (r.tryStep p p.maxRetries.toNat s.dt s.error s.state) := by
  rw [steps]
  cases r.tryStep p p.maxRetries.toNat s.dt s.error s.state <;> rfl

variable {r p}

omit [Arithmetic α] in
theorem summary_done {seen : List ω} {error : Option Failure} {dt : α} {s s' : σ} {log : List (Trial σ α)} :
    r.summary (seen ++ [(r.observe s').1]) error log = r.summary seen error (⟨dt, s, none, s'⟩ :: log) := by
  funext status
  simp [summary, views]

omit [Arithmetic α] in
theorem summary_failed {seen : List ω} {error : Option Failure} {dt : α} {s s' : σ} {f : Failure}
    {log : List (Trial σ α)} :
    r.summary seen (some f) log = r.summary seen error (⟨dt, s, some f, s'⟩ :: log) := by
  funext status
  simp [summary, views, List.getLast?_cons]

section Later

variable {n : Nat}
  (later : ∀ dt error seen s, ∃ log e final, Course r p n p.maxRetries.toNat dt s log e final ∧
    r.steps p n ⟨dt, error, seen, s⟩ = (e.map (r.summary seen error log), final))

include later

theorem afterStep_done_course {k : Nat} {dt : α} {s s' : σ} (made : r.attempt dt s = (.ok (), s'))
    (error : Option Failure) (seen : List ω) :
    ∃ log e final, Course r p (n + 1) k dt s log e final ∧
      r.afterStep p n seen (.done dt error s') = (e.map (r.summary seen error log), final) := by
  rw [afterStep]
  cases answer : r.steady (r.observe s').1 with
  | error f => exact ⟨_, _, _, .unclear made answer, by simp [answer, Except.map]⟩
  | ok ended =>
    cases ended with
    | true =>
      refine ⟨_, _, _, .steady made answer, ?_⟩
      rw [← summary_done]
      simp [answer, Except.map, RunState.finish, summary, views]
    | false =>
      obtain ⟨log, e, final, rest, same⟩ := later dt error (seen ++ [(r.observe s').1]) (r.observe s').2
      refine ⟨_, e, final, .done made answer rest, ?_⟩
      rw [← summary_done, ← same]
      simp [answer]

/-- The tries at one step, when the course of all later steps is known. -/
theorem tryStep_course (k : Nat) (dt : α) (error : Option Failure) (seen : List ω) (s : σ) :
    ∃ log e final, Course r p (n + 1) k dt s log e final ∧
      r.afterStep p n seen (r.tryStep p k dt error s) = (e.map (r.summary seen error log), final) := by
  induction k generalizing dt error s with
  | zero =>
    rw [tryStep]
    rcases made : r.attempt dt s with ⟨f | ⟨⟩, s'⟩
    · cases recoverable : f.recoverable with
      | false => exact ⟨_, _, _, .aborted made recoverable, by simp [recoverable, afterStep, Except.map]⟩
      | true =>
        refine ⟨_, _, _, .givenUp made recoverable (Or.inl rfl), ?_⟩
        simp [recoverable, afterStep, Except.map, summary, views]
    · exact afterStep_done_course later made error seen
  | succ k ih =>
    rw [tryStep]
    rcases made : r.attempt dt s with ⟨f | ⟨⟩, s'⟩
    · cases recoverable : f.recoverable with
      | false => exact ⟨_, _, _, .aborted made recoverable, by simp [recoverable, afterStep, Except.map]⟩
      | true =>
        by_cases small : dt * p.reduction < p.dtMin
        · refine ⟨_, _, _, .givenUp made recoverable (Or.inr small), ?_⟩
          simp [recoverable, small, afterStep, Except.map, summary, views]
        · obtain ⟨log, e, final, rest, same⟩ := ih (dt * p.reduction) (some f) s'
          refine ⟨_, e, final, .rejected made recoverable small rest, ?_⟩
          rw [← summary_failed, ← same]
          simp [recoverable, small]
    · exact afterStep_done_course later made error seen

end Later

theorem steps_course (n : Nat) (dt : α) (error : Option Failure) (seen : List ω) (s : σ) :
    ∃ log e final, Course r p n p.maxRetries.toNat dt s log e final ∧
      r.steps p n ⟨dt, error, seen, s⟩ = (e.map (r.summary seen error log), final) := by
  induction n generalizing dt error seen s with
  | zero =>
    refine ⟨[], _, s, .full, ?_⟩
    simp [steps, RunState.finish, Except.map, summary, views]
  | succ n ih =>
    rw [steps_succ]
    exact tryStep_course ih p.maxRetries.toNat dt error seen s

/-- Every run takes a course, and reports on it. -/
theorem run_course (r : Runner σ α ω) (p : StepPolicy α) (maxSteps : Int) (s : σ) :
    ∃ log e final, Course r p maxSteps.toNat p.maxRetries.toNat p.dt s log e final ∧
      r.run p maxSteps s = (e.map (r.summary [] none log), final) :=
  steps_course maxSteps.toNat p.dt none [] s

end Runner

end Galerkin

/-! ### What a run keeps to -/

namespace Galerkin

namespace Runner

open Trial

variable {σ K ω κ : Type} [ExactNumbers K] {r : Runner σ K ω} {p : StepPolicy K} {n k : Nat} {dt : K} {s : σ}
  {log : List (Trial σ K)} {e : Except Failure RunStatus} {final : σ}

/-! ### Sizes and numbers of tries -/

theorem Course.made (course : Course r p n k dt s log e final) :
    ∀ t ∈ log, r.attempt t.dt t.before = (t.outcome, t.after) := by
  induction course with
  | full => exact fun _ member => absurd member List.not_mem_nil
  | done made _ _ ih => exact List.forall_mem_cons.mpr ⟨made, ih⟩
  | steady made => exact List.forall_mem_singleton.mpr made
  | unclear made => exact List.forall_mem_singleton.mpr made
  | rejected made _ _ _ ih => exact List.forall_mem_cons.mpr ⟨made, ih⟩
  | givenUp made => exact List.forall_mem_singleton.mpr made
  | aborted made => exact List.forall_mem_singleton.mpr made

omit [ExactNumbers K] in
/-- A try in a log is its first one, or comes after it. -/
theorem split_cons {first t : Trial σ K} {before after : List (Trial σ K)}
    (split : first :: log = before ++ t :: after) :
    (before = [] ∧ t = first) ∨ ∃ rest, before = first :: rest ∧ log = rest ++ t :: after := by
  rcases List.cons_eq_append_iff.mp split with ⟨rfl, same⟩ | later
  · exact Or.inl ⟨rfl, (List.cons.inj same).1⟩
  · exact Or.inr later

omit [ExactNumbers K] in
theorem split_singleton {first t : Trial σ K} {before after : List (Trial σ K)}
    (split : [first] = before ++ t :: after) : before = [] ∧ t = first := by
  rcases split_cons split with here | ⟨rest, -, impossible⟩
  · exact here
  · exact absurd impossible (by simp)

/-- Every failure before a try made its size smaller once. -/
theorem Course.dt_eq (course : Course r p n k dt s log e final) {before after : List (Trial σ K)}
    {t : Trial σ K} (split : log = before ++ t :: after) :
    t.dt = dt * p.reduction ^ (failures before).length := by
  induction course generalizing before with
  | full => exact absurd split (by simp)
  | done made unsteady rest ih =>
    rcases split_cons split with ⟨rfl, rfl⟩ | ⟨before, rfl, later⟩
    · rw [failures_nil, List.length_nil, pow_zero, mul_one]
    · rw [ih later, failures_cons_done]
  | rejected made recoverable large rest ih =>
    rcases split_cons split with ⟨rfl, rfl⟩ | ⟨before, rfl, later⟩
    · rw [failures_nil, List.length_nil, pow_zero, mul_one]
    · rw [ih later, failures_cons_failed, List.length_cons, pow_succ', ← mul_assoc]
  | _ =>
    obtain ⟨rfl, rfl⟩ := split_singleton split
    rw [failures_nil, List.length_nil, pow_zero, mul_one]

/-- After a failure no size is below the smallest one. -/
theorem Course.dtMin_le (course : Course r p n k dt s log e final) {before after : List (Trial σ K)}
    {t : Trial σ K} (split : log = before ++ t :: after) (failed : failures before ≠ []) :
    p.dtMin ≤ t.dt := by
  induction course generalizing before with
  | full => exact absurd split (by simp)
  | done made unsteady rest ih =>
    rcases split_cons split with ⟨rfl, rfl⟩ | ⟨before, rfl, later⟩
    · exact absurd rfl failed
    · exact ih later failed
  | rejected made recoverable large rest ih =>
    rcases split_cons split with ⟨rfl, rfl⟩ | ⟨before, rfl, later⟩
    · exact absurd rfl failed
    · by_cases first : failures before = []
      · have size := rest.dt_eq later
        rw [first, List.length_nil, pow_zero, mul_one] at size
        rw [size]
        exact not_lt.mp large
      · exact ih later first
  | _ =>
    obtain ⟨rfl, rfl⟩ := split_singleton split
    exact absurd rfl failed

/-- The step that a run is at is tried again at most `k` times. -/
theorem Course.block_le (course : Course r p n k dt s log e final) {block after : List (Trial σ K)}
    {t : Trial σ K} (split : log = block ++ t :: after) (failed : ∀ b ∈ block, b.failure ≠ none) :
    block.length ≤ k := by
  induction course generalizing block with
  | full => exact absurd split (by simp)
  | done made unsteady rest ih =>
    rcases split_cons split with ⟨rfl, -⟩ | ⟨block, rfl, later⟩
    · exact Nat.zero_le _
    · exact absurd rfl (failed _ List.mem_cons_self)
  | rejected made recoverable large rest ih =>
    rcases split_cons split with ⟨rfl, -⟩ | ⟨block, rfl, later⟩
    · exact Nat.zero_le _
    · exact Nat.succ_le_succ (ih later fun b member => failed b (List.mem_cons_of_mem _ member))
  | _ =>
    obtain ⟨rfl, -⟩ := split_singleton split
    exact Nat.zero_le _

/-- Every step is tried again at most as often as the policy allows. -/
theorem Course.retries_le (course : Course r p n k dt s log e final) (allowed : k ≤ p.maxRetries.toNat)
    {before block after : List (Trial σ K)} {t : Trial σ K} (split : log = before ++ (block ++ t :: after))
    (failed : ∀ b ∈ block, b.failure ≠ none) : block.length ≤ p.maxRetries.toNat := by
  induction before generalizing n k dt s log with
  | nil => exact (course.block_le split failed).trans allowed
  | cons first before ih =>
    cases course with
    | full => cases split
    | done made unsteady rest => exact ih rest le_rfl (List.cons.inj split).2
    | rejected made recoverable large rest =>
      exact ih rest (Nat.le_of_succ_le allowed) (List.cons.inj split).2
    | _ => exact absurd (List.cons.inj split).2 (by simp)

/-- The tries are finite in number: each of the `n` steps is tried once and again as often as allowed. -/
theorem Course.length_le (course : Course r p n k dt s log e final) (allowed : k ≤ p.maxRetries.toNat) :
    log.length + (p.maxRetries.toNat - k) ≤ n * (p.maxRetries.toNat + 1) ∨ n = 0 ∧ log = [] := by
  induction course with
  | full => exact Or.inr ⟨rfl, rfl⟩
  | done made unsteady rest ih =>
    rw [Nat.succ_mul, List.length_cons]
    rcases ih le_rfl with more | ⟨rfl, rfl⟩
    · omega
    · simp only [List.length_nil]
      omega
  | rejected made recoverable large rest ih =>
    rw [List.length_cons]
    rcases ih (Nat.le_of_succ_le allowed) with more | ⟨impossible, -⟩ <;> omega
  | _ =>
    rw [Nat.succ_mul, List.length_singleton]
    omega

/-! ### How a run ends -/

/-- The answers that a run got about what it saw, by the way it ended. -/
theorem Course.verdict (course : Course r p n k dt s log e final) :
    match e with
    | .ok .steady => ∃ earlier last, r.views log = earlier ++ [last] ∧ r.steady last = .ok true ∧
        ∀ w ∈ earlier, r.steady w = .ok false
    | .ok .maxSteps => (commits log).length = n ∧ ∀ w ∈ r.views log, r.steady w = .ok false
    | .ok .diverged => (∃ front t, log = front ++ [t] ∧ t.failure ≠ none) ∧ (commits log).length < n ∧
        ∀ w ∈ r.views log, r.steady w = .ok false
    | .error _ => True := by
  induction course with
  | full => exact ⟨rfl, fun _ member => absurd member List.not_mem_nil⟩
  | @done n k dt s s' log e final made unsteady rest ih =>
    have seen : r.views (⟨dt, s, none, s'⟩ :: log) = (r.observe s').1 :: r.views log := rfl
    have unsettled : ∀ {ws : List ω}, (∀ w ∈ ws, r.steady w = .ok false) →
        ∀ w ∈ (r.observe s').1 :: ws, r.steady w = .ok false :=
      fun others => List.forall_mem_cons.mpr ⟨unsteady, others⟩
    rcases e with f | status
    · trivial
    · cases status with
      | steady =>
        obtain ⟨earlier, last, views, held, before⟩ := ih
        exact ⟨_ :: earlier, last, by rw [seen, views]; rfl, held, unsettled before⟩
      | maxSteps =>
        obtain ⟨count, before⟩ := ih
        exact ⟨congrArg (· + 1) count, unsettled before⟩
      | diverged =>
        obtain ⟨⟨front, t, rfl, failed⟩, count, before⟩ := ih
        exact ⟨⟨_ :: front, t, rfl, failed⟩, Nat.succ_lt_succ count, unsettled before⟩
  | steady made held => exact ⟨[], _, rfl, held, fun _ member => absurd member List.not_mem_nil⟩
  | unclear => trivial
  | @rejected n k dt s f s' log e final made recoverable large rest ih =>
    rcases e with f | status
    · trivial
    · cases status with
      | steady => exact ih
      | maxSteps => exact ih
      | diverged =>
        obtain ⟨⟨front, t, rfl, failed⟩, unfinished⟩ := ih
        exact ⟨⟨_ :: front, t, rfl, failed⟩, unfinished⟩
  | givenUp =>
    refine ⟨⟨[], _, rfl, Option.some_ne_none _⟩, Nat.succ_pos _, ?_⟩
    exact fun _ member => absurd member List.not_mem_nil
  | aborted => trivial

/-! ### Where a run leads -/

/-- Tries that finish a step move the time on by its size, tries that fail recoverably keep the time and
what is saved, and looking at a finished step keeps both. -/
structure Transactional (r : Runner σ K ω) (time : σ → K) (saved : σ → κ) : Prop where
  done : ∀ {dt s s'}, r.attempt dt s = (.ok (), s') → time s' = time s + dt
  failed : ∀ {dt s f s'}, r.attempt dt s = (.error f, s') → f.recoverable = true →
    time s' = time s ∧ saved s' = saved s
  observed : ∀ {dt s s'}, r.attempt dt s = (.ok (), s') →
    time (r.observe s').2 = time s' ∧ saved (r.observe s').2 = saved s'

/-- Every failure of a try with a positive size can be recovered from, and what is seen is judged. -/
structure Dependable (r : Runner σ K ω) : Prop where
  recoverable : ∀ {dt s f s'}, 0 < dt → r.attempt dt s = (.error f, s') → f.recoverable = true
  judged : ∀ w, ∃ b, r.steady w = .ok b

variable {time : σ → K} {saved : σ → κ}

theorem Course.dt_pos_of_rejected (floor : 0 < p.dtMin) (large : ¬dt * p.reduction < p.dtMin) :
    0 < dt * p.reduction :=
  lt_of_lt_of_le floor (not_lt.mp large)

theorem Course.ended (course : Course r p n k dt s log e final) (dependable : r.Dependable) (positive : 0 < dt)
    (floor : 0 < p.dtMin) : ∃ status, e = .ok status := by
  induction course with
  | full => exact ⟨_, rfl⟩
  | done made unsteady rest ih => exact ih positive
  | steady => exact ⟨_, rfl⟩
  | unclear made unclear =>
    obtain ⟨b, judged⟩ := dependable.judged _
    rw [judged] at unclear
    cases unclear
  | rejected made recoverable large rest ih => exact ih (dt_pos_of_rejected floor large)
  | givenUp => exact ⟨_, rfl⟩
  | aborted made fatal =>
    rw [dependable.recoverable positive made] at fatal
    cases fatal

theorem Course.time_eq {status : RunStatus} (course : Course r p n k dt s log (.ok status) final)
    (transactional : r.Transactional time saved) :
    time final = time s + ((commits log).map (·.dt)).sum := by
  generalize outcome : Except.ok status = e at course
  induction course with
  | full => exact (add_zero _).symm
  | done made unsteady rest ih =>
    rw [ih outcome, (transactional.observed made).1, transactional.done made, commits_cons_done, List.map_cons,
      List.sum_cons, add_assoc]
  | steady made held =>
    rw [(transactional.observed made).1, transactional.done made, commits_cons_done, commits_nil]
    simp
  | unclear => cases outcome
  | rejected made recoverable large rest ih =>
    rw [ih outcome, (transactional.failed made recoverable).1, commits_cons_failed]
  | givenUp made recoverable =>
    rw [(transactional.failed made recoverable).1]
    exact (add_zero _).symm
  | aborted => cases outcome

/-- What is saved in the end was saved by the last step that was finished. -/
theorem Course.saved_eq {status : RunStatus} (course : Course r p n k dt s log (.ok status) final)
    (transactional : r.Transactional time saved) :
    saved final = saved (((commits log).getLast?.map (·.after)).getD s) := by
  generalize outcome : Except.ok status = e at course
  induction course with
  | full => rfl
  | @done n k dt s s' log e final made unsteady rest ih =>
    rw [ih outcome, commits_cons_done]
    cases later : (commits log).getLast? with
    | none =>
      rw [List.getLast?_eq_none_iff.mp later]
      exact (transactional.observed made).2
    | some t => rw [List.getLast?_cons, later]; rfl
  | steady made held => exact (transactional.observed made).2
  | unclear => cases outcome
  | @rejected n k dt s f s' log e final made recoverable large rest ih =>
    rw [ih outcome, commits_cons_failed]
    cases (commits log).getLast? with
    | none => exact (transactional.failed made recoverable).2
    | some t => rfl
  | givenUp made recoverable => exact (transactional.failed made recoverable).2
  | aborted => cases outcome

/-- What a run of at most `maxSteps` steps from `s` keeps to. Its tries are those in `log`, and it leaves the
state `final`. -/
structure Contract (r : Runner σ K ω) (p : StepPolicy K) (time : σ → K) (saved : σ → κ) (maxSteps : Int) (s : σ)
    (log : List (Trial σ K)) (result : RunResult ω) (final : σ) : Prop where
  course : Course r p maxSteps.toNat p.maxRetries.toNat p.dt s log (.ok result.status) final
  made : ∀ t ∈ log, r.attempt t.dt t.before = (t.outcome, t.after)
  tries : log.length ≤ maxSteps.toNat * (p.maxRetries.toNat + 1)
  /-- Every failure in the run makes all further sizes smaller once. -/
  size : ∀ before t after, log = before ++ t :: after →
    t.dt = p.dt * p.reduction ^ (failures before).length
  floor : ∀ before t after, log = before ++ t :: after → failures before ≠ [] → p.dtMin ≤ t.dt
  /-- The tries at one step: some that failed, and the one after them. -/
  retries : ∀ before block t after, log = before ++ (block ++ t :: after) → (∀ b ∈ block, b.failure ≠ none) →
    (block ++ [t]).length ≤ p.maxRetries.toNat + 1
  seen : result.seen = (commits log).map fun t => (r.observe t.after).1
  steps : result.steps = (commits log).length
  error : result.error = (failures log).getLast?
  time : time final = time s + ((commits log).map (·.dt)).sum
  saved : saved final = saved (((commits log).getLast?.map (·.after)).getD s)
  steady : result.status = .steady ↔ ∃ earlier last, result.seen = earlier ++ [last] ∧
    r.steady last = .ok true ∧ ∀ w ∈ earlier, r.steady w = .ok false
  maxSteps : result.status = .maxSteps ↔ result.steps = maxSteps.toNat ∧ ∀ w ∈ result.seen, r.steady w = .ok false
  /-- A run that ends in another way ends with a failed try. -/
  diverged : result.status = .diverged → ∃ front t, log = front ++ [t] ∧ t.failure ≠ none

omit [ExactNumbers K] in
/-- Where the last view ends a run, not every view lets it go on. -/
theorem not_all_unsteady {views earlier : List ω} {last : ω} (split : views = earlier ++ [last])
    (held : r.steady last = .ok true) : ¬∀ w ∈ views, r.steady w = .ok false := by
  intro none
  have refused := none last (by simp [split])
  rw [held] at refused
  cases refused

theorem run_contract (transactional : r.Transactional time saved) (dependable : r.Dependable)
    (positive : 0 < p.dt) (floor : 0 < p.dtMin) (maxSteps : Int) (s : σ) :
    ∃ log result final, r.run p maxSteps s = (.ok result, final) ∧
      r.Contract p time saved maxSteps s log result final := by
  obtain ⟨log, e, final, course, same⟩ := run_course r p maxSteps s
  obtain ⟨status, rfl⟩ := course.ended dependable positive floor
  have verdict := course.verdict
  have steps : (r.views log).length = (commits log).length := List.length_map _
  refine ⟨log, _, final, same, ?_⟩
  exact
    { course := course
      made := course.made
      tries := by
        rcases course.length_le le_rfl with bound | ⟨-, rfl⟩
        · omega
        · exact Nat.zero_le _
      size := fun _ _ _ => course.dt_eq
      floor := fun _ _ _ => course.dtMin_le
      retries := fun _ _ _ _ split failed => by
        rw [List.length_append, List.length_singleton]
        exact Nat.succ_le_succ (course.retries_le le_rfl split failed)
      seen := rfl
      steps := steps
      error := by simp [summary]
      time := course.time_eq transactional
      saved := course.saved_eq transactional
      steady := by
        constructor
        · rintro rfl
          exact verdict
        · rintro ⟨earlier, last, split, held, -⟩
          have refuted := not_all_unsteady split held
          cases status with
          | steady => rfl
          | maxSteps => exact absurd verdict.2 refuted
          | diverged => exact absurd verdict.2.2 refuted
      maxSteps := by
        constructor
        · rintro rfl
          exact ⟨steps.trans verdict.1, verdict.2⟩
        · rintro ⟨count, unsteady⟩
          cases status with
          | steady =>
            obtain ⟨earlier, last, split, held, -⟩ := verdict
            exact absurd unsteady (not_all_unsteady split held)
          | maxSteps => rfl
          | diverged => exact absurd (steps.symm.trans count) verdict.2.1.ne
      diverged := by
        rintro rfl
        exact verdict.1 }

/-- The time is all there is; steps of more than half a unit fail, and time two is steady. -/
noncomputable def hasty : Runner ℝ ℝ ℝ where
  attempt dt t := if 1 < dt + dt then (.error .linearSolver, t) else (.ok (), t + dt)
  observe t := (t, t)
  steady t := .ok (decide (1 + 1 ≤ t))

theorem hasty_attempt (dt t : ℝ) :
    hasty.attempt dt t = (.error .linearSolver, t) ∨ hasty.attempt dt t = (.ok (), t + dt) := by
  rcases lt_or_ge 1 (dt + dt) with large | small
  · exact Or.inl (if_pos large)
  · exact Or.inr (if_neg (not_lt.mpr small))

theorem hasty_transactional : hasty.Transactional id id where
  done := by
    intro dt s s' made
    rcases hasty_attempt dt s with failed | done
    · cases failed.symm.trans made
    · exact (Prod.mk.inj (done.symm.trans made)).2.symm
  failed := by
    intro dt s f s' made _
    rcases hasty_attempt dt s with failed | done
    · obtain rfl := (Prod.mk.inj (failed.symm.trans made)).2
      exact ⟨rfl, rfl⟩
    · cases done.symm.trans made
  observed := fun _ => ⟨rfl, rfl⟩

theorem hasty_dependable : hasty.Dependable where
  recoverable := by
    intro dt s f s' _ made
    rcases hasty_attempt dt s with failed | done
    · cases failed.symm.trans made
      rfl
    · cases done.symm.trans made
  judged := fun _ => ⟨_, rfl⟩

theorem hasty_run_contract : ∃ log result final, hasty.run ⟨1, 10, 1 / 8, 1 / 2, 3⟩ 10 0 = (.ok result, final) ∧
    hasty.Contract ⟨1, 10, 1 / 8, 1 / 2, 3⟩ id id 10 0 log result final := by
  have floor : (0 : ℝ) < 1 / 8 := by norm_num
  exact run_contract hasty_transactional hasty_dependable one_pos floor 10 0

end Runner

end Galerkin
