import Mathlib
import Galerkin.Proofs.Reading.Parse

/-!
How reading ends. Every function of the descent takes tokens off the front of those it gets, and so does every round
of a loop, so that the fuel is never used up. A text is read, or it is refused as malformed, or what a token is
converted to refuses it: a whole number with too many digits, or a name between braces that is no identifier.
-/

namespace Galerkin

theorem Drawing.bind_congr {α β : Type} {work : Drawing α} {next other : α → Drawing β}
    (same : ∀ n a n', work.run.run n = (.ok a, n') → next a = other a) : work >>= next = work >>= other := by
  refine ExceptT.ext (StateT.ext fun n => ?_)
  rw [ExceptT.run_bind, ExceptT.run_bind, StateT.run_bind, StateT.run_bind]
  rcases done : work.run.run n with ⟨f | a, n'⟩
  · rfl
  · exact congrArg (fun later : Drawing β => later.run.run n') (same n a n' done)

namespace Reading

/-! ### Failures of a text -/

/-- What is raised where a token is converted, with the token that is at fault. -/
inductive Slip (ts : Tokens) : Failure → Prop
  | tooLong {t : Token} (member : t ∈ ts) (kind : t.kind = .number)
      (long : (Number.Literal.ofChars t.text.toList).isTooLong = true) : Slip ts .tooLong
  | indexName (before : Tokens) {inside after : Tokens} {o t : Token} (split : ts = before ++ (o :: inside ++ t :: after))
      (opened : o.text = "\x7b") (unclosed : ∀ s ∈ inside, s.text ≠ "\x7d") (kind : t.kind = .name)
      (other : Text.isIdentifier t.text = false) : Slip ts (.invalid (.indexName (Text.quote t.text)))

/-- The failures that reading some tokens may end with. -/
def Refusal (ts : Tokens) (f : Failure) : Prop := (∃ e, f = .malformed e) ∨ Slip ts f

section Failures

variable {α : Type} {ts rest : Tokens} {f : Failure}

theorem Slip.behind (slip : Slip rest f) (used : Tokens) : Slip (used ++ rest) f := by
  cases slip with
  | tooLong member kind long => exact .tooLong (List.mem_append_right used member) kind long
  | indexName before split opened unclosed kind other =>
      exact .indexName (used ++ before) (by rw [split, List.append_assoc]) opened unclosed kind other

theorem Refusal.behind (refusal : Refusal rest f) (used : Tokens) : Refusal (used ++ rest) f :=
  refusal.imp_right (·.behind used)

theorem scan_eq_error {column : Nat} {cs : List Char} (failed : scan column cs = .error f) :
    ∃ e, f = .malformed e := by
  induction size : cs.length using Nat.strong_induction_on generalizing column cs with
  | _ size ih =>
    subst size
    cases cs with
    | nil =>
        rw [scan] at failed
        cases failed
    | cons c cs =>
        rw [scan] at failed
        cases found : lexemeAt c cs with
        | none =>
            rw [found] at failed
            cases failed
            exact ⟨_, rfl⟩
        | some lexeme =>
            obtain ⟨lexeme, more⟩ := lexeme
            rw [found] at failed
            rcases Outcome.bind_eq_error.mp failed with failed | ⟨later, -, impossible⟩
            · exact ih _ (by rw [List.length_drop, List.length_cons]; omega) failed rfl
            · cases lexeme <;> cases impossible

theorem applied_eq_error {t : Token} {args : List Expr} (failed : applied t args = .error f) :
    ∃ e, f = .malformed e := by
  unfold applied at failed
  split at failed
  · split at failed <;> cases failed
    exact ⟨_, rfl⟩
  · split at failed
    · split at failed <;> cases failed
      exact ⟨_, rfl⟩
    · cases failed
      exact ⟨_, rfl⟩

theorem access_eq_error {d : Definition} (known : Known d.body.indices) {actual : List Index} {n n' : Nat}
    (failed : (d.access actual).run.run n = (.error f, n')) : ∃ e, f = .malformed e := by
  by_cases fits : actual.length = d.rank
  · obtain ⟨e, m, done⟩ := d.access_isOk known fits n
    rw [done] at failed
    cases failed
  · rw [Definition.access, if_pos (by simpa using fits)] at failed
    cases failed
    exact ⟨_, rfl⟩

end Failures

/-! ### Taking tokens off -/

/-- What is left of some tokens when at least `k` of them are taken off the front. -/
def Leaves (k : Nat) (ts rest : Tokens) : Prop := ∃ used, ts = used ++ rest ∧ k ≤ used.length

/-- Work on tokens that may get more fuel: with more of it the work does the same. When it succeeds it has taken at
least `k` tokens off, and it fails only as reading them may. -/
structure Consumes {α : Type} (k : Nat) (ts : Tokens) (work : Nat → Drawing (α × Tokens)) : Prop where
  steady : ∀ more, work more = work 0
  ok : ∀ {n a rest n'}, (work 0).run.run n = (.ok (a, rest), n') → Leaves k ts rest
  error : ∀ {n f n'}, (work 0).run.run n = (.error f, n') → Refusal ts f

section Consuming

variable {α β : Type} {i j k : Nat} {ts mid rest : Tokens}

theorem Leaves.length_le (left : Leaves k ts rest) : rest.length + k ≤ ts.length := by
  obtain ⟨used, rfl, least⟩ := left
  rw [List.length_append]
  omega

theorem Leaves.trans (first : Leaves j ts mid) (second : Leaves k mid rest) : Leaves (j + k) ts rest := by
  obtain ⟨used, rfl, least⟩ := first
  obtain ⟨more, rfl, further⟩ := second
  exact ⟨used ++ more, (List.append_assoc ..).symm, by rw [List.length_append]; omega⟩

theorem Consumes.mono {work : Nat → Drawing (α × Tokens)} (consumes : Consumes k ts work) (fewer : j ≤ k) :
    Consumes j ts work where
  steady := consumes.steady
  ok done := by
    obtain ⟨used, split, least⟩ := consumes.ok done
    exact ⟨used, split, by omega⟩
  error := consumes.error

theorem Consumes.cons {work : Nat → Drawing (α × Tokens)} (consumes : Consumes k ts work) (t : Token)
    (fewer : j ≤ k + 1 := by omega) : Consumes j (t :: ts) work where
  steady := consumes.steady
  ok done := by
    obtain ⟨used, rfl, least⟩ := consumes.ok done
    exact ⟨t :: used, rfl, by rw [List.length_cons]; omega⟩
  error failed := (consumes.error failed).behind [t]

theorem Consumes.bind {work : Nat → Drawing (α × Tokens)} {next : Nat → α × Tokens → Drawing (β × Tokens)}
    (first : Consumes j ts work)
    (second : ∀ a rest, Leaves j ts rest → Consumes k rest fun more => next more (a, rest))
    (fewer : i ≤ j + k := by omega) : Consumes i ts fun more => work more >>= next more where
  steady more := by
    rw [first.steady more]
    refine Drawing.bind_congr fun n ⟨a, mid⟩ later read => ?_
    exact (second a mid (first.ok read)).steady more
  ok done := by
    obtain ⟨⟨a, mid⟩, later, read, more⟩ := Outcome.run_bind_eq_ok.mp done
    have left := first.ok read
    obtain ⟨used, split, least⟩ := left.trans ((second a mid left).ok more)
    exact ⟨used, split, fewer.trans least⟩
  error failed := by
    rcases Outcome.run_bind_eq_error.mp failed with failed | ⟨⟨a, mid⟩, later, read, failed⟩
    · exact first.error failed
    · have left := first.ok read
      have refusal := (second a mid left).error failed
      obtain ⟨used, rfl, -⟩ := left
      exact refusal.behind used

theorem consumes_pure (a : α) (ts : Tokens) : Consumes 0 ts fun _ => pure (a, ts) where
  steady _ := rfl
  ok done := by
    cases done
    exact ⟨[], rfl, Nat.le_refl 0⟩
  error failed := by cases failed

theorem consumes_throw {f : Failure} (refusal : Refusal ts f) :
    Consumes k ts fun _ => (throw f : Drawing (α × Tokens)) where
  steady _ := rfl
  ok done := by cases done
  error failed := by
    cases failed
    exact refusal

theorem consumes_malformed (e : FormError) :
    Consumes k ts fun _ => (throw (.malformed e) : Drawing (α × Tokens)) :=
  consumes_throw (Or.inl ⟨e, rfl⟩)

/-- Work that takes no tokens, when all its failures are malformed forms. -/
theorem consumes_aside {work : Drawing α} (ts : Tokens)
    (clean : ∀ {n f n'}, work.run.run n = (.error f, n') → ∃ e, f = .malformed e) :
    Consumes 0 ts fun _ => work >>= fun a => pure (a, ts) where
  steady _ := rfl
  ok done := by
    obtain ⟨a, later, -, same⟩ := Outcome.run_bind_eq_ok.mp done
    cases same
    exact ⟨[], rfl, Nat.le_refl 0⟩
  error failed := by
    rcases Outcome.run_bind_eq_error.mp failed with failed | ⟨a, later, -, impossible⟩
    · exact Or.inl (clean failed)
    · cases impossible

theorem consumes_take {ctx : Context} {s : String} {next : Nat → Tokens → Drawing (α × Tokens)}
    (second : ∀ rest, Consumes k rest fun more => next more rest) :
    Consumes (k + 1) ts fun more => take ctx s ts >>= next more := by
  cases ts with
  | nil => exact consumes_malformed _
  | cons t ts =>
      by_cases here : t.text = s
      · simp only [take_here here, pure_bind]
        exact (second ts).cons t
      · simp only [take, beq_iff_eq, here, if_false]
        exact consumes_malformed _

end Consuming

/-! ### Rounds of the loops -/

/-- A round of a chain of operators: the chain is over, or an operand is read behind a token and the chain goes on
behind the operand. -/
def OperatorRound (operand : Tokens → Drawing (Expr × Tokens)) (again : Expr → Tokens → Drawing (Expr × Tokens))
    (a : Expr) (ts : Tokens) (work : Drawing (Expr × Tokens)) : Prop :=
  work = pure (a, ts) ∨
    ∃ t rest op, ts = t :: rest ∧ work = operand rest >>= fun r => again (Operand.BinaryOp.build op a r.1) r.2

/-- A round of the list of arguments: behind an argument the list is closed, or it goes on behind a token. -/
def ArgumentRound (ctx : Context) (argument : Tokens → Drawing (Expr × Tokens))
    (again : Tokens → Drawing (List Expr × Tokens)) (ts : Tokens) (work : Drawing (List Expr × Tokens)) : Prop :=
  ∃ next, work = argument ts >>= next ∧ ∀ a rest,
    (next (a, rest) = take ctx ")" rest >>= fun rest => pure ([a], rest)) ∨
      ∃ t others, rest = t :: others ∧ next (a, rest) = again others >>= fun r => pure (a :: r.1, r.2)

/-- A round of an index list, at its next token: the list is over, or the token is refused, or the list goes on behind
the token and a comma that may follow it. -/
inductive IndexRound (l : IndexList) (t : Token) (rest : Tokens)
    (again : Bool → IndexList → Tokens → Drawing (IndexList × Tokens)) : Drawing (IndexList × Tokens) → Prop
  | closed : IndexRound l t rest again (pure (l, rest))
  | refused (e : FormError) : IndexRound l t rest again (throw (.malformed e))
  | misnamed (kind : t.kind = .name) (other : Text.isIdentifier t.text = false) :
      IndexRound l t rest again (throw (.invalid (.indexName (Text.quote t.text))))
  | more (b : Bool) (longer : IndexList) (inside : t.text ≠ "\x7d") (commas : Tokens) {others : Tokens}
      (split : rest = commas ++ others) (skipped : ∀ c ∈ commas, c.text = ",") :
      IndexRound l t rest again (again b longer others)

/-- A round of each loop. -/
structure Rounds (ctx : Context) (fuel : Nat) : Prop where
  terms : ∀ a ts, OperatorRound (term ctx fuel) (moreTerms ctx fuel) a ts (moreTerms ctx (fuel + 1) a ts)
  factors : ∀ a ts, OperatorRound (unary ctx fuel) (moreFactors ctx fuel) a ts (moreFactors ctx (fuel + 1) a ts)
  arguments : ∀ ts, ArgumentRound ctx (expression ctx fuel) (arguments ctx fuel) ts (arguments ctx (fuel + 1) ts)
  indices : ∀ b l t rest, IndexRound l t rest indexItems (indexItems b l (t :: rest))

section Rounds

variable {ctx : Context} {fuel : Nat} {ts : Tokens}

theorem moreTerms_round (a : Expr) (ts : Tokens) :
    OperatorRound (term ctx fuel) (moreTerms ctx fuel) a ts (moreTerms ctx (fuel + 1) a ts) := by
  cases ts with
  | nil => exact Or.inl rfl
  | cons t ts =>
      by_cases plus : t.text = "+"
      · exact Or.inr ⟨t, ts, .add, rfl, moreTerms_plus plus⟩
      by_cases minus : t.text = "-"
      · exact Or.inr ⟨t, ts, .sub, rfl, moreTerms_minus minus⟩
      · left
        rw [moreTerms, if_neg (by simpa using plus), if_neg (by simpa using minus)]

theorem moreFactors_round (a : Expr) (ts : Tokens) :
    OperatorRound (unary ctx fuel) (moreFactors ctx fuel) a ts (moreFactors ctx (fuel + 1) a ts) := by
  cases ts with
  | nil => exact Or.inl rfl
  | cons t ts =>
      by_cases star : t.text = "*"
      · exact Or.inr ⟨t, ts, .mul, rfl, moreFactors_times star⟩
      by_cases slash : t.text = "/"
      · exact Or.inr ⟨t, ts, .div, rfl, moreFactors_over slash⟩
      · left
        rw [moreFactors, if_neg (by simpa using star), if_neg (by simpa using slash)]

theorem arguments_round (ts : Tokens) :
    ArgumentRound ctx (expression ctx fuel) (arguments ctx fuel) ts (arguments ctx (fuel + 1) ts) := by
  refine ⟨_, by rw [arguments], fun a rest => ?_⟩
  dsimp only
  split
  · rename_i starts
    obtain ⟨t, -, split⟩ := startsWith_eq_true starts
    exact Or.inr ⟨t, rest.drop 1, split, rfl⟩
  · exact Or.inl rfl

theorem IndexList.read_eq_error {b : Bool} {l : IndexList} {name : String} {f : Failure}
    (failed : l.read b name = .error f) :
    (∃ e, f = .malformed e) ∨ Text.isIdentifier name = false ∧ f = .invalid (.indexName (Text.quote name)) := by
  unfold IndexList.read at failed
  split at failed
  · cases b <;> cases failed
    exact Or.inl ⟨_, rfl⟩
  · rcases Outcome.bind_eq_error.mp failed with failed | ⟨i, -, impossible⟩
    · unfold Index.ofName at failed
      split at failed
      · rename_i other
        cases failed
        exact Or.inr ⟨by simpa using other, rfl⟩
      · cases failed
    · cases impossible

theorem indexItems_round (b : Bool) (l : IndexList) (t : Token) (rest : Tokens) :
    IndexRound l t rest indexItems (indexItems b l (t :: rest)) := by
  by_cases brace : t.text = "\x7d"
  · rw [indexItems_close brace]
    exact .closed
  by_cases semicolon : t.text = ";"
  · cases b with
    | true =>
        rw [indexItems, if_neg (by simpa using brace), if_pos (by simp [semicolon])]
        exact .refused _
    | false =>
        rw [indexItems_split semicolon]
        exact .more true l brace [] rfl (List.forall_mem_nil _)
  by_cases kind : t.kind = .name
  · rw [indexItems_name brace semicolon kind]
    cases read : l.read b t.text with
    | error f =>
        rcases IndexList.read_eq_error read with ⟨e, rfl⟩ | ⟨other, rfl⟩
        · exact .refused e
        · exact .misnamed kind other
    | ok l =>
        rw [lift_ok, pure_bind]
        cases rest with
        | nil => exact .more b l brace [] rfl (List.forall_mem_nil _)
        | cons c rest =>
            by_cases comma : c.text = ","
            · rw [dropComma, if_pos (by simp [comma])]
              exact .more b l brace [c] rfl (by simp [comma])
            · rw [dropComma, if_neg (by simp [comma])]
              exact .more b l brace [] rfl (List.forall_mem_nil _)
  · rw [indexItems, if_neg (by simpa using brace), if_neg (by simpa using semicolon), if_pos (by simpa using kind)]
    exact .refused _

/-- Every round of a loop takes a token off before the loop goes on. -/
theorem rounds (ctx : Context) (fuel : Nat) : Rounds ctx fuel :=
  ⟨moreTerms_round, moreFactors_round, arguments_round, indexItems_round⟩

end Rounds

/-! ### Index lists -/

section Braces

variable {ctx : Context} {ts : Tokens}

theorem indexItems_takes {b : Bool} {l l' : IndexList} {rest : Tokens} {n n' : Nat}
    (done : (indexItems b l ts).run.run n = (.ok (l', rest), n')) : Leaves 1 ts rest := by
  obtain ⟨used, split, remaining, -⟩ := indexItems_eq_ok done
  refine ⟨used, split, ?_⟩
  cases remaining <;> simp only [List.length_append, List.length_cons] <;> omega

/-- What an index list raises, with the brace and the tokens in front of it that were read before. -/
theorem indexItems_eq_error {o : Token} (opened : o.text = "\x7b") {inside : Tokens}
    (unclosed : ∀ s ∈ inside, s.text ≠ "\x7d") {b : Bool} {l : IndexList} {n n' : Nat} {f : Failure}
    (failed : (indexItems b l ts).run.run n = (.error f, n')) : Refusal (o :: inside ++ ts) f := by
  induction size : ts.length using Nat.strong_induction_on generalizing inside b l ts with
  | _ size ih =>
    subst size
    cases ts with
    | nil =>
        rw [indexItems] at failed
        cases failed
        exact Or.inl ⟨_, rfl⟩
    | cons t rest =>
        have round := indexItems_round b l t rest
        generalize indexItems b l (t :: rest) = work at round failed
        cases round with
        | closed => cases failed
        | refused e =>
            cases failed
            exact Or.inl ⟨e, rfl⟩
        | misnamed kind other =>
            cases failed
            exact Or.inr (.indexName [] rfl opened unclosed kind other)
        | @more b longer brace commas others split skipped =>
            have further : ∀ s ∈ inside ++ t :: commas, s.text ≠ "\x7d" := by
              intro s member
              rcases List.mem_append.mp member with before | here
              · exact unclosed s before
              · rcases List.mem_cons.mp here with rfl | comma
                · exact brace
                · rw [skipped s comma]
                  decide
            have shorter : others.length < (t :: rest).length := by
              rw [split, List.length_cons, List.length_append]
              omega
            have refusal := ih _ shorter further failed rfl
            rwa [List.cons_append, List.append_assoc, List.cons_append, ← split, ← List.cons_append] at refusal

theorem braces_consumes (ctx : Context) (ts : Tokens) : Consumes 2 ts fun _ => braces ctx ts := by
  cases ts with
  | nil => exact consumes_malformed _
  | cons o ts =>
      by_cases opened : o.text = "\x7b"
      · simp only [braces, take_here opened, pure_bind]
        refine ⟨fun _ => rfl, fun done => ?_, fun failed => ?_⟩
        · obtain ⟨used, rfl, least⟩ := indexItems_takes done
          exact ⟨o :: used, rfl, by rw [List.length_cons]; omega⟩
        · exact indexItems_eq_error opened (List.forall_mem_nil _) failed
      · simp only [braces, take, beq_iff_eq, opened, if_false]
        exact consumes_malformed _

theorem bracesIfAny_consumes (ctx : Context) (ts : Tokens) : Consumes 0 ts fun _ => bracesIfAny ctx ts := by
  unfold bracesIfAny
  split
  · exact (braces_consumes ctx ts).mono (Nat.zero_le 2)
  · exact consumes_pure _ ts

end Braces

/-! ### Names -/

section Names

variable {ctx : Context} {t : Token}

theorem boundName_consumes (named : Named ctx.names) {value : Operand} (here : ctx.names.find? t.text = some value)
    (ts : Tokens) : Consumes 0 ts fun _ => boundName ctx t value ts := by
  unfold boundName
  split
  · exact (bracesIfAny_consumes ctx ts).bind (k := 0) fun l rest _ => consumes_pure _ rest
  · rename_i d
    refine (bracesIfAny_consumes ctx ts).bind (k := 0) fun l rest _ => ?_
    dsimp only
    split
    · exact consumes_malformed _
    · exact consumes_aside rest fun failed => access_eq_error (named _ d here) failed
  · exact consumes_pure _ ts
  · exact consumes_pure _ ts
  · exact consumes_malformed _

theorem symbolName_consumes (ctx : Context) (t : Token) (ts : Tokens) :
    Consumes 0 ts fun _ => symbolName ctx t ts := by
  unfold symbolName
  split
  · refine (braces_consumes ctx ts).bind (k := 0) fun l rest _ => ?_
    dsimp only
    split
    · exact consumes_pure _ rest
    · exact consumes_malformed _
  · split
    · refine (braces_consumes ctx ts).bind (k := 0) fun l rest _ => ?_
      dsimp only
      split
      · exact consumes_pure _ rest
      · exact consumes_malformed _
    · exact consumes_malformed _

end Names

/-! ### The descent -/

/-- What every function of the descent does when the fuel is enough for the tokens that are left. -/
structure Descent (ctx : Context) (fuel : Nat) : Prop where
  expression : ∀ ts, 8 * ts.length + 5 ≤ fuel → Consumes 1 ts fun more => expression ctx (fuel + more) ts
  moreTerms : ∀ a ts, 8 * ts.length + 1 ≤ fuel → Consumes 0 ts fun more => moreTerms ctx (fuel + more) a ts
  term : ∀ ts, 8 * ts.length + 4 ≤ fuel → Consumes 1 ts fun more => term ctx (fuel + more) ts
  moreFactors : ∀ a ts, 8 * ts.length + 1 ≤ fuel → Consumes 0 ts fun more => moreFactors ctx (fuel + more) a ts
  unary : ∀ ts, 8 * ts.length + 3 ≤ fuel → Consumes 1 ts fun more => unary ctx (fuel + more) ts
  power : ∀ ts, 8 * ts.length + 2 ≤ fuel → Consumes 1 ts fun more => power ctx (fuel + more) ts
  atom : ∀ ts, 8 * ts.length + 1 ≤ fuel → Consumes 1 ts fun more => atom ctx (fuel + more) ts
  arguments : ∀ ts, 8 * ts.length + 6 ≤ fuel → Consumes 2 ts fun more => arguments ctx (fuel + more) ts

section Steps

variable {ctx : Context} {fuel : Nat}

theorem Descent.expression_step (descent : Descent ctx fuel) (ts : Tokens) (enough : 8 * ts.length + 5 ≤ fuel + 1) :
    Consumes 1 ts fun more => Reading.expression ctx (fuel + 1 + more) ts := by
  simp only [Nat.add_right_comm fuel 1, Reading.expression]
  refine (descent.term ts (by omega)).bind (k := 0) fun a rest left => ?_
  exact descent.moreTerms a rest (by have := left.length_le; omega)

theorem Descent.term_step (descent : Descent ctx fuel) (ts : Tokens) (enough : 8 * ts.length + 4 ≤ fuel + 1) :
    Consumes 1 ts fun more => Reading.term ctx (fuel + 1 + more) ts := by
  simp only [Nat.add_right_comm fuel 1, Reading.term]
  refine (descent.unary ts (by omega)).bind (k := 0) fun a rest left => ?_
  exact descent.moreFactors a rest (by have := left.length_le; omega)

/-- An operand behind an operator and the rest of the chain. -/
theorem Consumes.operand {operand : Nat → Drawing (Expr × Tokens)}
    {again : Nat → Expr → Tokens → Drawing (Expr × Tokens)} {t : Token} {ts : Tokens} (op : Operand.BinaryOp)
    (a : Expr) (first : Consumes 1 ts operand)
    (second : ∀ b rest, Leaves 1 ts rest → Consumes 0 rest fun more => again more b rest) :
    Consumes 0 (t :: ts) fun more => operand more >>= fun r => again more (op.build a r.1) r.2 :=
  (first.bind (i := 0) fun b rest left => second (op.build a b) rest left).cons t

theorem Descent.moreTerms_step (descent : Descent ctx fuel) (a : Expr) (ts : Tokens)
    (enough : 8 * ts.length + 1 ≤ fuel + 1) :
    Consumes 0 ts fun more => Reading.moreTerms ctx (fuel + 1 + more) a ts := by
  simp only [Nat.add_right_comm fuel 1]
  cases ts with
  | nil => exact consumes_pure a []
  | cons t ts =>
      rw [List.length_cons] at enough
      have operand := descent.term ts (by omega)
      have others (b : Expr) (rest : Tokens) (left : Leaves 1 ts rest) :=
        descent.moreTerms b rest (by have := left.length_le; omega)
      by_cases plus : t.text = "+"
      · simp only [moreTerms_plus plus]
        exact operand.operand .add a others
      by_cases minus : t.text = "-"
      · simp only [moreTerms_minus minus]
        exact operand.operand .sub a others
      · simp only [Reading.moreTerms, beq_iff_eq, plus, minus, if_false]
        exact consumes_pure a (t :: ts)

theorem Descent.moreFactors_step (descent : Descent ctx fuel) (a : Expr) (ts : Tokens)
    (enough : 8 * ts.length + 1 ≤ fuel + 1) :
    Consumes 0 ts fun more => Reading.moreFactors ctx (fuel + 1 + more) a ts := by
  simp only [Nat.add_right_comm fuel 1]
  cases ts with
  | nil => exact consumes_pure a []
  | cons t ts =>
      rw [List.length_cons] at enough
      have operand := descent.unary ts (by omega)
      have others (b : Expr) (rest : Tokens) (left : Leaves 1 ts rest) :=
        descent.moreFactors b rest (by have := left.length_le; omega)
      by_cases star : t.text = "*"
      · simp only [moreFactors_times star]
        exact operand.operand .mul a others
      by_cases slash : t.text = "/"
      · simp only [moreFactors_over slash]
        exact operand.operand .div a others
      · simp only [Reading.moreFactors, beq_iff_eq, star, slash, if_false]
        exact consumes_pure a (t :: ts)

theorem Descent.unary_step (descent : Descent ctx fuel) (ts : Tokens) (enough : 8 * ts.length + 3 ≤ fuel + 1) :
    Consumes 1 ts fun more => Reading.unary ctx (fuel + 1 + more) ts := by
  simp only [Nat.add_right_comm fuel 1]
  have unsigned := descent.power ts (by omega)
  cases ts with
  | nil => exact unsigned
  | cons t ts =>
      rw [List.length_cons] at enough
      have signed := descent.unary ts (by omega)
      by_cases minus : t.text = "-"
      · simp only [unary_minus minus]
        exact (signed.bind (i := 1) fun a rest _ => consumes_pure a.neg rest).cons t
      by_cases plus : t.text = "+"
      · simp only [unary_plus plus]
        exact signed.cons t
      · simp only [Reading.unary, beq_iff_eq, minus, plus, if_false]
        exact unsigned

theorem Descent.power_step (descent : Descent ctx fuel) (ts : Tokens) (enough : 8 * ts.length + 2 ≤ fuel + 1) :
    Consumes 1 ts fun more => Reading.power ctx (fuel + 1 + more) ts := by
  simp only [Nat.add_right_comm fuel 1, Reading.power]
  refine (descent.atom ts (by omega)).bind (k := 0) fun a rest left => ?_
  have fewer := left.length_le
  cases rest with
  | nil => exact consumes_pure a []
  | cons t rest =>
      rw [List.length_cons] at fewer
      dsimp only
      split
      · have exponent := descent.unary rest (by omega)
        exact (exponent.bind (i := 1) fun b others _ => consumes_pure (Expr.power a b) others).cons t
      · exact consumes_pure a (t :: rest)

theorem Descent.atom_step (descent : Descent ctx fuel) (named : Named ctx.names) (ts : Tokens)
    (enough : 8 * ts.length + 1 ≤ fuel + 1) : Consumes 1 ts fun more => Reading.atom ctx (fuel + 1 + more) ts := by
  simp only [Nat.add_right_comm fuel 1]
  cases ts with
  | nil => exact consumes_malformed _
  | cons t ts =>
      rw [List.length_cons] at enough
      simp only [Reading.atom]
      cases kind : t.kind with
      | number =>
          dsimp only
          split
          · rename_i long
            exact consumes_throw (Or.inr (.tooLong List.mem_cons_self kind long))
          · exact (consumes_pure _ ts).cons t
      | operator =>
          dsimp only
          split
          · refine ((descent.expression ts (by omega)).bind (i := 2) (k := 1) fun e rest _ => ?_).cons t
            exact consumes_take fun others => consumes_pure e others
          · exact consumes_malformed _
      | name =>
          dsimp only
          split
          · rename_i value here
            exact (boundName_consumes named here ts).cons t
          · split
            · rename_i starts
              obtain ⟨o, -, split⟩ := startsWith_eq_true starts
              have fewer : ts.length = (ts.drop 1).length + 1 := congrArg List.length split
              have read := descent.arguments (ts.drop 1) (by omega)
              rw [split]
              refine ((read.bind (i := 2) (k := 0) fun args rest _ => ?_).cons o (j := 3)).cons t
              exact consumes_aside rest fun failed => applied_eq_error (run_lift_eq_error.mp failed).1
            · exact (symbolName_consumes ctx t ts).cons t

theorem Descent.arguments_step (descent : Descent ctx fuel) (ts : Tokens) (enough : 8 * ts.length + 6 ≤ fuel + 1) :
    Consumes 2 ts fun more => Reading.arguments ctx (fuel + 1 + more) ts := by
  simp only [Nat.add_right_comm fuel 1, Reading.arguments]
  refine (descent.expression ts (by omega)).bind (k := 1) fun e rest left => ?_
  have fewer := left.length_le
  dsimp only
  split
  · rename_i starts
    obtain ⟨s, -, split⟩ := startsWith_eq_true starts
    have shorter : rest.length = (rest.drop 1).length + 1 := congrArg List.length split
    have others := descent.arguments (rest.drop 1) (by omega)
    rw [split]
    exact (others.bind (i := 2) fun es behind _ => consumes_pure (e :: es) behind).cons s
  · exact consumes_take fun behind => consumes_pure [e] behind

end Steps

/-- The fuel is enough, and every function of the descent takes tokens off. -/
theorem descent (ctx : Context) (named : Named ctx.names) (fuel : Nat) : Descent ctx fuel := by
  induction fuel with
  | zero => constructor <;> intros <;> omega
  | succ fuel ih =>
      exact ⟨ih.expression_step, ih.moreTerms_step, ih.term_step, ih.moreFactors_step, ih.unary_step, ih.power_step,
        ih.atom_step named, ih.arguments_step⟩

/-! ### Texts -/

theorem parse_eq_error {ns : Namespace} (named : Named ns) {text : String} {n n' : Nat} {f : Failure}
    (failed : (parse ns text).run.run n = (.error f, n')) :
    (∃ e, f = .malformed e) ∨ ∃ ts, tokenize text = .ok ts ∧ Slip ts f := by
  rcases Outcome.run_bind_eq_error.mp failed with failed | ⟨ts, m, lifted, failed⟩
  · exact Or.inl (scan_eq_error (run_lift_eq_error.mp failed).1)
  · obtain ⟨read, rfl⟩ := run_lift.mp lifted
    have whole := (descent ⟨ns, text.length⟩ named (fuelFor ts)).expression ts (by rw [fuelFor]; omega)
    rcases Outcome.run_bind_eq_error.mp failed with failed | ⟨⟨e, rest⟩, later, -, failed⟩
    · exact (whole.error failed).imp_right fun slip => ⟨ts, read, slip⟩
    · cases rest with
      | nil => cases failed
      | cons t rest =>
          cases failed
          exact Or.inl ⟨_, rfl⟩

/-- Reading ends. A text is read, or it is refused as malformed, or with one of the two failures of a conversion,
because of one of its tokens. More fuel than is provided changes nothing, every function of the descent leaves an end
of its tokens behind, and every round of a loop takes a token off before the loop goes on. -/
theorem parse_ends (ns : Namespace) (named : Named ns) :
    (∀ text n, (∃ e n', (parse ns text).run.run n = (.ok e, n')) ∨
      (∃ e n', (parse ns text).run.run n = (.error (.malformed e), n')) ∨
      ∃ ts f n', tokenize text = .ok ts ∧ Slip ts f ∧ (parse ns text).run.run n = (.error f, n')) ∧
    ∀ stop fuel, Descent ⟨ns, stop⟩ fuel ∧ Rounds ⟨ns, stop⟩ fuel := by
  refine ⟨fun text n => ?_, fun stop fuel => ⟨descent ⟨ns, stop⟩ named fuel, rounds ⟨ns, stop⟩ fuel⟩⟩
  rcases ran : (parse ns text).run.run n with ⟨f | e, n'⟩
  · rcases parse_eq_error named ran with ⟨e, rfl⟩ | ⟨ts, read, slip⟩
    · exact Or.inr (Or.inl ⟨e, n', rfl⟩)
    · exact Or.inr (Or.inr ⟨ts, f, n', read, slip, rfl⟩)
  · exact Or.inl ⟨e, n', rfl⟩

/-- A text of no tokens is malformed: it is not read, and no token can be at fault. -/
theorem parse_ends_dollar :
    Named stretched ∧ (∀ ts, tokenize "$" ≠ .ok ts) ∧
      ∃ e n', (parse stretched "$").run.run 0 = (.error (.malformed e), n') := by
  have unread : ∀ ts, tokenize "$" ≠ .ok ts := by
    intro ts read
    have none : lexemeAt '$' [] = none := by decide
    rw [tokenize, show "$".toList = ['$'] from rfl, scan, none] at read
    cases read
  refine ⟨named_stretched, unread, ?_⟩
  rcases (parse_ends stretched named_stretched).1 "$" 0 with ⟨e, n', read⟩ | malformed | ⟨ts, f, n', read, -⟩
  · obtain ⟨ts, x, tokens, -⟩ := parse_eq_ok.mp read
    exact absurd tokens (unread ts)
  · exact malformed
  · exact absurd read (unread ts)

/-- A bound field with an index list that starts with a name that is no identifier. -/
theorem parse_misnamed {ns : Namespace} {text : String} {t o s : Token} {ts : Tokens} {f : Field}
    (read : tokenize text = .ok (t :: o :: s :: ts)) (field : t.kind = .name)
    (bound : ns.find? t.text = some (.expr (.bare f))) (opened : o.text = "\x7b") (kind : s.kind = .name)
    (other : Text.isIdentifier s.text = false) (n : Nat) :
    (parse ns text).run.run n = (.error (.invalid (.indexName (Text.quote s.text))), n) := by
  have proper := tokenize_proper read
  have index : s.Proper := proper s (by simp)
  have untimed : s.text ≠ Index.timeName := by
    intro same
    rw [same] at other
    exact absurd other (by decide)
  have unread (l : IndexList) : l.read false s.text = .error (.invalid (.indexName (Text.quote s.text))) := by
    rw [IndexList.read, if_neg (by simpa using untimed), Index.ofName, if_pos (by simp [other])]
    rfl
  have braced : bracesIfAny ⟨ns, text.length⟩ (o :: s :: ts) = throw (.invalid (.indexName (Text.quote s.text))) := by
    rw [bracesIfAny, if_pos (by simp [startsWith, opened]), braces, take_here opened, pure_bind,
      index.indexItems_eq kind, unread]
    rfl
  have refused : atom ⟨ns, text.length⟩ (8 * ts.length + 27 + 1) (t :: o :: s :: ts) =
      throw (.invalid (.indexName (Text.quote s.text))) := by
    simp only [atom, field, bound, boundName, braced]
    rfl
  have failed := expression_throw (by simp [field]) (proper t List.mem_cons_self) _ refused
  have enough : fuelFor (t :: o :: s :: ts) = 8 * ts.length + 27 + 1 + 4 := by
    simp only [fuelFor, List.length_cons]
    omega
  simp only [parse, read, lift_ok, pure_bind, enough, failed]
  rfl

section Example

def velocity : Field := ⟨"u", 1, false⟩

def moving : Namespace := [("u", .expr (.bare velocity))]

theorem named_moving : Named moving := by
  intro name d here
  simpa [moving] using mem_of_lookup here

/-- The raised two is a name, as tokens go, and no identifier. -/
theorem parse_raised_two :
    Named moving ∧ tokenize "u\x7b²\x7d" =
        .ok [⟨.name, "u", 0⟩, ⟨.operator, "\x7b", 1⟩, ⟨.name, "²", 2⟩, ⟨.operator, "\x7d", 3⟩] ∧
      (parse moving "u\x7b²\x7d").run.run 0 = (.error (.invalid (.indexName (Text.quote "²"))), 0) := by
  have read : tokenize "u\x7b²\x7d" =
      .ok [⟨.name, "u", 0⟩, ⟨.operator, "\x7b", 1⟩, ⟨.name, "²", 2⟩, ⟨.operator, "\x7d", 3⟩] :=
    tokenize_of_spelling <|
      .token ⟨.name, "u", 0⟩ "\x7b²\x7d".toList ⟨'u', [], rfl, rfl⟩ (.of_operator (by decide) (by decide) _) <|
      .token ⟨.operator, "\x7b", 1⟩ "²\x7d".toList (.of_operator rfl rfl (by decide))
        (.behind_operator rfl (by decide) _) <|
      .token ⟨.name, "²", 2⟩ "\x7d".toList ⟨'²', [], rfl, by decide +kernel⟩
        (.of_operator (by decide) (by decide) _) <|
      .token ⟨.operator, "\x7d", 3⟩ "".toList (.of_operator rfl rfl (by decide)) (.at_end _) <|
      .done 4
  exact ⟨named_moving, read, parse_misnamed read rfl rfl rfl rfl (by decide +kernel) 0⟩

end Example

end Reading

end Galerkin
