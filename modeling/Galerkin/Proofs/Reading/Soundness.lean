import Mathlib
import Galerkin.Proofs.Reading.Grammar

/-!
Whatever is read was written by the grammar, and the expression that is made is what the phrase stands for. The
proof is by induction on the fuel: one lemma for each function of the descent, about one step of it.
-/

namespace Galerkin.Reading

/-- A phrase stands for an expression; the dummies that it needs take the numbers from `n` to `n'`. -/
def Phrase.Makes (ns : Namespace) (x : Phrase) (n : Nat) (e : Expr) (n' : Nat) : Prop :=
  (x.tree ns).run.run n = (.ok e, n')

/-- Work on some tokens uses up a phrase of a level, behind `before`, and makes what the phrase stands for. -/
def Level.Found (ns : Namespace) (level : Level) (before ts : Tokens) (e : Expr) (rest : Tokens) (n n' : Nat) :
    Prop :=
  ∃ x used, ts = used ++ rest ∧ Written ns level x (before ++ used) ∧ x.Makes ns n e n'

section Phrases

variable {ns : Namespace} {x y : Phrase} {a b : Expr} {n m n' : Nat}

theorem Phrase.Makes.binary (op : Operand.BinaryOp) (first : x.Makes ns n a m) (second : y.Makes ns m b n') :
    (Phrase.binary op x y).Makes ns n (op.build a b) n' :=
  Outcome.run_bind_eq_ok.mpr ⟨a, m, first, Outcome.run_bind_eq_ok.mpr ⟨b, n', second, rfl⟩⟩

theorem Phrase.Makes.pairing (first : x.Makes ns n a m) (second : y.Makes ns m b n') :
    (Phrase.pairing x y).Makes ns n (.pairing a b) n' :=
  Outcome.run_bind_eq_ok.mpr ⟨a, m, first, Outcome.run_bind_eq_ok.mpr ⟨b, n', second, rfl⟩⟩

theorem Phrase.Makes.apply (f : Function) (inner : x.Makes ns n a n') :
    (Phrase.apply f x).Makes ns n (.apply f a) n' :=
  Outcome.run_bind_eq_ok.mpr ⟨a, n', inner, rfl⟩

theorem Phrase.Makes.neg (inner : x.Makes ns n a n') : (Phrase.neg x).Makes ns n a.neg n' :=
  Outcome.run_bind_eq_ok.mpr ⟨a, n', inner, rfl⟩

end Phrases

/-! ### Names -/

section Names

variable {ctx : Context} {t : Token} {ts rest : Tokens} {e : Expr} {n n' : Nat}

theorem bracesIfAny_eq_ok {l : IndexList} (done : (bracesIfAny ctx ts).run.run n = (.ok (l, rest), n')) :
    n = n' ∧ (l = ⟨[], [], 0⟩ ∧ ts = rest ∨ ∃ used, ts = used ++ rest ∧ Braced l used) := by
  unfold bracesIfAny at done
  split at done
  · obtain ⟨used, split, braced, same⟩ := braces_eq_ok done
    exact ⟨same, Or.inr ⟨used, split, braced⟩⟩
  · cases done
    exact ⟨rfl, Or.inl ⟨rfl, rfl⟩⟩

theorem boundName_eq_ok {value : Operand} (kind : t.kind = .name) (bound : ctx.names.find? t.text = some value)
    (done : (boundName ctx t value ts).run.run n = (.ok (e, rest), n')) :
    Level.atom.Found ctx.names [t] ts e rest n n' := by
  unfold boundName at done
  split at done
  · rename_i f
    obtain ⟨⟨l, others⟩, m, read, made⟩ := Outcome.run_bind_eq_ok.mp done
    cases made
    have makes (l : IndexList) :
        (Phrase.field t.text l).Makes ctx.names n (.field f l.comps l.derivs l.timeOrder) n := by
      rw [Phrase.Makes, Phrase.tree, bound]
      rfl
    obtain ⟨rfl, ⟨rfl, rfl⟩ | ⟨used, rfl, braced⟩⟩ := bracesIfAny_eq_ok read
    · exact ⟨_, [], rfl, .field kind bound, makes _⟩
    · exact ⟨_, used, rfl, .fieldAt kind bound braced, makes l⟩
  · rename_i d
    obtain ⟨⟨l, others⟩, m, read, made⟩ := Outcome.run_bind_eq_ok.mp done
    dsimp only at made
    split at made
    · cases made
    · rename_i plain
      obtain ⟨body, later, accessed, same⟩ := Outcome.run_bind_eq_ok.mp made
      cases same
      have plain : l.Plain := by simpa [IndexList.Plain] using plain
      obtain ⟨rfl, ⟨rfl, rfl⟩ | ⟨used, rfl, braced⟩⟩ := bracesIfAny_eq_ok read
      · refine ⟨_, [], rfl, .definition kind bound, ?_⟩
        rw [Phrase.Makes, Phrase.tree, bound]
        exact accessed
      · refine ⟨_, used, rfl, .definitionAt kind bound braced plain, ?_⟩
        rw [Phrase.Makes, Phrase.tree, bound]
        exact accessed
  · rename_i whole
    cases done
    refine ⟨_, [], rfl, .expr kind bound whole, ?_⟩
    rw [Phrase.Makes, Phrase.tree, Reading.bound, bound]
    rfl
  · cases done
    refine ⟨_, [], rfl, .constant kind bound, ?_⟩
    rw [Phrase.Makes, Phrase.tree, Reading.bound, bound]
    rfl
  · cases done

theorem IndexList.plain_of_onlyComps {l : IndexList} {count : Nat} (only : l.onlyComps count = true) : l.Plain := by
  simp only [IndexList.onlyComps, Bool.and_eq_true, List.isEmpty_iff, beq_iff_eq] at only
  exact ⟨only.1.2, only.2⟩

theorem symbolName_eq_ok (kind : t.kind = .name) (unbound : ctx.names.find? t.text = none)
    (done : (symbolName ctx t ts).run.run n = (.ok (e, rest), n')) :
    Level.atom.Found ctx.names [t] ts e rest n n' := by
  unfold symbolName at done
  split at done
  · rename_i name
    obtain ⟨⟨l, others⟩, m, read, made⟩ := Outcome.run_bind_eq_ok.mp done
    obtain ⟨used, rfl, braced, rfl⟩ := braces_eq_ok read
    dsimp only at made
    split at made
    · rename_i two only
      cases made
      exact ⟨_, used, rfl, .delta kind (List.contains_iff_mem.mp name) unbound braced two
        (IndexList.plain_of_onlyComps only), rfl⟩
    · cases made
  · split at done
    · rename_i name
      obtain ⟨⟨l, others⟩, m, read, made⟩ := Outcome.run_bind_eq_ok.mp done
      obtain ⟨used, rfl, braced, rfl⟩ := braces_eq_ok read
      dsimp only at made
      split at made
      · rename_i one only
        cases made
        exact ⟨_, used, rfl, .normal kind (eq_of_beq name) unbound braced one (IndexList.plain_of_onlyComps only), rfl⟩
      · cases made
    · cases done

end Names

/-! ### Arguments -/

/-- Phrases with commas between them and a closing parenthesis behind. -/
inductive Arguments (ns : Namespace) : List Phrase → Tokens → Prop
  | last {x : Phrase} {c : Token} {ts : Tokens} (inner : Written ns .sum x ts) (closed : c.text = ")") :
      Arguments ns [x] (ts ++ [c])
  | more {x : Phrase} {xs : List Phrase} {s : Token} {ts us : Tokens} (first : Written ns .sum x ts)
      (comma : s.text = ",") (others : Arguments ns xs us) : Arguments ns (x :: xs) (ts ++ s :: us)

/-- Phrases stand for expressions, one after the other. -/
inductive MakesAll (ns : Namespace) : List Phrase → Nat → List Expr → Nat → Prop
  | nil (n : Nat) : MakesAll ns [] n [] n
  | cons {x : Phrase} {xs : List Phrase} {n m n' : Nat} {e : Expr} {es : List Expr} (first : x.Makes ns n e m)
      (others : MakesAll ns xs m es n') : MakesAll ns (x :: xs) n (e :: es) n'

theorem applied_eq_ok {ns : Namespace} {t o : Token} {xs : List Phrase} {es : List Expr} {e : Expr} {ts : Tokens}
    {n n' : Nat} (kind : t.kind = .name) (unbound : ns.find? t.text = none) (opened : o.text = "(")
    (arguments : Arguments ns xs ts) (made : MakesAll ns xs n es n') (done : applied t es = .ok e) :
    ∃ x, Written ns .atom x (t :: o :: ts) ∧ x.Makes ns n e n' := by
  unfold applied at done
  split at done
  · rename_i name
    split at done
    · cases done
      cases made with
      | cons first others =>
      cases others with
      | cons second last =>
      cases last
      cases arguments with
      | more left comma others =>
      cases others with
      | last right closed =>
        refine ⟨_, ?_, first.pairing second⟩
        simpa using Written.pairing kind (eq_of_beq name) unbound opened left comma right closed
      | more _ _ others => cases others
    · cases done
  · split at done
    · rename_i f found
      split at done
      · cases done
        have name : f.name = t.text := by simpa using List.find?_some found
        cases made with
        | cons first last =>
        cases last
        cases arguments with
        | last inner closed => exact ⟨_, .apply kind name.symm unbound opened inner closed, first.apply f⟩
        | more _ _ others => cases others
      · cases done
    · cases done

/-! ### The descent -/

/-- What every function of the descent finds with some fuel. -/
structure Sound (ctx : Context) (fuel : Nat) : Prop where
  expression : ∀ {ts e rest n n'}, (expression ctx fuel ts).run.run n = (.ok (e, rest), n') →
    Level.sum.Found ctx.names [] ts e rest n n'
  moreTerms : ∀ {x before a ts e rest n m n'}, Written ctx.names .sum x before → x.Makes ctx.names n a m →
    (moreTerms ctx fuel a ts).run.run m = (.ok (e, rest), n') → Level.sum.Found ctx.names before ts e rest n n'
  term : ∀ {ts e rest n n'}, (term ctx fuel ts).run.run n = (.ok (e, rest), n') →
    Level.product.Found ctx.names [] ts e rest n n'
  moreFactors : ∀ {x before a ts e rest n m n'}, Written ctx.names .product x before → x.Makes ctx.names n a m →
    (moreFactors ctx fuel a ts).run.run m = (.ok (e, rest), n') →
    Level.product.Found ctx.names before ts e rest n n'
  unary : ∀ {ts e rest n n'}, (unary ctx fuel ts).run.run n = (.ok (e, rest), n') →
    Level.signed.Found ctx.names [] ts e rest n n'
  power : ∀ {ts e rest n n'}, (power ctx fuel ts).run.run n = (.ok (e, rest), n') →
    Level.power.Found ctx.names [] ts e rest n n'
  atom : ∀ {ts e rest n n'}, (atom ctx fuel ts).run.run n = (.ok (e, rest), n') →
    Level.atom.Found ctx.names [] ts e rest n n'
  arguments : ∀ {ts es rest n n'}, (arguments ctx fuel ts).run.run n = (.ok (es, rest), n') →
    ∃ xs used, ts = used ++ rest ∧ Arguments ctx.names xs used ∧ MakesAll ctx.names xs n es n'

section Steps

variable {ctx : Context} {fuel : Nat} {ts rest : Tokens} {e a : Expr} {n m n' : Nat}

theorem Sound.expression_step (sound : Sound ctx fuel)
    (done : (Reading.expression ctx (fuel + 1) ts).run.run n = (.ok (e, rest), n')) :
    Level.sum.Found ctx.names [] ts e rest n n' := by
  rw [Reading.expression] at done
  obtain ⟨⟨a, others⟩, m, first, more⟩ := Outcome.run_bind_eq_ok.mp done
  obtain ⟨x, used, rfl, written, makes⟩ := sound.term first
  obtain ⟨y, later, rfl, whole, result⟩ := sound.moreTerms (.term written) makes more
  exact ⟨y, used ++ later, (List.append_assoc used later rest).symm, whole, result⟩

theorem Sound.term_step (sound : Sound ctx fuel)
    (done : (Reading.term ctx (fuel + 1) ts).run.run n = (.ok (e, rest), n')) :
    Level.product.Found ctx.names [] ts e rest n n' := by
  rw [Reading.term] at done
  obtain ⟨⟨a, others⟩, m, first, more⟩ := Outcome.run_bind_eq_ok.mp done
  obtain ⟨x, used, rfl, written, makes⟩ := sound.unary first
  obtain ⟨y, later, rfl, whole, result⟩ := sound.moreFactors (.factor written) makes more
  exact ⟨y, used ++ later, (List.append_assoc used later rest).symm, whole, result⟩

/-- Nothing more is read. -/
theorem Level.Found.here {ns : Namespace} {level : Level} {x : Phrase} {before : Tokens}
    (written : Written ns level x before) (makes : x.Makes ns n e n') : level.Found ns before ts e ts n n' :=
  ⟨x, [], rfl, (List.append_nil before).symm ▸ written, makes⟩

theorem Level.Found.after {ns : Namespace} {level : Level} {before used others : Tokens}
    (found : level.Found ns (before ++ used) others e rest n n') (split : ts = used ++ others) :
    level.Found ns before ts e rest n n' := by
  obtain ⟨x, more, rfl, written, makes⟩ := found
  exact ⟨x, used ++ more, by simp [split], by simpa using written, makes⟩

theorem Sound.moreTerms_step {x : Phrase} {before : Tokens} (sound : Sound ctx fuel)
    (written : Written ctx.names .sum x before) (makes : x.Makes ctx.names n a m)
    (done : (Reading.moreTerms ctx (fuel + 1) a ts).run.run m = (.ok (e, rest), n')) :
    Level.sum.Found ctx.names before ts e rest n n' := by
  cases ts with
  | nil =>
      cases done
      exact .here written makes
  | cons t ts =>
      rw [Reading.moreTerms] at done
      split at done
      · rename_i plus
        obtain ⟨⟨b, others⟩, later, next, more⟩ := Outcome.run_bind_eq_ok.mp done
        obtain ⟨y, used, rfl, right, second⟩ := sound.term next
        exact (sound.moreTerms (.add written (eq_of_beq plus) right) (makes.binary .add second) more).after rfl
      · split at done
        · rename_i minus
          obtain ⟨⟨b, others⟩, later, next, more⟩ := Outcome.run_bind_eq_ok.mp done
          obtain ⟨y, used, rfl, right, second⟩ := sound.term next
          exact (sound.moreTerms (.sub written (eq_of_beq minus) right) (makes.binary .sub second) more).after rfl
        · cases done
          exact .here written makes

theorem Sound.moreFactors_step {x : Phrase} {before : Tokens} (sound : Sound ctx fuel)
    (written : Written ctx.names .product x before) (makes : x.Makes ctx.names n a m)
    (done : (Reading.moreFactors ctx (fuel + 1) a ts).run.run m = (.ok (e, rest), n')) :
    Level.product.Found ctx.names before ts e rest n n' := by
  cases ts with
  | nil =>
      cases done
      exact .here written makes
  | cons t ts =>
      rw [Reading.moreFactors] at done
      split at done
      · rename_i star
        obtain ⟨⟨b, others⟩, later, next, more⟩ := Outcome.run_bind_eq_ok.mp done
        obtain ⟨y, used, rfl, right, second⟩ := sound.unary next
        exact (sound.moreFactors (.mul written (eq_of_beq star) right) (makes.binary .mul second) more).after rfl
      · split at done
        · rename_i slash
          obtain ⟨⟨b, others⟩, later, next, more⟩ := Outcome.run_bind_eq_ok.mp done
          obtain ⟨y, used, rfl, right, second⟩ := sound.unary next
          exact (sound.moreFactors (.div written (eq_of_beq slash) right) (makes.binary .div second) more).after rfl
        · cases done
          exact .here written makes

theorem Sound.unary_step (sound : Sound ctx fuel)
    (done : (Reading.unary ctx (fuel + 1) ts).run.run n = (.ok (e, rest), n')) :
    Level.signed.Found ctx.names [] ts e rest n n' := by
  have unsigned : (Reading.power ctx fuel ts).run.run n = (.ok (e, rest), n') →
      Level.signed.Found ctx.names [] ts e rest n n' := by
    intro read
    obtain ⟨x, used, split, written, makes⟩ := sound.power read
    exact ⟨x, used, split, .unsigned written, makes⟩
  cases ts with
  | nil => exact unsigned done
  | cons t ts =>
      rw [Reading.unary] at done
      split at done
      · rename_i minus
        obtain ⟨⟨a, others⟩, later, inner, same⟩ := Outcome.run_bind_eq_ok.mp done
        cases same
        obtain ⟨x, used, rfl, written, makes⟩ := sound.unary inner
        exact ⟨.neg x, t :: used, rfl, .neg (eq_of_beq minus) written, makes.neg⟩
      · split at done
        · rename_i plus
          obtain ⟨x, used, rfl, written, makes⟩ := sound.unary done
          exact ⟨.pos x, t :: used, rfl, .pos (eq_of_beq plus) written, makes⟩
        · exact unsigned done

theorem Sound.power_step (sound : Sound ctx fuel)
    (done : (Reading.power ctx (fuel + 1) ts).run.run n = (.ok (e, rest), n')) :
    Level.power.Found ctx.names [] ts e rest n n' := by
  rw [Reading.power] at done
  obtain ⟨⟨a, others⟩, m, first, more⟩ := Outcome.run_bind_eq_ok.mp done
  obtain ⟨x, used, rfl, written, makes⟩ := sound.atom first
  cases others with
  | nil =>
      cases more
      exact ⟨x, used, rfl, .base written, makes⟩
  | cons t others =>
      dsimp only at more
      split at more
      · rename_i sign
        obtain ⟨⟨b, after⟩, later, next, same⟩ := Outcome.run_bind_eq_ok.mp more
        cases same
        obtain ⟨y, us, rfl, right, second⟩ := sound.unary next
        exact ⟨.binary .pow x y, used ++ t :: us, by simp, .pow written (by simpa using sign) right,
          makes.binary .pow second⟩
      · cases more
        exact ⟨x, used, rfl, .base written, makes⟩

theorem startsWith_eq_true {s : String} (starts : startsWith s ts = true) : ∃ t, t.text = s ∧ ts = t :: ts.drop 1 := by
  cases ts with
  | nil => cases starts
  | cons t ts => exact ⟨t, eq_of_beq starts, rfl⟩

theorem Sound.atom_step (sound : Sound ctx fuel)
    (done : (Reading.atom ctx (fuel + 1) ts).run.run n = (.ok (e, rest), n')) :
    Level.atom.Found ctx.names [] ts e rest n n' := by
  cases ts with
  | nil => cases done
  | cons t ts =>
      rw [Reading.atom] at done
      cases kind : t.kind with
      | number =>
          simp only [kind] at done
          split at done
          · cases done
          · rename_i short
            cases done
            exact ⟨_, [t], rfl, .number kind (by simpa using short), rfl⟩
      | operator =>
          simp only [kind] at done
          split at done
          · rename_i opened
            obtain ⟨⟨a, others⟩, m, inner, more⟩ := Outcome.run_bind_eq_ok.mp done
            obtain ⟨after, later, taken, same⟩ := Outcome.run_bind_eq_ok.mp more
            cases same
            obtain ⟨x, used, rfl, written, makes⟩ := sound.expression inner
            obtain ⟨c, closed, rfl, rfl⟩ := take_eq_ok taken
            exact ⟨x, t :: used ++ [c], by simp, .paren kind (eq_of_beq opened) written closed, makes⟩
          · cases done
      | name =>
          simp only [kind] at done
          split at done
          · rename_i value here
            exact (boundName_eq_ok kind here done).after rfl
          · rename_i unbound
            split at done
            · rename_i starts
              obtain ⟨o, opened, split⟩ := startsWith_eq_true starts
              obtain ⟨⟨es, others⟩, m, inner, more⟩ := Outcome.run_bind_eq_ok.mp done
              obtain ⟨_, later, called, same⟩ := Outcome.run_bind_eq_ok.mp more
              cases same
              obtain ⟨xs, used, behind, written, makes⟩ := sound.arguments inner
              obtain ⟨allowed, rfl⟩ := run_lift.mp called
              obtain ⟨x, whole, result⟩ := applied_eq_ok kind unbound opened written makes allowed
              refine ⟨x, t :: o :: used, ?_, whole, result⟩
              rw [split, behind]
              rfl
            · exact (symbolName_eq_ok kind unbound done).after rfl

theorem Sound.arguments_step {es : List Expr} (sound : Sound ctx fuel)
    (done : (Reading.arguments ctx (fuel + 1) ts).run.run n = (.ok (es, rest), n')) :
    ∃ xs used, ts = used ++ rest ∧ Arguments ctx.names xs used ∧ MakesAll ctx.names xs n es n' := by
  rw [Reading.arguments] at done
  obtain ⟨⟨a, others⟩, m, first, more⟩ := Outcome.run_bind_eq_ok.mp done
  obtain ⟨x, used, rfl, written, makes⟩ := sound.expression first
  dsimp only at more
  split at more
  · rename_i starts
    obtain ⟨s, comma, split⟩ := startsWith_eq_true starts
    obtain ⟨⟨bs, after⟩, later, next, same⟩ := Outcome.run_bind_eq_ok.mp more
    cases same
    obtain ⟨xs, us, behind, right, second⟩ := sound.arguments next
    refine ⟨x :: xs, used ++ s :: us, ?_, .more written comma right, .cons makes second⟩
    rw [split, behind]
    simp
  · obtain ⟨after, later, taken, same⟩ := Outcome.run_bind_eq_ok.mp more
    cases same
    obtain ⟨c, closed, rfl, rfl⟩ := take_eq_ok taken
    exact ⟨[x], used ++ [c], by simp, .last written closed, .cons makes (.nil _)⟩

end Steps

/-- Whatever the descent reads is a phrase of the grammar, and what it makes is what the phrase stands for. -/
theorem sound (ctx : Context) (fuel : Nat) : Sound ctx fuel := by
  induction fuel with
  | zero => constructor <;> intros <;> rename_i done <;> cases done
  | succ fuel ih =>
      exact ⟨ih.expression_step, ih.moreTerms_step, ih.term_step, ih.moreFactors_step, ih.unary_step, ih.power_step,
        ih.atom_step, ih.arguments_step⟩

end Galerkin.Reading
