import Mathlib
import Galerkin.Proofs.Reading.Grammar

/-!
Whatever the grammar allows is read as what it stands for, if the next token cannot go on with it and the fuel
is enough for the tokens that are left.
-/

namespace Galerkin.Reading

/-! ### Where a phrase ends -/

/-- The texts that go on with a phrase of a level. -/
def Level.continuations : Level → List String
  | atom => ["\x7b"]
  | power | signed => ["\x7b", "^", "**"]
  | product => ["\x7b", "^", "**", "*", "/"]
  | sum => ["\x7b", "^", "**", "*", "/", "+", "-"]

/-- No phrase of a level goes on with the next token. -/
def Level.Ends (level : Level) (rest : Tokens) : Prop := ∀ t ∈ rest.head?, t.text ∉ level.continuations

@[simp] theorem Level.ends_nil (level : Level) : level.Ends [] := by simp [Level.Ends]

@[simp] theorem Level.ends_cons {level : Level} {t : Token} {ts : Tokens} :
    level.Ends (t :: ts) ↔ t.text ∉ level.continuations := by
  simp [Level.Ends]

theorem Level.Ends.mono {level inner : Level} {rest : Tokens} (ends : level.Ends rest)
    (fewer : inner.continuations ⊆ level.continuations) : inner.Ends rest :=
  fun t member inside => ends t member (fewer inside)

theorem Level.Ends.not_startsWith {level : Level} {rest : Tokens} {s : String} (ends : level.Ends rest)
    (sign : s ∈ level.continuations) : startsWith s rest = false := by
  cases rest with
  | nil => rfl
  | cons t ts =>
      rw [startsWith, beq_eq_false_iff_ne]
      rintro rfl
      exact Level.ends_cons.mp ends sign

/-! ### One step of the descent -/

section Steps

variable {ctx : Context} {fuel : Nat} {ts : Tokens} {a : Expr}

theorem moreTerms_of_ends (ends : Level.sum.Ends ts) : moreTerms ctx (fuel + 1) a ts = pure (a, ts) := by
  cases ts with
  | nil => rfl
  | cons t ts =>
      obtain ⟨plus, minus⟩ : t.text ≠ "+" ∧ t.text ≠ "-" := by
        constructor <;> rintro same <;> exact Level.ends_cons.mp ends (same ▸ by decide)
      rw [moreTerms, if_neg (by simpa using plus), if_neg (by simpa using minus)]

theorem moreFactors_of_ends (ends : Level.product.Ends ts) : moreFactors ctx (fuel + 1) a ts = pure (a, ts) := by
  cases ts with
  | nil => rfl
  | cons t ts =>
      obtain ⟨star, slash⟩ : t.text ≠ "*" ∧ t.text ≠ "/" := by
        constructor <;> rintro same <;> exact Level.ends_cons.mp ends (same ▸ by decide)
      rw [moreFactors, if_neg (by simpa using star), if_neg (by simpa using slash)]

theorem moreTerms_plus {t : Token} (sign : t.text = "+") :
    moreTerms ctx (fuel + 1) a (t :: ts) = term ctx fuel ts >>= fun r => moreTerms ctx fuel (.sum a r.1) r.2 := by
  rw [moreTerms, if_pos (by simp [sign])]

theorem moreTerms_minus {t : Token} (sign : t.text = "-") :
    moreTerms ctx (fuel + 1) a (t :: ts) = term ctx fuel ts >>= fun r => moreTerms ctx fuel (a.sub r.1) r.2 := by
  rw [moreTerms, if_neg (by simp [sign]), if_pos (by simp [sign])]

theorem moreFactors_times {t : Token} (sign : t.text = "*") :
    moreFactors ctx (fuel + 1) a (t :: ts) =
      unary ctx fuel ts >>= fun r => moreFactors ctx fuel (.prod a r.1) r.2 := by
  rw [moreFactors, if_pos (by simp [sign])]

theorem moreFactors_over {t : Token} (sign : t.text = "/") :
    moreFactors ctx (fuel + 1) a (t :: ts) =
      unary ctx fuel ts >>= fun r => moreFactors ctx fuel (.quot a r.1) r.2 := by
  rw [moreFactors, if_neg (by simp [sign]), if_pos (by simp [sign])]

theorem unary_minus {t : Token} (sign : t.text = "-") :
    unary ctx (fuel + 1) (t :: ts) = unary ctx fuel ts >>= fun r => pure (r.1.neg, r.2) := by
  rw [unary, if_pos (by simp [sign])]

theorem unary_plus {t : Token} (sign : t.text = "+") : unary ctx (fuel + 1) (t :: ts) = unary ctx fuel ts := by
  rw [unary, if_neg (by simp [sign]), if_pos (by simp [sign])]

theorem unary_unsigned (unsigned : ∀ t ∈ ts.head?, t.text ≠ "-" ∧ t.text ≠ "+") :
    unary ctx (fuel + 1) ts = power ctx fuel ts := by
  cases ts with
  | nil => rfl
  | cons t ts =>
      obtain ⟨minus, plus⟩ := unsigned t rfl
      rw [unary, if_neg (by simpa using minus), if_neg (by simpa using plus)]

end Steps

theorem Written.atom_head {ns : Namespace} {x : Phrase} {ts : Tokens} (written : Written ns .atom x ts) :
    ∃ t more, ts = t :: more ∧ (t.kind ≠ .operator ∨ t.text = "(") := by
  cases written with
  | paren kind opened => exact ⟨_, _, rfl, Or.inr opened⟩
  | number kind | pairing kind | apply kind | delta kind | normal kind | field kind | fieldAt kind
  | definition kind | definitionAt kind | expr kind | constant kind => exact ⟨_, _, rfl, Or.inl (by simp [kind])⟩

theorem Written.unsigned_head {ns : Namespace} {x : Phrase} {ts : Tokens} (written : Written ns .power x ts)
    (proper : ∀ t ∈ ts, t.Proper) (rest : Tokens) : ∀ t ∈ (ts ++ rest).head?, t.text ≠ "-" ∧ t.text ≠ "+" := by
  have first : ∀ {us : Tokens}, (∃ t more, us = t :: more ∧ (t.kind ≠ .operator ∨ t.text = "(")) →
      (∀ t ∈ us, t.Proper) → ∀ more, ∀ t ∈ (us ++ more).head?, t.text ≠ "-" ∧ t.text ≠ "+" := by
    rintro _ ⟨t, us, rfl, other | paren⟩ proper more _ ⟨⟩
    · have outside := proper t List.mem_cons_self other
      exact ⟨fun same => outside (same ▸ by decide), fun same => outside (same ▸ by decide)⟩
    · rw [paren]
      decide
  cases written with
  | base inner => exact first inner.atom_head proper rest
  | @pow _ _ t us vs left =>
      rw [List.append_assoc]
      exact first left.atom_head (fun t member => proper t (List.mem_append_left _ member)) _

/-! ### Every production is read -/

/-- Reading the tokens of a phrase makes the expression it stands for. What a sum or a product is read with is
still reading on: with the fuel that is left it goes on with the tokens behind. -/
def Level.Reads (ctx : Context) : Level → Phrase → Tokens → Prop
  | sum, x, ts => ∀ fuel rest, Level.product.Ends rest → 8 * (ts ++ rest).length + 5 ≤ fuel →
      ∃ left, 8 * rest.length < left ∧
        expression ctx fuel (ts ++ rest) = x.tree ctx.names >>= fun a => moreTerms ctx left a rest
  | product, x, ts => ∀ fuel rest, Level.signed.Ends rest → 8 * (ts ++ rest).length + 4 ≤ fuel →
      ∃ left, 8 * rest.length < left ∧
        term ctx fuel (ts ++ rest) = x.tree ctx.names >>= fun a => moreFactors ctx left a rest
  | signed, x, ts => ∀ fuel rest, Level.signed.Ends rest → 8 * (ts ++ rest).length + 3 ≤ fuel →
      unary ctx fuel (ts ++ rest) = x.tree ctx.names >>= fun a => pure (a, rest)
  | power, x, ts => ∀ fuel rest, Level.power.Ends rest → 8 * (ts ++ rest).length + 2 ≤ fuel →
      Reading.power ctx fuel (ts ++ rest) = x.tree ctx.names >>= fun a => pure (a, rest)
  | atom, x, ts => ∀ fuel rest, Level.atom.Ends rest → 8 * (ts ++ rest).length + 1 ≤ fuel →
      Reading.atom ctx fuel (ts ++ rest) = x.tree ctx.names >>= fun a => pure (a, rest)

section Productions

variable {ctx : Context} {x y : Phrase} {t : Token} {ts us rest : Tokens} {fuel : Nat}

theorem Level.Reads.expression_eq (reads : Level.sum.Reads ctx x ts) (ends : Level.sum.Ends rest)
    (enough : 8 * (ts ++ rest).length + 5 ≤ fuel) :
    expression ctx fuel (ts ++ rest) = x.tree ctx.names >>= fun a => pure (a, rest) := by
  obtain ⟨left, more, read⟩ := reads fuel rest (ends.mono (by decide)) enough
  obtain ⟨left, rfl⟩ := Nat.exists_eq_add_one_of_ne_zero (Nat.ne_zero_of_lt more)
  simp only [read, moreTerms_of_ends ends]

theorem Level.Reads.term_eq (reads : Level.product.Reads ctx x ts) (ends : Level.product.Ends rest)
    (enough : 8 * (ts ++ rest).length + 4 ≤ fuel) :
    term ctx fuel (ts ++ rest) = x.tree ctx.names >>= fun a => pure (a, rest) := by
  obtain ⟨left, more, read⟩ := reads fuel rest (ends.mono (by decide)) enough
  obtain ⟨left, rfl⟩ := Nat.exists_eq_add_one_of_ne_zero (Nat.ne_zero_of_lt more)
  simp only [read, moreFactors_of_ends ends]

theorem Level.Reads.of_product (reads : Level.product.Reads ctx x ts) : Level.sum.Reads ctx x ts := by
  intro fuel rest ends enough
  obtain ⟨fuel, rfl⟩ := Nat.exists_eq_add_one_of_ne_zero (Nat.ne_zero_of_lt enough)
  refine ⟨fuel, by simp at enough; omega, ?_⟩
  rw [expression, reads.term_eq ends (by omega), bind_assoc]
  simp only [pure_bind]

theorem Level.Reads.of_signed (reads : Level.signed.Reads ctx x ts) : Level.product.Reads ctx x ts := by
  intro fuel rest ends enough
  obtain ⟨fuel, rfl⟩ := Nat.exists_eq_add_one_of_ne_zero (Nat.ne_zero_of_lt enough)
  refine ⟨fuel, by simp at enough; omega, ?_⟩
  rw [term, reads fuel rest ends (by omega), bind_assoc]
  simp only [pure_bind]

theorem Level.Reads.more_terms {op : Operand.BinaryOp} (left : Level.sum.Reads ctx x ts)
    (right : Level.product.Reads ctx y us) (sign : t.text ∉ Level.product.continuations)
    (step : ∀ fuel a ts, moreTerms ctx (fuel + 1) a (t :: ts) =
      term ctx fuel ts >>= fun r => moreTerms ctx fuel (op.build a r.1) r.2) :
    Level.sum.Reads ctx (.binary op x y) (ts ++ t :: us) := by
  intro fuel rest ends enough
  rw [List.append_assoc] at enough ⊢
  obtain ⟨more, much, read⟩ := left fuel (t :: us ++ rest) (Level.ends_cons.mpr sign) enough
  obtain ⟨more, rfl⟩ := Nat.exists_eq_add_one_of_ne_zero (Nat.ne_zero_of_lt much)
  simp only [List.cons_append, List.length_cons, List.length_append] at much
  refine ⟨more, by omega, ?_⟩
  have next : term ctx more (us ++ rest) = _ := right.term_eq ends (by simp only [List.length_append]; omega)
  rw [read]
  simp only [List.cons_append, step, next, Phrase.tree, bind_assoc, pure_bind]

theorem Level.Reads.more_factors {op : Operand.BinaryOp} (left : Level.product.Reads ctx x ts)
    (right : Level.signed.Reads ctx y us) (sign : t.text ∉ Level.signed.continuations)
    (step : ∀ fuel a ts, moreFactors ctx (fuel + 1) a (t :: ts) =
      unary ctx fuel ts >>= fun r => moreFactors ctx fuel (op.build a r.1) r.2) :
    Level.product.Reads ctx (.binary op x y) (ts ++ t :: us) := by
  intro fuel rest ends enough
  rw [List.append_assoc] at enough ⊢
  obtain ⟨more, much, read⟩ := left fuel (t :: us ++ rest) (Level.ends_cons.mpr sign) enough
  obtain ⟨more, rfl⟩ := Nat.exists_eq_add_one_of_ne_zero (Nat.ne_zero_of_lt much)
  simp only [List.cons_append, List.length_cons, List.length_append] at much
  refine ⟨more, by omega, ?_⟩
  have next := right more rest ends (by simp only [List.length_append]; omega)
  rw [read]
  simp only [List.cons_append, step, next, Phrase.tree, bind_assoc, pure_bind]

theorem Level.Reads.neg (reads : Level.signed.Reads ctx x ts) (sign : t.text = "-") :
    Level.signed.Reads ctx (.neg x) (t :: ts) := by
  intro fuel rest ends enough
  obtain ⟨fuel, rfl⟩ := Nat.exists_eq_add_one_of_ne_zero (Nat.ne_zero_of_lt enough)
  have inner := reads fuel rest ends (by simp at enough ⊢; omega)
  rw [List.cons_append, unary_minus sign, inner, Phrase.tree]
  simp only [bind_assoc, pure_bind]

theorem Level.Reads.pos (reads : Level.signed.Reads ctx x ts) (sign : t.text = "+") :
    Level.signed.Reads ctx (.pos x) (t :: ts) := by
  intro fuel rest ends enough
  obtain ⟨fuel, rfl⟩ := Nat.exists_eq_add_one_of_ne_zero (Nat.ne_zero_of_lt enough)
  rw [List.cons_append, unary_plus sign, Phrase.tree]
  exact reads fuel rest ends (by simp at enough ⊢; omega)

theorem Level.Reads.of_power (reads : Level.power.Reads ctx x ts)
    (unsigned : ∀ rest, ∀ t ∈ (ts ++ rest).head?, t.text ≠ "-" ∧ t.text ≠ "+") : Level.signed.Reads ctx x ts := by
  intro fuel rest ends enough
  obtain ⟨fuel, rfl⟩ := Nat.exists_eq_add_one_of_ne_zero (Nat.ne_zero_of_lt enough)
  rw [unary_unsigned (unsigned rest)]
  exact reads fuel rest (ends.mono (by decide)) (by omega)

theorem Level.Reads.of_atom (reads : Level.atom.Reads ctx x ts) : Level.power.Reads ctx x ts := by
  intro fuel rest ends enough
  obtain ⟨fuel, rfl⟩ := Nat.exists_eq_add_one_of_ne_zero (Nat.ne_zero_of_lt enough)
  rw [Reading.power, reads fuel rest (ends.mono (by decide)) (by omega), bind_assoc]
  refine congrArg (x.tree ctx.names >>= ·) (funext fun a => ?_)
  rw [pure_bind]
  cases rest with
  | nil => rfl
  | cons t rest =>
      have other : (t.text == "^" || t.text == "**") = false := by
        have none := Level.ends_cons.mp ends
        simp [Level.continuations] at none
        simp [none]
      simp [other]

theorem Level.Reads.pow (left : Level.atom.Reads ctx x ts) (sign : t.text = "^" ∨ t.text = "**")
    (right : Level.signed.Reads ctx y us) : Level.power.Reads ctx (.binary .pow x y) (ts ++ t :: us) := by
  intro fuel rest ends enough
  obtain ⟨fuel, rfl⟩ := Nat.exists_eq_add_one_of_ne_zero (Nat.ne_zero_of_lt enough)
  simp only [List.append_assoc, List.length_append, List.cons_append, List.length_cons] at enough
  have here : (t.text == "^" || t.text == "**") = true := by simpa using sign
  have sharp : Level.atom.Ends (t :: us ++ rest) := by
    rcases sign with same | same <;> exact Level.ends_cons.mpr (same ▸ by decide)
  have base := left fuel (t :: us ++ rest) sharp (by simp; omega)
  have exponent := right fuel rest (ends.mono (by decide)) (by simp; omega)
  rw [Reading.power, List.append_assoc, base]
  simp only [List.cons_append, bind_assoc, pure_bind, here, if_true, exponent, Phrase.tree]
  rfl

/-! ### Atoms -/

theorem take_here {s : String} (sign : t.text = s) : take ctx s (t :: rest) = pure rest := by
  rw [take, if_pos (by simp [sign])]

theorem Level.Reads.number (kind : t.kind = .number)
    (short : (Number.Literal.ofChars t.text.toList).isTooLong = false) :
    Level.atom.Reads ctx (.number (Number.Literal.ofChars t.text.toList).value) [t] := by
  intro fuel rest ends enough
  obtain ⟨fuel, rfl⟩ := Nat.exists_eq_add_one_of_ne_zero (Nat.ne_zero_of_lt enough)
  simp [Reading.atom, kind, short, Phrase.tree]

theorem Level.Reads.paren {o c : Token} (kind : o.kind = .operator) (opened : o.text = "(")
    (inner : Level.sum.Reads ctx x ts) (closed : c.text = ")") : Level.atom.Reads ctx x (o :: ts ++ [c]) := by
  intro fuel rest ends enough
  obtain ⟨fuel, rfl⟩ := Nat.exists_eq_add_one_of_ne_zero (Nat.ne_zero_of_lt enough)
  have stop : Level.sum.Ends (c :: rest) := Level.ends_cons.mpr (closed ▸ by decide)
  have read : expression ctx fuel (ts ++ c :: rest) = _ := inner.expression_eq stop (by simp at enough ⊢; omega)
  simp [Reading.atom, kind, opened, read, take_here closed]

theorem arguments_last {c : Token} (last : Level.sum.Reads ctx x ts) (closed : c.text = ")")
    (enough : 8 * (ts ++ c :: rest).length + 6 ≤ fuel) :
    arguments ctx fuel (ts ++ c :: rest) = x.tree ctx.names >>= fun a => pure ([a], rest) := by
  obtain ⟨fuel, rfl⟩ := Nat.exists_eq_add_one_of_ne_zero (Nat.ne_zero_of_lt enough)
  have stop : Level.sum.Ends (c :: rest) := Level.ends_cons.mpr (closed ▸ by decide)
  rw [arguments, last.expression_eq stop (by omega)]
  simp [startsWith, closed, take_here closed]

theorem arguments_more {s : Token} (first : Level.sum.Reads ctx x ts) (comma : s.text = ",")
    (enough : 8 * (ts ++ s :: rest).length + 5 ≤ fuel) :
    arguments ctx (fuel + 1) (ts ++ s :: rest) =
      x.tree ctx.names >>= fun a => arguments ctx fuel rest >>= fun r => pure (a :: r.1, r.2) := by
  have stop : Level.sum.Ends (s :: rest) := Level.ends_cons.mpr (comma ▸ by decide)
  rw [arguments, first.expression_eq stop enough]
  simp [startsWith, comma]

theorem applied_pairing (name : t.text = pairingName) (a b : Expr) : applied t [a, b] = .ok (.pairing a b) := by
  unfold applied
  rw [if_pos (by simp [name])]
  rfl

theorem applied_function {f : Function} (name : t.text = f.name) (a : Expr) : applied t [a] = .ok (.apply f a) := by
  unfold applied
  rw [name]
  cases f <;> rfl

theorem Level.Reads.pairing {o s c : Token} (kind : t.kind = .name) (name : t.text = pairingName)
    (unbound : ctx.names.find? t.text = none) (opened : o.text = "(") (left : Level.sum.Reads ctx x ts)
    (comma : s.text = ",") (right : Level.sum.Reads ctx y us) (closed : c.text = ")") :
    Level.atom.Reads ctx (.pairing x y) (t :: o :: ts ++ s :: us ++ [c]) := by
  intro fuel rest ends enough
  simp only [List.length_append, List.length_cons, List.length_nil] at enough
  obtain ⟨fuel, rfl⟩ := Nat.exists_eq_add_of_le' (show 2 ≤ fuel by omega)
  have last : arguments ctx fuel (us ++ c :: rest) = _ := arguments_last right closed (by simp; omega)
  have both : arguments ctx (fuel + 1) (ts ++ s :: (us ++ c :: rest)) = _ :=
    arguments_more left comma (by simp; omega)
  simp [Reading.atom, kind, unbound, startsWith, opened, both, last, applied_pairing name, Phrase.tree]

theorem Level.Reads.apply {f : Function} {o c : Token} (kind : t.kind = .name) (name : t.text = f.name)
    (unbound : ctx.names.find? t.text = none) (opened : o.text = "(") (inner : Level.sum.Reads ctx x ts)
    (closed : c.text = ")") : Level.atom.Reads ctx (.apply f x) (t :: o :: ts ++ [c]) := by
  intro fuel rest ends enough
  obtain ⟨fuel, rfl⟩ := Nat.exists_eq_add_one_of_ne_zero (Nat.ne_zero_of_lt enough)
  have last : arguments ctx fuel (ts ++ c :: rest) = _ := arguments_last inner closed (by simp at enough ⊢; omega)
  simp [Reading.atom, kind, unbound, startsWith, opened, last, applied_function name, Phrase.tree]

theorem IndexList.Plain.onlyComps {l : IndexList} (plain : l.Plain) : l.onlyComps l.comps.length = true := by
  simp [IndexList.onlyComps, plain.1, plain.2]

theorem Braced.head {l : IndexList} (braced : Braced l ts) : ∃ o more, ts = o :: more ∧ o.text = "\x7b" := by
  cases braced with
  | comps opened | derivs opened => exact ⟨_, _, rfl, opened⟩

theorem Braced.startsWith {l : IndexList} (braced : Braced l ts) (rest : Tokens) :
    startsWith "\x7b" (ts ++ rest) = true ∧ startsWith "(" (ts ++ rest) = false := by
  obtain ⟨o, more, rfl, opened⟩ := braced.head
  simp [Reading.startsWith, opened]

theorem Braced.bracesIfAny_eq {l : IndexList} (braced : Braced l ts) (proper : ∀ t ∈ ts, t.Proper) :
    bracesIfAny ctx (ts ++ rest) = pure (l, rest) := by
  rw [bracesIfAny, if_pos (braced.startsWith rest).1, braced.braces_eq proper]

theorem bracesIfAny_of_ends (ends : Level.atom.Ends rest) : bracesIfAny ctx rest = pure (⟨[], [], 0⟩, rest) := by
  rw [bracesIfAny, ends.not_startsWith (by decide)]
  rfl

theorem Level.Reads.symbol {l : IndexList} (kind : t.kind = .name) (unbound : ctx.names.find? t.text = none)
    (braced : Braced l ts)
    (named : ∀ rest, symbolName ctx t (ts ++ rest) = x.tree ctx.names >>= fun a => pure (a, rest)) :
    Level.atom.Reads ctx x (t :: ts) := by
  intro fuel rest ends enough
  obtain ⟨fuel, rfl⟩ := Nat.exists_eq_add_one_of_ne_zero (Nat.ne_zero_of_lt enough)
  simp only [List.cons_append, Reading.atom, kind, unbound, (braced.startsWith rest).2, Bool.false_eq_true,
    if_false, named]

theorem symbolName_delta {i j : Index} {l : IndexList} (name : t.text ∈ deltaNames) (braced : Braced l ts)
    (proper : ∀ t ∈ ts, t.Proper) (two : l.comps = [i, j]) (plain : l.Plain) :
    symbolName ctx t (ts ++ rest) = pure (.delta i j, rest) := by
  have only := plain.onlyComps
  simp only [two, List.length_cons, List.length_nil] at only
  simp only [symbolName, if_pos (List.contains_iff_mem.mpr name), braced.braces_eq proper, pure_bind, two, only]

theorem symbolName_normal {i : Index} {l : IndexList} (name : t.text = normalName) (braced : Braced l ts)
    (proper : ∀ t ∈ ts, t.Proper) (one : l.comps = [i]) (plain : l.Plain) :
    symbolName ctx t (ts ++ rest) = pure (.normal i, rest) := by
  have only := plain.onlyComps
  simp only [one, List.length_cons, List.length_nil] at only
  simp only [symbolName, name, braced.braces_eq proper, pure_bind, one, only]
  rfl

theorem Level.Reads.bound {value : Operand} (kind : t.kind = .name) (bound : ctx.names.find? t.text = some value)
    (named : ∀ rest, Level.atom.Ends rest →
      boundName ctx t value (ts ++ rest) = x.tree ctx.names >>= fun a => pure (a, rest)) :
    Level.atom.Reads ctx x (t :: ts) := by
  intro fuel rest ends enough
  obtain ⟨fuel, rfl⟩ := Nat.exists_eq_add_one_of_ne_zero (Nat.ne_zero_of_lt enough)
  simp only [List.cons_append, Reading.atom, kind, bound, named rest ends]

end Productions

/-- Every phrase of the grammar is read, and read as what it stands for. -/
theorem Written.reads {ctx : Context} {level : Level} {x : Phrase} {ts : Tokens}
    (written : Written ctx.names level x ts) (proper : ∀ t ∈ ts, t.Proper) : level.Reads ctx x ts := by
  induction written with
  | term _ ih => exact (ih proper).of_product
  | add _ sign _ left right =>
      obtain ⟨before, -, after⟩ : _ ∧ _ ∧ _ := by simpa [or_imp, forall_and] using proper
      exact (left before).more_terms (right after) (sign ▸ by decide) fun _ _ _ => moreTerms_plus sign
  | sub _ sign _ left right =>
      obtain ⟨before, -, after⟩ : _ ∧ _ ∧ _ := by simpa [or_imp, forall_and] using proper
      exact (left before).more_terms (right after) (sign ▸ by decide) fun _ _ _ => moreTerms_minus sign
  | factor _ ih => exact (ih proper).of_signed
  | mul _ sign _ left right =>
      obtain ⟨before, -, after⟩ : _ ∧ _ ∧ _ := by simpa [or_imp, forall_and] using proper
      exact (left before).more_factors (right after) (sign ▸ by decide) fun _ _ _ => moreFactors_times sign
  | div _ sign _ left right =>
      obtain ⟨before, -, after⟩ : _ ∧ _ ∧ _ := by simpa [or_imp, forall_and] using proper
      exact (left before).more_factors (right after) (sign ▸ by decide) fun _ _ _ => moreFactors_over sign
  | neg sign _ ih => exact (ih (List.forall_mem_cons.mp proper).2).neg sign
  | pos sign _ ih => exact (ih (List.forall_mem_cons.mp proper).2).pos sign
  | unsigned inner ih => exact (ih proper).of_power (inner.unsigned_head proper)
  | base _ ih => exact (ih proper).of_atom
  | pow _ sign _ left right =>
      obtain ⟨before, -, after⟩ : _ ∧ _ ∧ _ := by simpa [or_imp, forall_and] using proper
      exact (left before).pow sign (right after)
  | number kind short => exact .number kind short
  | paren kind opened _ closed ih =>
      obtain ⟨-, inside, -⟩ : _ ∧ _ ∧ _ := by simpa [or_imp, forall_and] using proper
      exact (ih inside).paren kind opened closed
  | pairing kind name unbound opened _ comma _ closed left right =>
      obtain ⟨-, -, first, -, second, -⟩ : _ ∧ _ ∧ _ ∧ _ ∧ _ ∧ _ := by simpa [or_imp, forall_and] using proper
      exact .pairing kind name unbound opened (left first) comma (right second) closed
  | apply kind name unbound opened _ closed ih =>
      obtain ⟨-, -, inside, -⟩ : _ ∧ _ ∧ _ ∧ _ := by simpa [or_imp, forall_and] using proper
      exact .apply kind name unbound opened (ih inside) closed
  | delta kind name unbound braced two plain =>
      have inside := (List.forall_mem_cons.mp proper).2
      exact .symbol kind unbound braced fun _ => symbolName_delta name braced inside two plain
  | normal kind name unbound braced one plain =>
      have inside := (List.forall_mem_cons.mp proper).2
      exact .symbol kind unbound braced fun _ => symbolName_normal name braced inside one plain
  | field kind here =>
      refine .bound kind here fun rest ends => ?_
      simp [boundName, bracesIfAny_of_ends ends, Phrase.tree, here]
  | fieldAt kind here braced =>
      refine .bound kind here fun rest _ => ?_
      simp [boundName, braced.bracesIfAny_eq (List.forall_mem_cons.mp proper).2, Phrase.tree, here]
  | definition kind here =>
      refine .bound kind here fun rest ends => ?_
      simp [boundName, bracesIfAny_of_ends ends, Phrase.tree, here]
  | definitionAt kind here braced plain =>
      refine .bound kind here fun rest _ => ?_
      simp [boundName, braced.bracesIfAny_eq (List.forall_mem_cons.mp proper).2, Phrase.tree, here, plain.1, plain.2]
  | expr kind here whole =>
      refine .bound kind here fun rest _ => ?_
      simp [boundName, Phrase.tree, Reading.bound, here, Operand.toExpr]
  | constant kind here =>
      refine .bound kind here fun rest _ => ?_
      simp [boundName, Phrase.tree, Reading.bound, here, Operand.toExpr]

end Galerkin.Reading
