import Mathlib
import Galerkin.Proofs.Definition
import Galerkin.Reading.Expression

/-!
The grammar of expressions, as productions on tokens, and what a phrase builds. Signs bind weaker than powers
and stronger than products; the exponent of a power is a signed phrase. Parentheses are part of the writing of
a phrase and not of the phrase.

Index lists in braces: what is read from them is what the grammar says, and reading stops behind the closing
brace.
-/

namespace Galerkin.Reading

/-- What can be written in an expression. -/
inductive Phrase where
  | number (n : Number)
  /-- A name that is bound to a number or an expression. -/
  | value (name : String)
  | field (name : String) (l : IndexList)
  | definition (name : String) (actual : List Index)
  | delta (i j : Index)
  | normal (i : Index)
  | pairing (a b : Phrase)
  | apply (f : Function) (x : Phrase)
  | neg (a : Phrase)
  | pos (a : Phrase)
  | binary (op : Operand.BinaryOp) (a b : Phrase)

/-! ### Productions -/

/-- Names, each with at most one comma behind it. -/
inductive Listed : List String → Tokens → Prop
  | nil : Listed [] []
  | name {t : Token} {names : List String} {ts : Tokens} (kind : t.kind = .name) (rest : Listed names ts) :
      Listed (t.text :: names) (t :: ts)
  | comma {t c : Token} {names : List String} {ts : Tokens} (kind : t.kind = .name) (comma : c.text = ",")
      (rest : Listed names ts) : Listed (t.text :: names) (t :: c :: ts)

/-- The names behind a semicolon that are not the time. -/
def spatial (names : List String) : List String := names.filter (· != Index.timeName)

/-- An index list in braces: the components and, behind a semicolon, the derivatives by place and time. -/
inductive Braced : IndexList → Tokens → Prop
  | comps {o c : Token} {names : List String} {comps : List Index} {ts : Tokens} (opened : o.text = "\x7b")
      (listed : Listed names ts) (resolved : names.mapM Index.ofName = .ok comps) (closed : c.text = "\x7d") :
      Braced ⟨comps, [], 0⟩ (o :: ts ++ [c])
  | derivs {o s c : Token} {names more : List String} {comps derivs : List Index} {ts us : Tokens}
      (opened : o.text = "\x7b") (listed : Listed names ts) (resolved : names.mapM Index.ofName = .ok comps)
      (split : s.text = ";") (others : Listed more us) (further : (spatial more).mapM Index.ofName = .ok derivs)
      (closed : c.text = "\x7d") :
      Braced ⟨comps, derivs, more.count Index.timeName⟩ (o :: ts ++ s :: us ++ [c])

/-- Nothing stands behind a semicolon. -/
def IndexList.Plain (l : IndexList) : Prop := l.derivs = [] ∧ l.timeOrder = 0

inductive Level where
  | sum | product | signed | power | atom
  deriving DecidableEq

/-- The phrases of each level, with the tokens that they are written with. -/
inductive Written (ns : Namespace) : Level → Phrase → Tokens → Prop
  | term {x : Phrase} {ts : Tokens} (inner : Written ns .product x ts) : Written ns .sum x ts
  | add {x y : Phrase} {t : Token} {ts us : Tokens} (left : Written ns .sum x ts) (sign : t.text = "+")
      (right : Written ns .product y us) : Written ns .sum (.binary .add x y) (ts ++ t :: us)
  | sub {x y : Phrase} {t : Token} {ts us : Tokens} (left : Written ns .sum x ts) (sign : t.text = "-")
      (right : Written ns .product y us) : Written ns .sum (.binary .sub x y) (ts ++ t :: us)
  | factor {x : Phrase} {ts : Tokens} (inner : Written ns .signed x ts) : Written ns .product x ts
  | mul {x y : Phrase} {t : Token} {ts us : Tokens} (left : Written ns .product x ts) (sign : t.text = "*")
      (right : Written ns .signed y us) : Written ns .product (.binary .mul x y) (ts ++ t :: us)
  | div {x y : Phrase} {t : Token} {ts us : Tokens} (left : Written ns .product x ts) (sign : t.text = "/")
      (right : Written ns .signed y us) : Written ns .product (.binary .div x y) (ts ++ t :: us)
  | neg {x : Phrase} {t : Token} {ts : Tokens} (sign : t.text = "-") (inner : Written ns .signed x ts) :
      Written ns .signed (.neg x) (t :: ts)
  | pos {x : Phrase} {t : Token} {ts : Tokens} (sign : t.text = "+") (inner : Written ns .signed x ts) :
      Written ns .signed (.pos x) (t :: ts)
  | unsigned {x : Phrase} {ts : Tokens} (inner : Written ns .power x ts) : Written ns .signed x ts
  | base {x : Phrase} {ts : Tokens} (inner : Written ns .atom x ts) : Written ns .power x ts
  | pow {x y : Phrase} {t : Token} {ts us : Tokens} (left : Written ns .atom x ts)
      (sign : t.text = "^" ∨ t.text = "**") (right : Written ns .signed y us) :
      Written ns .power (.binary .pow x y) (ts ++ t :: us)
  | number {t : Token} (kind : t.kind = .number)
      (short : (Number.Literal.ofChars t.text.toList).isTooLong = false) :
      Written ns .atom (.number (Number.Literal.ofChars t.text.toList).value) [t]
  | paren {x : Phrase} {o c : Token} {ts : Tokens} (kind : o.kind = .operator) (opened : o.text = "(")
      (inner : Written ns .sum x ts) (closed : c.text = ")") : Written ns .atom x (o :: ts ++ [c])
  | pairing {x y : Phrase} {t o s c : Token} {ts us : Tokens} (kind : t.kind = .name)
      (name : t.text = pairingName) (unbound : ns.find? t.text = none) (opened : o.text = "(")
      (left : Written ns .sum x ts) (comma : s.text = ",") (right : Written ns .sum y us) (closed : c.text = ")") :
      Written ns .atom (.pairing x y) (t :: o :: ts ++ s :: us ++ [c])
  | apply {f : Function} {x : Phrase} {t o c : Token} {ts : Tokens} (kind : t.kind = .name)
      (name : t.text = f.name) (unbound : ns.find? t.text = none) (opened : o.text = "(")
      (inner : Written ns .sum x ts) (closed : c.text = ")") :
      Written ns .atom (.apply f x) (t :: o :: ts ++ [c])
  | delta {i j : Index} {l : IndexList} {t : Token} {ts : Tokens} (kind : t.kind = .name)
      (name : t.text ∈ deltaNames) (unbound : ns.find? t.text = none) (braced : Braced l ts)
      (two : l.comps = [i, j]) (plain : l.Plain) : Written ns .atom (.delta i j) (t :: ts)
  | normal {i : Index} {l : IndexList} {t : Token} {ts : Tokens} (kind : t.kind = .name)
      (name : t.text = normalName) (unbound : ns.find? t.text = none) (braced : Braced l ts)
      (one : l.comps = [i]) (plain : l.Plain) : Written ns .atom (.normal i) (t :: ts)
  | field {f : Field} {t : Token} (kind : t.kind = .name) (bound : ns.find? t.text = some (.expr (.bare f))) :
      Written ns .atom (.field t.text ⟨[], [], 0⟩) [t]
  | fieldAt {f : Field} {l : IndexList} {t : Token} {ts : Tokens} (kind : t.kind = .name)
      (bound : ns.find? t.text = some (.expr (.bare f))) (braced : Braced l ts) :
      Written ns .atom (.field t.text l) (t :: ts)
  | definition {d : Definition} {t : Token} (kind : t.kind = .name)
      (bound : ns.find? t.text = some (.definition d)) : Written ns .atom (.definition t.text []) [t]
  | definitionAt {d : Definition} {l : IndexList} {t : Token} {ts : Tokens} (kind : t.kind = .name)
      (bound : ns.find? t.text = some (.definition d)) (braced : Braced l ts) (plain : l.Plain) :
      Written ns .atom (.definition t.text l.comps) (t :: ts)
  | expr {e : Expr} {t : Token} (kind : t.kind = .name) (bound : ns.find? t.text = some (.expr e))
      (whole : ∀ f, e ≠ .bare f) : Written ns .atom (.value t.text) [t]
  | constant {n : Number} {t : Token} (kind : t.kind = .name) (bound : ns.find? t.text = some (.number n)) :
      Written ns .atom (.value t.text) [t]

/-! ### What a phrase builds -/

def bound (ns : Namespace) (name : String) : Drawing Operand :=
  match ns.find? name with
  | some x => pure x
  | none => throw .absent

def specs (is : List Index) : List IndexSpec := is.map fun i => .named i.name

/-- The time derivative, taken so many times. -/
def rates : Nat → Operand → Drawing Operand
  | 0, x => pure x
  | n + 1, x => do rates n (← x.rate)

/-- A phrase built from the bound objects by operators, accesses and calls. -/
def Phrase.build (ns : Namespace) : Phrase → Drawing Operand
  | number n => Operand.constant (.number n)
  | value name => do pure (.expr (← (← bound ns name).toExpr))
  | field name l => do
    let x ← (← bound ns name).call (specs l.comps)
    rates l.timeOrder (← x.derivative (specs l.derivs))
  | definition name actual => do (← bound ns name).call (specs actual)
  | delta i j => Operand.delta (.named i.name) (.named j.name)
  | normal i => Operand.normal (.named i.name)
  | pairing a b => do
    let x ← a.build ns
    let y ← b.build ns
    Operand.pairing x y
  | apply f x => do Operand.apply f.name (← x.build ns)
  | neg a => do (← a.build ns).neg
  | pos a => do (← a.build ns).pos
  | binary op a b => do
    let x ← a.build ns
    let y ← b.build ns
    Operand.binary op x y

/-- The expression that a phrase stands for. -/
def Phrase.tree (ns : Namespace) : Phrase → Drawing Expr
  | number n => pure (.const n)
  | value name => do (← bound ns name).toExpr
  | field name l =>
    match ns.find? name with
    | some (.expr (.bare f)) => pure (.field f l.comps l.derivs l.timeOrder)
    | _ => throw .absent
  | definition name actual =>
    match ns.find? name with
    | some (.definition d) => d.access actual
    | _ => throw .absent
  | delta i j => pure (.delta i j)
  | normal i => pure (.normal i)
  | pairing a b => do
    let x ← a.tree ns
    let y ← b.tree ns
    pure (.pairing x y)
  | apply f x => do pure (.apply f (← x.tree ns))
  | neg a => do pure (← a.tree ns).neg
  | pos a => a.tree ns
  | binary op a b => do
    let x ← a.tree ns
    let y ← b.tree ns
    pure (op.build x y)

/-! ### Builders on expressions -/

/-- Indices with the names that indices may have. -/
def Known (is : List Index) : Prop := ∀ i ∈ is, Index.ofName i.name = .ok i

theorem known_of_resolved {names : List String} {is : List Index} (resolved : names.mapM Index.ofName = .ok is) :
    Known is := by
  intro i member
  obtain ⟨name, -, named⟩ := Outcome.exists_of_matched (Outcome.mapM_eq_ok.mp resolved) member
  have same := Index.ofName_eq_ok named
  subst same
  exact named

theorem Braced.known {l : IndexList} {ts : Tokens} (braced : Braced l ts) : Known l.comps ∧ Known l.derivs := by
  cases braced with
  | comps _ _ resolved _ => exact ⟨known_of_resolved resolved, nofun⟩
  | derivs _ _ resolved _ _ further _ => exact ⟨known_of_resolved resolved, known_of_resolved further⟩

end Galerkin.Reading

/-! ### Index lists -/

namespace Galerkin.Reading

/-! ### Tokens -/

/-- The texts of the operators. -/
def punctuation : List String := ["+", "-", "*", "**", "/", "^", "(", ")", "\x7b", "\x7d", ",", ";", "="]

/-- Only an operator reads like one. -/
def Token.Proper (t : Token) : Prop := t.kind ≠ .operator → t.text ∉ punctuation

theorem Token.Proper.ne_of_name {t : Token} {s : String} (proper : t.Proper) (kind : t.kind = .name)
    (sign : s ∈ punctuation) : t.text ≠ s := by
  rintro rfl
  exact proper (by simp [kind]) sign

/-! ### One name -/

/-- An index list with one more name read into it. -/
def IndexList.read (behindSemicolon : Bool) (l : IndexList) (name : String) : Except Failure IndexList :=
  if name == Index.timeName then
    if behindSemicolon then pure { l with timeOrder := l.timeOrder + 1 }
    else throw (.formAt .misplacedTime Index.timeName)
  else do
    let i ← Index.ofName name
    pure (l.add behindSemicolon i)

theorem ofName_time : ∃ e, Index.ofName Index.timeName = .error e := ⟨_, rfl⟩

@[simp] theorem lift_ok {α : Type} (a : α) : Drawing.lift (.ok a) = pure a := rfl

theorem lift_bind {α β : Type} (x : Except Failure α) (f : α → Except Failure β) :
    Drawing.lift (x >>= f) = Drawing.lift x >>= fun a => Drawing.lift (f a) := by
  cases x <;> rfl

theorem run_lift {α : Type} {x : Except Failure α} {a : α} {n n' : Nat} :
    (Drawing.lift x).run.run n = (.ok a, n') ↔ x = .ok a ∧ n = n' :=
  Prod.mk_inj

theorem run_lift_eq_error {α : Type} {x : Except Failure α} {f : Failure} {n n' : Nat} :
    (Drawing.lift x).run.run n = (.error f, n') ↔ x = .error f ∧ n = n' :=
  Prod.mk_inj

theorem indexItems_name {b : Bool} {l : IndexList} {t : Token} {ts : Tokens} (brace : t.text ≠ "\x7d")
    (semicolon : t.text ≠ ";") (kind : t.kind = .name) :
    indexItems b l (t :: ts) = Drawing.lift (l.read b t.text) >>= fun l => indexItems b l (dropComma ts) := by
  rw [indexItems, if_neg (by simpa using brace), if_neg (by simpa using semicolon), if_neg (by simp [kind])]
  unfold IndexList.read
  split
  · cases b <;> rfl
  · rw [lift_bind, bind_assoc]
    rfl

theorem Token.Proper.indexItems_eq {b : Bool} {l : IndexList} {t : Token} {ts : Tokens} (proper : t.Proper)
    (kind : t.kind = .name) :
    indexItems b l (t :: ts) = Drawing.lift (l.read b t.text) >>= fun l => indexItems b l (dropComma ts) :=
  indexItems_name (proper.ne_of_name kind (by decide)) (proper.ne_of_name kind (by decide)) kind

theorem read_comps {l l' : IndexList} {name : String} :
    l.read false name = .ok l' ↔ ∃ i, Index.ofName name = .ok i ∧ l' = { l with comps := l.comps ++ [i] } := by
  unfold IndexList.read
  split
  · rename_i time
    obtain ⟨e, refused⟩ := ofName_time
    rw [eq_of_beq time, refused]
    simp
  · simp only [Outcome.bind_eq_ok, Outcome.pure_eq_ok, IndexList.add, Bool.false_eq_true, if_false, @eq_comm _ _ l']

theorem read_derivs {l l' : IndexList} {name : String} :
    l.read true name = .ok l' ↔ ∃ js, (spatial [name]).mapM Index.ofName = .ok js ∧
      l' = { l with derivs := l.derivs ++ js, timeOrder := l.timeOrder + [name].count Index.timeName } := by
  unfold IndexList.read
  by_cases time : name = Index.timeName
  · simp [time, spatial, @eq_comm _ _ l', Outcome.pure_eq_ok]
  · cases named : Index.ofName name <;>
      simp [time, named, spatial, IndexList.add, @eq_comm _ _ l']

/-! ### Several names -/

theorem fold_comps {names : List String} {l l' : IndexList} :
    names.foldlM (IndexList.read false) l = .ok l' ↔
      ∃ is, names.mapM Index.ofName = .ok is ∧ l' = { l with comps := l.comps ++ is } := by
  induction names generalizing l with
  | nil => simp [@eq_comm _ _ l']
  | cons name names ih =>
      simp only [List.foldlM_cons, List.mapM_cons, Outcome.bind_eq_ok, read_comps, ih]
      constructor
      · rintro ⟨_, ⟨i, first, rfl⟩, is, others, rfl⟩
        exact ⟨i :: is, ⟨i, first, is, others, rfl⟩, by simp⟩
      · rintro ⟨_, ⟨i, first, is, others, same⟩, rfl⟩
        cases same
        exact ⟨_, ⟨i, first, rfl⟩, is, others, by simp⟩

theorem fold_derivs {names : List String} {l l' : IndexList} :
    names.foldlM (IndexList.read true) l = .ok l' ↔
      ∃ js, (spatial names).mapM Index.ofName = .ok js ∧
        l' = { l with derivs := l.derivs ++ js, timeOrder := l.timeOrder + names.count Index.timeName } := by
  induction names generalizing l with
  | nil => simp [spatial, @eq_comm _ _ l']
  | cons name names ih =>
      have split : spatial (name :: names) = spatial [name] ++ spatial names := List.filter_append [name] names
      have counts : (name :: names).count Index.timeName =
          [name].count Index.timeName + names.count Index.timeName := by
        rw [← List.count_append, List.singleton_append]
      simp only [List.foldlM_cons, split, counts, List.mapM_append, Outcome.bind_eq_ok, read_derivs, ih]
      constructor
      · rintro ⟨_, ⟨is, first, rfl⟩, js, others, rfl⟩
        exact ⟨is ++ js, ⟨is, first, js, others, rfl⟩, by simp [Nat.add_assoc]⟩
      · rintro ⟨_, ⟨is, first, js, others, same⟩, rfl⟩
        cases same
        exact ⟨_, ⟨is, first, rfl⟩, js, others, by simp [Nat.add_assoc]⟩

/-! ### Reading what is written -/

theorem dropComma_listed {names : List String} {ts rest : Tokens} (listed : Listed names ts)
    (proper : ∀ t ∈ ts, t.Proper) (kept : dropComma rest = rest) : dropComma (ts ++ rest) = ts ++ rest := by
  cases listed with
  | nil => exact kept
  | name kind | comma kind =>
      have other := (proper _ List.mem_cons_self).ne_of_name kind (s := ",") (by decide)
      simp [dropComma, other]

theorem indexItems_listed {b : Bool} {names : List String} {ts rest : Tokens} (listed : Listed names ts)
    (proper : ∀ t ∈ ts, t.Proper) (kept : dropComma rest = rest) (l : IndexList) :
    indexItems b l (ts ++ rest) =
      Drawing.lift (names.foldlM (IndexList.read b) l) >>= fun l => indexItems b l rest := by
  induction listed generalizing l with
  | nil => exact (pure_bind l fun l => indexItems b l rest).symm
  | name kind others ih =>
      obtain ⟨first, proper⟩ := List.forall_mem_cons.mp proper
      rw [List.cons_append, first.indexItems_eq kind, dropComma_listed others proper kept, List.foldlM_cons,
        lift_bind, bind_assoc]
      simp only [ih proper]
  | comma kind comma others ih =>
      obtain ⟨first, -, proper⟩ : _ ∧ _ ∧ _ := by simpa using proper
      rw [List.cons_append, List.cons_append, first.indexItems_eq kind, dropComma, if_pos (by simp [comma]),
        List.foldlM_cons, lift_bind, bind_assoc]
      simp only [ih proper]

theorem indexItems_close {b : Bool} {l : IndexList} {c : Token} {rest : Tokens} (closed : c.text = "\x7d") :
    indexItems b l (c :: rest) = pure (l, rest) := by
  rw [indexItems, if_pos (by simp [closed])]

theorem indexItems_split {l : IndexList} {s : Token} {rest : Tokens} (split : s.text = ";") :
    indexItems false l (s :: rest) = indexItems true l rest := by
  rw [indexItems, if_neg (by simp [split]), if_pos (by simp [split])]
  rfl

theorem Braced.braces_eq {ctx : Context} {l : IndexList} {ts rest : Tokens} (braced : Braced l ts)
    (proper : ∀ t ∈ ts, t.Proper) : braces ctx (ts ++ rest) = pure (l, rest) := by
  cases braced with
  | @comps o c names is us opened listed resolved closed =>
      have inside : ∀ t ∈ us, t.Proper := fun t member => proper t (by simp [member])
      have read : names.foldlM (IndexList.read false) ⟨[], [], 0⟩ = .ok ⟨is, [], 0⟩ :=
        fold_comps.mpr ⟨is, resolved, rfl⟩
      simp only [braces, take, opened, List.cons_append, List.append_assoc, List.nil_append, beq_self_eq_true,
        if_true, pure_bind]
      rw [indexItems_listed listed inside (by simp [dropComma, closed]), read, lift_ok, pure_bind,
        indexItems_close closed]
  | @derivs o s c names more is js us vs opened listed resolved split others further closed =>
      have inside : ∀ t ∈ us, t.Proper := fun t member => proper t (by simp [member])
      have behind : ∀ t ∈ vs, t.Proper := fun t member => proper t (by simp [member])
      have read : names.foldlM (IndexList.read false) ⟨[], [], 0⟩ = .ok ⟨is, [], 0⟩ :=
        fold_comps.mpr ⟨is, resolved, rfl⟩
      have readMore : more.foldlM (IndexList.read true) ⟨is, [], 0⟩ = .ok ⟨is, js, more.count Index.timeName⟩ :=
        fold_derivs.mpr ⟨js, further, by simp⟩
      simp only [braces, take, opened, List.cons_append, List.append_assoc, List.nil_append, beq_self_eq_true,
        if_true, pure_bind]
      rw [indexItems_listed listed inside (by simp [dropComma, split]), read, lift_ok, pure_bind,
        indexItems_split split, indexItems_listed others behind (by simp [dropComma, closed]), readMore, lift_ok,
        pure_bind, indexItems_close closed]

/-! ### What is read was written -/

theorem listed_of_dropComma {t : Token} {names : List String} {ts used rest : Tokens} (kind : t.kind = .name)
    (listed : Listed names used) (same : dropComma ts = used ++ rest) :
    ∃ more, Listed (t.text :: names) (t :: more) ∧ ts = more ++ rest := by
  cases ts with
  | nil => exact ⟨used, .name kind listed, same⟩
  | cons c ts =>
      by_cases comma : c.text = ","
      · rw [dropComma, if_pos (by simp [comma])] at same
        exact ⟨c :: used, .comma kind comma listed, congrArg (c :: ·) same⟩
      · rw [dropComma, if_neg (by simp [comma])] at same
        exact ⟨used, .name kind listed, same⟩

/-- The rest of an index list, in braces that are open, with what it adds to the list so far. -/
inductive Remaining : Bool → IndexList → IndexList → Tokens → Prop
  | last {b : Bool} {l l' : IndexList} {names : List String} {c : Token} {ts : Tokens} (listed : Listed names ts)
      (read : names.foldlM (IndexList.read b) l = .ok l') (closed : c.text = "\x7d") : Remaining b l l' (ts ++ [c])
  | split {l middle l' : IndexList} {names : List String} {s : Token} {ts us : Tokens} (listed : Listed names ts)
      (read : names.foldlM (IndexList.read false) l = .ok middle) (split : s.text = ";")
      (behind : Remaining true middle l' us) : Remaining false l l' (ts ++ s :: us)

theorem Remaining.name {b : Bool} {l middle l' : IndexList} {t : Token} {ts used rest : Tokens}
    (kind : t.kind = .name) (read : l.read b t.text = .ok middle) (remaining : Remaining b middle l' used)
    (same : dropComma ts = used ++ rest) : ∃ more, Remaining b l l' (t :: more) ∧ ts = more ++ rest := by
  cases remaining with
  | @last _ _ _ names c us listed others closed =>
      obtain ⟨more, written, split⟩ := listed_of_dropComma kind listed (same.trans (List.append_assoc us [c] rest))
      refine ⟨more ++ [c], .last written ?_ closed, by simp [split]⟩
      rw [List.foldlM_cons, read]
      exact others
  | @split _ _ _ names s us vs listed others sign behind =>
      obtain ⟨more, written, split⟩ :=
        listed_of_dropComma kind listed (same.trans (List.append_assoc us (s :: vs) rest))
      refine ⟨more ++ s :: vs, .split written ?_ sign behind, by simp [split]⟩
      rw [List.foldlM_cons, read]
      exact others

theorem indexItems_eq_ok {b : Bool} {l l' : IndexList} {ts rest : Tokens} {n n' : Nat}
    (done : (indexItems b l ts).run.run n = (.ok (l', rest), n')) :
    ∃ used, ts = used ++ rest ∧ Remaining b l l' used ∧ n = n' := by
  induction size : ts.length using Nat.strong_induction_on generalizing b l ts with
  | _ size ih =>
    subst size
    cases ts with
    | nil =>
        rw [indexItems] at done
        cases done
    | cons t ts =>
        by_cases brace : t.text = "\x7d"
        · rw [indexItems_close brace] at done
          cases done
          exact ⟨[t], rfl, .last .nil rfl brace, rfl⟩
        by_cases semicolon : t.text = ";"
        · cases b with
          | true =>
              rw [indexItems, if_neg (by simpa using brace), if_pos (by simp [semicolon])] at done
              cases done
          | false =>
              rw [indexItems_split semicolon] at done
              obtain ⟨used, rfl, remaining, same⟩ := ih ts.length (by simp) done rfl
              exact ⟨t :: used, rfl, .split .nil rfl semicolon remaining, same⟩
        by_cases kind : t.kind = .name
        · rw [indexItems_name brace semicolon kind] at done
          obtain ⟨middle, later, read, others⟩ := Outcome.run_bind_eq_ok.mp done
          obtain ⟨drawn, rfl⟩ := run_lift.mp read
          have fewer := Nat.lt_succ_of_le (length_dropComma_le ts)
          obtain ⟨used, split, remaining, same⟩ := ih _ fewer others rfl
          obtain ⟨more, written, rfl⟩ := remaining.name kind drawn split
          exact ⟨t :: more, rfl, written, same⟩
        · rw [indexItems, if_neg (by simpa using brace), if_neg (by simpa using semicolon),
            if_pos (by simpa using kind)] at done
          cases done

theorem Remaining.braced {o : Token} {l : IndexList} {ts : Tokens} (opened : o.text = "\x7b")
    (remaining : Remaining false ⟨[], [], 0⟩ l ts) : Braced l (o :: ts) := by
  cases remaining with
  | last listed read closed =>
      obtain ⟨is, resolved, rfl⟩ := fold_comps.mp read
      exact .comps opened listed resolved closed
  | split listed read sign behind =>
      obtain ⟨is, resolved, rfl⟩ := fold_comps.mp read
      cases behind with
      | last others more closed =>
          obtain ⟨js, further, rfl⟩ := fold_derivs.mp more
          simpa using Braced.derivs opened listed resolved sign others further closed

theorem take_eq_ok {ctx : Context} {s : String} {ts rest : Tokens} {n n' : Nat}
    (taken : (take ctx s ts).run.run n = (.ok rest, n')) : ∃ t, t.text = s ∧ ts = t :: rest ∧ n = n' := by
  cases ts with
  | nil => cases taken
  | cons t ts =>
      by_cases here : t.text = s
      · rw [take, if_pos (by simp [here])] at taken
        cases taken
        exact ⟨t, here, rfl, rfl⟩
      · rw [take, if_neg (by simp [here])] at taken
        cases taken

theorem braces_eq_ok {ctx : Context} {l : IndexList} {ts rest : Tokens} {n n' : Nat}
    (done : (braces ctx ts).run.run n = (.ok (l, rest), n')) : ∃ used, ts = used ++ rest ∧ Braced l used ∧ n = n' := by
  obtain ⟨inside, later, taken, read⟩ := Outcome.run_bind_eq_ok.mp done
  obtain ⟨o, opened, rfl, rfl⟩ := take_eq_ok taken
  obtain ⟨used, rfl, remaining, same⟩ := indexItems_eq_ok read
  exact ⟨o :: used, rfl, remaining.braced opened, same⟩

end Galerkin.Reading
