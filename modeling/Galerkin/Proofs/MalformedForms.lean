import Mathlib
import Galerkin.Linearization
import Galerkin.Reading.Block
import Galerkin.Proofs.Definition.Dummies
import Galerkin.Proofs.Formula.Textbook
import Galerkin.Proofs.Reading.Parse
import Galerkin.Proofs.SymbolTable

/-!
Which malformed forms say in what form they were found. What is raised while a definition is read, or while a weak
form is linearized, is given the name on its way out; an index list that names the time is not.
-/

namespace Galerkin

namespace FormError

/-- A name that is known already stays. -/
@[simp] theorem form_inForm (e : FormError) (name : String) : (e.inForm name).form = some (e.form.getD name) := by
  unfold inForm inForm?
  cases found : e.form with
  | some form => simp [found]
  | none => cases e.restated? <;> simp

@[simp] theorem index_inForm (e : FormError) (name : String) : (e.inForm name).index = e.index := by
  unfold inForm inForm?
  cases e.form with
  | some form => rfl
  | none => cases e.restated? <;> rfl

end FormError

theorem Failure.inForm_eq_malformed {name : String} {f : Failure} {e : FormError} :
    f.inForm name = .malformed e ↔ ∃ raw, f = .malformed raw ∧ raw.inForm name = e := by
  cases f <;> simp [Failure.inForm]

theorem Outcome.mapError_inForm_eq_malformed {α : Type} {name : String} {x : Except Failure α} {e : FormError} :
    x.mapError (Failure.inForm name) = .error (.malformed e) ↔
      ∃ raw, x = .error (.malformed raw) ∧ raw.inForm name = e := by
  cases x with
  | ok a => simp [Except.mapError]
  | error f => simp [Except.mapError, Failure.inForm_eq_malformed]

namespace Drawing

variable {α : Type} {n n' : Nat}

theorem run_inForm {form : String} {work : Drawing α} :
    (Drawing.inForm form work).run.run n =
      ((work.run.run n).1.mapError (Failure.inForm form), (work.run.run n).2) := by
  rw [Drawing.inForm, ExceptT.run_mk, StateT.run_bind]
  rcases work.run.run n with ⟨_ | _, _⟩ <;> rfl

theorem run_inForm_eq_ok {form : String} {work : Drawing α} {a : α} :
    (Drawing.inForm form work).run.run n = (.ok a, n') ↔ work.run.run n = (.ok a, n') := by
  rw [run_inForm, Prod.mk.injEq, Outcome.mapError_eq_ok, ← Prod.mk.injEq, Prod.mk.eta]

theorem run_inForm_eq_malformed {form : String} {work : Drawing α} {e : FormError} :
    (Drawing.inForm form work).run.run n = (.error (.malformed e), n') ↔
      ∃ raw, work.run.run n = (.error (.malformed raw), n') ∧ raw.inForm form = e := by
  rw [run_inForm, Prod.mk.injEq, Outcome.mapError_inForm_eq_malformed]
  constructor
  · rintro ⟨⟨raw, failed, named⟩, rfl⟩
    exact ⟨raw, Prod.ext failed rfl, named⟩
  · rintro ⟨raw, failed, named⟩
    rw [failed]
    exact ⟨⟨raw, rfl, named⟩, rfl⟩

end Drawing

/-! ### Index lists -/

namespace Index

theorem ofName_eq_malformed {name : String} {e : FormError} :
    ofName name = .error (.malformed e) ↔ name = timeName ∧ e = ⟨.reservedTime, none, some timeName⟩ := by
  unfold ofName
  split
  · next unlike =>
      constructor
      · intro failed
        cases failed
      · rintro ⟨rfl, -⟩
        exact absurd unlike (by decide)
  · split
    · next same =>
        rw [beq_iff_eq] at same
        subst same
        simp [throw, throwThe, MonadExceptOf.throw, Failure.formAt, eq_comm]
    · next other =>
        constructor
        · intro failed
          cases failed
        · rintro ⟨rfl, -⟩
          exact absurd (beq_self_eq_true timeName) other

/-- Is the first of some names that is no index that of the time? -/
def TimeFirst (names : List String) : Prop :=
  ∃ before after, names = before ++ timeName :: after ∧ ∃ is, before.mapM ofName = .ok is

theorem mapM_ofName_eq_malformed {names : List String} {e : FormError} :
    names.mapM ofName = .error (.malformed e) ↔ TimeFirst names ∧ e = ⟨.reservedTime, none, some timeName⟩ := by
  constructor
  · intro failed
    obtain ⟨before, name, after, split, known, here⟩ := Outcome.exists_first_of_mapM_eq_error failed
    obtain ⟨rfl, rfl⟩ := ofName_eq_malformed.mp here
    exact ⟨⟨before, after, split, known⟩, rfl⟩
  · rintro ⟨⟨before, after, rfl, is, known⟩, rfl⟩
    exact Outcome.mapM_eq_error known (ofName_eq_malformed.mpr ⟨rfl, rfl⟩) after

end Index

/-! ### Definitions -/

namespace Definition

theorem make_eq_malformed {name : String} {is : List Index} {body : Expr} {e : FormError}
    (failed : make name is body = .error (.malformed e)) : ∃ form, e.form = some form := by
  unfold make at failed
  dsimp only at failed
  split at failed
  · cases failed
    exact ⟨name, rfl⟩
  · rcases Outcome.bind_eq_error.mp failed with unbalanced | ⟨free, -, failed⟩
    · obtain ⟨raw, -, rfl⟩ := Outcome.mapError_inForm_eq_malformed.mp unbalanced
      exact ⟨_, raw.form_inForm name⟩
    · split at failed
      · cases failed
      · cases failed
        exact ⟨name, rfl⟩

/-- Dummies are not called like the time. -/
theorem freshen_ne_malformed {is : List Index} {r : Renaming} {n n' : Nat} {e : FormError} :
    (freshen is r).run.run n ≠ (.error (.malformed e), n') := by
  induction is generalizing r n with
  | nil => nofun
  | cons i rest ih =>
      rw [freshen]
      split
      · exact ih
      · intro failed
        rcases Outcome.run_bind_eq_error.mp failed with failed | ⟨dummy, later, -, failed⟩
        · obtain failed | ⟨k, later, drawn, failed⟩ := Outcome.run_bind_eq_error.mp failed
          · cases failed
          · obtain ⟨same, -⟩ := Index.ofName_eq_malformed.mp (Reading.run_lift_eq_error.mp failed).1
            have first := congrArg String.toList same
            rw [Index.toList_freshName] at first
            cases first
        · exact ih failed

theorem access_eq_malformed {d : Definition} {actual : List Index} {n n' : Nat} {e : FormError}
    (failed : (d.access actual).run.run n = (.error (.malformed e), n')) :
    e = ⟨.indexCount d.rank actual.length, some d.name, none⟩ := by
  unfold access at failed
  dsimp only at failed
  split at failed
  · cases failed
    rfl
  · rcases Outcome.run_bind_eq_error.mp failed with failed | ⟨_, _, -, impossible⟩
    · exact absurd failed freshen_ne_malformed
    · cases impossible

theorem toExpr_eq_malformed {x : Operand} {n n' : Nat} {e : FormError}
    (failed : x.toExpr.run.run n = (.error (.malformed e), n')) :
    ∃ d, x = .definition d ∧ e = ⟨.indexCount d.rank 0, some d.name, none⟩ := by
  cases x with
  | definition d => exact ⟨d, rfl, access_eq_malformed failed⟩
  | _ => cases failed

end Definition

namespace Reading

variable {ns : Namespace} {line : DefinitionLine} {n n' : Nat} {e : FormError}

/-- The names of the index list of a line, in their order. -/
def DefinitionLine.left (line : DefinitionLine) : List String := indexNames (line.indices.getD [])

/-- What a line raises that defines nothing: an error of its text with the name put to it, the time in the index list,
or that the two sides do not fit. -/
theorem define_eq_malformed :
    (define ns line).run.run n = (.error (.malformed e), n') ↔
      (∃ raw, (parse ns (String.ofList line.body)).run.run n = (.error (.malformed raw), n') ∧
        raw.inForm line.name = e) ∨
      ∃ body, (parse ns (String.ofList line.body)).run.run n = (.ok body, n') ∧
        ((Index.TimeFirst line.left ∧ e = ⟨.reservedTime, none, some Index.timeName⟩) ∨
          ∃ is, line.left.mapM Index.ofName = .ok is ∧ Definition.make line.name is body = .error (.malformed e)) := by
  unfold define
  rw [Outcome.run_bind_eq_error, Drawing.run_inForm_eq_malformed]
  refine or_congr_right ⟨?_, ?_⟩
  · rintro ⟨body, later, read, failed⟩
    rw [Drawing.run_inForm_eq_ok] at read
    rcases Outcome.run_bind_eq_error.mp failed with left | ⟨is, _, known, failed⟩
    · obtain ⟨listed, rfl⟩ := Reading.run_lift_eq_error.mp left
      exact ⟨body, read, Or.inl (Index.mapM_ofName_eq_malformed.mp listed)⟩
    · obtain ⟨resolved, rfl⟩ := Reading.run_lift.mp known
      rcases Outcome.run_bind_eq_error.mp failed with sides | ⟨_, _, -, impossible⟩
      · obtain ⟨unmade, rfl⟩ := Reading.run_lift_eq_error.mp sides
        exact ⟨body, read, Or.inr ⟨is, resolved, unmade⟩⟩
      · split at impossible <;> cases impossible
  · rintro ⟨body, read, listed | ⟨is, known, unmade⟩⟩
    · refine ⟨body, n', Drawing.run_inForm_eq_ok.mpr read, Outcome.run_bind_eq_error.mpr (Or.inl ?_)⟩
      exact Reading.run_lift_eq_error.mpr ⟨Index.mapM_ofName_eq_malformed.mpr listed, rfl⟩
    · refine ⟨body, n', Drawing.run_inForm_eq_ok.mpr read, Outcome.run_bind_eq_error.mpr (Or.inr ?_)⟩
      refine ⟨is, n', Reading.run_lift.mpr ⟨known, rfl⟩, Outcome.run_bind_eq_error.mpr (Or.inl ?_)⟩
      exact Reading.run_lift_eq_error.mpr ⟨unmade, rfl⟩

/-- A line names its form in what it raises, unless its text is read and its index list names the time. -/
theorem define_names_form (failed : (define ns line).run.run n = (.error (.malformed e), n')) :
    (e.form = none ↔ Index.TimeFirst line.left ∧ ∃ body, (parse ns (String.ofList line.body)).run.run n = (.ok body, n')) ∧
      (e.form = none → e = ⟨.reservedTime, none, some Index.timeName⟩) := by
  rcases define_eq_malformed.mp failed with ⟨raw, unread, rfl⟩ | ⟨body, read, ⟨listed, rfl⟩ | ⟨is, known, unmade⟩⟩
  · rw [FormError.form_inForm]
    refine ⟨⟨nofun, ?_⟩, nofun⟩
    rintro ⟨-, body, read⟩
    rw [unread] at read
    cases read
  · exact ⟨⟨fun _ => ⟨listed, body, read⟩, fun _ => rfl⟩, fun _ => rfl⟩
  · obtain ⟨form, named⟩ := Definition.make_eq_malformed unmade
    rw [named]
    refine ⟨⟨nofun, ?_⟩, nofun⟩
    rintro ⟨listed, -⟩
    rw [Index.mapM_ofName_eq_malformed.mpr ⟨listed, rfl⟩] at known
    cases known

/-- What is raised at the line of some position in a block, when the lines before it are done: the line is not of the
shape of a definition, or it is and cannot be defined. -/
inductive RaisedAt (ns : Namespace) (first : Nat) (lines : List String) (n : Nat) (f : Failure) (n' : Nat) : Prop
  | shapeless {k : Nat} {text : String} (found : lines[k]? = some text)
      (shape : DefinitionLine.ofChars? (bare text) = none) (raised : f = .form (.notADefinition (first + k)))
  | line {k m : Nat} {text : String} {line : DefinitionLine} {before : Namespace} (found : lines[k]? = some text)
      (shape : DefinitionLine.ofChars? (bare text) = some line)
      (earlier : (defineLines ns first (lines.take k)).run.run n = (.ok before, m))
      (raised : (define before line).run.run m = (.error f, n'))

/-- What the lines behind one raise, when this one is done. -/
theorem RaisedAt.behind {first m : Nat} {text : String} {rest : List String} {before : Namespace} {f : Failure}
    (later : RaisedAt before (first + 1) rest m f n')
    (step : ∀ lines, (defineLines ns first (text :: lines)).run.run n =
      (defineLines before (first + 1) lines).run.run m) :
    RaisedAt ns first (text :: rest) n f n' := by
  cases later with
  | @shapeless k _ found shape raised =>
      exact .shapeless (k := k + 1) found shape (by rw [raised, Nat.add_assoc, Nat.add_comm 1 k])
  | @line k _ _ _ _ found shape earlier raised =>
      refine .line (k := k + 1) found shape ?_ raised
      rw [List.take_succ_cons, step]
      exact earlier

theorem defineLines_blank {first : Nat} {text : String} (blank : (bare text).isEmpty) (lines : List String) :
    defineLines ns first (text :: lines) = defineLines ns (first + 1) lines := by
  rw [defineLines]
  exact if_pos blank

theorem defineLines_written (ns : Namespace) (first : Nat) {text : String} (written : ¬(bare text).isEmpty)
    (lines : List String) : defineLines ns first (text :: lines) =
      match DefinitionLine.ofChars? (bare text) with
      | none => throw (.form (.notADefinition first))
      | some line => define ns line >>= fun ns => defineLines ns (first + 1) lines := by
  rw [defineLines]
  exact if_neg written

theorem defineLines_eq_error {first : Nat} {lines : List String} {f : Failure}
    (failed : (defineLines ns first lines).run.run n = (.error f, n')) : RaisedAt ns first lines n f n' := by
  induction lines generalizing ns first n with
  | nil => cases failed
  | cons text rest ih =>
      by_cases blank : (bare text).isEmpty
      · rw [defineLines_blank blank] at failed
        exact (ih failed).behind fun lines => by rw [defineLines_blank blank]
      · have step := defineLines_written ns first blank
        cases shape : DefinitionLine.ofChars? (bare text) with
        | none =>
            rw [step, shape] at failed
            cases failed
            exact .shapeless (k := 0) rfl shape rfl
        | some line =>
            simp only [shape] at step
            rw [step] at failed
            rcases Outcome.run_bind_eq_error.mp failed with raised | ⟨before, m, done, failed⟩
            · exact .line (k := 0) rfl shape rfl raised
            · refine (ih failed).behind fun lines => ?_
              rw [step, ExceptT.run_bind, StateT.run_bind, done]
              rfl

end Reading

/-! ### Linearization -/

namespace Linearization

open Formula

/-- The malformed forms that are raised while a form is linearized: in taking it apart into pairings, in the components
of one of them, for a facet normal out of place, or for a test side without an unknown. -/
inductive Raises (s : Setting) (name : String) (boundary : Bool) (e : Expr) : FormError → Prop
  | splitting {raw : FormError} (raised : WeakForm.pairingsOf e = .error (.malformed raw)) : Raises s name boundary e raw
  | expanding {raw : FormError} {ps : List Pairing} {p : Pairing} (split : WeakForm.pairingsOf e = .ok ps) (member : p ∈ ps)
      (raised : WeakForm.componentPairs s p = .error (.malformed raw)) : Raises s name boundary e raw
  | normal (inside : boundary = false) : Raises s name boundary e ⟨.normalInDomain, some name, none⟩
  | independent (quantity : String) : Raises s name boundary e ⟨.independent quantity, some name, none⟩

theorem expand_eq_malformed {s : Setting} {name : String} {boundary : Bool} {e : Expr} {err : FormError}
    (failed : WeakForm.expand s name e = .error (.malformed err)) :
    ∃ raw, Raises s name boundary e raw ∧ raw.inForm name = err := by
  unfold WeakForm.expand WeakForm.pairings at failed
  rcases Outcome.bind_eq_error.mp failed with failed | ⟨ps, split, failed⟩
  · obtain ⟨raw, raised, named⟩ := Outcome.mapError_inForm_eq_malformed.mp failed
    exact ⟨raw, .splitting raised, named⟩
  · rcases Outcome.bind_eq_error.mp failed with failed | ⟨_, -, impossible⟩
    · obtain ⟨p, member, failed⟩ := Outcome.exists_of_mapM_eq_error failed
      obtain ⟨raw, raised, named⟩ := Outcome.mapError_inForm_eq_malformed.mp failed
      exact ⟨raw, .expanding (Outcome.mapError_eq_ok.mp split) member raised, named⟩
    · cases impossible

theorem addPair_eq_error {rules : Calculus Quantity} {name : String} {table : SymbolTable} {unknowns : List Quantity}
    {totals : Gradient} {pair : Formula Quantity × Formula Quantity} {f : Failure}
    (failed : addPair rules name table unknowns totals pair = .error f) :
    ∃ quantity, f = .malformed ⟨.independent quantity, some name, none⟩ := by
  unfold addPair at failed
  dsimp only at failed
  split at failed
  · cases failed
  · split at failed
    · cases failed
      exact ⟨_, rfl⟩
    · cases failed

theorem ofForm_eq_malformed {rules : Calculus Quantity} {s : Setting} {name : String} {boundary : Bool} {e : Expr}
    {err : FormError} (failed : ofForm rules s name boundary e = .error (.malformed err)) :
    ∃ raw, Raises s name boundary e raw ∧ raw.inForm name = err := by
  unfold ofForm at failed
  rcases Outcome.bind_eq_error.mp failed with failed | ⟨pairs, -, failed⟩
  · exact expand_eq_malformed failed
  obtain ⟨table, requested⟩ := SymbolTable.requestAll_isOk (t := .empty s.dim s.internal s.external) rfl
    (pairs.flatMap fun p => p.1.atoms ++ p.2.atoms)
  dsimp only at failed
  rw [requested, Outcome.ok_bind] at failed
  split at failed
  · next misplaced =>
      cases failed
      rw [Bool.and_eq_true, Bool.not_eq_true'] at misplaced
      exact ⟨_, .normal misplaced.2, rfl⟩
  · rcases Outcome.bind_eq_error.mp failed with failed | ⟨_, -, impossible⟩
    · have named : Outcome.Avoids (fun f => ¬∃ quantity, f = .malformed ⟨.independent quantity, some name, none⟩)
          (List.foldlM (addPair rules name table.freeze (table.freeze.unknowns.map (·.1))) []
            (pairs.map fun p => (rules.normal p.1, rules.normal p.2))) :=
        Outcome.avoids_foldlM (fun _ _ _ f fails => not_not_intro (addPair_eq_error fails)) []
      obtain ⟨quantity, same⟩ := not_not.mp (named _ failed)
      cases same
      exact ⟨_, .independent quantity, rfl⟩
    · cases impossible

/-- The densities of what stands for a form, which may be a definition without indices. -/
def ofOperand (rules : Calculus Quantity) (s : Setting) (name : String) (boundary : Bool) (x : Operand) :
    Drawing Linearization := do
  let e ← x.toExpr
  Drawing.lift (ofForm rules s name boundary e)

theorem ofOperand_eq_malformed {rules : Calculus Quantity} {s : Setting} {name : String} {boundary : Bool} {x : Operand}
    {n n' : Nat} {err : FormError}
    (failed : (ofOperand rules s name boundary x).run.run n = (.error (.malformed err), n')) :
    (∃ d, x = .definition d ∧ err = ⟨.indexCount d.rank 0, some d.name, none⟩) ∨
      ∃ e raw, x.toExpr.run.run n = (.ok e, n') ∧ Raises s name boundary e raw ∧
        err.form = some (raw.form.getD name) ∧ err.index = raw.index := by
  unfold ofOperand at failed
  rcases Outcome.run_bind_eq_error.mp failed with failed | ⟨e, later, made, failed⟩
  · exact Or.inl (Definition.toExpr_eq_malformed failed)
  · obtain ⟨refused, rfl⟩ := Reading.run_lift_eq_error.mp failed
    obtain ⟨raw, raised, rfl⟩ := ofForm_eq_malformed refused
    exact Or.inr ⟨e, raw, made, raised, raw.form_inForm name, raw.index_inForm name⟩

end Linearization

/-- A block fails at one of its lines. A line of the shape of a definition that raises a malformed form names it, unless
its text is read and its index list names the time. A form that is linearized is named whatever in it is malformed,
and the index is the one that was given first. -/
theorem malformed_forms_are_named (ns : Namespace) (n : Nat) :
    (∀ block n' f, (Reading.parseBlock ns block).run.run n = (.error f, n') →
      Reading.RaisedAt ns 1 (Text.lines block) n f n') ∧
    (∀ line n' e, (Reading.define ns line).run.run n = (.error (.malformed e), n') →
      (e.form = none ↔ Index.TimeFirst line.left ∧
        ∃ body, (Reading.parse ns (String.ofList line.body)).run.run n = (.ok body, n')) ∧
      (e.form = none → e = ⟨.reservedTime, none, some Index.timeName⟩)) ∧
    ∀ rules s name boundary x n' e,
      (Linearization.ofOperand rules s name boundary x).run.run n = (.error (.malformed e), n') →
        (∃ d, x = .definition d ∧ e = ⟨.indexCount d.rank 0, some d.name, none⟩) ∨
          ∃ form raw, x.toExpr.run.run n = (.ok form, n') ∧ Linearization.Raises s name boundary form raw ∧
            e.form = some (raw.form.getD name) ∧ e.index = raw.index :=
  ⟨fun _ _ _ failed => Reading.defineLines_eq_error failed,
    fun _ _ _ failed => Reading.define_names_form failed,
    fun _ _ _ _ _ _ _ failed => Linearization.ofOperand_eq_malformed failed⟩

section Example

open Reading

theorem parse_one : (parse [] (String.ofList [' ', '1'])).run.run 0 = (.ok (.const (.int 1)), 0) := by
  have spelling : Spelling 0 [⟨.number, "1", 1⟩] [' ', '1'] :=
    .blank (by decide) (.token ⟨.number, "1", 1⟩ [] ⟨'1', [], rfl, rfl⟩ (.at_end _) (.done 2))
  have one : Written [] .atom (.number (.int 1)) [⟨.number, "1", 1⟩] :=
    Written.number (t := ⟨.number, "1", 1⟩) rfl rfl
  refine parse_eq_ok.mpr ⟨_, _, tokenize_of_spelling ?_, .term (.factor (.unsigned (.base one))), rfl⟩
  rw [String.toList_ofList]
  exact spelling

/-- A one with an index on its left. -/
def oneOf (index : Char) : DefinitionLine := ⟨"p", some [index], [' ', '1']⟩

theorem define_time_left :
    (define [] (oneOf 't')).run.run 0 = (.error (.malformed ⟨.reservedTime, none, some "t"⟩), 0) :=
  define_eq_malformed.mpr (Or.inr ⟨_, parse_one, Or.inl ⟨⟨[], [], rfl, [], rfl⟩, rfl⟩⟩)

theorem define_index_left :
    (define [] (oneOf 'i')).run.run 0 = (.error (.malformed ⟨.sidesDiffer ["i"] [], some "p", some "i"⟩), 0) :=
  define_eq_malformed.mpr (Or.inr ⟨_, parse_one, Or.inr ⟨[⟨"i"⟩], rfl, by cbv⟩⟩)

theorem shape_time_left : DefinitionLine.ofChars? (bare "p\x7bt\x7d = 1") = some (oneOf 't') := rfl

/-- The time in the index list of a line: nothing says which definition cannot be made. -/
theorem parseBlock_time_left :
    DefinitionLine.ofChars? (bare "p\x7bt\x7d = 1") = some (oneOf 't') ∧
      (parseBlock [] "p\x7bt\x7d = 1").run.run 0 = (.error (.malformed ⟨.reservedTime, none, some "t"⟩), 0) := by
  refine ⟨shape_time_left, ?_⟩
  have lines : Text.lines "p\x7bt\x7d = 1" = ["p\x7bt\x7d = 1"] := rfl
  rw [parseBlock, lines, defineLines_written [] 1 (by decide), shape_time_left]
  exact Outcome.run_bind_eq_error.mpr (Or.inl define_time_left)

/-- A form without a pairing. -/
theorem ofOperand_one :
    (Linearization.ofOperand .textbook ⟨2, ⟨2, []⟩, ⟨2, []⟩⟩ "heat" false (.expr (.const (.int 1)))).run.run 0 =
      (.error (.malformed ⟨.notAPairing, some "heat", none⟩), 0) := by
  rfl

theorem forms_of_one_are_named :
    RaisedAt [] 1 ["p\x7bt\x7d = 1"] 0 (.malformed ⟨.reservedTime, none, some "t"⟩) 0 ∧
      ¬Index.TimeFirst (oneOf 'i').left ∧
      ∃ raw, Linearization.Raises ⟨2, ⟨2, []⟩, ⟨2, []⟩⟩ "heat" false (.const (.int 1)) raw ∧ raw.index = none := by
  obtain ⟨blocks, lines, forms⟩ := malformed_forms_are_named [] 0
  refine ⟨blocks _ _ _ parseBlock_time_left.2, fun listed => ?_, ?_⟩
  · exact absurd ((lines _ _ _ define_index_left).1.mpr ⟨listed, _, parse_one⟩) nofun
  · obtain ⟨_, impossible, -⟩ | ⟨form, raw, made, raised, -, same⟩ := forms _ _ _ _ _ _ _ ofOperand_one
    · cases impossible
    · cases made
      exact ⟨raw, raised, same.symm⟩

end Example

end Galerkin
