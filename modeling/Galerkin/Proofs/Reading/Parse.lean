import Mathlib
import Galerkin.Proofs.Reading.Completeness
import Galerkin.Proofs.Reading.Soundness
import Galerkin.Proofs.Reading.Spacing

/-!
A phrase builds an expression whatever number the next dummy gets, if every access of a definition has as many
indices as the definition declares: no dummy is refused its name.

Reading a whole text: the texts that are read are those of the grammar, and what is made of them is what the
builders make of the phrase.
-/

namespace Galerkin

/-! ### Names of dummies -/

namespace Text

theorem inRanges_within {inner outer : List (Nat × Nat)} {c : Char}
    (within : (inner.all fun r => outer.any fun s => s.1 ≤ r.1 && r.2 ≤ s.2) = true)
    (inside : inRanges inner c = true) : inRanges outer c = true := by
  obtain ⟨r, member, bounds⟩ := List.any_eq_true.mp inside
  obtain ⟨s, listed, wider⟩ := List.any_eq_true.mp (List.all_eq_true.mp within r member)
  simp only [Bool.and_eq_true, decide_eq_true_eq] at bounds wider
  refine List.any_eq_true.mpr ⟨s, listed, ?_⟩
  simp only [Bool.and_eq_true, decide_eq_true_eq]
  omega

theorem inRanges_append (before after : List (Nat × Nat)) (c : Char) :
    inRanges (before ++ after) c = (inRanges before c || inRanges after c) :=
  List.any_append

theorem isIdentifierPart_of_start {c : Char} (start : isIdentifierStart c = true) : isIdentifierPart c = true := by
  unfold isIdentifierStart at start
  unfold isIdentifierPart
  split at start
  · rename_i ascii
    rw [if_pos ascii]
    rcases Bool.or_eq_true _ _ ▸ start with letter | line
    · simp [Char.isAlphanum, letter]
    · simp [eq_of_beq line]
  · rename_i other
    rw [if_neg other]
    have extra : inRanges startExtra c = true → inRanges (markRanges ++ continueExtra) c = true :=
      inRanges_within (by decide +kernel)
    have refused : inRanges continueRefused c = true → inRanges startRefused c = true :=
      inRanges_within (by decide +kernel)
    rw [inRanges_append] at extra
    grind

theorem isIdentifierPart_of_digit {c : Char} (digit : c.isDigit = true) : isIdentifierPart c = true := by
  unfold isIdentifierPart
  have bound : c.toNat < 128 := by
    have : c.toNat ≤ 57 := (Char.isDigit_iff_toNat.mp digit).2
    omega
  rw [if_pos bound]
  simp [Char.isAlphanum, digit]

end Text

namespace Index

theorem isIdentifier_freshName {base : String} (identifier : Text.isIdentifier base = true) (n : Nat) :
    Text.isIdentifier (freshName n base) = true := by
  have parts : ∀ c ∈ base.toList, Text.isIdentifierPart c = true := by
    unfold Text.isIdentifier at identifier
    split at identifier
    · cases identifier
    · rename_i c rest spelled
      rw [spelled]
      obtain ⟨first, others⟩ := (Bool.and_eq_true _ _).mp identifier
      exact List.forall_mem_cons.mpr ⟨Text.isIdentifierPart_of_start first, List.all_eq_true.mp others⟩
  have spelled : (freshName n base).toList = '_' :: (base.toList.dropWhile (· == '_') ++ Nat.toDigits 10 n) := by
    simp [freshName, String.toList_append]
  rw [Text.isIdentifier, spelled]
  refine (Bool.and_eq_true _ _).mpr ⟨by decide, List.all_eq_true.mpr fun c member => ?_⟩
  rcases List.mem_append.mp member with kept | digit
  · exact parts c ((List.dropWhile_sublist _).subset kept)
  · exact Text.isIdentifierPart_of_digit (Nat.isDigit_of_mem_toDigits (by decide) (by decide) digit)

theorem ofName_freshName {i : Index} (named : ofName i.name = .ok i) (n : Nat) :
    ofName (freshName n i.name) = .ok ⟨freshName n i.name⟩ := by
  have identifier : Text.isIdentifier i.name = true := by
    by_contra other
    rw [ofName, if_pos (by simpa using other)] at named
    cases named
  have apart : freshName n i.name ≠ timeName := by
    intro same
    have first := congrArg (fun s => s.toList.head?) same
    simp [freshName, timeName] at first
  rw [ofName, isIdentifier_freshName identifier, if_neg (by decide), if_neg (by simpa using apart)]
  rfl

end Index

namespace Definition

theorem freshen_isOk {is : List Index} (known : Reading.Known is) (r : Renaming) (n : Nat) :
    ∃ r' n', (freshen is r).run.run n = (.ok r', n') := by
  induction is generalizing r n with
  | nil => exact ⟨r, n, rfl⟩
  | cons i rest ih =>
      obtain ⟨first, others⟩ := List.forall_mem_cons.mp known
      rw [freshen]
      split
      · exact ih others r n
      · obtain ⟨r', n', done⟩ := ih others (r ++ [(i, ⟨Index.freshName n i.name⟩)]) (n + 1)
        refine ⟨r', n', Outcome.run_bind_eq_ok.mpr ⟨⟨Index.freshName n i.name⟩, n + 1, ?_, done⟩⟩
        have named := Index.ofName_freshName first n
        refine Outcome.run_bind_eq_ok.mpr ⟨n, n + 1, rfl, ?_⟩
        rw [named]
        rfl

theorem access_isOk {d : Definition} {actual : List Index} (known : Reading.Known d.body.indices)
    (fits : actual.length = d.rank) (n : Nat) : ∃ e n', (d.access actual).run.run n = (.ok e, n') := by
  obtain ⟨names, n', drawn⟩ := freshen_isOk known (d.indices.zip actual) n
  refine ⟨d.body.rename names.apply, n', ?_⟩
  rw [access, if_neg (by simp [fits])]
  exact Outcome.run_bind_eq_ok.mpr ⟨names, n', drawn, rfl⟩

end Definition

namespace Reading

/-- The bodies of bound definitions have indices with names that indices may have. -/
def Named (ns : Namespace) : Prop :=
  ∀ name d, ns.find? name = some (.definition d) → Known d.body.indices

/-- Every access of a definition has as many indices as the definition declares. -/
def Phrase.Matching (ns : Namespace) : Phrase → Prop
  | definition name actual => ∀ d, ns.find? name = some (.definition d) → actual.length = d.rank
  | pairing a b | binary _ a b => a.Matching ns ∧ b.Matching ns
  | apply _ x | neg x | pos x => x.Matching ns
  | _ => True

theorem makes_definition {ns : Namespace} {d : Definition} {name : String} {actual : List Index} (named : Named ns)
    (here : ns.find? name = some (.definition d)) (fits : actual.length = d.rank) (n : Nat) :
    ∃ e n', (Phrase.definition name actual).Makes ns n e n' := by
  obtain ⟨e, n', made⟩ := d.access_isOk (named name d here) fits n
  refine ⟨e, n', ?_⟩
  rw [Phrase.Makes, Phrase.tree, here]
  exact made

/-- A phrase whose accesses have matching index counts stands for an expression. -/
theorem Written.makes {ns : Namespace} (named : Named ns) {level : Level} {x : Phrase} {ts : Tokens}
    (written : Written ns level x ts) (matching : x.Matching ns) (n : Nat) : ∃ e n', x.Makes ns n e n' := by
  induction written generalizing n with
  | term _ ih | factor _ ih | unsigned _ ih | base _ ih | paren _ _ _ _ ih | pos _ _ ih => exact ih matching n
  | neg _ _ ih =>
      obtain ⟨e, n', made⟩ := ih matching n
      exact ⟨_, n', made.neg⟩
  | apply _ _ _ _ _ _ ih =>
      obtain ⟨e, n', made⟩ := ih matching n
      exact ⟨_, n', made.apply _⟩
  | add _ _ _ left right | sub _ _ _ left right | mul _ _ _ left right | div _ _ _ left right
  | pow _ _ _ left right =>
      obtain ⟨a, m, first⟩ := left matching.1 n
      obtain ⟨b, n', second⟩ := right matching.2 m
      exact ⟨_, n', first.binary _ second⟩
  | pairing _ _ _ _ _ _ _ _ left right =>
      obtain ⟨a, m, first⟩ := left matching.1 n
      obtain ⟨b, n', second⟩ := right matching.2 m
      exact ⟨_, n', first.pairing second⟩
  | number | delta | normal => exact ⟨_, n, rfl⟩
  | @field f _ _ here =>
      refine ⟨.field f [] [] 0, n, ?_⟩
      rw [Phrase.Makes, Phrase.tree, here]
      rfl
  | @fieldAt f l _ _ _ here =>
      refine ⟨.field f l.comps l.derivs l.timeOrder, n, ?_⟩
      rw [Phrase.Makes, Phrase.tree, here]
      rfl
  | definition _ here | definitionAt _ here => exact makes_definition named here (matching _ here) n
  | @expr e _ _ here =>
      refine ⟨e, n, ?_⟩
      rw [Phrase.Makes, Phrase.tree, bound, here]
      rfl
  | @constant k _ _ here =>
      refine ⟨.const k, n, ?_⟩
      rw [Phrase.Makes, Phrase.tree, bound, here]
      rfl

end Reading

/-! ### Whole texts -/

namespace Reading

variable {ns : Namespace} {text : String} {n n' : Nat} {e : Expr}

theorem parse_of_written {x : Phrase} {ts : Tokens} (read : tokenize text = .ok ts) (written : Written ns .sum x ts) :
    parse ns text = x.tree ns := by
  have reads : Level.sum.Reads ⟨ns, text.length⟩ x ts := written.reads (tokenize_proper read)
  have enough : 8 * (ts ++ []).length + 5 ≤ fuelFor ts := by
    rw [List.append_nil, fuelFor]
    omega
  have whole := reads.expression_eq (Level.ends_nil .sum) enough
  rw [List.append_nil] at whole
  simp [parse, read, whole]

theorem parse_eq_ok :
    (parse ns text).run.run n = (.ok e, n') ↔
      ∃ ts x, tokenize text = .ok ts ∧ Written ns .sum x ts ∧ x.Makes ns n e n' := by
  constructor
  · intro done
    obtain ⟨ts, m, lifted, more⟩ := Outcome.run_bind_eq_ok.mp done
    obtain ⟨read, rfl⟩ := run_lift.mp lifted
    obtain ⟨⟨a, rest⟩, later, found, last⟩ := Outcome.run_bind_eq_ok.mp more
    obtain ⟨x, used, rfl, written, makes⟩ := (sound ⟨ns, text.length⟩ _).expression found
    cases rest with
    | nil =>
        cases last
        rw [List.append_nil] at read
        exact ⟨used, x, read, written, makes⟩
    | cons t rest => cases last
  · rintro ⟨ts, x, read, written, makes⟩
    rw [parse_of_written read written]
    exact makes

section Example

/-- A displacement. -/
def displacement : Field := ⟨"d", 1, false⟩

/-- Gradients of the displacement, multiplied along a dummy. -/
def stretch : Definition :=
  ⟨"e", [⟨"i"⟩, ⟨"j"⟩],
    .prod (.field displacement [⟨"i"⟩] [⟨"k"⟩] 0) (.field displacement [⟨"j"⟩] [⟨"k"⟩] 0)⟩

def stretched : Namespace := [("d", .expr (.bare displacement)), ("e", .definition stretch)]

theorem named_stretched : Named stretched := by
  intro name d here
  obtain ⟨-, rfl⟩ : name = "e" ∧ d = stretch := by simpa [stretched] using mem_of_lookup here
  have indices : stretch.body.indices = [⟨"i"⟩, ⟨"k"⟩, ⟨"j"⟩, ⟨"k"⟩] := rfl
  rw [indices]
  simp only [Known, List.forall_mem_cons]
  exact ⟨rfl, rfl, rfl, rfl, nofun⟩

/-- What the first token is refused for is what the whole is refused for. -/
theorem expression_throw {ctx : Context} {t : Token} (kind : t.kind ≠ .operator) (proper : t.Proper) (fuel : Nat)
    {ts : Tokens} {f : Failure} (failed : atom ctx fuel (t :: ts) = throw f) :
    expression ctx (fuel + 4) (t :: ts) = throw f := by
  have unsigned : ∀ s ∈ (t :: ts).head?, s.text ≠ "-" ∧ s.text ≠ "+" := by
    rintro _ ⟨⟩
    have outside := proper kind
    exact ⟨fun same => outside (same ▸ by decide), fun same => outside (same ▸ by decide)⟩
  rw [expression, term, unary_unsigned unsigned, power, failed]
  rfl

end Example

end Reading

end Galerkin
