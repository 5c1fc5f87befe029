import Mathlib
import Galerkin.Proofs.Reading.Grammar

/-!
Texts that spell some tokens: blanks may stand anywhere between tokens, and have to stand only where the next
character would go on with the token before it.
-/

namespace Galerkin.Reading

/-! ### Numbers -/

/-- No character of a class starts what is behind. -/
def Stops (p : Char → Bool) (after : List Char) : Prop := ∀ c ∈ after.head?, p c = false

variable {after : List Char}

theorem takeWhile_append_of_stops {p : Char → Bool} (stops : Stops p after) (cs : List Char) :
    (cs ++ after).takeWhile p = cs.takeWhile p := by
  induction cs with
  | nil =>
      cases after with
      | nil => rfl
      | cons c after => exact List.takeWhile_cons_of_neg (by simp [stops c rfl])
  | cons c cs ih => simp only [List.cons_append, List.takeWhile_cons, ih]

theorem digitsLength_append (stops : Stops Text.isDigit after) (cs : List Char) :
    digitsLength (cs ++ after) = digitsLength cs :=
  congrArg List.length (takeWhile_append_of_stops stops cs)

theorem digitsLength_le (cs : List Char) : digitsLength cs ≤ cs.length :=
  (List.takeWhile_sublist Text.isDigit).length_le

theorem mantissaLength_append (digits : Stops Text.isDigit after) (point : Stops (· == '.') after)
    (cs : List Char) : mantissaLength (cs ++ after) = mantissaLength cs := by
  unfold mantissaLength
  simp only [digitsLength_append digits, List.drop_append_of_le_length (digitsLength_le cs)]
  cases cs.drop (digitsLength cs) with
  | nil =>
      cases after with
      | nil => rfl
      | cons c after =>
          have other : c ≠ '.' := by simpa using point c rfl
          simp [other]
  | cons c more =>
      by_cases here : c = '.'
      · simp [here, digitsLength_append digits]
      · simp [here]

theorem exponentLength_of_stops {cs : List Char} (marks : Stops isExponentMark cs) : exponentLength cs = 0 := by
  cases cs with
  | nil => rfl
  | cons c cs => simp [exponentLength, marks c rfl]

theorem exponentLength_append (digits : Stops Text.isDigit after) {cs : List Char}
    (marks : cs = [] → exponentLength after = 0) (whole : exponentLength cs = cs.length) :
    exponentLength (cs ++ after) = cs.length := by
  cases cs with
  | nil => exact marks rfl
  | cons mark rest =>
      by_cases marked : isExponentMark mark
      · cases rest with
        | nil => simp [exponentLength, marked, digitsLength] at whole
        | cons d ds =>
            have far := digitsLength_append digits (d :: ds)
            rw [← whole]
            by_cases plus : d = '+'
            · simp [exponentLength, marked, plus, digitsLength_append digits]
            by_cases minus : d = '-'
            · simp [exponentLength, marked, minus, digitsLength_append digits]
            · rw [List.cons_append] at far
              simp [exponentLength, marked, plus, minus, far]
      · simp [exponentLength, marked] at whole

/-- A number that has an exponent does not go on with a second one. -/
theorem numberLength_append (digits : Stops Text.isDigit after) (point : Stops (· == '.') after) {cs : List Char}
    (marks : mantissaLength cs = cs.length → exponentLength after = 0) (whole : numberLength cs = cs.length) :
    numberLength (cs ++ after) = cs.length := by
  unfold numberLength at whole ⊢
  simp only [mantissaLength_append digits point cs]
  by_cases none : mantissaLength cs = 0
  · simpa [none] using whole
  · simp only [none, if_false] at whole ⊢
    have inside : mantissaLength cs ≤ cs.length := by omega
    have rest : exponentLength (cs.drop (mantissaLength cs)) = (cs.drop (mantissaLength cs)).length := by
      rw [List.length_drop]
      omega
    have ends : cs.drop (mantissaLength cs) = [] → exponentLength after = 0 := fun none =>
      marks (inside.antisymm (List.drop_eq_nil_iff.mp none))
    rw [List.drop_append_of_le_length inside, exponentLength_append digits ends rest, List.length_drop]
    omega

/-- Without a digit and a point in front there is no number. -/
theorem numberLength_eq_zero {c : Char} (digit : Text.isDigit c = false) (point : c ≠ '.') (rest : List Char) :
    numberLength (c :: rest) = 0 := by
  simp [numberLength, mantissaLength, digitsLength, digit, point]

theorem isDigit_eq_false {c : Char} {rest : List Char} (none : numberLength (c :: rest) = 0) :
    Text.isDigit c = false := by
  by_contra digit
  have found : digitsLength (c :: rest) ≠ 0 := by simp [digitsLength, digit]
  have mantissa : mantissaLength (c :: rest) ≠ 0 := by
    unfold mantissaLength
    simp only
    split
    · simp [found]
    · exact found
  simp [numberLength, mantissa] at none

/-! ### Lexemes -/

/-- What stands behind a token does not go on with it. -/
structure Token.Apart (t : Token) (after : List Char) : Prop where
  number : t.kind = .number → Stops Text.isDigit after ∧ Stops (· == '.') after ∧ Stops isExponentMark after
  name : t.kind = .name → Stops Text.isNamePart after
  star : t.text = "*" → Stops (· == '*') after

/-- The text of a token is one lexeme of its kind. -/
def Token.Whole (t : Token) : Prop :=
  ∃ c rest, t.text.toList = c :: rest ∧ lexemeAt c rest = some (.token t.kind, rest.length)

/-- The first `more + 1` characters are the longest token of a kind. -/
def TokenKind.Lexes (c : Char) (rest : List Char) (more : Nat) : TokenKind → Prop
  | number => numberLength (c :: rest) = more + 1
  | name => numberLength (c :: rest) = 0 ∧ Text.isNameStart c = true ∧
      (rest.takeWhile Text.isNamePart).length = more
  | operator => numberLength (c :: rest) = 0 ∧ Text.isNameStart c = false ∧ c ∈ operators ∧
      (if c == '*' && rest.head? == some '*' then 1 else 0) = more

theorem lexemeAt_eq_token {c : Char} {rest : List Char} {kind : TokenKind} {more : Nat} :
    lexemeAt c rest = some (.token kind, more) ↔ Text.isSpace c = false ∧ kind.Lexes c rest more := by
  unfold lexemeAt
  by_cases blank : Text.isSpace c
  · simp [blank]
  by_cases number : numberLength (c :: rest) = 0
  · cases kind <;> by_cases start : Text.isNameStart c <;> by_cases operator : c ∈ operators <;>
      simp [TokenKind.Lexes, blank, number, start, operator]
  · cases kind <;> simp [TokenKind.Lexes, blank, number]
    omega

theorem isNameStart_ne_point {c : Char} (start : Text.isNameStart c = true) : c ≠ '.' := by
  rintro rfl
  revert start
  decide

theorem class_of_operator {c : Char} (operator : c ∈ operators) :
    Text.isSpace c = false ∧ Text.isDigit c = false ∧ c ≠ '.' ∧ Text.isNameStart c = false := by
  have all : (operators.all fun d => !Text.isSpace d && !Text.isDigit d && d != '.' && !Text.isNameStart d) = true := by
    decide
  simpa [and_assoc] using List.all_eq_true.mp all c operator

theorem Token.Whole.of_operator {t : Token} {c : Char} (kind : t.kind = .operator) (spelled : t.text.toList = [c])
    (operator : c ∈ operators) : t.Whole := by
  obtain ⟨space, digit, point, start⟩ := class_of_operator operator
  refine ⟨c, [], spelled, lexemeAt_eq_token.mpr ⟨space, ?_⟩⟩
  rw [kind]
  exact ⟨numberLength_eq_zero digit point [], start, operator, by simp⟩

theorem lexemeAt_append {t : Token} {c : Char} {rest : List Char} (spelled : t.text.toList = c :: rest)
    (found : lexemeAt c rest = some (.token t.kind, rest.length)) (apart : t.Apart after) :
    lexemeAt c (rest ++ after) = some (.token t.kind, rest.length) := by
  obtain ⟨blank, whole⟩ := lexemeAt_eq_token.mp found
  refine lexemeAt_eq_token.mpr ⟨blank, ?_⟩
  cases kind : t.kind with
  | number =>
      rw [kind] at whole
      obtain ⟨digits, point, marks⟩ := apart.number kind
      exact numberLength_append digits point (fun _ => exponentLength_of_stops marks) whole
  | name =>
      rw [kind] at whole
      obtain ⟨number, start, parts⟩ := whole
      have still := numberLength_eq_zero (isDigit_eq_false number) (isNameStart_ne_point start) (rest ++ after)
      exact ⟨still, start, (congrArg List.length (takeWhile_append_of_stops (apart.name kind) rest)).trans parts⟩
  | operator =>
      rw [kind] at whole
      obtain ⟨number, start, operator, double⟩ := whole
      refine ⟨numberLength_eq_zero (isDigit_eq_false number) (class_of_operator operator).2.2.1 _, start, operator, ?_⟩
      cases rest with
      | cons d rest => exact double
      | nil =>
          refine if_neg fun both => ?_
          obtain ⟨star, again⟩ : c = '*' ∧ after.head? = some '*' := by simpa using both
          have text : t.text = "*" := by rw [← String.ofList_toList (s := t.text), spelled, star]
          exact absurd (apart.star text '*' again) (by decide)

theorem disjoint_ranges {ranges others : List (Nat × Nat)} {c : Char}
    (apart : (ranges.all fun r => others.all fun s => r.2 < s.1 || s.2 < r.1) = true)
    (inside : Text.inRanges ranges c = true) : Text.inRanges others c = false := by
  obtain ⟨r, member, bounds⟩ := List.any_eq_true.mp inside
  refine List.any_eq_false.mpr fun s listed both => ?_
  have disjoint := List.all_eq_true.mp (List.all_eq_true.mp apart r member) s listed
  simp only [Bool.or_eq_true, Bool.and_eq_true, decide_eq_true_eq] at bounds both disjoint
  omega

theorem isNamePart_of_space {c : Char} (space : Text.isSpace c = true) : Text.isNamePart c = false := by
  by_cases ascii : c.toNat < 128
  · have table : ∀ k < 128, Text.isSpace (Char.ofNat k) = true → Text.isNamePart (Char.ofNat k) = false := by
      decide +kernel
    simpa using table c.toNat ascii (by simpa using space)
  · rw [Text.isSpace, if_neg ascii] at space
    have letters : Text.inRanges Text.letterRanges c = false := disjoint_ranges (by decide +kernel) space
    have letterNumbers : Text.inRanges Text.letterNumberRanges c = false := disjoint_ranges (by decide +kernel) space
    have others : Text.inRanges Text.otherNumberRanges c = false := disjoint_ranges (by decide +kernel) space
    have decimals : Text.inRanges Text.decimalRanges c = false := disjoint_ranges (by decide +kernel) space
    simp [Text.isNamePart, Text.isNameStart, Text.isDigit, ascii, letters, letterNumbers, others, decimals]

/-- What ends the token of every kind does so with each. -/
theorem Token.Apart.of_not_part {c : Char} (part : Text.isNamePart c = false) (point : c ≠ '.') {t : Token}
    (star : t.text = "*" → c ≠ '*') (cs : List Char) : t.Apart (c :: cs) := by
  obtain ⟨start, digit⟩ := Bool.or_eq_false_iff.mp part
  have letter : ∀ d : Char, Text.isNameStart d = true → c ≠ d := fun d named same => by simp [same, named] at start
  have mark : isExponentMark c = false := by
    simp [isExponentMark, letter 'e' (by decide), letter 'E' (by decide)]
  refine ⟨fun _ => ⟨?_, ?_, ?_⟩, fun _ => ?_, fun text => ?_⟩ <;> rintro _ ⟨⟩
  · exact digit
  · exact beq_eq_false_iff_ne.mpr point
  · exact mark
  · exact part
  · exact beq_eq_false_iff_ne.mpr (star text)

/-- Behind a blank a new token starts. -/
theorem Token.Apart.of_space {c : Char} (space : Text.isSpace c = true) (t : Token) (cs : List Char) :
    t.Apart (c :: cs) := by
  have other : ∀ d : Char, Text.isSpace d = false → c ≠ d := fun d none same => by simp [same, none] at space
  exact .of_not_part (isNamePart_of_space space) (other '.' (by decide)) (fun _ => other '*' (by decide)) cs

/-- An operator starts a new token, unless it is a second star. -/
theorem Token.Apart.of_operator {c : Char} (operator : c ∈ operators) {t : Token} (star : t.text = "*" → c ≠ '*')
    (cs : List Char) : t.Apart (c :: cs) := by
  obtain ⟨-, digit, point, start⟩ := class_of_operator operator
  exact .of_not_part (Bool.or_eq_false_iff.mpr ⟨start, digit⟩) point star cs

/-- Nothing goes on with an operator but a star with a star. -/
theorem Token.Apart.behind_operator {t : Token} (kind : t.kind = .operator) (other : t.text ≠ "*")
    (after : List Char) : t.Apart after :=
  ⟨by simp [kind], by simp [kind], fun star => absurd star other⟩

theorem Token.Apart.at_end (t : Token) : t.Apart [] :=
  ⟨fun _ => ⟨nofun, nofun, nofun⟩, fun _ => nofun, fun _ => nofun⟩

/-! ### Texts -/

/-- A text, from a column on, that spells some tokens with blanks between them. -/
inductive Spelling : Nat → Tokens → List Char → Prop
  | done (column : Nat) : Spelling column [] []
  | blank {column : Nat} {c : Char} {ts : Tokens} {cs : List Char} (space : Text.isSpace c = true)
      (rest : Spelling (column + 1) ts cs) : Spelling column ts (c :: cs)
  | token (t : Token) {ts : Tokens} (cs : List Char) (whole : t.Whole) (apart : t.Apart cs)
      (rest : Spelling (t.column + t.text.length) ts cs) : Spelling t.column (t :: ts) (t.text.toList ++ cs)

theorem scan_blanks {column : Nat} {c : Char} (space : Text.isSpace c = true) (cs : List Char) :
    scan column (c :: cs) =
      scan (column + 1 + (cs.takeWhile Text.isSpace).length) (cs.drop (cs.takeWhile Text.isSpace).length) := by
  have here : lexemeAt c cs = some (.blank, (cs.takeWhile Text.isSpace).length) := if_pos space
  rw [scan, here]
  exact bind_pure _

theorem scan_blank {column : Nat} {c : Char} (space : Text.isSpace c = true) (cs : List Char) :
    scan column (c :: cs) = scan (column + 1) cs := by
  rw [scan_blanks space]
  cases cs with
  | nil => rfl
  | cons d cs =>
      by_cases again : Text.isSpace d
      · rw [scan_blanks again, List.takeWhile_cons_of_pos again, List.length_cons, List.drop_succ_cons,
          ← Nat.add_assoc, Nat.add_right_comm (column + 1)]
      · rw [List.takeWhile_cons_of_neg again]
        rfl

theorem scan_token {column : Nat} {c : Char} {rest : List Char} {kind : TokenKind} {more : Nat}
    (found : lexemeAt c rest = some (.token kind, more)) :
    scan column (c :: rest) = (scan (column + 1 + more) (rest.drop more)).map
      (⟨kind, String.ofList (c :: rest.take more), column⟩ :: ·) := by
  rw [scan, found]
  exact bind_pure_comp _ _

theorem Spelling.scan_eq {column : Nat} {ts : Tokens} {cs : List Char} (spelling : Spelling column ts cs) :
    scan column cs = .ok ts := by
  induction spelling with
  | done column => rw [scan]; rfl
  | blank space _ ih => rw [scan_blank space, ih]
  | token t cs whole apart _ ih =>
      obtain ⟨c, rest, spelled, found⟩ := whole
      have far := lexemeAt_append spelled found apart
      have size : t.text.length = rest.length + 1 := by rw [← String.length_toList, spelled, List.length_cons]
      have text : String.ofList (c :: rest) = t.text := by rw [← spelled, String.ofList_toList]
      rw [spelled, List.cons_append, scan_token far]
      simp only [List.drop_left, List.take_left, text]
      rw [Nat.add_assoc, Nat.add_comm 1, ← size, ih]
      rfl

/-- A text that spells some tokens is read as these tokens. -/
theorem tokenize_of_spelling {text : String} {ts : Tokens} (spelling : Spelling 0 ts text.toList) :
    tokenize text = .ok ts :=
  spelling.scan_eq

/-! ### Tokens of a text -/

theorem punctuation_head {s : String} (sign : s ∈ punctuation) : ∃ c ∈ operators, s.toList.head? = some c := by
  have all : (punctuation.all fun s => s.toList.head?.any operators.contains) = true := by decide
  obtain ⟨c, first, operator⟩ := (Option.any_eq_true _ _).mp (List.all_eq_true.mp all s sign)
  exact ⟨c, List.contains_iff_mem.mp operator, first⟩

theorem proper_of_lexes {kind : TokenKind} {c : Char} {rest : List Char} {more : Nat} (lexes : kind.Lexes c rest more)
    (cs : List Char) (column : Nat) : Token.Proper ⟨kind, String.ofList (c :: cs), column⟩ := by
  intro other member
  obtain ⟨d, operator, first⟩ := punctuation_head member
  obtain rfl : c = d := by simpa using first
  obtain ⟨-, digit, point, start⟩ := class_of_operator operator
  cases kind with
  | number =>
      have none := numberLength_eq_zero digit point rest
      rw [TokenKind.Lexes, none] at lexes
      omega
  | name => exact absurd lexes.2.1 (by simp [start])
  | operator => exact other rfl

theorem scan_proper {column : Nat} {cs : List Char} {ts : Tokens} (scanned : scan column cs = .ok ts) :
    ∀ t ∈ ts, t.Proper := by
  induction size : cs.length using Nat.strong_induction_on generalizing column cs ts with
  | _ size ih =>
    subst size
    cases cs with
    | nil =>
        rw [scan] at scanned
        cases scanned
        exact List.forall_mem_nil _
    | cons c rest =>
        rw [scan] at scanned
        cases found : lexemeAt c rest with
        | none =>
            rw [found] at scanned
            cases scanned
        | some lexeme =>
            obtain ⟨lexeme, more⟩ := lexeme
            rw [found] at scanned
            obtain ⟨later, scannedLater, same⟩ := Outcome.bind_eq_ok.mp scanned
            have others := ih _ (by rw [List.length_drop, List.length_cons]; omega) scannedLater rfl
            cases lexeme with
            | blank =>
                cases same
                exact others
            | token kind =>
                cases same
                exact List.forall_mem_cons.mpr ⟨proper_of_lexes (lexemeAt_eq_token.mp found).2 _ _, others⟩

theorem tokenize_proper {text : String} {ts : Tokens} (read : tokenize text = .ok ts) : ∀ t ∈ ts, t.Proper :=
  scan_proper read

/-! ### Classes of texts -/

def Digits (cs : List Char) : Prop := ∀ c ∈ cs, Text.isDigit c = true

theorem digits_of_all {cs : List Char} (all : cs.all Text.isDigit = true) : Digits cs := List.all_eq_true.mp all

/-- Digits, with a point before, between or behind them or without one. -/
inductive Mantissa : List Char → Prop
  | whole {ds : List Char} (digits : Digits ds) (some : ds ≠ []) : Mantissa ds
  | point {ds fs : List Char} (digits : Digits ds) (fraction : Digits fs) (some : ds ++ fs ≠ []) : Mantissa (ds ++ '.' :: fs)

/-- A mark, a sign that may be missing, and digits, or no exponent at all. -/
inductive Exponent : List Char → Prop
  | none : Exponent []
  | some {mark : Char} {sign ds : List Char} (marked : isExponentMark mark = true) (signed : sign ∈ [[], ['+'], ['-']])
      (digits : Digits ds) (some : ds ≠ []) : Exponent (mark :: (sign ++ ds))

/-- Is this a number, a name, an operator? -/
def TokenKind.Spells : TokenKind → List Char → Prop
  | number, cs => ∃ m e, Mantissa m ∧ Exponent e ∧ cs = m ++ e
  | name, cs => ∃ c rest, Text.isNameStart c = true ∧ (∀ d ∈ rest, Text.isNamePart d = true) ∧ cs = c :: rest
  | operator, cs => cs = ['*', '*'] ∨ ∃ c ∈ operators, cs = [c]

/-! ### Digits -/

theorem exists_split (p : Char → Bool) (cs : List Char) :
    ∃ ds rest, cs = ds ++ rest ∧ (∀ c ∈ ds, p c = true) ∧ Stops p rest := by
  refine ⟨cs.takeWhile p, cs.dropWhile p, List.takeWhile_append_dropWhile.symm, fun c => List.mem_takeWhile_imp, ?_⟩
  intro c first
  simpa [Option.mem_def.mp first] using List.head?_dropWhile_not p cs

theorem length_takeWhile_append {p : Char → Bool} {ds : List Char} (inside : ∀ c ∈ ds, p c = true) (rest : List Char) :
    ((ds ++ rest).takeWhile p).length = ds.length + (rest.takeWhile p).length := by
  rw [List.takeWhile_append_of_pos inside, List.length_append]

theorem takeWhile_eq_nil {p : Char → Bool} {rest : List Char} (stops : Stops p rest) : rest.takeWhile p = [] := by
  simpa using takeWhile_append_of_stops stops []

theorem digitsLength_split {ds rest : List Char} (digits : Digits ds) (stops : Stops Text.isDigit rest) :
    digitsLength (ds ++ rest) = ds.length := by
  rw [digitsLength, length_takeWhile_append digits, takeWhile_eq_nil stops]
  rfl

theorem le_digitsLength {ds : List Char} (digits : Digits ds) (rest : List Char) :
    ds.length ≤ digitsLength (ds ++ rest) := by
  rw [digitsLength, length_takeWhile_append digits]
  exact Nat.le_add_right ..

theorem isDigit_point : Text.isDigit '.' = false := by decide

theorem exponentMark_apart {c : Char} (marked : isExponentMark c = true) : Text.isDigit c = false ∧ c ≠ '.' := by
  obtain rfl | rfl : c = 'e' ∨ c = 'E' := by simpa [isExponentMark] using marked
  · decide
  · decide

/-! ### Numbers -/

theorem mantissaLength_point {ds : List Char} (digits : Digits ds) (rest : List Char) :
    mantissaLength (ds ++ '.' :: rest) =
      if ds.length = 0 && digitsLength rest = 0 then 0 else ds.length + 1 + digitsLength rest := by
  have whole : digitsLength (ds ++ '.' :: rest) = ds.length :=
    digitsLength_split digits (by rintro _ ⟨⟩; exact isDigit_point)
  simp only [mantissaLength, whole, List.drop_left]

theorem mantissaLength_whole {ds rest : List Char} (digits : Digits ds) (stops : Stops Text.isDigit rest)
    (point : Stops (· == '.') rest) : mantissaLength (ds ++ rest) = ds.length := by
  have whole := digitsLength_split digits stops
  simp only [mantissaLength, whole, List.drop_left]
  cases rest with
  | nil => rfl
  | cons c rest =>
      have other : c ≠ '.' := by simpa using point c rfl
      split
      · next same => exact absurd (List.cons.inj same).1 other
      · rfl

/-- The mantissa that is found, if there is one. -/
theorem mantissa_found {cs : List Char} (found : mantissaLength cs ≠ 0) :
    ∃ m rest, cs = m ++ rest ∧ Mantissa m ∧ m.length = mantissaLength cs ∧ ∀ c ∈ m, Text.isDigit c = true ∨ c = '.' := by
  obtain ⟨ds, rest, rfl, digits, stops⟩ := exists_split Text.isDigit cs
  by_cases point : rest.head? = some '.'
  · obtain ⟨more, rfl⟩ : ∃ more, rest = '.' :: more := List.head?_eq_some_iff.mp point
    obtain ⟨fs, behind, rfl, fraction, ends⟩ := exists_split Text.isDigit more
    rw [mantissaLength_point digits, digitsLength_split fraction ends] at found ⊢
    have some : ds ++ fs ≠ [] := by
      rintro none
      obtain ⟨rfl, rfl⟩ := List.append_eq_nil_iff.mp none
      exact found rfl
    refine ⟨ds ++ '.' :: fs, behind, by simp, .point digits fraction some, ?_, fun c member => ?_⟩
    · rw [if_neg fun zero => found (if_pos zero)]
      simp [Nat.add_assoc, Nat.add_comm 1]
    · rw [List.mem_append, List.mem_cons] at member
      obtain inside | rfl | inside := member
      · exact .inl (digits c inside)
      · exact .inr rfl
      · exact .inl (fraction c inside)
  · have whole := mantissaLength_whole digits stops fun c first => beq_eq_false_iff_ne.mpr fun same => point (same ▸ first)
    rw [whole] at found
    exact ⟨ds, rest, rfl, .whole digits (List.length_pos_iff.mp (Nat.pos_of_ne_zero found)), whole.symm,
      fun c inside => .inl (digits c inside)⟩

theorem digitsLength_le_mantissaLength (cs : List Char) : digitsLength cs ≤ mantissaLength cs := by
  obtain ⟨ds, rest, rfl, digits, stops⟩ := exists_split Text.isDigit cs
  rw [digitsLength_split digits stops]
  by_cases point : rest.head? = some '.'
  · obtain ⟨more, rfl⟩ : ∃ more, rest = '.' :: more := List.head?_eq_some_iff.mp point
    rw [mantissaLength_point digits]
    split
    · next zero =>
        have none : ds.length = 0 := by simp_all
        exact none.le
    · omega
  · exact (mantissaLength_whole digits stops fun c first =>
      beq_eq_false_iff_ne.mpr fun same => point (same ▸ first)).ge

theorem mantissa_longest {m : List Char} (mantissa : Mantissa m) (rest : List Char) :
    0 < m.length ∧ m.length ≤ mantissaLength (m ++ rest) := by
  cases mantissa with
  | whole digits some =>
      exact ⟨List.length_pos_iff.mpr some, (le_digitsLength digits rest).trans (digitsLength_le_mantissaLength _)⟩
  | @point ds fs digits fraction some =>
      have far := le_digitsLength fraction rest
      have some : ds.length + fs.length ≠ 0 := by
        rw [← List.length_append]
        exact fun none => some (List.eq_nil_of_length_eq_zero none)
      rw [List.append_assoc, List.cons_append, mantissaLength_point digits, List.length_append, List.length_cons,
        if_neg (by simp only [Bool.and_eq_true, decide_eq_true_eq]; omega)]
      omega

theorem exponentLength_signed {mark sign : Char} (marked : isExponentMark mark = true) (signed : sign = '+' ∨ sign = '-')
    (cs : List Char) : exponentLength (mark :: sign :: cs) = if digitsLength cs = 0 then 0 else digitsLength cs + 2 := by
  obtain rfl | rfl := signed <;> simp [exponentLength, marked]

theorem exponentLength_unsigned {mark : Char} (marked : isExponentMark mark = true) {cs : List Char}
    (unsigned : Stops (fun c => c == '+' || c == '-') cs) :
    exponentLength (mark :: cs) = if digitsLength cs = 0 then 0 else digitsLength cs + 1 := by
  cases cs with
  | nil => simp [exponentLength, marked]
  | cons c cs =>
      obtain ⟨plus, minus⟩ : c ≠ '+' ∧ c ≠ '-' := by simpa using unsigned c rfl
      simp [exponentLength, marked, plus, minus]

theorem unsigned_digits {ds : List Char} (digits : Digits ds) (some : ds ≠ []) (rest : List Char) :
    Stops (fun c => c == '+' || c == '-') (ds ++ rest) := by
  obtain ⟨c, ds, rfl⟩ := List.exists_cons_of_ne_nil some
  rintro _ ⟨⟩
  have digit := digits c List.mem_cons_self
  have plus : c ≠ '+' := by rintro rfl; revert digit; decide
  have minus : c ≠ '-' := by rintro rfl; revert digit; decide
  simp [plus, minus]

/-- The exponent that is found; its mark and sign belong to it only if digits stand behind them. -/
theorem exponent_found (cs : List Char) :
    ∃ e rest, cs = e ++ rest ∧ Exponent e ∧ e.length = exponentLength cs := by
  cases cs with
  | nil => exact ⟨[], [], rfl, .none, rfl⟩
  | cons mark cs =>
      by_cases marked : isExponentMark mark = true
      swap
      · exact ⟨[], _, rfl, .none, by simp [exponentLength, marked]⟩
      by_cases signed : ∃ sign more, (sign = '+' ∨ sign = '-') ∧ cs = sign :: more
      · obtain ⟨sign, more, either, rfl⟩ := signed
        obtain ⟨ds, rest, rfl, digits, stops⟩ := exists_split Text.isDigit more
        have length := exponentLength_signed marked either (ds ++ rest)
        rw [digitsLength_split digits stops] at length
        by_cases none : ds = []
        · exact ⟨[], _, rfl, .none, by rw [length, none]; rfl⟩
        · have listed : [sign] ∈ [[], ['+'], ['-']] := by obtain rfl | rfl := either <;> decide
          refine ⟨_, rest, ?_, .some marked listed digits none, ?_⟩
          · simp
          · rw [length, if_neg (by simpa using none)]
            simp
      · have unsigned : Stops (fun c => c == '+' || c == '-') cs := by
          intro c first
          obtain ⟨more, rfl⟩ := List.head?_eq_some_iff.mp (Option.mem_def.mp first)
          by_contra other
          rw [Bool.not_eq_false, Bool.or_eq_true, beq_iff_eq, beq_iff_eq] at other
          exact signed ⟨c, more, other, rfl⟩
        obtain ⟨ds, rest, rfl, digits, stops⟩ := exists_split Text.isDigit cs
        have length := exponentLength_unsigned marked unsigned
        rw [digitsLength_split digits stops] at length
        by_cases none : ds = []
        · exact ⟨[], _, rfl, .none, by rw [length, none]; rfl⟩
        · refine ⟨_, rest, ?_, .some marked List.mem_cons_self digits none, ?_⟩
          · simp
          · rw [length, if_neg (by simpa using none)]
            rfl

theorem exponent_longest {e : List Char} (exponent : Exponent e) (rest : List Char) :
    e.length ≤ exponentLength (e ++ rest) := by
  cases exponent with
  | none => exact Nat.zero_le _
  | @some mark sign ds marked signed digits some =>
      have far := le_digitsLength digits rest
      have positive : 0 < ds.length := List.length_pos_iff.mpr some
      have found : digitsLength (ds ++ rest) ≠ 0 := by omega
      simp only [List.mem_cons, List.not_mem_nil, or_false] at signed
      rw [List.cons_append, List.append_assoc, List.length_cons, List.length_append]
      obtain rfl | rfl | rfl := signed
      · have length := exponentLength_unsigned marked (unsigned_digits digits some rest)
        rw [List.nil_append, length, if_neg found, List.length_nil]
        omega
      · have length := exponentLength_signed marked (.inl rfl) (ds ++ rest)
        rw [List.singleton_append, length, if_neg found, List.length_singleton]
        omega
      · have length := exponentLength_signed marked (.inr rfl) (ds ++ rest)
        rw [List.singleton_append, length, if_neg found, List.length_singleton]
        omega

theorem number_found {cs : List Char} (found : numberLength cs ≠ 0) :
    ∃ p rest, cs = p ++ rest ∧ TokenKind.number.Spells p ∧ p.length = numberLength cs := by
  have some : mantissaLength cs ≠ 0 := by
    rintro none
    exact found (if_pos none)
  obtain ⟨m, rest, rfl, mantissa, length, -⟩ := mantissa_found some
  obtain ⟨e, rest, rfl, exponent, more⟩ := exponent_found rest
  refine ⟨m ++ e, rest, (List.append_assoc ..).symm, ⟨m, e, mantissa, exponent, rfl⟩, ?_⟩
  rw [numberLength, if_neg some, ← length, List.drop_left, List.length_append, more]

theorem number_longest {p : List Char} (spells : TokenKind.number.Spells p) (rest : List Char) :
    p.length ≤ numberLength (p ++ rest) := by
  obtain ⟨m, e, mantissa, exponent, rfl⟩ := spells
  obtain ⟨positive, least⟩ := mantissa_longest mantissa (e ++ rest)
  have some : mantissaLength (m ++ (e ++ rest)) ≠ 0 := by omega
  rw [List.append_assoc, numberLength, if_neg some, List.length_append]
  obtain same | more := least.eq_or_lt
  · rw [← same, List.drop_left]
    exact Nat.add_le_add_left (exponent_longest exponent rest) _
  -- A longer mantissa would have the mark of the exponent among its digits.
  · cases exponent with
    | none => simpa using least.trans (Nat.le_add_right ..)
    | @some mark _ _ marked =>
        obtain ⟨m', rest', split, -, length, inside⟩ := mantissa_found some
        have here : m'[m.length]? = Option.some mark := by
          have place := congrArg (·[m.length]?) split
          simpa [List.getElem?_append_left (length ▸ more)] using place.symm
        obtain ⟨digit, point⟩ := exponentMark_apart marked
        obtain isDigit | isPoint := inside mark (List.mem_of_getElem? here)
        · exact absurd isDigit (by simp [digit])
        · exact absurd isPoint point

/-! ### Lexemes -/

theorem isDigit_of_nameStart {c : Char} (start : Text.isNameStart c = true) : Text.isDigit c = false := by
  by_cases ascii : c.toNat < 128
  · have table : ∀ k < 128, Text.isNameStart (Char.ofNat k) = true → Text.isDigit (Char.ofNat k) = false := by
      decide +kernel
    simpa using table c.toNat ascii (by simpa using start)
  · rw [Text.isNameStart, if_neg ascii, Bool.or_eq_true, Bool.or_eq_true] at start
    rw [Text.isDigit, if_neg ascii]
    obtain (letter | number) | other := start
    · exact disjoint_ranges (by decide +kernel) letter
    · exact disjoint_ranges (by decide +kernel) number
    · exact disjoint_ranges (by decide +kernel) other

theorem isSpace_of_part {c : Char} (part : Text.isNamePart c = true) : Text.isSpace c = false := by
  by_contra space
  rw [isNamePart_of_space (by simpa using space)] at part
  cases part

/-- What is found at a place is a text of its kind. -/
theorem lexeme_found {c : Char} {rest : List Char} {kind : TokenKind} {more : Nat}
    (found : lexemeAt c rest = some (.token kind, more)) :
    ∃ p after, c :: rest = p ++ after ∧ kind.Spells p ∧ p.length = more + 1 := by
  obtain ⟨-, lexes⟩ := lexemeAt_eq_token.mp found
  cases kind with
  | number =>
      have length : numberLength (c :: rest) = more + 1 := lexes
      have some : numberLength (c :: rest) ≠ 0 := by omega
      obtain ⟨p, after, split, spells, same⟩ := number_found some
      exact ⟨p, after, split, spells, same.trans length⟩
  | name =>
      obtain ⟨-, start, rfl⟩ := lexes
      refine ⟨c :: rest.takeWhile Text.isNamePart, rest.dropWhile Text.isNamePart, ?_, ?_, rfl⟩
      · rw [List.cons_append, List.takeWhile_append_dropWhile]
      · exact ⟨c, _, start, fun d => List.mem_takeWhile_imp, rfl⟩
  | operator =>
      obtain ⟨-, -, operator, rfl⟩ := lexes
      split
      · next double =>
          obtain ⟨rfl, again⟩ : c = '*' ∧ rest.head? = some '*' := by simpa using double
          obtain ⟨after, rfl⟩ := List.head?_eq_some_iff.mp again
          exact ⟨['*', '*'], after, rfl, .inl rfl, rfl⟩
      · exact ⟨[c], rest, rfl, .inr ⟨c, operator, rfl⟩, rfl⟩

/-- A text of some kind that starts at a place is no longer than what is found there, which is of this kind, too. -/
theorem lexeme_longest {c : Char} {rest p after : List Char} {kind : TokenKind} (spells : kind.Spells p)
    (split : c :: rest = p ++ after) : ∃ more, lexemeAt c rest = some (.token kind, more) ∧ p.length ≤ more + 1 := by
  cases kind with
  | number =>
      have longest := number_longest spells after
      obtain ⟨m, e, mantissa, -, same⟩ := spells
      obtain ⟨positive, -⟩ := mantissa_longest mantissa []
      have some : numberLength (c :: rest) ≠ 0 := by
        have part : m.length ≤ p.length := by rw [same, List.length_append]; exact Nat.le_add_right ..
        rw [split]
        omega
      have space : Text.isSpace c = false := by
        by_cases digit : Text.isDigit c = true
        · exact isSpace_of_part (Bool.or_eq_true_iff.mpr (.inr digit))
        by_cases point : c = '.'
        · rw [point]
          decide
        · exact absurd (numberLength_eq_zero (by simpa using digit) point rest) some
      rw [← split] at longest
      have size : numberLength (c :: rest) = numberLength (c :: rest) - 1 + 1 := by omega
      exact ⟨numberLength (c :: rest) - 1, lexemeAt_eq_token.mpr ⟨space, size⟩, by omega⟩
  | name =>
      obtain ⟨d, parts, start, inside, rfl⟩ := spells
      obtain ⟨rfl, rfl⟩ : c = d ∧ rest = parts ++ after := List.cons.inj split
      have number := numberLength_eq_zero (isDigit_of_nameStart start) (isNameStart_ne_point start) (parts ++ after)
      have space : Text.isSpace c = false := isSpace_of_part (Bool.or_eq_true_iff.mpr (.inl start))
      refine ⟨_, lexemeAt_eq_token.mpr ⟨space, number, start, rfl⟩, ?_⟩
      rw [length_takeWhile_append inside, List.length_cons]
      omega
  | operator =>
      have first : c ∈ operators := by
        obtain rfl | ⟨d, operator, rfl⟩ := spells
        · obtain ⟨rfl, -⟩ := List.cons.inj split
          decide
        · obtain ⟨rfl, -⟩ := List.cons.inj split
          exact operator
      obtain ⟨space, digit, point, start⟩ := class_of_operator first
      refine ⟨_, lexemeAt_eq_token.mpr ⟨space, numberLength_eq_zero digit point rest, start, first, rfl⟩, ?_⟩
      obtain rfl | ⟨d, operator, rfl⟩ := spells
      · obtain ⟨rfl, rfl⟩ := List.cons.inj split
        exact le_rfl
      · exact Nat.le_add_left ..

end Galerkin.Reading
