import Mathlib
import Galerkin.Proofs.Reading.Spacing

/-!
Reading a text into tokens loses nothing but blanks. From left to right every token is the longest that starts at its
column, up to the end or to the first column where nothing starts. Words that are written one behind the other are read
again as they are, if blanks stand between those of them that would run together.
-/

namespace Galerkin.Reading

/-! ### Divided texts -/

namespace Token

/-- The column behind a token. -/
def finish (t : Token) : Nat := t.column + t.text.length

/-- Does a token stand where it says, and no other or longer one? -/
structure Longest (t : Token) (cs : List Char) : Prop where
  nonempty : t.text ≠ ""
  here : t.text.toList <+: cs.drop t.column
  spelled : t.kind.Spells t.text.toList
  longest : ∀ (kind : TokenKind) (p : List Char), kind.Spells p → p <+: cs.drop t.column → kind = t.kind ∧ p.length ≤ t.text.length

end Token

/-- Characters between two columns that are some tokens, in order, and blanks. -/
structure Divided (cs : List Char) (start stop : Nat) (ts : List Token) : Prop where
  bounds : start ≤ stop
  longest : ∀ t ∈ ts, t.Longest cs
  within : ∀ t ∈ ts, start ≤ t.column ∧ t.finish ≤ stop
  ordered : ts.Pairwise fun t u => t.finish ≤ u.column
  blank : ∀ k c, start ≤ k → k < stop → cs[k]? = some c →
    Text.isSpace c = true ∨ ∃ t ∈ ts, t.column ≤ k ∧ k < t.finish

/-- Does a blank or a token start at a column? -/
def Starts (cs : List Char) (k : Nat) : Prop :=
  (∃ c, cs[k]? = some c ∧ Text.isSpace c = true) ∨ ∃ (kind : TokenKind) (p : List Char), kind.Spells p ∧ p <+: cs.drop k

/-- A column that is reached from the left, where nothing starts. -/
structure Stuck (cs : List Char) (start k : Nat) (c : Char) : Prop where
  reached : ∃ ts, Divided cs start k ts
  here : cs[k]? = some c
  nothing : ¬Starts cs k

section Divided

variable {cs : List Char} {start k stop : Nat} {ts : List Token}

theorem Divided.nil (cs : List Char) (k : Nat) : Divided cs k k [] :=
  ⟨le_rfl, nofun, nofun, .nil, fun _ _ low high _ => absurd high (Nat.not_lt.mpr low)⟩

theorem Divided.behind_blank {c : Char} (here : cs[start]? = some c) (space : Text.isSpace c = true)
    (rest : Divided cs (start + 1) stop ts) : Divided cs start stop ts where
  bounds := Nat.le_of_succ_le rest.bounds
  longest := rest.longest
  within t member := (rest.within t member).imp_left Nat.le_of_succ_le
  ordered := rest.ordered
  blank k d low high there := by
    obtain rfl | later := low.eq_or_lt
    · cases here.symm.trans there
      exact .inl space
    · exact rest.blank k d later high there

theorem Divided.cons {t : Token} (longest : t.Longest cs) (rest : Divided cs t.finish stop ts) :
    Divided cs t.column stop (t :: ts) where
  bounds := (Nat.le_add_right ..).trans rest.bounds
  longest := List.forall_mem_cons.mpr ⟨longest, rest.longest⟩
  within := List.forall_mem_cons.mpr ⟨⟨le_rfl, rest.bounds⟩, fun u member =>
    (rest.within u member).imp_left (Nat.le_add_right ..).trans⟩
  ordered := .cons (fun u member => (rest.within u member).1) rest.ordered
  blank k d low high there := by
    by_cases own : k < t.finish
    · exact .inr ⟨t, List.mem_cons_self, low, own⟩
    · obtain space | ⟨u, member, covers⟩ := rest.blank k d (not_lt.mp own) high there
      · exact .inl space
      · exact .inr ⟨u, List.mem_cons_of_mem t member, covers⟩

/-- The columns of the tokens grow, and the end of the text is behind them. -/
theorem Divided.increasing {text : String} (divided : Divided text.toList 0 text.length ts) :
    (ts.map Token.entry ++ [Entry.finish text]).Pairwise (·.column < ·.column) := by
  have positive {t : Token} (member : t ∈ ts) : t.column < t.finish :=
    Nat.lt_add_of_pos_right (Nat.pos_of_ne_zero fun none =>
      (divided.longest t member).nonempty (String.length_eq_zero_iff.mp none))
  rw [List.pairwise_append]
  refine ⟨List.pairwise_map.mpr ?_, List.pairwise_singleton _ _, fun e member f last => ?_⟩
  · exact divided.ordered.imp_of_mem fun member _ order => (positive member).trans_le order
  · obtain ⟨t, listed, rfl⟩ := List.mem_map.mp member
    rw [List.mem_singleton.mp last]
    exact (positive listed).trans_le (divided.within t listed).2

theorem Token.Longest.head {t : Token} (longest : t.Longest cs) :
    ∃ c, cs[t.column]? = some c ∧ Text.isSpace c = false := by
  cases text : t.text.toList with
  | nil => exact absurd (String.toList_eq_nil_iff.mp text) longest.nonempty
  | cons c rest =>
      obtain ⟨after, split⟩ := longest.here
      have whole : c :: rest = t.text.toList ++ [] := by rw [text, List.append_nil]
      obtain ⟨more, found, -⟩ := lexeme_longest longest.spelled whole
      refine ⟨c, ?_, (lexemeAt_eq_token.mp found).1⟩
      rw [← List.head?_drop, ← split, text]
      rfl

theorem Token.Longest.unique {t u : Token} (longest : t.Longest cs) (longest' : u.Longest cs)
    (same : t.column = u.column) : t = u := by
  obtain ⟨kind, below⟩ := longest'.longest t.kind _ longest.spelled (same ▸ longest.here)
  obtain ⟨-, above⟩ := longest.longest u.kind _ longest'.spelled (same ▸ longest'.here)
  rw [String.length_toList] at below above
  have text : t.text.toList = u.text.toList :=
    List.IsPrefix.eq_of_length (List.prefix_of_prefix_length_le longest.here (same ▸ longest'.here)
      (by rwa [String.length_toList, String.length_toList])) (by
        rw [String.length_toList, String.length_toList]
        exact below.antisymm above)
  cases t
  cases u
  cases same
  cases kind
  cases String.toList_inj.mp text
  rfl

theorem Divided.finish_le {t u : Token} (divided : Divided cs start k ts) (member : t ∈ ts) (member' : u ∈ ts)
    (before : t.column < u.column) : t.finish ≤ u.column := by
  obtain ⟨i, inside, rfl⟩ := List.mem_iff_getElem.mp member
  obtain ⟨j, inside', rfl⟩ := List.mem_iff_getElem.mp member'
  have ordered := List.pairwise_iff_getElem.mp divided.ordered
  obtain first | rfl | second := lt_trichotomy i j
  · exact ordered i j inside inside' first
  · exact absurd before (Nat.lt_irrefl _)
  · have after := (Nat.le_add_right ..).trans (ordered j i inside' inside second)
    exact absurd before (Nat.not_lt.mpr after)

/-- Two divisions of a text have the same tokens as far as both go. -/
theorem Divided.mem_of_mem {stop' : Nat} {ts' : List Token} (divided : Divided cs start stop ts)
    (divided' : Divided cs start stop' ts') {t : Token} (member : t ∈ ts) (inside : t.column < stop') : t ∈ ts' := by
  induction column : t.column using Nat.strong_induction_on generalizing t ts ts' stop stop' with
  | _ column ih =>
    subst column
    obtain ⟨c, here, space⟩ := (divided.longest t member).head
    obtain blank | ⟨u, member', below, above⟩ := divided'.blank _ c (divided.within t member).1 inside here
    · exact absurd blank (by simp [space])
    obtain same | before := below.eq_or_lt
    · exact ((divided'.longest u member').unique (divided.longest t member) same) ▸ member'
    -- A token that reaches over the column would be in the first division, too.
    · have low : u.column < stop :=
        before.trans_le ((Nat.le_add_right ..).trans (divided.within t member).2)
      have known := ih _ before divided' divided member' low rfl
      exact absurd (divided.finish_le known member before) (Nat.not_le.mpr above)

/-- Of the columns that are reached it is the first where nothing starts. -/
theorem Stuck.first {c : Char} {j : Nat} (stuck : Stuck cs start k c) (before : j < k) (reached : Divided cs start j ts) :
    Starts cs j := by
  obtain ⟨ts', divided⟩ := stuck.reached
  have inside : j < cs.length := before.trans (List.getElem?_eq_some_iff.mp stuck.here).1
  obtain space | ⟨t, member, below, above⟩ :=
    divided.blank j cs[j] reached.bounds before (List.getElem?_eq_getElem inside)
  · exact .inl ⟨_, List.getElem?_eq_getElem inside, space⟩
  · obtain rfl | earlier := below.eq_or_lt
    · have longest := divided.longest t member
      exact .inr ⟨t.kind, _, longest.spelled, longest.here⟩
    · have known := divided.mem_of_mem reached member earlier
      exact absurd (reached.within t known).2 (Nat.not_le.mpr above)

end Divided

/-- What is found at a column is the longest token there. -/
theorem longest_of_lexemeAt {cs : List Char} {column : Nat} {c : Char} {rest : List Char} {kind : TokenKind} {more : Nat}
    (split : cs.drop column = c :: rest) (found : lexemeAt c rest = some (.token kind, more)) :
    more ≤ rest.length ∧ Token.Longest ⟨kind, String.ofList (c :: rest.take more), column⟩ cs := by
  obtain ⟨p, after, parts, spells, length⟩ := lexeme_found found
  have text : c :: rest.take more = p := by
    rw [← List.take_succ_cons, parts, ← length, List.take_left]
  have bound : more ≤ rest.length := by
    have sizes := congrArg List.length parts
    rw [List.length_cons, List.length_append] at sizes
    omega
  refine ⟨bound, ?_⟩
  rw [text]
  constructor
  · rw [Ne, ← String.toList_eq_nil_iff, String.toList_ofList, ← text]
    exact List.cons_ne_nil _ _
  · rw [split, parts, String.toList_ofList]
    exact List.prefix_append p after
  · rwa [String.toList_ofList]
  · rintro kind' q spells' ⟨after', parts'⟩
    obtain ⟨more', found', least⟩ := lexeme_longest spells' (split.symm.trans parts'.symm)
    cases found.symm.trans found'
    exact ⟨rfl, by rwa [String.length_ofList, length]⟩

/-- Does reading from a column go on to the end of the text, or to the first column where nothing starts? -/
def Reads (cs : List Char) (column : Nat) : Prop :=
  (∃ ts, scan column (cs.drop column) = .ok ts ∧ Divided cs column cs.length ts) ∨
    ∃ k c, scan column (cs.drop column) = .error (.form (.unexpectedCharacter c k)) ∧ Stuck cs column k c

section Reads

variable {cs rest : List Char} {column more : Nat} {c : Char} {kind : TokenKind}

theorem getElem?_of_drop (split : cs.drop column = c :: rest) : cs[column]? = some c := by
  rw [← List.head?_drop, split]
  rfl

theorem drop_of_drop (split : cs.drop column = c :: rest) (n : Nat) : rest.drop n = cs.drop (column + 1 + n) := by
  rw [Nat.add_assoc, ← List.drop_drop, split, Nat.add_comm 1, List.drop_succ_cons]

theorem isSpace_of_blank (found : lexemeAt c rest = some (.blank, more)) : Text.isSpace c = true := by
  by_contra other
  unfold lexemeAt at found
  rw [if_neg other] at found
  repeat' split at found
  all_goals simp at found

theorem reads_of_nothing (split : cs.drop column = c :: rest) (found : lexemeAt c rest = none) : Reads cs column := by
  have here := getElem?_of_drop split
  refine .inr ⟨column, c, by rw [split, scan, found]; rfl, ⟨[], .nil cs column⟩, here, ?_⟩
  rintro (⟨d, there, space⟩ | ⟨kind, p, spells, after, parts⟩)
  · cases here.symm.trans there
    rw [lexemeAt, if_pos space] at found
    cases found
  · obtain ⟨more, other, -⟩ := lexeme_longest spells (split.symm.trans parts.symm)
    cases found.symm.trans other

theorem Reads.behind_blank (split : cs.drop column = c :: rest) (space : Text.isSpace c = true)
    (later : Reads cs (column + 1)) : Reads cs column := by
  have here := getElem?_of_drop split
  unfold Reads
  rw [split, scan_blank space, show rest = cs.drop (column + 1) from drop_of_drop split 0]
  obtain ⟨ts, scanned, divided⟩ | ⟨k, d, failed, stuck⟩ := later
  · exact .inl ⟨ts, scanned, divided.behind_blank here space⟩
  · obtain ⟨ts, divided⟩ := stuck.reached
    exact .inr ⟨k, d, failed, { stuck with reached := ⟨ts, divided.behind_blank here space⟩ }⟩

theorem Reads.behind_token (split : cs.drop column = c :: rest) (found : lexemeAt c rest = some (.token kind, more))
    (later : Reads cs (column + 1 + more)) : Reads cs column := by
  obtain ⟨bound, longest⟩ := longest_of_lexemeAt split found
  let t : Token := ⟨kind, String.ofList (c :: rest.take more), column⟩
  have behind : t.finish = column + 1 + more := by
    simp only [Token.finish, t, String.length_ofList, List.length_cons, List.length_take, min_eq_left bound]
    omega
  unfold Reads at later ⊢
  rw [split, scan_token found, drop_of_drop split]
  rw [← behind] at later ⊢
  obtain ⟨ts, scanned, divided⟩ | ⟨k, d, failed, stuck⟩ := later
  · exact .inl ⟨t :: ts, by rw [scanned]; rfl, .cons longest divided⟩
  · obtain ⟨ts, divided⟩ := stuck.reached
    exact .inr ⟨k, d, by rw [failed]; rfl, { stuck with reached := ⟨t :: ts, .cons longest divided⟩ }⟩

theorem scan_divides (inside : column ≤ cs.length) : Reads cs column := by
  induction left : cs.length - column using Nat.strong_induction_on generalizing column with
  | _ left ih =>
    subst left
    cases split : cs.drop column with
    | nil =>
        obtain rfl : column = cs.length := inside.antisymm (List.drop_eq_nil_iff.mp split)
        exact .inl ⟨[], by rw [split, scan]; rfl, .nil cs _⟩
    | cons c rest =>
        have size : rest.length + 1 = cs.length - column := by
          rw [← List.length_drop, split, List.length_cons]
        cases found : lexemeAt c rest with
        | none => exact reads_of_nothing split found
        | some lexeme =>
            obtain ⟨_ | kind, more⟩ := lexeme
            · have bound : column + 1 ≤ cs.length := by omega
              exact .behind_blank split (isSpace_of_blank found) (ih _ (by omega) bound rfl)
            · have within := (longest_of_lexemeAt split found).1
              have bound : column + 1 + more ≤ cs.length := by omega
              exact .behind_token split found (ih _ (by omega) bound rfl)

end Reads

/-! ### Words -/

/-- A token wherever it stands. -/
structure Word where
  kind : TokenKind
  text : String

def Token.word (t : Token) : Word := ⟨t.kind, t.text⟩

namespace Word

def Valid (w : Word) : Prop := w.kind.Spells w.text.toList

/-- Is this an exponent, or may it become one with what stands behind it? -/
def OpensExponent (cs : List Char) : Prop :=
  ∃ mark rest, cs = mark :: rest ∧ isExponentMark mark = true ∧
    ∀ c ∈ rest.head?, Text.isDigit c = true ∨ c = '+' ∨ c = '-'

/-- May a word follow another one without a blank? -/
structure Joins (w v : Word) : Prop where
  names : ¬(w.kind = .name ∧ v.kind = .name)
  numbers : ¬(w.kind = .number ∧ v.kind = .number)
  digit : w.kind = .name → Stops Text.isDigit v.text.toList
  exponent : w.kind = .number → OpensExponent v.text.toList → ∃ c ∈ w.text.toList, isExponentMark c = true
  star : w.text = "*" → Stops (· == '*') v.text.toList

/-- Does a word end before these characters? -/
def Ends (w : Word) (after : List Char) : Prop :=
  ∀ c rest, w.text.toList = c :: rest → lexemeAt c (rest ++ after) = some (.token w.kind, rest.length)

variable {w v : Word} {after : List Char}

theorem Valid.whole (valid : w.Valid) {c : Char} {rest : List Char} (split : w.text.toList = c :: rest) :
    lexemeAt c rest = some (.token w.kind, rest.length) := by
  obtain ⟨more, found, least⟩ := lexeme_longest valid (split.symm.trans (List.append_nil _).symm)
  obtain ⟨p, after, parts, -, length⟩ := lexeme_found found
  have sizes := congrArg List.length parts
  rw [List.length_cons, List.length_append] at sizes
  rw [split, List.length_cons] at least
  rw [found, show more = rest.length by omega]

theorem Valid.exists_cons (valid : w.Valid) : ∃ c rest, w.text.toList = c :: rest := by
  refine List.exists_cons_of_ne_nil fun none => ?_
  rw [Valid, none] at valid
  cases kind : w.kind with
  | number =>
      rw [kind] at valid
      obtain ⟨m, e, mantissa, -, same⟩ := valid
      have positive := (mantissa_longest mantissa []).1
      rw [(List.append_eq_nil_iff.mp same.symm).1] at positive
      exact absurd positive (Nat.lt_irrefl 0)
  | name =>
      rw [kind] at valid
      obtain ⟨_, _, -, -, impossible⟩ := valid
      cases impossible
  | operator =>
      rw [kind] at valid
      obtain impossible | ⟨_, -, impossible⟩ := valid <;> cases impossible

theorem Valid.ends_of_apart (valid : w.Valid) (apart : Token.Apart ⟨w.kind, w.text, 0⟩ after) : w.Ends after :=
  fun _ _ split => lexemeAt_append (t := ⟨w.kind, w.text, 0⟩) split (valid.whole split) apart

/-- Before anything but a digit or a point a number ends, unless it has no exponent and one follows. -/
theorem Valid.ends_of_number (valid : w.Valid) (number : w.kind = .number) (digits : Stops Text.isDigit after)
    (point : Stops (· == '.') after)
    (exponent : exponentLength after ≠ 0 → ∃ c ∈ w.text.toList, isExponentMark c = true) : w.Ends after := by
  intro c rest split
  obtain ⟨space, lexes⟩ := lexemeAt_eq_token.mp (valid.whole split)
  refine lexemeAt_eq_token.mpr ⟨space, ?_⟩
  rw [number] at lexes ⊢
  refine numberLength_append digits point (fun all => ?_) lexes
  by_contra more
  obtain ⟨d, inside, marked⟩ := exponent more
  rw [split] at inside
  have some : mantissaLength (c :: rest) ≠ 0 := by
    rw [all]
    exact Nat.succ_ne_zero _
  obtain ⟨m, behind, parts, -, length, only⟩ := mantissa_found some
  have whole : m = c :: rest := List.IsPrefix.eq_of_length ⟨behind, parts.symm⟩ (length.trans all)
  obtain ⟨digit, apart⟩ := exponentMark_apart marked
  obtain isDigit | isPoint := only d (whole ▸ inside)
  · exact absurd isDigit (by simp [digit])
  · exact absurd isPoint apart

/-- An exponent starts with a mark, and a digit or a sign. -/
theorem opensExponent_of_append {cs more : List Char} (some : cs ≠ []) (found : exponentLength (cs ++ more) ≠ 0) :
    OpensExponent cs := by
  obtain ⟨mark, rest, rfl⟩ := List.exists_cons_of_ne_nil some
  have marked : isExponentMark mark = true := by
    by_contra other
    exact found (exponentLength_of_stops fun c first => by cases first; simpa using other)
  refine ⟨mark, rest, rfl, marked, fun c first => ?_⟩
  obtain ⟨behind, rfl⟩ := List.head?_eq_some_iff.mp (Option.mem_def.mp first)
  by_contra other
  obtain ⟨digit, plus, minus⟩ : Text.isDigit c = false ∧ c ≠ '+' ∧ c ≠ '-' := by simpa using other
  have unsigned : Stops (fun c => c == '+' || c == '-') (c :: (behind ++ more)) := by
    rintro _ ⟨⟩
    simp [plus, minus]
  refine found ?_
  rw [List.cons_append, List.cons_append, exponentLength_unsigned marked unsigned,
    if_pos (by simp [digitsLength, digit])]

theorem stops_cons {p : Char → Bool} {c : Char} {rest : List Char} : Stops p (c :: rest) ↔ p c = false := by
  simp [Stops]

/-- What starts a name or an operator does not go on with a number. -/
theorem Valid.stops_number (valid : v.Valid) {c : Char} {rest : List Char} (split : v.text.toList = c :: rest)
    (other : v.kind ≠ .number) : Text.isDigit c = false ∧ c ≠ '.' := by
  obtain ⟨-, lexes⟩ := lexemeAt_eq_token.mp (valid.whole split)
  cases kind : v.kind with
  | number => exact absurd kind other
  | name =>
      rw [kind] at lexes
      exact ⟨isDigit_of_nameStart lexes.2.1, isNameStart_ne_point lexes.2.1⟩
  | operator =>
      rw [kind] at lexes
      exact ⟨isDigit_eq_false lexes.1, (class_of_operator lexes.2.2.1).2.2.1⟩

theorem Valid.not_nameStart (valid : v.Valid) {c : Char} {rest : List Char} (split : v.text.toList = c :: rest)
    (other : v.kind ≠ .name) : Text.isNameStart c = false := by
  by_contra start
  have start : Text.isNameStart c = true := by simpa using start
  have number := numberLength_eq_zero (isDigit_of_nameStart start) (isNameStart_ne_point start) rest
  obtain ⟨-, lexes⟩ := lexemeAt_eq_token.mp (valid.whole split)
  cases kind : v.kind with
  | number =>
      rw [kind, TokenKind.Lexes, number] at lexes
      cases lexes
  | name => exact other kind
  | operator =>
      rw [kind] at lexes
      exact absurd start (by simp [lexes.2.1])

/-- A word that another one may follow ends before it. -/
theorem Joins.ends (joins : w.Joins v) (valid : w.Valid) (valid' : v.Valid) (more : List Char) :
    w.Ends (v.text.toList ++ more) := by
  obtain ⟨c, rest, split⟩ := valid'.exists_cons
  obtain ⟨names, numbers, digit, exponent, star⟩ := joins
  simp only [split, List.cons_append, stops_cons] at digit exponent star ⊢
  cases kind : w.kind with
  | number =>
      obtain ⟨noDigit, noPoint⟩ := valid'.stops_number split fun other => numbers ⟨kind, other⟩
      have noPoint : (c == '.') = false := beq_eq_false_iff_ne.mpr noPoint
      refine valid.ends_of_number kind (stops_cons.mpr noDigit) (stops_cons.mpr noPoint) fun found => exponent kind ?_
      exact opensExponent_of_append (List.cons_ne_nil c rest) found
  | name =>
      have start := valid'.not_nameStart split fun other => names ⟨kind, other⟩
      refine valid.ends_of_apart ⟨fun number => ?_, fun _ => ?_, fun text => stops_cons.mpr (star text)⟩
      · cases kind.symm.trans number
      · exact stops_cons.mpr (Bool.or_eq_false_iff.mpr ⟨start, digit kind⟩)
  | operator =>
      refine valid.ends_of_apart ⟨fun number => ?_, fun name => ?_, fun text => stops_cons.mpr (star text)⟩
      · cases kind.symm.trans number
      · cases kind.symm.trans name

end Word

/-! ### Texts of words -/

/-- Words with a gap before each, and without one only where neighbours do not run together. -/
structure Separated (ps : List (String × Word)) : Prop where
  blank : ∀ p ∈ ps, ∀ c ∈ p.1.toList, Text.isSpace c = true
  valid : ∀ p ∈ ps, p.2.Valid
  apart : ps.IsChain fun p q => q.1 = "" → p.2.Joins q.2

/-- The text of words with their gaps. -/
def spread (ps : List (String × Word)) : String := String.join (ps.map fun p => p.1 ++ p.2.text)

theorem toList_spread_cons (p : String × Word) (ps : List (String × Word)) :
    (spread (p :: ps)).toList = p.1.toList ++ (p.2.text.toList ++ (spread ps).toList) := by
  rw [spread, List.map_cons, String.join_cons, String.toList_append, String.toList_append, List.append_assoc, spread]

theorem scan_gap {gap : List Char} (blank : ∀ c ∈ gap, Text.isSpace c = true) (column : Nat) (cs : List Char) :
    scan column (gap ++ cs) = scan (column + gap.length) cs := by
  induction gap generalizing column with
  | nil => rfl
  | cons c gap ih =>
      rw [List.forall_mem_cons] at blank
      rw [List.cons_append, scan_blank blank.1, ih blank.2, List.length_cons, Nat.add_assoc, Nat.add_comm 1]

/-- The first word ends before the others. -/
theorem Separated.ends {p : String × Word} {ps : List (String × Word)} (separated : Separated (p :: ps)) :
    p.2.Ends (spread ps).toList := by
  have valid := separated.valid p List.mem_cons_self
  cases ps with
  | nil => exact valid.ends_of_apart (.at_end _)
  | cons q ps =>
      have later : q ∈ p :: q :: ps := List.mem_cons_of_mem p List.mem_cons_self
      rw [toList_spread_cons]
      cases gap : q.1.toList with
      | nil =>
          have none : q.1 = "" := String.toList_eq_nil_iff.mp gap
          exact (List.isChain_cons_cons.mp separated.apart |>.1 none).ends valid (separated.valid q later) _
      | cons c rest =>
          have space := separated.blank q later c (gap ▸ List.mem_cons_self)
          exact valid.ends_of_apart (.of_space space _ _)

theorem scan_spread {ps : List (String × Word)} (separated : Separated ps) (column : Nat) :
    ∃ ts, scan column (spread ps).toList = .ok ts ∧ ts.map Token.word = ps.map (·.2) := by
  induction ps generalizing column with
  | nil => exact ⟨[], by rw [spread, List.map_nil, String.join_nil, String.toList_empty, scan]; rfl, rfl⟩
  | cons p ps ih =>
      have ends := separated.ends
      obtain ⟨blank, valid, apart⟩ := separated
      rw [List.forall_mem_cons] at blank valid
      obtain ⟨c, rest, split⟩ := valid.1.exists_cons
      obtain ⟨ts, scanned, words⟩ := ih ⟨blank.2, valid.2, apart.tail⟩ (column + p.1.toList.length + 1 + rest.length)
      rw [toList_spread_cons, scan_gap blank.1, split, List.cons_append, scan_token (ends c rest split), List.drop_left,
        List.take_left, scanned]
      refine ⟨_, rfl, ?_⟩
      rw [List.map_cons, List.map_cons, words, ← split, Token.word, String.ofList_toList]

theorem tokenize_spread {ps : List (String × Word)} (separated : Separated ps) :
    ∃ ts, tokenize (spread ps) = .ok ts ∧ ts.map Token.word = ps.map (·.2) :=
  scan_spread separated 0

theorem spread_intercalate (gap : String) (w : Word) (ws : List Word) :
    spread (("", w) :: ws.map (gap, ·)) = gap.intercalate ((w :: ws).map Word.text) := by
  induction ws generalizing w with
  | nil => simp [spread]
  | cons v ws ih =>
      have next := ih v
      simp only [spread, List.map_cons, String.join_cons, String.empty_append] at next ⊢
      rw [String.intercalate_cons_cons, ← next, String.append_assoc, String.append_assoc]

/-- Words with the same blanks between any two are read again. -/
theorem tokenize_intercalate {gap : String} (blank : ∀ c ∈ gap.toList, Text.isSpace c = true) (some : gap ≠ "")
    {ws : List Word} (valid : ∀ w ∈ ws, w.Valid) :
    ∃ ts, tokenize (gap.intercalate (ws.map Word.text)) = .ok ts ∧ ts.map Token.word = ws := by
  cases ws with
  | nil => exact ⟨[], by rw [List.map_nil, String.intercalate_nil, tokenize, String.toList_empty, scan]; rfl, rfl⟩
  | cons w ws =>
      rw [List.forall_mem_cons] at valid
      have separated : Separated (("", w) :: ws.map (gap, ·)) := by
        refine ⟨List.forall_mem_cons.mpr ⟨List.forall_mem_nil _, List.forall_mem_map.mpr fun _ _ => blank⟩,
          List.forall_mem_cons.mpr ⟨valid.1, List.forall_mem_map.mpr valid.2⟩, List.Pairwise.isChain ?_⟩
        rw [List.pairwise_cons, List.pairwise_map]
        exact ⟨List.forall_mem_map.mpr fun _ _ none => absurd none some,
          List.pairwise_of_forall fun _ _ none => absurd none some⟩
      obtain ⟨ts, read, words⟩ := tokenize_spread separated
      rw [spread_intercalate] at read
      exact ⟨ts, read, by simpa using words⟩

/-- Words that do not run together are read again without blanks. -/
theorem tokenize_join {ws : List Word} (valid : ∀ w ∈ ws, w.Valid) (joins : ws.IsChain Word.Joins) :
    ∃ ts, tokenize (String.join (ws.map Word.text)) = .ok ts ∧ ts.map Token.word = ws := by
  have separated : Separated (ws.map (("", ·))) :=
    ⟨List.forall_mem_map.mpr fun _ _ => List.forall_mem_nil _, List.forall_mem_map.mpr valid,
      (List.isChain_map _).mpr (joins.imp fun _ _ together _ => together)⟩
  obtain ⟨ts, read, words⟩ := tokenize_spread separated
  refine ⟨ts, ?_, by simpa using words⟩
  rw [← read, spread, List.map_map]
  simp only [Function.comp_def, String.empty_append]

theorem listing_eq_ok {text : String} {ts : List Token} (read : tokenize text = .ok ts) :
    listing text = .ok (ts.map Token.entry ++ [.finish text]) := by
  rw [listing, read]
  rfl

/-- Every text is divided into its longest tokens and blanks, up to its end or to the first column where nothing starts;
and words that are kept apart are read from their text again. -/
theorem listing_lossless :
    (∀ text : String,
      (∃ ts : List Token, listing text = .ok (ts.map Token.entry ++ [.finish text]) ∧ Divided text.toList 0 text.length ts ∧
        (ts.map Token.entry ++ [Entry.finish text]).Pairwise fun e f : Entry => e.column < f.column) ∨
      ∃ k c, listing text = .error (.form (.unexpectedCharacter c k)) ∧ Stuck text.toList 0 k c ∧
        ∀ j < k, ∀ ts, Divided text.toList 0 j ts → Starts text.toList j) ∧
    ∀ ps, Separated ps → ∃ ts : List Token, listing (spread ps) = .ok (ts.map Token.entry ++ [.finish (spread ps)]) ∧
      ts.map Token.word = ps.map (·.2) := by
  refine ⟨fun text => ?_, fun ps separated => ?_⟩
  · have read := scan_divides (Nat.zero_le text.toList.length)
    rw [Reads, List.drop_zero, String.length_toList] at read
    obtain ⟨ts, scanned, divided⟩ | ⟨k, c, failed, stuck⟩ := read
    · exact .inl ⟨ts, listing_eq_ok scanned, divided, divided.increasing⟩
    · refine .inr ⟨k, c, ?_, stuck, fun j before ts => stuck.first before⟩
      rw [listing, tokenize, failed]
      rfl
  · obtain ⟨ts, read, words⟩ := tokenize_spread separated
    exact ⟨ts, listing_eq_ok read, words⟩

/-- Where a blank stands in this text there has to be one. -/
theorem listing_lossless_crowded :
    Separated [("", ⟨.operator, "*"⟩), ("", ⟨.number, "2.5e-3"⟩), ("", ⟨.name, "e"⟩), (" ", ⟨.number, "1."⟩),
      ("", ⟨.operator, "**"⟩), ("\n", ⟨.operator, "*"⟩), ("", ⟨.number, "1."⟩), ("", ⟨.name, "ex"⟩)] ∧
    ∃ ts : List Token, listing "*2.5e-3e 1.**\n*1.ex" = .ok (ts.map Token.entry ++ [.finish "*2.5e-3e 1.**\n*1.ex"]) ∧
      ts.map Token.word = [⟨.operator, "*"⟩, ⟨.number, "2.5e-3"⟩, ⟨.name, "e"⟩, ⟨.number, "1."⟩, ⟨.operator, "**"⟩,
        ⟨.operator, "*"⟩, ⟨.number, "1."⟩, ⟨.name, "ex"⟩] := by
  have digit (c : Char) (isDigit : Text.isDigit c = true) : Digits [c] := fun d member => List.mem_singleton.mp member ▸ isDigit
  have half : Mantissa ['2', '.', '5'] := .point (digit '2' (by decide)) (digit '5' (by decide)) (by decide)
  have down : Exponent ['e', '-', '3'] := .some (by decide) (by decide : ['-'] ∈ _) (digit '3' (by decide)) (by decide)
  have point : Mantissa ['1', '.'] := .point (digit '1' (by decide)) nofun (by decide)
  have small : Word.Valid ⟨.number, "2.5e-3"⟩ := ⟨_, _, half, down, rfl⟩
  have one : Word.Valid ⟨.number, "1."⟩ := ⟨_, _, point, .none, rfl⟩
  have e : Word.Valid ⟨.name, "e"⟩ := ⟨'e', [], by decide, nofun, rfl⟩
  have ex : Word.Valid ⟨.name, "ex"⟩ := ⟨'e', ['x'], by decide, fun c member => List.mem_singleton.mp member ▸ by decide, rfl⟩
  have star : Word.Valid ⟨.operator, "*"⟩ := .inr ⟨'*', by decide, rfl⟩
  have power : Word.Valid ⟨.operator, "**"⟩ := .inl rfl
  have behindStar : Word.Joins ⟨.operator, "*"⟩ ⟨.number, "2.5e-3"⟩ ∧ Word.Joins ⟨.operator, "*"⟩ ⟨.number, "1."⟩ :=
    ⟨⟨by decide, by decide, nofun, nofun, fun _ => Word.stops_cons.mpr (by decide)⟩,
      ⟨by decide, by decide, nofun, nofun, fun _ => Word.stops_cons.mpr (by decide)⟩⟩
  have behindExponent : Word.Joins ⟨.number, "2.5e-3"⟩ ⟨.name, "e"⟩ :=
    ⟨by decide, by decide, nofun, fun _ _ => ⟨'e', by decide, by decide⟩, fun other => absurd other (by decide)⟩
  have stars : ¬Word.OpensExponent ['*', '*'] := by
    rintro ⟨_, _, ⟨⟩, marked, -⟩
    exact absurd marked (by decide)
  have letters : ¬Word.OpensExponent ['e', 'x'] := by
    rintro ⟨_, _, ⟨⟩, -, behind⟩
    exact absurd (behind 'x' rfl) (by decide)
  have behindPoint : Word.Joins ⟨.number, "1."⟩ ⟨.operator, "**"⟩ ∧ Word.Joins ⟨.number, "1."⟩ ⟨.name, "ex"⟩ :=
    ⟨⟨by decide, by decide, nofun, fun _ opens => absurd opens stars, fun other => absurd other (by decide)⟩,
      ⟨by decide, by decide, nofun, fun _ opens => absurd opens letters, fun other => absurd other (by decide)⟩⟩
  have separated : Separated [("", ⟨.operator, "*"⟩), ("", ⟨.number, "2.5e-3"⟩), ("", ⟨.name, "e"⟩), (" ", ⟨.number, "1."⟩),
      ("", ⟨.operator, "**"⟩), ("\n", ⟨.operator, "*"⟩), ("", ⟨.number, "1."⟩), ("", ⟨.name, "ex"⟩)] := by
    have gap : Text.isSpace ' ' = true ∧ Text.isSpace '\n' = true := by decide
    refine ⟨by simp [gap], by simp [star, small, e, ex, one, power], ?_⟩
    simp [behindStar, behindExponent, behindPoint]
  exact ⟨separated, listing_lossless.2 _ separated⟩

end Galerkin.Reading
