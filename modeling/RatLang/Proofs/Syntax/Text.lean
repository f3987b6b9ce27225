import RatLang.Proofs.Lexer.Fits
import RatLang.Proofs.Lexer.StringLiteral
import RatLang.Proofs.Parser.Grammar.Single
import RatLang.Proofs.Print.Derives

/-!
# Expressions are shown unambiguously

An expression is shown with its operators in front. What is shown of two expressions is the same
only if the expressions are, up to positions: an operand ends where a space, a parenthesis or the
end comes outside of literals, and how a literal begins says where it ends.
-/

namespace RatLang

/-! ### Where a word ends -/

/-- What may stand behind an operand: nothing, a space or a parenthesis that closes. -/
def Behind (rest : List Char) : Prop := ∀ c ∈ rest.head?, c = ' ' ∨ c = ')'

/-- None of the characters ends an operand. -/
def Solid (w : List Char) : Prop := ∀ c ∈ w, c ≠ ' ' ∧ c ≠ ')'

theorem behind_nil : Behind [] := by simp [Behind]

theorem behind_parenthesis (rest : List Char) : Behind (')' :: rest) := by simp [Behind]

variable {w w' rest rest' : List Char}

/-- A word without spaces and parentheses is as long as it can be. -/
theorem Solid.unique (solid : Solid w) (solid' : Solid w') (behind : Behind rest)
    (behind' : Behind rest') (same : w ++ rest = w' ++ rest') : w = w' ∧ rest = rest' := by
  have whole {v more : List Char} (inside : Solid v) (ends : Behind more) :
      (v ++ more).takeWhile (fun c => c != ' ' && c != ')') = v := by
    apply takeWhile_run
    · intro c mem
      simpa using inside c mem
    · intro c front
      rcases ends c front with rfl | rfl <;> decide
  have eq : w = w' := by rw [← whole solid behind, same, whole solid' behind']
  subst eq
  exact ⟨rfl, List.append_cancel_left same⟩

theorem StringForm.unique (form : StringForm w) (form' : StringForm w')
    (same : w ++ rest = w' ++ rest') : w = w' ∧ rest = rest' := by
  obtain ⟨items, inside, rfl⟩ := form
  obtain ⟨items', inside', rfl⟩ := form'
  have bodies : items ++ '"' :: rest = items' ++ '"' :: rest' := by simpa using same
  have scans := scanString_closed inside rest
  rw [bodies, scanString_closed inside' rest'] at scans
  have length : items'.length = items.length := by simpa using scans
  obtain ⟨rfl, behind⟩ := List.append_inj bodies length.symm
  exact ⟨rfl, (List.cons.inj behind).2⟩

theorem CharForm.unique (form : CharForm w) (form' : CharForm w')
    (same : w ++ rest = w' ++ rest') : w = w' ∧ rest = rest' := by
  cases form with
  | plain escape =>
    cases form' with
    | plain => simpa using same
    | escaped =>
      have second := (List.cons.inj (List.cons.inj same).2).1
      exact absurd second escape
  | escaped =>
    cases form' with
    | plain escape =>
      have second := (List.cons.inj (List.cons.inj same).2).1
      exact absurd second.symm escape
    | escaped => simpa using same

theorem solid_of_nameChars (names : ∀ c ∈ w, isNameChar c) : Solid w := by
  intro c mem
  have name := names c mem
  constructor <;> rintro rfl <;> exact absurd name (by decide)

theorem NameForm.solid (form : NameForm w) : Solid w := by
  obtain ⟨first, more, rfl, start, names⟩ := form
  refine solid_of_nameChars (List.forall_mem_cons.mpr ⟨?_, names⟩)
  exact isNameChar_iff.mpr (.inl start)

theorem solid_of_digits (digits : ∀ c ∈ w, c.isDigit) : Solid w :=
  solid_of_nameChars fun c mem => isNameChar_iff.mpr (.inr (digits c mem))

/-- Behind its digits a number holds letters, digits and points. -/
theorem NumberForm.solid (form : NumberForm w) : Solid w := by
  obtain ⟨digits, tail, rfl, -, inside, tails⟩ := form
  refine List.forall_mem_append.mpr ⟨solid_of_digits inside, ?_⟩
  rcases tails with float | integer
  · obtain ⟨point, fraction, mark, rfl, isPoint, inside', isMark⟩ := float
    have points : ∀ point ∈ [[], ['.']], Solid point := by simp [Solid]
    have marks : ∀ mark ∈ [[], ['f'], ['d']], Solid mark := by simp [Solid]
    refine List.forall_mem_append.mpr ⟨List.forall_mem_append.mpr ⟨?_, ?_⟩, ?_⟩
    · exact points point isPoint
    · exact solid_of_digits inside'
    · exact marks mark isMark
  · obtain ⟨unsigned, width, rfl, isUnsigned, isWidth⟩ := integer
    have marks : ∀ unsigned ∈ [[], ['u']], Solid unsigned := by simp [Solid]
    have widths : ∀ width ∈ [[], ['i'], ['c'], ['l'], ['s']], Solid width := by simp [Solid]
    exact List.forall_mem_append.mpr ⟨marks unsigned isUnsigned, widths width isWidth⟩

theorem solid_of_operator {lexeme : String} (mem : lexeme ∈ operators) : Solid lexeme.toList := by
  have checked : operators.all fun operator =>
      operator.toList.all fun c => c != ' ' && c != ')' := by decide
  have inside := List.all_eq_true.mp (List.all_eq_true.mp checked lexeme mem)
  intro c front
  simpa using inside c front

/-! ### How an operand begins -/

/-- What an operand can be. -/
inductive Opening where
  | group | number | string | char | word

namespace Opening

/-- What an operand is that begins with the character. -/
def of (c : Char) : Opening :=
  if c = '(' then .group
  else if c = '"' then .string
  else if c = '\'' then .char
  else if c.isDigit then .number
  else .word

theorem of_plain {c : Char} (plain : c ∉ ['(', '"', '\'']) :
    of c = if c.isDigit then number else word := by
  simp only [List.mem_cons, List.not_mem_nil, or_false, not_or] at plain
  rw [of, if_neg plain.1, if_neg plain.2.1, if_neg plain.2.2]

/-- What the text of such an operand looks like. -/
def Spelled : Opening → List Char → Prop
  | group, w => ∃ inner, w = '(' :: inner
  | number, w => NumberForm w
  | string, w => StringForm w
  | char, w => CharForm w
  | word, w => NameForm w

variable {opening : Opening}

theorem Spelled.first (spelled : opening.Spelled w) : ∃ c l, w = c :: l ∧ of c = opening := by
  cases opening with
  | group =>
    obtain ⟨inner, rfl⟩ := spelled
    exact ⟨'(', inner, rfl, rfl⟩
  | number =>
    obtain ⟨digits, tail, rfl, left, inside, -⟩ := spelled
    obtain ⟨c, more, rfl⟩ := List.exists_cons_of_ne_nil left
    have digit : c.isDigit := inside c List.mem_cons_self
    have plain : c ∉ ['(', '"', '\''] := by
      intro mem
      have checked : ∀ d ∈ ['(', '"', '\''], ¬d.isDigit := by simp
      exact checked c mem digit
    exact ⟨c, more ++ tail, rfl, by rw [of_plain plain, if_pos digit]⟩
  | string =>
    obtain ⟨items, -, rfl⟩ := spelled
    exact ⟨'"', _, rfl, rfl⟩
  | char =>
    cases spelled with
    | plain | escaped => exact ⟨'\'', _, rfl, rfl⟩
  | word =>
    obtain ⟨c, more, rfl, start, -⟩ := spelled
    have digit : ¬c.isDigit := fun digit => Lexer.not_isNameStart_of_isDigit digit start
    have plain : c ∉ ['(', '"', '\''] := by
      intro mem
      have checked : ∀ d ∈ ['(', '"', '\''], ¬isNameStart d := by simp [isNameStart]
      exact checked c mem start
    exact ⟨c, more, rfl, by rw [of_plain plain, if_neg digit]⟩

/-- Where an operand without parentheses ends is known from how it begins. -/
theorem Spelled.unique (plain : opening ≠ .group) (spelled : opening.Spelled w)
    (spelled' : opening.Spelled w') (behind : Behind rest) (behind' : Behind rest')
    (same : w ++ rest = w' ++ rest') : w = w' ∧ rest = rest' := by
  cases opening with
  | group => exact absurd rfl plain
  | number => exact Solid.unique spelled.solid spelled'.solid behind behind' same
  | string => exact StringForm.unique spelled spelled' same
  | char => exact CharForm.unique spelled spelled' same
  | word => exact Solid.unique spelled.solid spelled'.solid behind behind' same

end Opening

/-! ### Leaves and groups -/

namespace Expr

/-- What the text of an expression is, whose first character says so. -/
def opening : Expr → Opening
  | binary .. | unary .. | call .. => .group
  | numeric .. => .number
  | string .. => .string
  | char .. => .char
  | null _ | identifier _ => .word

/-- The operator or the name behind the parenthesis of an expression, and the operands. -/
def group? : Expr → Option (String × List Expr)
  | binary op lhs rhs _ => some (op.text, [lhs, rhs])
  | unary op operand _ => some (op.text, [operand])
  | call name args _ => some (name, args)
  | numeric .. | string .. | char .. | null _ | identifier _ => none

/-- The operation that a head stands for. A function may have a name that the table spells, such as
`match`, and is no operator. -/
def operator? (head : String) : Option Symbol :=
  if isOperator head then Symbol.ofLexeme? head else none

/-- The expression of a group. -/
def ofGroup (head : String) (operands : List Expr) : Expr :=
  match operator? head, operands with
  | some op, [lhs, rhs] => binary op lhs rhs .start
  | some op, [operand] => unary op operand .start
  | _, _ => call head operands .start

/-- The expression of a text that is no group. -/
def ofLeaf (opening : Opening) (lexeme : String) : Option Expr :=
  match opening with
  | .group => none
  | .number => some (numeric (numericType lexeme) lexeme .start)
  | .string => some (string lexeme .start)
  | .char => some (char lexeme .start)
  | .word => some (if lexeme = "null" then null .start else identifier ⟨lexeme, .start⟩)

variable {e e' : Expr} {head : String} {operands : List Expr}

theorem spelled (wf : e.WellFormed) : e.opening.Spelled e.text.toList := by
  cases e with
  | binary | unary | call => exact ⟨_, by simp [text]; rfl⟩
  | numeric => exact fits_of_isLiteral wf.2
  | string | char => exact fits_of_isLiteral wf
  | null => exact nameForm_of_isName (by decide : isName "null")
  | identifier => exact nameForm_of_isName wf.1

/-- Two texts that go on alike begin alike. -/
theorem opening_eq (wf : e.WellFormed) (wf' : e'.WellFormed)
    (same : e.text.toList ++ rest = e'.text.toList ++ rest') : e.opening = e'.opening := by
  obtain ⟨c, l, eq, opens⟩ := (spelled wf).first
  obtain ⟨c', l', eq', opens'⟩ := (spelled wf').first
  rw [eq, eq'] at same
  have first : c = c' := (List.cons.inj same).1
  rw [← opens, ← opens', first]

theorem exists_group_iff : (∃ group, e.group? = some group) ↔ e.opening = .group := by
  cases e <;> simp [group?, opening]

theorem ofLeaf_eq (wf : e.WellFormed) (plain : e.opening ≠ .group) :
    ofLeaf e.opening e.text = some e.bare := by
  cases e with
  | binary | unary | call => exact absurd rfl plain
  | numeric => rw [wf.1]; rfl
  | string | char | null => rfl
  | identifier name =>
    have other : name.name ≠ "null" := by
      intro null
      exact wf.2 (null ▸ by decide)
    show some (if name.name = "null" then _ else _) = _
    rw [if_neg other]
    rfl

theorem text_of_group? (parts : e.group? = some (head, operands)) (rest : List Char) :
    e.text.toList ++ rest =
      '(' :: (head.toList ++ ((argsText operands).toList ++ ')' :: rest)) := by
  cases e <;> cases parts <;> simp [text, argsText]

theorem operator?_text {op : Symbol} (mem : op.text ∈ operators)
    (spelled : Symbol.ofLexeme? op.text = some op) : operator? op.text = some op := by
  have operator : isOperator op.text := by simpa [isOperator] using mem
  rw [operator?, if_pos operator, spelled]

theorem operator?_name {name : String} (named : IsName name) : operator? name = none := by
  have other : ¬isOperator name := fun operator => named.2 (by simp [isFixedLexeme, operator])
  rw [operator?, if_neg other]

example : operator? "match" = none ∧ Symbol.ofLexeme? "match" = some .patternMatch := by decide

theorem ofGroup_eq (wf : e.WellFormed) (parts : e.group? = some (head, operands)) :
    ofGroup head (mapArgs Position.forget operands) = e.bare := by
  cases e with
  | binary op lhs rhs p =>
    cases parts
    obtain ⟨⟨level, tier⟩, -, -⟩ := wf
    have found := operator?_text (Precedence.mem_operators_of_mem tier) (spelled_of_mem_lexemes tier)
    simp only [ofGroup, found]
    rfl
  | unary op operand p =>
    cases parts
    obtain ⟨spelled, -, mem⟩ := spelled_of_unary wf.1
    simp only [ofGroup, operator?_text mem spelled]
    rfl
  | call name args p =>
    cases parts
    simp only [ofGroup, operator?_name wf.1]
    rfl
  | _ => cases parts

theorem wellFormed_of_group? (wf : e.WellFormed) (parts : e.group? = some (head, operands)) :
    Solid head.toList ∧ ArgsWellFormed operands := by
  cases e with
  | binary op lhs rhs p =>
    cases parts
    obtain ⟨⟨level, tier⟩, left, right⟩ := wf
    exact ⟨solid_of_operator (Precedence.mem_operators_of_mem tier), left, right, trivial⟩
  | unary op operand p =>
    cases parts
    exact ⟨solid_of_operator (spelled_of_unary wf.1).2.2, wf.2, trivial⟩
  | call name args p =>
    cases parts
    exact ⟨(nameForm_of_isName wf.1.1).solid, wf.2⟩
  | _ => cases parts

/-! ### Expressions -/

/-- A text that begins with what is shown of the expression can begin with nothing else: the
expression and the place where its text ends are settled. -/
def Readable (e : Expr) : Prop :=
  ∀ (e' : Expr) (rest rest' : List Char), e'.WellFormed → Behind rest → Behind rest' →
    e.text.toList ++ rest = e'.text.toList ++ rest' → e.bare = e'.bare ∧ rest = rest'

theorem readable_of_leaf (wf : e.WellFormed) (plain : e.opening ≠ .group) : e.Readable := by
  intro e' rest rest' wf' behind behind' same
  have opens := opening_eq wf wf' same
  have spelled' := spelled wf'
  rw [← opens] at spelled'
  obtain ⟨chars, left⟩ := (spelled wf).unique plain spelled' behind behind' same
  have eq := ofLeaf_eq wf plain
  rw [opens, String.toList_injective chars, ofLeaf_eq wf' (opens ▸ plain)] at eq
  exact ⟨(Option.some.inj eq).symm, left⟩

/-- Behind the arguments stands a parenthesis, and behind a head they or it. -/
theorem behind_args (args : List Expr) (rest : List Char) :
    Behind ((argsText args).toList ++ ')' :: rest) := by
  cases args with
  | nil => simpa [argsText] using behind_parenthesis rest
  | cons arg more => simp [argsText, Behind]

theorem args_unique {args args' : List Expr} (readable : ∀ arg ∈ args, arg.Readable)
    (wf' : ArgsWellFormed args')
    (same : (argsText args).toList ++ ')' :: rest = (argsText args').toList ++ ')' :: rest') :
    mapArgs Position.forget args = mapArgs Position.forget args' ∧ rest = rest' := by
  induction args generalizing args' with
  | nil =>
    cases args' with
    | nil => exact ⟨rfl, by simpa [argsText] using same⟩
    | cons arg' more' => simp [argsText] at same
  | cons arg more ih =>
    cases args' with
    | nil => simp [argsText] at same
    | cons arg' more' =>
      obtain ⟨first, others⟩ := List.forall_mem_cons.mp readable
      have texts : arg.text.toList ++ ((argsText more).toList ++ ')' :: rest) =
          arg'.text.toList ++ ((argsText more').toList ++ ')' :: rest') := by
        simpa [argsText] using same
      obtain ⟨arguments, left⟩ :=
        first arg' _ _ wf'.1 (behind_args more rest) (behind_args more' rest') texts
      obtain ⟨moreArguments, left'⟩ := ih others wf'.2 left
      have heads : arg.mapPositions Position.forget = arg'.mapPositions Position.forget := arguments
      exact ⟨by rw [mapArgs, mapArgs, heads, moreArguments], left'⟩

/-- A group is known from its head and its operands. -/
theorem readable_of_group (wf : e.WellFormed) (parts : e.group? = some (head, operands))
    (readable : ∀ operand ∈ operands, operand.Readable) : e.Readable := by
  intro e' rest rest' wf' behind behind' same
  have opens : e'.opening = .group := by
    rw [← opening_eq wf wf' same]
    exact exists_group_iff.mp ⟨_, parts⟩
  obtain ⟨⟨head', operands'⟩, parts'⟩ := exists_group_iff.mpr opens
  obtain ⟨solid, -⟩ := wellFormed_of_group? wf parts
  obtain ⟨solid', inner'⟩ := wellFormed_of_group? wf' parts'
  rw [text_of_group? parts, text_of_group? parts'] at same
  obtain ⟨heads, left⟩ := solid.unique solid' (behind_args operands rest)
    (behind_args operands' rest') (List.cons.inj same).2
  obtain ⟨bare, left'⟩ := args_unique readable inner' left
  rw [← ofGroup_eq wf parts, ← ofGroup_eq wf' parts', String.toList_injective heads, bare]
  exact ⟨rfl, left'⟩

mutual

/-- Every expression is read back from the front of what is shown. -/
theorem readable : (e : Expr) → e.WellFormed → e.Readable
  | binary op lhs rhs p, wf => by
    refine readable_of_group wf rfl ?_
    rw [List.forall_mem_cons, List.forall_mem_singleton]
    exact ⟨readable lhs wf.2.1, readable rhs wf.2.2⟩
  | unary op operand p, wf => by
    refine readable_of_group wf rfl ?_
    rw [List.forall_mem_singleton]
    exact readable operand wf.2
  | call name args p, wf => readable_of_group wf rfl (readable_args args wf.2)
  | numeric type value p, wf => readable_of_leaf wf Opening.noConfusion
  | string value p, wf => readable_of_leaf wf Opening.noConfusion
  | char value p, wf => readable_of_leaf wf Opening.noConfusion
  | null p, wf => readable_of_leaf wf Opening.noConfusion
  | identifier name, wf => readable_of_leaf wf Opening.noConfusion

theorem readable_args : (args : List Expr) → ArgsWellFormed args → ∀ arg ∈ args, arg.Readable
  | [], _ => List.forall_mem_nil _
  | arg :: more, wf => by
    rw [List.forall_mem_cons]
    exact ⟨readable arg wf.1, readable_args more wf.2⟩

end

/-- What is shown of two expressions is the same only if the expressions are, up to positions. -/
theorem bare_of_text (wf : e.WellFormed) (wf' : e'.WellFormed) (same : e.text = e'.text) :
    e.bare = e'.bare := by
  have alike : e.text.toList ++ [] = e'.text.toList ++ [] := by rw [same]
  exact (readable e wf e' [] [] wf' behind_nil behind_nil alike).1

mutual

/-- Positions are not shown. -/
theorem text_mapPositions (f : Position → Position) :
    (e : Expr) → (e.mapPositions f).text = e.text
  | binary op lhs rhs p => by
    simp only [mapPositions, text, text_mapPositions f lhs, text_mapPositions f rhs]
  | unary op operand p => by simp only [mapPositions, text, text_mapPositions f operand]
  | numeric type value p | string value p | char value p | null p | identifier name => rfl
  | call name args p => by simp only [mapPositions, text, argsText_mapArgs f args]

theorem argsText_mapArgs (f : Position → Position) :
    (args : List Expr) → argsText (mapArgs f args) = argsText args
  | [] => rfl
  | arg :: more => by
    simp only [mapArgs, argsText, text_mapPositions f arg, argsText_mapArgs f more]

end

theorem text_bare (e : Expr) : e.bare.text = e.text := text_mapPositions Position.forget e

end Expr

/-! ### What the parser returns -/

open RatLang.Parser Grammar

/-- The expression is returned for tokens of a text: for all of them as a single expression, or for
those that are left somewhere in them, with some threshold. -/
inductive Parsed (e : Expr) : Prop where
  | whole {text : String} {tokens : List Token} (lexed : tokenize text = .ok tokens)
    (parsed : parseExpression tokens = .ok e)
  | part {text : String} {tokens : List Token} {minimum : Nat} {s s' : ParseState}
    (lexed : tokenize text = .ok tokens) (among : ∀ t ∈ s.queue, t ∈ tokens)
    (parsed : run (expression minimum) s = .ok e s')

theorem single_wellFormed {w : List Token} {e : Expr} (derived : Single w e)
    (lexical : Lexical w) : e.WellFormed := by
  obtain ⟨-, inner, -⟩ := derived
  rw [lexical_append, lexical_append] at lexical
  exact inner.wellFormed lexical.2.1

theorem Parsed.wellFormed {e : Expr} (returned : Parsed e) : e.WellFormed := by
  cases returned with
  | whole lexed parsed =>
    refine single_wellFormed (parseExpression_eq_ok_iff.mp parsed) fun t mem => ?_
    have inside := (mergeTerminators_sublist _).subset mem
    exact lexical_of_mem lexed (List.mem_of_mem_filter inside)
  | part lexed among parsed =>
    obtain ⟨level, w, taken, derived⟩ := expression_of_threshold parsed
    refine derived.wellFormed fun t mem => lexical_of_mem lexed (among t ?_)
    rw [taken]
    exact List.mem_append_left _ mem

/-- What is shown of two expressions that the parser returns is the same exactly if they have the
same operators, operands, names, arguments and literals, with their types, at whatever
positions. -/
theorem text_unambiguous {e e' : Expr} (returned : Parsed e) (returned' : Parsed e') :
    e.text = e'.text ↔ e.bare = e'.bare := by
  constructor
  · exact Expr.bare_of_text returned.wellFormed returned'.wellFormed
  · intro same
    rw [← e.text_bare, same, e'.text_bare]

/-- A call whose arguments hold a parenthesis, a quote and two kinds of minus, alone and as the
first operand of a product. -/
theorem text_unambiguous_call :
    let tokens : List Token :=
      [⟨.identifier, "match", ⟨1, 1⟩⟩, ⟨.punctuator, "(", ⟨1, 6⟩⟩,
        ⟨.stringLiteral, "\"\\\" )\"", ⟨1, 7⟩⟩, ⟨.punctuator, ",", ⟨1, 13⟩⟩,
        ⟨.operator, "-", ⟨1, 15⟩⟩, ⟨.identifier, "x", ⟨1, 16⟩⟩, ⟨.operator, "-", ⟨1, 18⟩⟩,
        ⟨.numericLiteral, "1u", ⟨1, 20⟩⟩, ⟨.punctuator, ")", ⟨1, 22⟩⟩]
    let tokens' : List Token :=
      [⟨.identifier, "match", ⟨1, 1⟩⟩, ⟨.punctuator, "(", ⟨1, 6⟩⟩,
        ⟨.stringLiteral, "\"\\\" )\"", ⟨1, 7⟩⟩, ⟨.punctuator, ",", ⟨1, 13⟩⟩,
        ⟨.punctuator, "(", ⟨1, 14⟩⟩, ⟨.operator, "-", ⟨1, 15⟩⟩, ⟨.identifier, "x", ⟨1, 16⟩⟩,
        ⟨.punctuator, ")", ⟨1, 17⟩⟩, ⟨.operator, "-", ⟨1, 18⟩⟩,
        ⟨.numericLiteral, "1u", ⟨1, 19⟩⟩, ⟨.punctuator, ")", ⟨1, 21⟩⟩,
        ⟨.operator, "*", ⟨1, 22⟩⟩, ⟨.identifier, "y", ⟨1, 23⟩⟩]
    let e : Expr := .call "match" [.string "\"\\\" )\"" ⟨1, 7⟩,
      .binary .arithmeticSub (.unary .arithmeticSub (.identifier ⟨"x", ⟨1, 16⟩⟩) ⟨1, 15⟩)
        (.numeric .typeUint "1u" ⟨1, 20⟩) ⟨1, 18⟩] ⟨1, 1⟩
    let e' : Expr := .call "match" [.string "\"\\\" )\"" ⟨1, 7⟩,
      .binary .arithmeticSub (.unary .arithmeticSub (.identifier ⟨"x", ⟨1, 16⟩⟩) ⟨1, 15⟩)
        (.numeric .typeUint "1u" ⟨1, 19⟩) ⟨1, 18⟩] ⟨1, 1⟩
    tokenize "match(\"\\\" )\", -x - 1u)" = .ok tokens ∧ parseExpression tokens = .ok e ∧
      tokenize "match(\"\\\" )\",(-x)-1u)*y" = .ok tokens' ∧
      run (expression Precedence.unary.power) (.ofTokens tokens') =
        .ok e' ⟨tokens'.drop 11, ⟨1, 21⟩, []⟩ ∧
      e.text = e'.text ∧ e.bare = e'.bare := by
  intro tokens tokens' e e'
  have lexed : tokenize "match(\"\\\" )\", -x - 1u)" = .ok tokens := by decide +kernel
  have parsed : parseExpression tokens = .ok e := by cbv
  have lexed' : tokenize "match(\"\\\" )\",(-x)-1u)*y" = .ok tokens' := by decide +kernel
  have parsed' : run (expression Precedence.unary.power) (.ofTokens tokens') =
      .ok e' ⟨tokens'.drop 11, ⟨1, 21⟩, []⟩ := by cbv
  have among : ∀ t ∈ (ParseState.ofTokens tokens').queue, t ∈ tokens' := by decide +kernel
  have shown : e.text = e'.text := by decide +kernel
  exact ⟨lexed, parsed, lexed', parsed', shown,
    (text_unambiguous (.whole lexed parsed) (.part lexed' among parsed')).mp shown⟩

end RatLang
