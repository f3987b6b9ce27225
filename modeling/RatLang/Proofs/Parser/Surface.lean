import Mathlib
import RatLang.Proofs.Lexer.Emitted
import RatLang.Proofs.Parser.Grammar.Complete
import RatLang.Proofs.Symbol.Table

/-!
# The tree accounts for every token

A tree is written down again as the tokens that its nodes stand for, in the order of the source.
Those are the tokens that were parsed, but for punctuation marks, terminators and comments, and
every position in the tree is that of its token.
-/

namespace RatLang

/-! ### The tokens of a tree -/

/-- A token that a node stands for. -/
structure Mark where
  kind : TokenKind
  lexeme : String
  /-- Where the token stands, if the node says so. -/
  position? : Option Position
  /-- Where the expression statement begins that the token is the first one of. -/
  start? : Option Position
deriving DecidableEq, Repr

namespace Mark

/-- A token whose place the node knows. -/
def placed (kind : TokenKind) (lexeme : String) (position : Position) : Mark :=
  ⟨kind, lexeme, some position, none⟩

/-- A token whose place is not in the tree. -/
def unplaced (kind : TokenKind) (lexeme : String) : Mark := ⟨kind, lexeme, none, none⟩

/-- The token of a parameter. -/
def ofParameter (i : Identifier) : Mark := placed .identifier i.name i.position

/-- The tokens of an expression that begins a statement. -/
def startAt (p : Position) : List Mark → List Mark
  | [] => []
  | m :: ms => { m with start? := some p } :: ms

/-- The tokens of the type that a declaration gives. -/
def ofType : Option Symbol → List Mark
  | none => []
  | some type => [unplaced .type type.text]

/-- The tokens of the type that a function returns. That nothing is returned need not be said. -/
def ofReturn (type : Symbol) : List Mark :=
  if type = .typeVoid then [] else [unplaced .operator "->", unplaced .type type.text]

/-- The tokens that open a branch. -/
def ofBranch (kind : Symbol) (p : Position) : List Mark :=
  if kind = .conditionalElseIf then [placed .keyword "else" p, unplaced .keyword "if"]
  else [placed .keyword kind.text p]

end Mark

open Mark (placed unplaced)

mutual

/-- The tokens of an expression: operators between their operands, names in front of arguments. -/
def Expr.marks : Expr → List Mark
  | .binary op lhs rhs p => lhs.marks ++ placed .operator op.text p :: rhs.marks
  | .unary op operand p => placed .operator op.text p :: operand.marks
  | .numeric _ value p => [placed .numericLiteral value p]
  | .string value p => [placed .stringLiteral value p]
  | .char value p => [placed .charLiteral value p]
  | .null p => [placed .keyword "null" p]
  | .identifier name => [placed .identifier name.name name.position]
  | .call name args p => placed .identifier name p :: Expr.argMarks args

/-- The tokens of arguments. -/
def Expr.argMarks : List Expr → List Mark
  | [] => []
  | arg :: rest => arg.marks ++ Expr.argMarks rest

end

/-- The tokens of an expression that may be missing. -/
def Mark.ofExpr : Option Expr → List Mark
  | none => []
  | some e => e.marks

/-- The tokens of the value that a declaration gives. -/
def Mark.ofValue : Option Expr → List Mark
  | none => []
  | some e => unplaced .operator "=" :: e.marks

mutual

/-- The tokens of a statement. A variable that is declared with a type has no other keyword. -/
def Stmt.marks : Stmt → List Mark
  | .functionDecl kind name p params type body =>
    placed .keyword kind.text p :: unplaced .identifier name ::
      (params.map Mark.ofParameter ++ (Mark.ofReturn type ++ Stmt.sequenceMarks body))
  | .variableDecl kind name p type value =>
    if kind.isType then
      placed .type kind.text p :: unplaced .identifier name :: Mark.ofValue value
    else
      placed .keyword kind.text p :: unplaced .identifier name ::
        (Mark.ofType type ++ Mark.ofValue value)
  | .conditional first rest => first.marks ++ Branch.chainMarks rest
  | .ret kind p value => placed .keyword kind.text p :: Mark.ofExpr value
  | .expression e p => Mark.startAt p e.marks

/-- The tokens of statements. -/
def Stmt.sequenceMarks : List Stmt → List Mark
  | [] => []
  | stmt :: rest => stmt.marks ++ Stmt.sequenceMarks rest

/-- The tokens of a branch. -/
def Branch.marks : Branch → List Mark
  | .mk kind p condition body =>
    Mark.ofBranch kind p ++ (Mark.ofExpr condition ++ Stmt.sequenceMarks body)

/-- The tokens of branches. -/
def Branch.chainMarks : List Branch → List Mark
  | [] => []
  | branch :: rest => branch.marks ++ Branch.chainMarks rest

end

theorem sequenceMarks_append (p q : List Stmt) :
    Stmt.sequenceMarks (p ++ q) = Stmt.sequenceMarks p ++ Stmt.sequenceMarks q := by
  induction p with
  | nil => rfl
  | cons s p ih => rw [List.cons_append, Stmt.sequenceMarks, ih, Stmt.sequenceMarks,
      List.append_assoc]

/-! ### The tokens of a list -/

/-- Is the token one that a node stands for? -/
def Token.isShown (t : Token) : Bool :=
  !(t.kind == .punctuator || t.isTerminator || t.isComment)

/-- A token that a node stands for, and the place of the first of the parentheses that open directly
in front of it; without parentheses it is the place of the token. -/
structure Shown where
  token : Token
  opening : Position
deriving DecidableEq, Repr

/-- The place of the first of the parentheses that are open behind a token. -/
def opened (o : Option Position) (t : Token) : Option Position :=
  if t.isComment then o
  else if t.isPunct '(' then some (o.getD t.position)
  else none

/-- The tokens that nodes stand for. -/
def shown (o : Option Position) : List Token → List Shown
  | [] => []
  | t :: rest =>
    if t.isShown then ⟨t, o.getD t.position⟩ :: shown (opened o t) rest
    else shown (opened o t) rest

/-- A list without the arrows that point at `void`, and without the `void` behind them. -/
def withoutVoid : List Shown → List Shown
  | [] => []
  | [s] => [s]
  | s :: s' :: rest =>
    if s.token.is .operator "->" && s'.token.is .type "void" then withoutVoid rest
    else s :: withoutVoid (s' :: rest)

/-- The node stands for this token, and what it says of its place is right. -/
structure Matches (m : Mark) (s : Shown) : Prop where
  kind : s.token.kind = m.kind
  lexeme : s.token.lexeme = m.lexeme
  position : ∀ p ∈ m.position?, s.token.position = p
  start : ∀ p ∈ m.start?, s.opening = p

/-! ### Going through a list -/

theorem shown_append (o : Option Position) (v w : List Token) :
    shown o (v ++ w) = shown o v ++ shown (v.foldl opened o) w := by
  induction v generalizing o with
  | nil => rfl
  | cons t v ih =>
    rw [List.cons_append, shown, shown, ih]
    split <;> rfl

/-- The tokens are those that are neither punctuation marks nor terminators nor comments. -/
theorem map_token_shown (o : Option Position) (tokens : List Token) :
    (shown o tokens).map Shown.token = tokens.filter Token.isShown := by
  induction tokens generalizing o with
  | nil => rfl
  | cons t tokens ih =>
    rw [shown]
    by_cases word : t.isShown
    · rw [if_pos word, List.filter_cons_of_pos word, List.map_cons, ih]
    · rw [if_neg word, List.filter_cons_of_neg word, ih]

theorem opened_of_terminator {t : Token} (ends : t.isTerminator) (o : Option Position) :
    opened o t = none := by
  rw [Token.isTerminator_iff] at ends
  simp [opened, Token.isComment, Token.isPunct, ends]

theorem shown_mergeTerminators (o : Option Position) (q : List Token) :
    shown o (mergeTerminators q) = shown o q := by
  induction q generalizing o with
  | nil => rfl
  | cons t q ih =>
    rcases mergeTerminators_cases t q with kept | ⟨next, more, ends, ends', eq, dropped⟩
    · rw [kept, shown, shown, ih]
    · have hidden : ¬next.isShown := by simp [Token.isShown, ends']
      have more_eq : shown none more = shown none q := by
        rw [← ih none, eq, shown, if_neg hidden, opened_of_terminator ends']
      rw [dropped, shown, shown, opened_of_terminator ends, more_eq]

theorem shown_filter (o : Option Position) (tokens : List Token) :
    shown o (tokens.filter fun t => !t.isComment) = shown o tokens := by
  induction tokens generalizing o with
  | nil => rfl
  | cons t tokens ih =>
    by_cases comment : t.isComment
    · have hidden : ¬t.isShown := by simp [Token.isShown, comment]
      have same : opened o t = o := if_pos comment
      rw [List.filter_cons_of_neg (by simpa using comment), ih, shown, if_neg hidden, same]
    · rw [List.filter_cons_of_pos (by simpa using comment), shown, shown, ih]

/-- Merging terminators and leaving out comments makes no difference to what is shown. -/
theorem shown_significant (o : Option Position) (tokens : List Token) :
    shown o (significant tokens) = shown o tokens := by
  rw [significant, shown_mergeTerminators, shown_filter]

/-! ### Expressions -/

/-- A match whose token is no arrow and is not marked as the first one of a statement. -/
structure Plain (m : Mark) (s : Shown) : Prop extends Matches m s where
  noArrow : ¬s.token.is .operator "->"
  noStart : m.start? = none

/-- The tokens are those of the marks, whatever stands in front of them. -/
def Shows (w : List Token) (ms : List Mark) : Prop := ∀ o, List.Forall₂ Plain ms (shown o w)

/-- Behind the tokens no parenthesis has just been opened. -/
def Settled (w : List Token) : Prop := ∀ o, w.foldl opened o = none

namespace Shows

variable {v w : List Token} {ms ns : List Mark} {t : Token}

theorem nil : Shows [] [] := fun _ => .nil

theorem append (left : Shows v ms) (right : Shows w ns) : Shows (v ++ w) (ms ++ ns) := by
  intro o
  rw [shown_append]
  exact List.rel_append (left o) (right _)

theorem shown_cons {m : Mark} (word : t.isShown) (plain : ∀ p, Plain m ⟨t, p⟩) (rest : Shows w ms) :
    Shows (t :: w) (m :: ms) := by
  intro o
  rw [shown, if_pos word]
  exact .cons (plain _) (rest _)

theorem hidden_cons (hidden : ¬t.isShown) (rest : Shows w ms) : Shows (t :: w) ms := by
  intro o
  rw [shown, if_neg hidden]
  exact rest _

end Shows

theorem Settled.append {v w : List Token} (h : Settled w) : Settled (v ++ w) := by
  intro o
  rw [List.foldl_append]
  exact h _

theorem Settled.cons {w : List Token} (h : Settled w) (t : Token) : Settled (t :: w) :=
  fun o => h (opened o t)

namespace Grammar

theorem hidden_of_isPunct {t : Token} {c : Char} (mark : t.isPunct c) : ¬t.isShown := by
  simp [Token.isShown, Token.kind_of_isPunct mark]

/-- A parenthesis is open only behind its mark. -/
theorem settled_of_closing {closing : Token} (closes : closing.isPunct ')') (w : List Token) :
    Settled (w ++ [closing]) := by
  have other : ¬closing.isPunct '(' := by simp [Ladder.isPunct_exclusive closes]
  intro o
  rw [List.foldl_append, List.foldl_cons, List.foldl_nil, opened,
    if_neg (not_isComment_of_isPunct closes), if_neg other]

theorem settled_of_shown {t : Token} (word : t.isShown) (w : List Token) : Settled (w ++ [t]) := by
  simp only [Token.isShown, Bool.not_eq_true', Bool.or_eq_false_iff, beq_eq_false_iff_ne] at word
  intro o
  rw [List.foldl_append, List.foldl_cons, List.foldl_nil, opened, word.2]
  simp [Token.isPunct, word.1.1]

theorem shown_of_kind {t : Token} {kind : TokenKind} (is : t.kind = kind)
    (word : kind ∉ [.punctuator, .statementTerminator, .commentSeparator, .commentBody]) :
    t.isShown := by
  subst is
  simp only [List.mem_cons, List.not_mem_nil, or_false, not_or] at word
  simp [Token.isShown, Token.isTerminator, Token.isComment, word]

theorem noArrow_of_kind {t : Token} {kind : TokenKind} (is : t.kind = kind)
    (other : kind ≠ .operator) : ¬t.is .operator "->" := by
  rw [Token.is_iff, not_and]
  intro operator
  exact absurd (is.symm.trans operator) other

theorem noArrow_of_lexeme {t : Token} (other : t.lexeme ≠ "->") : ¬t.is .operator "->" := by
  simp [Token.is, other]

/-- A token that is no arrow, with its place. -/
theorem plain_placed {t : Token} {kind : TokenKind} {lexeme : String} (is : t.kind = kind)
    (spelled : lexeme = t.lexeme) (noArrow : ¬t.is .operator "->") (p : Position) :
    Plain (placed kind lexeme t.position) ⟨t, p⟩ where
  kind := is
  lexeme := spelled.symm
  position := by
    rintro q ⟨⟩
    rfl
  start := by rintro q ⟨⟩
  noArrow := noArrow
  noStart := rfl

theorem matches_unplaced {t : Token} {kind : TokenKind} {lexeme : String} (is : t.kind = kind)
    (spelled : lexeme = t.lexeme) (p : Position) : Matches (unplaced kind lexeme) ⟨t, p⟩ where
  kind := is
  lexeme := spelled.symm
  position := by rintro q ⟨⟩
  start := by rintro q ⟨⟩

/-- A token that is no arrow, without its place. -/
theorem plain_unplaced {t : Token} {kind : TokenKind} {lexeme : String} (is : t.kind = kind)
    (spelled : lexeme = t.lexeme) (noArrow : ¬t.is .operator "->") (p : Position) :
    Plain (unplaced kind lexeme) ⟨t, p⟩ :=
  ⟨matches_unplaced is spelled p, noArrow, rfl⟩

theorem shows_operator {op : Token} {symbol : Symbol} {w : List Token} {ms : List Mark}
    (kind : op.kind = .operator) (spelled : Symbol.ofLexeme? op.lexeme = some symbol)
    (noArrow : op.lexeme ≠ "->") (rest : Shows w ms) :
    Shows (op :: w) (placed .operator symbol.text op.position :: ms) :=
  .shown_cons (shown_of_kind kind (by decide))
    (plain_placed kind (Symbol.text_of_ofLexeme? spelled) (noArrow_of_lexeme noArrow)) rest

theorem shows_name {name : Token} {w : List Token} {ms : List Mark}
    (named : name.kind = .identifier) (rest : Shows w ms) :
    Shows (name :: w) (placed .identifier name.lexeme name.position :: ms) :=
  .shown_cons (shown_of_kind named (by decide))
    (plain_placed named rfl (noArrow_of_kind named (by decide))) rest

theorem Leaf.shows {t : Token} {e : Expr} (h : Leaf t e) : Shows [t] e.marks := by
  have one {kind : TokenKind} {lexeme : String} (is : t.kind = kind) (spelled : lexeme = t.lexeme)
      (other : kind ∉ [.punctuator, .statementTerminator, .commentSeparator, .commentBody,
        .operator]) : Shows [t] [placed kind lexeme t.position] := by
    simp only [List.mem_cons, List.not_mem_nil, or_false, not_or] at other
    refine .shown_cons (shown_of_kind is (by simp [other])) (plain_placed is spelled ?_) .nil
    exact noArrow_of_kind is other.2.2.2.2
  cases h with
  | numeric kind | string kind | char kind | name kind => exact one kind rfl (by decide)
  | null is =>
    rw [Token.is_iff] at is
    exact one is.1 is.2.symm (by decide)

mutual

theorem Expression.shows {level : Precedence} {w : List Token} {e : Expr} :
    Expression level w e → Shows w e.marks
  | .tighter _ operand => operand.shows
  | .binary operator spelled left right => by
    rw [Token.isOperatorOf_iff] at operator
    refine left.shows.append (shows_operator operator.1 spelled ?_ right.shows)
    rintro eq
    rw [eq] at operator
    cases Precedence.ofBinary?_eq_some_iff.mpr operator.2
  | .unary operator spelled operand => by
    rw [Token.isSign_iff] at operator
    refine shows_operator operator.1 spelled ?_ operand.shows
    rintro eq
    rw [eq] at operator
    simp [Precedence.signs] at operator
  | .group opens inner closes => by
    rw [← List.append_nil (Expr.marks _)]
    exact .hidden_cons (hidden_of_isPunct opens)
      (inner.shows.append (.hidden_cons (hidden_of_isPunct closes) .nil))
  | .leaf single => single.shows
  | .call named opens arguments closes => by
    rw [Expr.marks, ← List.append_nil (Expr.argMarks _)]
    exact shows_name named (.hidden_cons (hidden_of_isPunct opens)
      (arguments.shows.append (.hidden_cons (hidden_of_isPunct closes) .nil)))

theorem Arguments.shows {w : List Token} {args : List Expr} :
    Arguments w args → Shows w (Expr.argMarks args)
  | .none => .nil
  | .some given => given.shows

theorem MoreArguments.shows {w : List Token} {args : List Expr} :
    MoreArguments w args → Shows w (Expr.argMarks args)
  | .last arg => by
    rw [Expr.argMarks, Expr.argMarks, List.append_nil]
    exact arg.shows
  | .cons arg separates rest =>
    arg.shows.append (.hidden_cons (hidden_of_isPunct separates) rest.shows)

end

theorem Leaf.isShown {t : Token} {e : Expr} (h : Leaf t e) : t.isShown := by
  cases h with
  | numeric kind | string kind | char kind | name kind => exact shown_of_kind kind (by decide)
  | null is =>
    rw [Token.is_iff] at is
    exact shown_of_kind is.1 (by decide)

theorem isShown_of_unary {op : Token} (operator : op.isSign) : op.isShown :=
  shown_of_kind (Token.isSign_iff.mp operator).1 (by decide)

/-- Behind an expression no parenthesis has just been opened. -/
theorem Expression.settled {level : Precedence} {w : List Token} {e : Expr} :
    Expression level w e → Settled w
  | .tighter _ operand => operand.settled
  | .binary _ _ _ right => (right.settled.cons _).append
  | .unary _ _ operand => operand.settled.cons _
  | .group _ _ closes => (settled_of_closing closes _).cons _
  | .leaf single => settled_of_shown single.isShown []
  | .call _ _ _ closes => ((settled_of_closing closes _).cons _).cons _

theorem head_shown {t : Token} (word : t.isShown) (o : Option Position) (w : List Token) :
    (shown o (t :: w)).head? = some ⟨t, o.getD t.position⟩ := by
  rw [shown, if_pos word]
  rfl

/-- The first token that is shown knows where the expression begins. -/
theorem Expression.opening {level : Precedence} {w : List Token} {e : Expr} :
    Expression level w e → ∀ o : Option Position, ∃ t s, w.head? = some t ∧
      (shown o w).head? = some s ∧ s.opening = o.getD t.position
  | .tighter _ operand, o => operand.opening o
  | .binary _ _ left _, o => by
    obtain ⟨t, s, front, first, place⟩ := left.opening o
    exact ⟨t, s, by simp [front], by simp [shown_append, first], place⟩
  | .unary operator _ _, o => ⟨_, _, rfl, head_shown (isShown_of_unary operator) o _, rfl⟩
  | @Expression.group w brace closing e opens inner _, o => by
    obtain ⟨t, s, -, first, place⟩ := inner.opening (some (o.getD brace.position))
    have inside : shown o (brace :: (w ++ [closing])) =
        shown (some (o.getD brace.position)) (w ++ [closing]) := by
      rw [shown, if_neg (hidden_of_isPunct opens), opened,
        if_neg (not_isComment_of_isPunct opens), if_pos opens]
    exact ⟨brace, s, rfl, by simp [inside, shown_append, first], place⟩
  | .leaf single, o => ⟨_, _, rfl, head_shown single.isShown o [], rfl⟩
  | .call named _ _ _, o =>
    ⟨_, _, rfl, head_shown (shown_of_kind named (by decide)) o _, rfl⟩

/-! ### Statements -/

/-- The shown tokens are those of the marks, up to arrows that point at `void`. -/
inductive Accounts : List Mark → List Shown → Prop where
  | nil : Accounts [] []
  | token {m : Mark} {s : Shown} {ms : List Mark} {ss : List Shown} (matched : Matches m s)
    (noArrow : ¬s.token.is .operator "->") (rest : Accounts ms ss) : Accounts (m :: ms) (s :: ss)
  | returns {m m' : Mark} {s s' : Shown} {ms : List Mark} {ss : List Shown} (matched : Matches m s)
    (matched' : Matches m' s') (type : s'.token.kind = .type) (other : s'.token.lexeme ≠ "void")
    (rest : Accounts ms ss) : Accounts (m :: m' :: ms) (s :: s' :: ss)
  | void {s s' : Shown} {ms : List Mark} {ss : List Shown} (points : s.token.is .operator "->")
    (empty : s'.token.is .type "void") (rest : Accounts ms ss) : Accounts ms (s :: s' :: ss)

theorem Accounts.append {ms ns : List Mark} {ss us : List Shown} (left : Accounts ms ss)
    (right : Accounts ns us) : Accounts (ms ++ ns) (ss ++ us) := by
  induction left with
  | nil => exact right
  | token matched noArrow _ ih => exact .token matched noArrow ih
  | returns matched matched' type other _ ih => exact .returns matched matched' type other ih
  | void points empty _ ih => exact .void points empty ih

theorem Accounts.of_plain {ms : List Mark} {ss : List Shown} (h : List.Forall₂ Plain ms ss) :
    Accounts ms ss := by
  induction h with
  | nil => exact .nil
  | cons plain _ ih => exact .token plain.toMatches plain.noArrow ih

theorem withoutVoid_cons {s : Shown} (noArrow : ¬s.token.is .operator "->") (ss : List Shown) :
    withoutVoid (s :: ss) = s :: withoutVoid ss := by
  cases ss with
  | nil => rfl
  | cons s' ss => rw [withoutVoid, if_neg (by simp [noArrow])]

theorem Accounts.matches {ms : List Mark} {ss : List Shown} (h : Accounts ms ss) :
    List.Forall₂ Matches ms (withoutVoid ss) := by
  induction h with
  | nil => exact .nil
  | token matched noArrow _ ih =>
    rw [withoutVoid_cons noArrow]
    exact .cons matched ih
  | returns matched matched' type other _ ih =>
    rw [withoutVoid, if_neg (by simp [Token.is, other]),
      withoutVoid_cons (noArrow_of_kind type (by decide))]
    exact .cons matched (.cons matched' ih)
  | void points empty _ ih =>
    rw [withoutVoid, if_pos (by simp [points, empty])]
    exact ih

/-- The tokens are those of the marks, and no parenthesis is open in front of them or has just been
opened behind them. -/
structure Accounted (w : List Token) (ms : List Mark) : Prop where
  settled : w.foldl opened none = none
  accounts : Accounts ms (shown none w)

namespace Accounted

variable {v w : List Token} {ms ns : List Mark} {t : Token}

theorem nil : Accounted [] [] := ⟨rfl, .nil⟩

theorem append (left : Accounted v ms) (right : Accounted w ns) :
    Accounted (v ++ w) (ms ++ ns) := by
  refine ⟨?_, ?_⟩
  · rw [List.foldl_append, left.settled, right.settled]
  · rw [shown_append, left.settled]
    exact left.accounts.append right.accounts

theorem of_shows (shows' : Shows w ms) (settled : Settled w) : Accounted w ms :=
  ⟨settled none, .of_plain (shows' none)⟩

theorem shown_cons {m : Mark} (word : t.isShown) (plain : ∀ p, Plain m ⟨t, p⟩)
    (rest : Accounted w ms) : Accounted (t :: w) (m :: ms) :=
  (of_shows (.shown_cons word plain .nil) (settled_of_shown word [])).append rest

theorem hidden_cons (hidden : ¬t.isShown) (settles : opened none t = none)
    (rest : Accounted w ms) : Accounted (t :: w) ms := by
  refine ⟨?_, ?_⟩
  · rw [List.foldl_cons, settles, rest.settled]
  · rw [shown, if_neg hidden, settles]
    exact rest.accounts

theorem terminator_cons (ends : t.isTerminator) (rest : Accounted w ms) : Accounted (t :: w) ms :=
  hidden_cons (by simp [Token.isShown, ends]) (opened_of_terminator ends none) rest

theorem punct_cons {c : Char} (mark : t.isPunct c) (other : c ≠ '(') (rest : Accounted w ms) :
    Accounted (t :: w) ms := by
  refine hidden_cons (hidden_of_isPunct mark) ?_ rest
  rw [opened, if_neg (not_isComment_of_isPunct mark),
    if_neg (by simp [Ladder.isPunct_exclusive mark other])]

theorem breaks (skipped : Breaks v) (rest : Accounted w ms) : Accounted (v ++ w) ms := by
  induction v with
  | nil => exact rest
  | cons t v ih =>
    exact terminator_cons (skipped t List.mem_cons_self)
      (ih fun t' mem => skipped t' (List.mem_cons_of_mem t mem))

theorem keyword_cons {lexeme : String} (is : t.is .keyword lexeme) (rest : Accounted w ms) :
    Accounted (t :: w) (placed .keyword lexeme t.position :: ms) := by
  rw [Token.is_iff] at is
  exact shown_cons (shown_of_kind is.1 (by decide))
    (plain_placed is.1 is.2.symm (noArrow_of_kind is.1 (by decide))) rest

end Accounted

theorem Accounted.if_cons {t : Token} {w : List Token} {ms : List Mark} (is : t.is .keyword "if")
    (rest : Accounted w ms) : Accounted (t :: w) (unplaced .keyword "if" :: ms) := by
  rw [Token.is_iff] at is
  exact .shown_cons (shown_of_kind is.1 (by decide))
    (plain_unplaced is.1 is.2.symm (noArrow_of_kind is.1 (by decide))) rest

theorem Names.shows {w : List Token} {names : List Identifier} (h : Names w names) :
    Shows w (names.map Mark.ofParameter) := by
  induction h with
  | last named => exact shows_name named .nil
  | cons named separates _ ih =>
    exact shows_name named (.hidden_cons (hidden_of_isPunct separates) ih)

theorem Parameters.shows {w : List Token} {params : List Identifier} (h : Parameters w params) :
    Shows w (params.map Mark.ofParameter) := by
  cases h with
  | none => exact .nil
  | some given => exact given.shows

theorem ReturnType.accounted {w : List Token} {type : Symbol} (h : ReturnType w type) :
    Accounted w (Mark.ofReturn type) := by
  cases h with
  | none => exact .nil
  | @given arrow name _ points named =>
    have points' := points
    rw [Token.is_iff] at points'
    have spelled := Symbol.text_of_ofLexeme? named.spelled
    have both : shown .none [arrow, name] = [⟨arrow, arrow.position⟩,
        ⟨name, (opened .none arrow).getD name.position⟩] := by
      rw [shown, if_pos (shown_of_kind points'.1 (by decide)), shown,
        if_pos (shown_of_kind named.kind (by decide))]
      rfl
    refine ⟨settled_of_shown (shown_of_kind named.kind (by decide)) [arrow] .none, ?_⟩
    rw [both, Mark.ofReturn]
    by_cases empty : type = .typeVoid
    · rw [if_pos empty]
      refine .void points ?_ .nil
      rw [empty] at spelled
      simp [Token.is, named.kind, ← spelled, show Symbol.typeVoid.text = "void" from rfl]
    · rw [if_neg empty]
      refine .returns (matches_unplaced points'.1 points'.2.symm _)
        (matches_unplaced named.kind spelled _) named.kind (fun eq => empty ?_) .nil
      have given := named.spelled
      rw [eq] at given
      injection given with same
      exact same.symm

theorem Annotation.shows {w : List Token} {type : Option Symbol} (h : Annotation w type) :
    Shows w (Mark.ofType type) := by
  cases h with
  | none => exact .nil
  | given marks named =>
    refine .hidden_cons (hidden_of_isPunct marks) ?_
    exact .shown_cons (shown_of_kind named.kind (by decide)) (plain_unplaced named.kind
      (Symbol.text_of_ofLexeme? named.spelled) (noArrow_of_kind named.kind (by decide))) .nil

theorem Annotation.settled {v w : List Token} {type : Option Symbol} (h : Annotation w type)
    (before : Settled v) : Settled (v ++ w) := by
  cases h with
  | none => rwa [List.append_nil]
  | given marks named =>
    exact ((settled_of_shown (shown_of_kind named.kind (by decide)) []).cons _).append

theorem shows_equals {equals : Token} {w : List Token} {e : Expr}
    (marks : equals.is .operator "=") (value : Expression .lowest w e) :
    Shows (equals :: w) (Mark.ofValue (some e)) := by
  rw [Token.is_iff] at marks
  exact .shown_cons (shown_of_kind marks.1 (by decide))
    (plain_unplaced marks.1 marks.2.symm (noArrow_of_lexeme (by simp [marks.2]))) value.shows

theorem Initializer.shows {w : List Token} {value : Option Expr} (h : Initializer w value) :
    Shows w (Mark.ofValue value) := by
  cases h with
  | none => exact .nil
  | given marks value => exact shows_equals marks value

theorem Initializer.settled {v w : List Token} {value : Option Expr} (h : Initializer w value)
    (before : Settled v) : Settled (v ++ w) := by
  cases h with
  | none => rwa [List.append_nil]
  | given marks value => exact (value.settled.cons _).append

theorem settled_of_name {name : Token} (named : name.kind = .identifier) : Settled [name] :=
  settled_of_shown (shown_of_kind named (by decide)) []

/-- The name that is declared. -/
theorem shows_declared {name : Token} {w : List Token} {ms : List Mark}
    (named : name.kind = .identifier) (rest : Shows w ms) :
    Shows (name :: w) (unplaced .identifier name.lexeme :: ms) :=
  .shown_cons (shown_of_kind named (by decide))
    (plain_unplaced named rfl (noArrow_of_kind named (by decide))) rest

/-- The tokens that have the kind of a type name types. -/
def Genuine (w : List Token) : Prop := ∀ t ∈ w, t.kind = .type → isTypeName t.lexeme

theorem Simple.accounted {w : List Token} {s : Stmt} (h : Simple w s) (genuine : Genuine w) :
    Accounted w s.marks := by
  cases h with
  | letVariable opens named annotated marks value =>
    exact .keyword_cons opens (.of_shows
      (shows_declared named (annotated.shows.append (shows_equals marks value)))
      ((value.settled.cons _).append.cons _))
  | opVariable opens named annotated initial =>
    have settled := initial.settled (annotated.settled (settled_of_name named))
    rw [List.append_assoc] at settled
    exact .keyword_cons opens (.of_shows
      (shows_declared named (annotated.shows.append initial.shows)) settled)
  | @typedVariable keyword name w type value opens named initial =>
    have isType : type.isType := (Symbol.isType_iff opens.spelled).mpr
      (genuine keyword List.mem_cons_self opens.kind)
    rw [Stmt.marks, if_pos isType]
    exact .shown_cons (shown_of_kind opens.kind (by decide))
      (plain_placed opens.kind (Symbol.text_of_ofLexeme? opens.spelled)
        (noArrow_of_kind opens.kind (by decide)))
      (.of_shows (shows_declared named initial.shows) (initial.settled (settled_of_name named)))
  | ret opens value =>
    exact .keyword_cons opens (.of_shows value.shows value.settled)
  | rev opens => exact .keyword_cons opens .nil
  | @expression first w e whole =>
    obtain ⟨t, s, front, head, place⟩ := whole.opening none
    cases front
    have plain := whole.shows none
    refine ⟨whole.settled none, ?_⟩
    rw [Stmt.marks]
    cases seen : shown none (first :: w) with
    | nil =>
      rw [seen] at head
      cases head
    | cons s' ss =>
      rw [seen] at head plain
      cases head
      cases marks : e.marks with
      | nil =>
        rw [marks] at plain
        cases plain
      | cons m ms =>
        rw [marks] at plain
        obtain ⟨first, more⟩ := List.forall₂_cons.mp plain
        refine .token ⟨first.kind, first.lexeme, first.position, ?_⟩ first.noArrow (.of_plain more)
        rintro q ⟨⟩
        exact place

theorem Header.accounted {w : List Token} {header : FunctionHeader} (h : Header w header) :
    Accounted w (placed .keyword header.kind.text header.position ::
      unplaced .identifier header.name ::
      (header.params.map Mark.ofParameter ++ Mark.ofReturn header.returnType)) := by
  obtain @⟨keyword, name, opening, closing, kind, type, ps, ts, params, isKeyword, -, spelled,
    named, before, parameters, behind, returns⟩ := h
  have front : Accounted (keyword :: name :: opening :: (ps ++ [closing]))
      (placed .keyword kind.text keyword.position :: unplaced .identifier name.lexeme ::
        (params.map Mark.ofParameter ++ [])) := by
    refine .shown_cons (shown_of_kind isKeyword (by decide))
      (plain_placed isKeyword (Symbol.text_of_ofLexeme? spelled)
        (noArrow_of_kind isKeyword (by decide))) ?_
    refine .of_shows (shows_declared named (.hidden_cons (hidden_of_isPunct before) ?_))
      (((settled_of_closing behind ps).cons _).cons _)
    exact parameters.shows.append (.hidden_cons (hidden_of_isPunct behind) .nil)
  have whole := front.append returns.accounted
  simpa using whole

@[simp] theorem genuine_append {v w : List Token} :
    Genuine (v ++ w) ↔ Genuine v ∧ Genuine w := List.forall_mem_append

@[simp] theorem genuine_cons {t : Token} {w : List Token} :
    Genuine (t :: w) ↔ (t.kind = .type → isTypeName t.lexeme) ∧ Genuine w := List.forall_mem_cons

mutual

theorem Sequence.accounted {w : List Token} {p : List Stmt} :
    Sequence w p → Genuine w → Accounted w (Stmt.sequenceMarks p)
  | .nil, _ => .nil
  | .terminator ends rest, genuine => by
    rw [genuine_cons] at genuine
    exact .terminator_cons ends (rest.accounted genuine.2)
  | .block opens inner closes rest, genuine => by
    simp only [genuine_cons, genuine_append] at genuine
    rw [sequenceMarks_append]
    exact .punct_cons opens (by decide) ((inner.accounted genuine.2.1).append
      (.punct_cons closes (by decide) (rest.accounted genuine.2.2.2)))
  | .statement first _ rest, genuine => by
    rw [genuine_append] at genuine
    exact (first.accounted genuine.1).append (rest.accounted genuine.2)

theorem Statement.accounted {w : List Token} {s : Stmt} :
    Statement w s → Genuine w → Accounted w s.marks
  | .simple simple, genuine => simple.accounted genuine
  | .function front body, genuine => by
    rw [genuine_append] at genuine
    have whole := front.accounted.append (body.accounted genuine.2)
    simpa [Stmt.marks] using whole
  | .conditional opens condition body rest, genuine => by
    simp only [genuine_cons, genuine_append] at genuine
    have parts := (Accounted.of_shows condition.shows condition.settled).append
      ((body.accounted genuine.2.2.1).append (rest.accounted genuine.2.2.2))
    have whole := Accounted.keyword_cons opens parts
    have spelled : Symbol.conditionalIf.text = "if" := rfl
    simpa [Stmt.marks, Branch.marks, Mark.ofBranch, Mark.ofExpr, spelled] using whole

theorem Body.accounted {w : List Token} {p : List Stmt} :
    Body w p → Genuine w → Accounted w (Stmt.sequenceMarks p)
  | .mk skipped opens inner closes, genuine => by
    simp only [genuine_cons, genuine_append] at genuine
    rw [← List.append_nil (Stmt.sequenceMarks p)]
    exact .breaks skipped (.punct_cons opens (by decide) ((inner.accounted genuine.2.2.1).append
      (.punct_cons closes (by decide) .nil)))

theorem Branches.accounted {w : List Token} {branches : List Branch} :
    Branches w branches → Genuine w → Accounted w (Branch.chainMarks branches)
  | .nil, _ => .nil
  | .elseIf skipped opens skipped' opens' condition body rest, genuine => by
    simp only [genuine_cons, genuine_append] at genuine
    have parts := (Accounted.of_shows condition.shows condition.settled).append
      ((body.accounted genuine.2.2.2.2.2.1).append (rest.accounted genuine.2.2.2.2.2.2))
    have whole := Accounted.breaks skipped (.keyword_cons opens
      (.breaks skipped' (.if_cons opens' parts)))
    simpa [Branch.chainMarks, Branch.marks, Mark.ofBranch, Mark.ofExpr] using whole
  | .last skipped opens body, genuine => by
    simp only [genuine_cons, genuine_append] at genuine
    have whole := Accounted.breaks skipped (.keyword_cons opens (body.accounted genuine.2.2))
    have spelled : Symbol.conditionalElse.text = "else" := rfl
    simpa [Branch.chainMarks, Branch.marks, Mark.ofBranch, Mark.ofExpr, spelled] using whole

end

end Grammar

/-- The tree accounts for every token: its nodes stand for the tokens of the text that are neither
punctuation marks nor terminators nor parts of comments, in the order of the text, up to arrows that
point at `void`, and every place that a node gives is the place of its token. -/
theorem parse_accounts {text : String} {tokens : List Token} {program : List Stmt}
    (lexed : tokenize text = .ok tokens) (parsed : parse tokens = .ok program) :
    (shown none tokens).map Shown.token = tokens.filter Token.isShown ∧
    List.Forall₂ Matches (Stmt.sequenceMarks program) (withoutVoid (shown none tokens)) := by
  refine ⟨map_token_shown none tokens, ?_⟩
  have genuine : Grammar.Genuine (significant tokens) := by
    intro t mem kind
    have inside := (mergeTerminators_sublist _).subset mem
    exact isTypeName_of_mem lexed (List.mem_of_mem_filter inside) kind
  have accounted := (derives_of_parse parsed).accounted genuine
  rw [← shown_significant]
  exact accounted.accounts.matches

/-- The statement `(a)` begins at its parenthesis, and that nothing is returned is not in the
tree. -/
theorem parse_accounts_void :
    let tokens : List Token :=
      [⟨.keyword, "fn", ⟨1, 1⟩⟩, ⟨.identifier, "f", ⟨1, 4⟩⟩, ⟨.punctuator, "(", ⟨1, 5⟩⟩,
        ⟨.identifier, "a", ⟨1, 6⟩⟩, ⟨.punctuator, ")", ⟨1, 7⟩⟩, ⟨.operator, "->", ⟨1, 9⟩⟩,
        ⟨.type, "void", ⟨1, 12⟩⟩, ⟨.punctuator, "\x7b", ⟨1, 17⟩⟩, ⟨.punctuator, "(", ⟨1, 19⟩⟩,
        ⟨.identifier, "a", ⟨1, 20⟩⟩, ⟨.punctuator, ")", ⟨1, 21⟩⟩, ⟨.punctuator, "\x7d", ⟨1, 23⟩⟩]
    let program : List Stmt :=
      [.functionDecl .functionDeclarationF "f" ⟨1, 1⟩ [⟨"a", ⟨1, 6⟩⟩] .typeVoid
        [.expression (.identifier ⟨"a", ⟨1, 20⟩⟩) ⟨1, 19⟩]]
    tokenize "fn f(a) -> void \x7b (a) \x7d" = .ok tokens ∧ parse tokens = .ok program ∧
      List.Forall₂ Matches (Stmt.sequenceMarks program) (withoutVoid (shown none tokens)) := by
  refine ⟨?lexed, ?parsed, (parse_accounts ?lexed ?parsed).2⟩
  case lexed => decide +kernel
  case parsed => cbv

end RatLang
