import Mathlib.Data.List.MinMax
import RatLang.Proofs.Lexer.Step
import RatLang.Proofs.Lexer.Vocabulary
import RatLang.Proofs.Runs

/-!
# The longest match

What stands at the front of a text is said here without a scan: the maximal run of the characters of
names, with the points behind it if it is no fixed lexeme, or else the longest symbol. The scan that
lets a candidate grow finds the same.
-/

namespace RatLang

/-- What stands at the front of a text: a lexeme of some kind, or characters that form none. -/
inductive Munch where
  | lexeme (kind : TokenKind) (chars : List Char)
  | unrecognized (chars : List Char)
deriving DecidableEq, Repr

namespace Munch

/-- May the character stand in a name or a number? -/
def isWordChar (c : Char) : Bool := isNameChar c || c == '.'

/-- May the character stand in a run of characters that form no lexeme? -/
def isOtherChar (c : Char) : Bool := !(isMark c || isNameChar c)

/-- A number, or a name, or neither. -/
def ofGrammar (chars : List Char) : Munch :=
  if isNumeric (String.ofList chars) then .lexeme .numericLiteral chars
  else if isName (String.ofList chars) then .lexeme .identifier chars
  else .unrecognized chars

/-- What stands at the front of a text that begins with a character of names. Only the keyword `fn`
takes one more character along, which no character of names may follow. -/
def ofWord (text : List Char) : Munch :=
  let word := text.takeWhile isNameChar
  let behind := text.dropWhile isNameChar
  if word = ['f', 'n'] ∧ (behind.head? = some '?' ∨ behind.head? = some '/') then
    let marked := word ++ behind.take 1
    let further := behind.drop 1
    if further.head?.any isNameChar then .unrecognized (marked ++ further.takeWhile isWordChar)
    else .lexeme .keyword marked
  else if isKeyword (String.ofList word) then .lexeme .keyword word
  else if isTypeName (String.ofList word) then .lexeme .type word
  else ofGrammar (text.takeWhile isWordChar)

/-- The longest symbol at the front of a text. -/
def longestSymbol? (text : List Char) : Option String :=
  (symbols.filter fun symbol => symbol.toList.isPrefixOf text).argmax fun symbol =>
    symbol.toList.length

/-- What stands at the front of a text that begins with another character. -/
def ofOther (text : List Char) : Munch :=
  match longestSymbol? text with
  | some symbol =>
    .lexeme (if symbol = commentMark then .commentSeparator else .operator) symbol.toList
  | none => .unrecognized (text.takeWhile isOtherChar)

/-- What stands at the front of a text. -/
def ofText (text : List Char) : Munch :=
  if text.head?.any isNameChar then ofWord text else ofOther text

end Munch

/-! ### The scan behind a character that has joined -/

/-- A candidate that is no fixed lexeme, and none of those that it is a prefix of is one. -/
def Outgrown (u : List Char) : Prop := ∀ more, String.ofList (u ++ more) ∉ fixedLexemes

/-- Does the character join a candidate that begins with `h`? -/
def joins (h c : Char) : Bool := !isBoundary (String.singleton h) c

/-- The scan behind the characters that have joined. -/
def scanBehind (u : List Char) (rest : List Char) : Scan CandidateEnd :=
  match fixedKind? (String.ofList u) with
  | none => scanCandidate (String.ofList u) false rest
  | some kind =>
    if growsInto (String.ofList u) rest.head? then scanCandidate (String.ofList u) true rest
    else if wordGoesOn kind rest.head? then scanCandidate (String.ofList u) false rest
    else ⟨0, .fixed kind⟩

theorem push_ofList (u : List Char) (c : Char) :
    (String.ofList u).push c = String.ofList (u ++ [c]) := by
  rw [String.ofList_append]
  rfl

theorem isBoundary_ofList (h : Char) (u : List Char) (c : Char) :
    isBoundary (String.ofList (h :: u)) c = !joins h c := by
  simp [joins, isBoundary]

theorem not_isBoundary {h c : Char} (joined : joins h c) (u : List Char) :
    ¬isBoundary (String.ofList (h :: u)) c := by
  rw [isBoundary_ofList, joined]
  exact Bool.false_ne_true

theorem after_after {α : Type} (m n : Nat) (scan : Scan α) :
    (scan.after m).after n = scan.after (m + n) := by
  simp [Scan.after, Nat.add_assoc]

/-- A character joins, and the scan goes on behind it. -/
theorem scanCandidate_cons {u : List Char} {extending : Bool} {c : Char} (rest : List Char)
    (inside : ¬(String.ofList u ≠ "" ∧ extending = false ∧ isBoundary (String.ofList u) c)) :
    scanCandidate (String.ofList u) extending (c :: rest) =
      (scanBehind (u ++ [c]) rest).after 1 := by
  rw [scanCandidate, if_neg inside, push_ofList, scanBehind]
  cases fixedKind? (String.ofList (u ++ [c])) with
  | none => rfl
  | some kind =>
    dsimp only
    split
    · rfl
    · split <;> rfl

theorem Outgrown.append {u : List Char} (h : Outgrown u) (more : List Char) :
    Outgrown (u ++ more) := by
  intro further
  rw [List.append_assoc]
  exact h (more ++ further)

theorem scanBehind_outgrown {u : List Char} (h : Outgrown u) (rest : List Char) :
    scanBehind u rest = scanCandidate (String.ofList u) false rest := by
  have unfixed : String.ofList u ∉ fixedLexemes := by simpa using h []
  rw [scanBehind, fixedKind?_eq_none unfixed]

/-! ### Runs -/

/-- A word is joined by the characters of names and by points. -/
theorem joins_of_name {h : Char} (name : isNameChar h) : joins h = Munch.isWordChar := by
  funext c
  have first : (String.singleton h).toList.head?.any isNameChar = true := by simpa using name
  rw [joins, isBoundary, if_pos first, Munch.isWordChar]
  split
  · rename_i mark
    have other : (isNameChar c || c == '.') = false := by
      rw [Bool.eq_false_iff, ne_eq, Bool.or_eq_true, beq_iff_eq, not_or]
      refine ⟨fun name' => not_isMark_of_nameChar name' mark, ?_⟩
      rintro rfl
      exact absurd mark (by decide)
    rw [other]
    rfl
  · rw [Bool.not_not]

theorem joins_of_other {h : Char} (other : ¬isNameChar h) : joins h = Munch.isOtherChar := by
  funext c
  have first : ¬(String.singleton h).toList.head?.any isNameChar := by simpa using other
  rw [joins, isBoundary, if_neg first, Munch.isOtherChar, isMark]
  split
  · rename_i mark
    rw [mark]
    rfl
  · rename_i mark
    rw [Bool.eq_false_iff.mpr mark]
    rfl

/-- A candidate that no longer grows into a fixed lexeme takes all the characters that join it. -/
theorem scan_run {h : Char} {u rest : List Char}
    (settled : ∀ c ∈ rest.head?, joins h c → Outgrown (h :: u ++ [c])) :
    scanCandidate (String.ofList (h :: u)) false rest =
      ⟨(rest.takeWhile (joins h)).length,
        if rest.dropWhile (joins h) = [] then .exhausted else .boundary⟩ := by
  induction rest generalizing u with
  | nil =>
    rw [scanCandidate]
    rfl
  | cons c rest ih =>
    by_cases joined : joins h c
    · have out := settled c rfl joined
      have more : ∀ d ∈ rest.head?, joins h d → Outgrown (h :: (u ++ [c]) ++ [d]) :=
        fun d _ _ => out.append [d]
      rw [scanCandidate_cons rest fun ends => not_isBoundary joined u ends.2.2,
        scanBehind_outgrown out]
      rw [List.cons_append, ih more, List.takeWhile_cons_of_pos joined,
        List.dropWhile_cons_of_pos joined]
      rfl
    · have boundary : isBoundary (String.ofList (h :: u)) c := by
        rw [isBoundary_ofList, Bool.eq_false_iff.mpr joined]
        rfl
      have nonempty : String.ofList (h :: u) ≠ "" := by
        intro empty
        have none_joined : String.ofList (h :: u) = String.ofList [] := empty
        cases String.ofList_injective none_joined
      rw [scanCandidate, if_pos ⟨nonempty, rfl, boundary⟩, List.takeWhile_cons_of_neg joined,
        List.dropWhile_cons_of_neg joined]
      rfl

/-! ### Words -/

theorem scanBehind_name {h c : Char} {u : List Char} (word : ∀ d ∈ h :: u, isNameChar d)
    (name : isNameChar c) (rest : List Char) :
    scanBehind (h :: u) (c :: rest) = (scanBehind (h :: u ++ [c]) rest).after 1 := by
  have joined : joins h c := by
    rw [joins_of_name (word h (by simp)), Munch.isWordChar, name]
    rfl
  have step (extending : Bool) :
      scanCandidate (String.ofList (h :: u)) extending (c :: rest) = _ :=
    scanCandidate_cons rest fun ends => not_isBoundary joined u ends.2.2
  rw [scanBehind]
  cases found : fixedKind? (String.ofList (h :: u)) with
  | none => exact step false
  | some kind =>
    have goes : wordGoesOn kind (c :: rest).head? := by
      rcases kind_of_word (word h (by simp)) found with rfl | rfl <;>
        simp [wordGoesOn, name]
    dsimp only
    rw [if_pos goes]
    split
    · exact step true
    · exact step false

theorem scanBehind_word {h : Char} {u names : List Char} (word : ∀ d ∈ h :: u, isNameChar d)
    (named : ∀ d ∈ names, isNameChar d) (rest : List Char) :
    scanBehind (h :: u) (names ++ rest) =
      (scanBehind (h :: u ++ names) rest).after names.length := by
  induction names generalizing u with
  | nil => simp [Scan.after]
  | cons c names ih =>
    have longer : ∀ d ∈ h :: (u ++ [c]), isNameChar d := by
      intro d mem
      rw [← List.cons_append] at mem
      rcases List.mem_append.mp mem with mem | mem
      · exact word d mem
      · exact named d (by simp [List.mem_singleton.mp mem])
    have step := ih longer fun d mem => named d (List.mem_cons_of_mem c mem)
    rw [List.cons_append, scanBehind_name word (named c (by simp)), List.cons_append, step,
      after_after]
    simp

/-! ### The scan of a text -/

/-- What a scan says of the text that it has looked at. -/
def Munch.ofScan (text : List Char) (scan : Scan CandidateEnd) : Munch :=
  match scan.ending with
  | .fixed kind => .lexeme kind (text.take scan.reads)
  | .boundary | .exhausted => ofGrammar (text.take scan.reads)

/-- A candidate that contains a point has outgrown the fixed lexemes. -/
theorem outgrown_of_point {u : List Char} (mem : '.' ∈ u) : Outgrown u := by
  intro more fixed
  have none_pointed := point_not_mem _ fixed
  rw [String.toList_ofList] at none_pointed
  exact none_pointed (List.mem_append_left more mem)

/-- A candidate of characters of both kinds that is longer than the marked keywords has outgrown
the fixed lexemes. -/
theorem outgrown_of_mixed {u : List Char} {c d : Char} (inside : c ∈ u) (name : isNameChar c)
    (inside' : d ∈ u) (other : ¬isNameChar d) (long : 3 < u.length) : Outgrown u := by
  intro more fixed
  have short : (u ++ more).length = 3 := by
    rcases mixed_of_mem fixed (List.mem_append_left more inside) name
      (List.mem_append_left more inside') other with eq | eq <;> rw [eq] <;> rfl
  rw [List.length_append] at short
  omega

/-- A candidate that begins like no name, with a character that is no symbol, has outgrown the
fixed lexemes. -/
theorem outgrown_of_other {c : Char} (other : ¬isNameChar c)
    (unknown : String.singleton c ∉ symbols) : Outgrown [c] := by
  intro more fixed
  have symbol := symbol_of_mem (u := more) fixed other
  refine unknown (first_of_symbol _ symbol c ?_)
  rw [String.toList_ofList]
  rfl

/-- A fixed lexeme that neither grows nor goes on is what the scan finds. -/
theorem ofScan_fixed {u rest : List Char} {kind : TokenKind}
    (found : fixedKind? (String.ofList u) = some kind)
    (stays : ¬growsInto (String.ofList u) rest.head?) (ends : ¬wordGoesOn kind rest.head?) :
    Munch.ofScan (u ++ rest) ((scanBehind u rest).after u.length) = .lexeme kind u := by
  rw [scanBehind, found]
  dsimp only
  rw [if_neg stays, if_neg ends, Munch.ofScan, Scan.after]
  dsimp only
  rw [Nat.zero_add, List.take_left]

theorem ofScan_run {h : Char} {u rest : List Char}
    (settled : ∀ c ∈ rest.head?, joins h c → Outgrown (h :: u ++ [c])) :
    Munch.ofScan (h :: u ++ rest)
        ((scanCandidate (String.ofList (h :: u)) false rest).after (h :: u).length) =
      Munch.ofGrammar (h :: u ++ rest.takeWhile (joins h)) := by
  have taken : (h :: u ++ rest).take ((rest.takeWhile (joins h)).length + (h :: u).length) =
      h :: u ++ rest.takeWhile (joins h) := by
    rw [Nat.add_comm, List.take_length_add_append]
    exact congrArg _ (List.prefix_iff_eq_take.mp (List.takeWhile_prefix _)).symm
  rw [scan_run settled, Munch.ofScan, Scan.after]
  split
  · rename_i kind fixed
    dsimp only at fixed
    split at fixed <;> cases fixed
  · rw [taken]
  · rw [taken]

/-- What begins with no digit and holds a character that is in no name is neither number nor
name. -/
theorem ofGrammar_of_other {h d : Char} {u : List Char} (first : ¬h.isDigit) (inside : d ∈ h :: u)
    (other : ¬isNameChar d) : Munch.ofGrammar (h :: u) = .unrecognized (h :: u) := by
  have no_number : isNumeric (String.ofList (h :: u)) = false := by
    rw [isNumeric, String.toList_ofList, Numeric.hasShape, List.takeWhile_cons_of_neg first]
    rfl
  have no_name : isName (String.ofList (h :: u)) = false := by
    rw [isName, String.toList_ofList, Bool.eq_false_iff]
    intro name
    dsimp only at name
    rw [Bool.and_eq_true] at name
    rcases List.mem_cons.mp inside with rfl | mem
    · exact other (isNameChar_iff.mpr (.inl name.1))
    · exact other (List.all_eq_true.mp name.2 d mem)
  rw [Munch.ofGrammar, no_number, no_name]
  rfl

theorem scanCandidate_first (c : Char) (rest : List Char) :
    scanCandidate "" false (c :: rest) = (scanBehind [c] rest).after 1 :=
  scanCandidate_cons (u := []) rest fun ends => ends.1 rfl

/-! ### Words and what stands behind them -/

/-- Only `fn` grows behind its last character of names. -/
theorem marked_of_growsInto {h d : Char} {u : List Char} (word : ∀ c ∈ h :: u, isNameChar c)
    (stops : ¬isNameChar d) (grows : growsInto (String.ofList (h :: u)) (some d)) :
    h :: u = ['f', 'n'] ∧ (d = '?' ∨ d = '/') := by
  have fixed : String.ofList (h :: u ++ [d]) ∈ fixedLexemes := by
    rw [← isFixedLexeme_iff, ← push_ofList]
    simpa [growsInto] using grows
  rcases mixed_of_mem fixed (List.mem_append_left _ (List.mem_cons_self ..)) (word h (by simp))
    (List.mem_append_right _ (List.mem_singleton_self d)) stops with eq | eq
  · have split : h :: u ++ [d] = ['f', 'n'] ++ ['?'] := eq
    obtain ⟨same, last⟩ := List.append_inj' split rfl
    exact ⟨same, .inl (List.singleton_inj.mp last)⟩
  · have split : h :: u ++ [d] = ['f', 'n'] ++ ['/'] := eq
    obtain ⟨same, last⟩ := List.append_inj' split rfl
    exact ⟨same, .inr (List.singleton_inj.mp last)⟩

/-- Behind a marked `fn` stands either the end of the keyword, or a run that is no lexeme. -/
theorem ofScan_marked {d : Char} (mark : d = '?' ∨ d = '/') (further : List Char) :
    Munch.ofScan (['f', 'n', d] ++ further) ((scanBehind ['f', 'n', d] further).after 3) =
      if further.head?.any isNameChar then
        .unrecognized (['f', 'n', d] ++ further.takeWhile Munch.isWordChar)
      else .lexeme .keyword ['f', 'n', d] := by
  have other : ¬isNameChar d := by
    rcases mark with rfl | rfl <;> decide
  have keyword : fixedKind? (String.ofList ['f', 'n', d]) = some .keyword := by
    rcases mark with rfl | rfl <;> decide
  have out (c : Char) : Outgrown ['f', 'n', d, c] :=
    outgrown_of_mixed (c := 'f') (d := d) (by simp) (by decide) (by simp) other (by simp)
  have stays : ¬growsInto (String.ofList ['f', 'n', d]) further.head? := by
    intro grows
    obtain ⟨c, -, fixed⟩ := (Option.any_eq_true _ _).mp grows
    rw [isFixedLexeme_iff, push_ofList] at fixed
    exact out c [] fixed
  by_cases goes : further.head?.any isNameChar
  · have goes' : wordGoesOn .keyword further.head? := goes
    have settled : ∀ c ∈ further.head?, joins 'f' c → Outgrown ('f' :: ['n', d] ++ [c]) :=
      fun c _ _ => out c
    have run := ofScan_run settled
    rw [joins_of_name (by decide)] at run
    rw [scanBehind, keyword]
    dsimp only
    rw [if_neg stays, if_pos goes', if_pos goes]
    apply run.trans
    exact ofGrammar_of_other (d := d) (by decide) (by simp) other
  · rw [if_neg goes]
    exact ofScan_fixed keyword stays goes

theorem scanBehind_fn {d : Char} (mark : d = '?' ∨ d = '/') (further : List Char) :
    scanBehind ['f', 'n'] (d :: further) = (scanBehind ['f', 'n', d] further).after 1 := by
  have keyword : fixedKind? (String.ofList ['f', 'n']) = some .keyword := by decide
  have grows : growsInto (String.ofList ['f', 'n']) (d :: further).head? := by
    rcases mark with rfl | rfl
    · exact (by decide : growsInto (String.ofList ['f', 'n']) (some '?'))
    · exact (by decide : growsInto (String.ofList ['f', 'n']) (some '/'))
  rw [scanBehind, keyword]
  dsimp only
  rw [if_pos grows]
  exact scanCandidate_cons further fun ends => Bool.noConfusion ends.2.1

/-- A word that is no fixed lexeme is joined by points and by what follows them. -/
theorem ofScan_free {h : Char} {u rest : List Char} (word : ∀ c ∈ h :: u, isNameChar c)
    (stops : ∀ d ∈ rest.head?, ¬isNameChar d) (free : fixedKind? (String.ofList (h :: u)) = none) :
    Munch.ofScan (h :: u ++ rest) ((scanBehind (h :: u) rest).after (h :: u).length) =
      Munch.ofGrammar ((h :: u ++ rest).takeWhile Munch.isWordChar) := by
  have name : isNameChar h := word h (by simp)
  have settled : ∀ c ∈ rest.head?, joins h c → Outgrown (h :: u ++ [c]) := by
    intro c first joined
    rw [joins_of_name name, Munch.isWordChar, Bool.or_eq_true, beq_iff_eq] at joined
    rcases joined with named | rfl
    · exact absurd named (stops c first)
    · exact outgrown_of_point (by simp)
  have run := ofScan_run settled
  rw [joins_of_name name] at run
  have whole : ∀ c ∈ h :: u, Munch.isWordChar c := by
    intro c mem
    rw [Munch.isWordChar, word c mem]
    rfl
  rw [List.takeWhile_append_of_pos whole, ← run, scanBehind, free]

theorem ofScan_word {h : Char} {u rest : List Char} (word : ∀ c ∈ h :: u, isNameChar c)
    (stops : ∀ d ∈ rest.head?, ¬isNameChar d) :
    Munch.ofScan (h :: u ++ rest) ((scanBehind (h :: u) rest).after (h :: u).length) =
      Munch.ofWord (h :: u ++ rest) := by
  rw [Munch.ofWord, takeWhile_run word stops, dropWhile_run word stops]
  dsimp only
  by_cases marked : h :: u = ['f', 'n'] ∧ (rest.head? = some '?' ∨ rest.head? = some '/')
  · rw [if_pos marked]
    obtain ⟨eq, mark⟩ := marked
    obtain ⟨d, further, rfl⟩ : ∃ d further, rest = d :: further := by
      cases rest with
      | nil => rcases mark with eq | eq <;> cases eq
      | cons d further => exact ⟨d, further, rfl⟩
    have mark' : d = '?' ∨ d = '/' := by simpa using mark
    rw [eq, scanBehind_fn mark', after_after]
    exact ofScan_marked mark' further
  · rw [if_neg marked]
    have stays : ¬growsInto (String.ofList (h :: u)) rest.head? := by
      intro grows
      cases first : rest.head? with
      | none => rw [first] at grows; cases grows
      | some d =>
        rw [first] at grows
        obtain ⟨eq, mark⟩ := marked_of_growsInto word (stops d first) grows
        exact marked ⟨eq, by rw [first]; exact mark.imp (congrArg some) (congrArg some)⟩
    have ends (kind : TokenKind) : ¬wordGoesOn kind rest.head? := by
      intro goes
      obtain ⟨d, first, named⟩ := (Option.any_eq_true _ _).mp (Bool.and_eq_true_iff.mp goes).2
      exact stops d first named
    have kinds := fixedKind?_word (u := u) (word h (by simp))
    by_cases keyword : isKeyword (String.ofList (h :: u))
    · rw [if_pos keyword] at kinds ⊢
      exact ofScan_fixed kinds stays (ends .keyword)
    · rw [if_neg keyword] at kinds ⊢
      by_cases type : isTypeName (String.ofList (h :: u))
      · rw [if_pos type] at kinds ⊢
        exact ofScan_fixed kinds stays (ends .type)
      · rw [if_neg type] at kinds ⊢
        exact ofScan_free word stops kinds

/-- The scan of a text that begins with a character of names. -/
theorem ofScan_name {c : Char} (name : isNameChar c) (tail : List Char) :
    Munch.ofScan (c :: tail) (scanCandidate "" false (c :: tail)) = Munch.ofWord (c :: tail) := by
  have named : ∀ d ∈ tail.takeWhile isNameChar, isNameChar d :=
    List.all_eq_true.mp List.all_takeWhile
  have stops : ∀ d ∈ (tail.dropWhile isNameChar).head?, ¬isNameChar d := by
    intro d first
    have stop := List.head?_dropWhile_not isNameChar tail
    rw [first] at stop
    exact Bool.eq_false_iff.mp stop
  have first : ∀ d ∈ [c], isNameChar d := by
    intro d mem
    rw [List.mem_singleton.mp mem]
    exact name
  have word : ∀ d ∈ c :: tail.takeWhile isNameChar, isNameChar d := by
    intro d mem
    rcases List.mem_cons.mp mem with rfl | mem
    · exact name
    · exact named d mem
  have whole := ofScan_word word stops
  rw [List.cons_append, List.takeWhile_append_dropWhile] at whole
  rw [← whole, scanCandidate_first]
  have behind := scanBehind_word first named (tail.dropWhile isNameChar)
  rw [List.takeWhile_append_dropWhile] at behind
  rw [behind, after_after]
  rfl

/-! ### Symbols -/

theorem growsInto_iff {u : List Char} {d : Char} :
    growsInto (String.ofList u) (some d) ↔ String.ofList (u ++ [d]) ∈ fixedLexemes := by
  rw [growsInto, Option.any_some, isFixedLexeme_iff, push_ofList]

theorem longestSymbol?_eq_none {c : Char} (unknown : String.singleton c ∉ symbols)
    (tail : List Char) : Munch.longestSymbol? (c :: tail) = none := by
  rw [Munch.longestSymbol?, List.argmax_eq_none, List.filter_eq_nil_iff]
  intro symbol mem front
  rw [List.isPrefixOf_iff_prefix] at front
  cases chars : symbol.toList with
  | nil =>
    have length := length_of_symbol symbol mem
    rw [chars, List.length_nil] at length
    omega
  | cons d more =>
    rw [chars, List.cons_prefix_cons] at front
    refine unknown (first_of_symbol symbol mem c ?_)
    rw [chars, front.1]
    rfl

/-- The longest symbol is the one that no other symbol at the front exceeds. -/
theorem longestSymbol?_eq_some_iff {text : List Char} {symbol : String} :
    Munch.longestSymbol? text = some symbol ↔
      symbol ∈ symbols ∧ symbol.toList <+: text ∧
        ∀ other ∈ symbols, other.toList <+: text →
          other.toList.length ≤ symbol.toList.length := by
  have among {entry : String} :
      (entry ∈ symbols.filter fun entry => entry.toList.isPrefixOf text) ↔
        entry ∈ symbols ∧ entry.toList <+: text := by
    rw [List.mem_filter, List.isPrefixOf_iff_prefix]
  have most {best other : String} (found : Munch.longestSymbol? text = some best)
      (known : other ∈ symbols) (front : other.toList <+: text) :
      other.toList.length ≤ best.toList.length :=
    List.le_of_mem_argmax (f := fun entry : String => entry.toList.length)
      (among.mpr ⟨known, front⟩) found
  constructor
  · intro found
    obtain ⟨mem, front⟩ := among.mp (List.argmax_mem found)
    exact ⟨mem, front, fun other known front' => most found known front'⟩
  · rintro ⟨mem, front, longest⟩
    cases found : Munch.longestSymbol? text with
    | none =>
      have listed := among.mpr ⟨mem, front⟩
      rw [List.argmax_eq_none.mp found] at listed
      cases listed
    | some best =>
      -- Two prefixes of the same length are the same symbol.
      have at_least := most found mem front
      obtain ⟨known, front'⟩ := among.mp (List.argmax_mem found)
      have same := (List.prefix_of_prefix_length_le front front' at_least).eq_of_length
        (Nat.le_antisymm at_least (longest best known front'))
      rw [String.toList_injective same]

/-- A symbol that does not grow with the next character is the longest one: there is none of more
than two characters. -/
theorem longestSymbol?_of_stays {u rest : List Char} (mem : String.ofList u ∈ symbols)
    (stays : ¬growsInto (String.ofList u) rest.head?) :
    Munch.longestSymbol? (u ++ rest) = some (String.ofList u) := by
  refine longestSymbol?_eq_some_iff.mpr ⟨mem, ?_, ?_⟩
  · rw [String.toList_ofList]
    exact List.prefix_append u rest
  · intro other known front
    rw [String.toList_ofList]
    by_contra longer
    have short := length_of_symbol _ mem
    have short' := length_of_symbol other known
    rw [String.toList_ofList] at short
    obtain ⟨more, eq⟩ :=
      List.prefix_of_prefix_length_le (List.prefix_append u rest) front (by omega)
    have one : more.length = 1 := by
      rw [← eq, List.length_append] at longer short'
      omega
    obtain ⟨d, rfl⟩ := List.length_eq_one_iff.mp one
    rw [← eq, List.prefix_append_right_inj] at front
    obtain ⟨further, rfl⟩ := front
    refine stays (growsInto_iff.mpr (List.mem_append_right _ ?_))
    rw [eq, String.ofList_toList]
    exact known

theorem ofScan_stays {u rest : List Char} (mem : String.ofList u ∈ symbols)
    (stays : ¬growsInto (String.ofList u) rest.head?) :
    Munch.ofScan (u ++ rest) ((scanBehind u rest).after u.length) = Munch.ofOther (u ++ rest) := by
  have kind := kind_of_symbol _ mem
  have ends {kind : TokenKind} (eq : kind =
      if String.ofList u = commentMark then .commentSeparator else .operator) :
      ¬wordGoesOn kind rest.head? := by
    intro goes
    have word := (Bool.and_eq_true_iff.mp goes).1
    rw [eq] at word
    split at word <;> cases word
  rw [ofScan_fixed kind stays (ends rfl), Munch.ofOther, longestSymbol?_of_stays mem stays]
  dsimp only
  rw [String.toList_ofList]

/-- The scan of a text that begins with a character of operators. -/
theorem ofScan_symbol {c : Char} (known : String.singleton c ∈ symbols) (tail : List Char) :
    Munch.ofScan (c :: tail) (scanCandidate "" false (c :: tail)) = Munch.ofOther (c :: tail) := by
  have other : ¬isNameChar c := not_nameChar_of_symbol _ known c (by simp)
  have first : String.ofList [c] ∈ symbols := known
  rw [scanCandidate_first]
  by_cases grows : growsInto (String.ofList [c]) tail.head?
  · obtain ⟨d, next, -⟩ := (Option.any_eq_true _ _).mp grows
    obtain ⟨rest, rfl⟩ := List.head?_eq_some_iff.mp next
    have pair : String.ofList [c, d] ∈ symbols := symbol_of_mem (growsInto_iff.mp grows) other
    have stays : ¬growsInto (String.ofList [c, d]) rest.head? := by
      intro further
      obtain ⟨e, next, -⟩ := (Option.any_eq_true _ _).mp further
      rw [next] at further
      have triple := length_of_symbol _ (symbol_of_mem (growsInto_iff.mp further) other)
      rw [String.toList_ofList] at triple
      simp at triple
    rw [scanBehind, kind_of_symbol _ first]
    dsimp only
    rw [if_pos grows, scanCandidate_cons rest fun ends => Bool.noConfusion ends.2.1, after_after]
    exact ofScan_stays pair stays
  · exact ofScan_stays first grows

/-- The scan of a text that begins with a character of no lexeme. -/
theorem ofScan_unknown {c : Char} (other : ¬isNameChar c) (mark : ¬isMark c)
    (unknown : String.singleton c ∉ symbols) (tail : List Char) :
    Munch.ofScan (c :: tail) (scanCandidate "" false (c :: tail)) = Munch.ofOther (c :: tail) := by
  have out := outgrown_of_other other unknown
  have settled : ∀ d ∈ tail.head?, joins c d → Outgrown (c :: [] ++ [d]) :=
    fun d _ _ => out.append [d]
  have run := ofScan_run settled
  have joined : Munch.isOtherChar c := by
    rw [Munch.isOtherChar, Bool.eq_false_iff.mpr other, Bool.eq_false_iff.mpr mark]
    rfl
  have no_digit : ¬c.isDigit := by
    intro digit
    exact other (isNameChar_iff.mpr (.inr digit))
  rw [joins_of_other other] at run
  rw [scanCandidate_first, scanBehind_outgrown out, Munch.ofOther,
    longestSymbol?_eq_none unknown, List.takeWhile_cons_of_pos joined]
  exact run.trans (ofGrammar_of_other no_digit (List.mem_cons_self ..) other)

/-- The scan of a text finds what stands at its front. -/
theorem ofScan_eq_ofText {c : Char} (mark : ¬isMark c) (tail : List Char) :
    Munch.ofScan (c :: tail) (scanCandidate "" false (c :: tail)) = Munch.ofText (c :: tail) := by
  rw [Munch.ofText, List.head?_cons, Option.any_some]
  split
  · rename_i name
    exact ofScan_name name tail
  · rename_i other
    by_cases known : String.singleton c ∈ symbols
    · exact ofScan_symbol known tail
    · exact ofScan_unknown other mark known tail

end RatLang
