import RatLang.Proofs.Lexer.Pieces

/-!
# What a lexeme depends on

A lexeme is recognized by its own characters: it is the same lexeme when it stands alone, and what
stands behind it makes no difference unless it joins the lexeme. Whitespace and punctuation marks
join nothing but literals, and a literal ends at its quote.
-/

namespace RatLang

/-! ### Runs that a mark ends -/

theorem inside_line {u : List Char} (single : '\n' ∉ u) : ∀ c ∈ u, (c != '\n') = true := by
  intro c mem
  simpa using ne_of_mem_of_not_mem mem single

/-- A line goes on to its newline. -/
theorem takeWhile_newline {u : List Char} (single : '\n' ∉ u) (rest : List Char) :
    (u ++ '\n' :: rest).takeWhile (· != '\n') = u :=
  takeWhile_run (inside_line single) (by simp)

namespace Munch

theorem isWordChar_of_isNameChar (c : Char) (name : isNameChar c) : isWordChar c := by
  simp [isWordChar, name]

theorem not_isWordChar_of_mark {c : Char} (mark : isMark c) : ¬isWordChar c := by
  simp only [isWordChar, Bool.or_eq_true, beq_iff_eq, not_or]
  refine ⟨fun name => not_isMark_of_nameChar name mark, ?_⟩
  rintro rfl
  exact absurd mark (by decide)

/-- A character of no word ends what stands in front of it, unless it marks the keyword `fn`. -/
theorem ofWord_stop {c : Char} (stops : ¬isWordChar c) {w : List Char}
    (unmarked : w = ['f', 'n'] → c ≠ '?' ∧ c ≠ '/') (rest : List Char) :
    ofWord (w ++ c :: rest) = ofWord w := by
  have other : ¬isNameChar c := fun name => stops (isWordChar_of_isNameChar c name)
  unfold ofWord
  rw [takeWhile_stop other, dropWhile_stop other, takeWhile_stop stops]
  cases left : w.dropWhile isNameChar with
  | nil =>
    have whole : w.takeWhile isNameChar = w := by
      rw [← List.append_nil (w.takeWhile isNameChar), ← left, List.takeWhile_append_dropWhile]
    have plain : ¬(w = ['f', 'n'] ∧ (c = '?' ∨ c = '/')) := by
      rintro ⟨word, mark | mark⟩
      · exact (unmarked word).1 mark
      · exact (unmarked word).2 mark
    simp [whole, plain]
  | cons d behind =>
    have further : (behind ++ c :: rest).head?.any isNameChar = behind.head?.any isNameChar := by
      cases behind <;> simp [other]
    simp only [List.cons_append, List.head?_cons, List.take_succ_cons, List.take_zero,
      List.drop_succ_cons, List.drop_zero, further, takeWhile_stop stops]

theorem ofWord_mark {c : Char} (mark : isMark c) (w rest : List Char) :
    ofWord (w ++ c :: rest) = ofWord w := by
  refine ofWord_stop (not_isWordChar_of_mark mark) (fun _ => ?_) rest
  constructor <;> rintro rfl <;> exact absurd mark (by decide)

theorem longestSymbol?_mark {c : Char} (mark : isMark c) (w rest : List Char) :
    longestSymbol? (w ++ c :: rest) = longestSymbol? w := by
  unfold longestSymbol?
  congr 1
  refine List.filter_congr fun symbol mem => ?_
  rw [Bool.eq_iff_iff, List.isPrefixOf_iff_prefix, List.isPrefixOf_iff_prefix]
  refine ⟨fun front => ?_, fun front => front.trans (List.prefix_append _ _)⟩
  rcases List.prefix_or_prefix_of_prefix front (List.prefix_append w (c :: rest)) with
    inside | ⟨more, eq⟩
  · exact inside
  · rw [← eq, List.prefix_append_right_inj] at front
    cases more with
    | nil =>
      rw [List.append_nil] at eq
      exact eq ▸ List.prefix_rfl
    | cons d more =>
      -- The symbol would hold the mark.
      have same : d = c := (List.cons_prefix_cons.mp front).1
      refine absurd mark (not_isMark_of_symbol symbol mem c ?_)
      rw [← eq, ← same]
      simp

theorem ofOther_mark {c : Char} (mark : isMark c) (w rest : List Char) :
    ofOther (w ++ c :: rest) = ofOther w := by
  have other : ¬isOtherChar c := by simp [isOtherChar, mark]
  unfold ofOther
  rw [longestSymbol?_mark mark, takeWhile_stop other]

/-- Nothing behind a mark belongs to the lexeme in front of it, and neither does the mark. -/
theorem ofText_mark {c : Char} (mark : isMark c) {w : List Char} (left : w ≠ [])
    (rest : List Char) : ofText (w ++ c :: rest) = ofText w := by
  unfold ofText
  rw [List.head?_append_of_ne_nil _ left, ofWord_mark mark, ofOther_mark mark]

end Munch

/-! ### Lexemes on their own -/

namespace Munch

theorem takeWhile_takeWhile_of_imp {p q : Char → Bool} (weaker : ∀ c, q c → p c)
    (text : List Char) : (text.takeWhile p).takeWhile q = text.takeWhile q := by
  induction text with
  | nil => rfl
  | cons c text ih =>
    by_cases inside : p c
    · by_cases inside' : q c <;> simp [inside, inside', ih]
    · have outside : ¬q c := fun h => inside (weaker c h)
      simp [inside, outside]

/-- Behind the characters of names, a run of the characters of words goes on with a point. -/
theorem head_dropWhile_name (text : List Char) :
    ∀ c ∈ ((text.takeWhile isWordChar).dropWhile isNameChar).head?, c = '.' := by
  intro c front
  have stop := List.head?_dropWhile_not isNameChar (text.takeWhile isWordChar)
  rw [front] at stop
  have inside : c ∈ text.takeWhile isWordChar :=
    (List.dropWhile_suffix _).mem (List.mem_of_mem_head? front)
  have word := List.all_eq_true.mp List.all_takeWhile c inside
  simpa [isWordChar, show isNameChar c = false by simpa using stop] using word

/-- A lexeme that begins like a name is the same lexeme when it stands alone. -/
theorem ofWord_alone {text chars : List Char} {kind : TokenKind}
    (h : ofWord text = .lexeme kind chars) : ofWord chars = .lexeme kind chars := by
  have names : ∀ c ∈ text.takeWhile isNameChar, isNameChar c :=
    List.all_eq_true.mp List.all_takeWhile
  have stops : ∀ c ∈ ([] : List Char).head?, ¬isNameChar c := by simp
  have run := takeWhile_run names stops
  have rest := dropWhile_run names stops
  rw [List.append_nil] at run rest
  unfold ofWord at h
  dsimp only at h
  split at h
  · rename_i marked
    split at h
    · cases h
    · cases h
      rcases marked with ⟨word, query | slash⟩
      · rw [word, List.take_one, query]
        decide
      · rw [word, List.take_one, slash]
        decide
  · split at h
    · rename_i keyword
      cases h
      simp only [ofWord, run, rest, keyword]
      simp
    · split at h
      · rename_i keyword type
        cases h
        simp only [ofWord, run, rest, keyword, type]
        simp
      · rename_i unmarked keyword type
        have same := ofGrammar_eq h
        subst same
        have point := head_dropWhile_name text
        have first : ¬(((text.takeWhile isWordChar).dropWhile isNameChar).head? = some '?' ∨
            ((text.takeWhile isWordChar).dropWhile isNameChar).head? = some '/') := by
          rintro (eq | eq)
          · exact absurd (point '?' eq) (by decide)
          · exact absurd (point '/' eq) (by decide)
        simp only [ofWord, takeWhile_takeWhile_of_imp isWordChar_of_isNameChar,
          takeWhile_takeWhile_of_imp fun c (h : isWordChar c) => h, first, keyword, type]
        simpa using h

/-- A lexeme is the same lexeme when it stands alone. -/
theorem ofText_alone {text chars : List Char} {kind : TokenKind}
    (h : ofText text = .lexeme kind chars) : ofText chars = .lexeme kind chars := by
  obtain ⟨⟨rest, split⟩, some_read⟩ := prefix_of_ofText h
  have front : chars.head? = text.head? := by
    rw [← split, List.head?_append_of_ne_nil _ some_read]
  unfold ofText at h ⊢
  rw [front]
  split
  · rename_i name
    rw [if_pos name] at h
    exact ofWord_alone h
  · rename_i other
    rw [if_neg other] at h
    unfold ofOther at h ⊢
    split at h
    · rename_i symbol longest
      cases h
      obtain ⟨mem, -, -⟩ := longestSymbol?_eq_some_iff.mp longest
      have alone : longestSymbol? symbol.toList = some symbol :=
        longestSymbol?_eq_some_iff.mpr ⟨mem, List.prefix_rfl, fun _ _ front => front.length_le⟩
      rw [alone]
    · cases h

end Munch

/-! ### What joins a lexeme -/

/-- The character does not join a lexeme of the kind. Of the literals only a char literal could
take one more quote. -/
def Parted (kind : TokenKind) (chars : List Char) (c : Char) : Prop :=
  match kind with
  | .charLiteral => c ≠ '\''
  | .operator => String.ofList (chars ++ [c]) ∉ fixedLexemes
  | .identifier | .keyword | .numericLiteral | .type =>
    ¬Munch.isWordChar c ∧ String.ofList (chars ++ [c]) ∉ fixedLexemes
  | .stringLiteral | .punctuator | .statementTerminator | .commentSeparator | .commentBody => True

/-- Whitespace joins no lexeme. -/
theorem parted_of_isBlank {c : Char} (blank : Text.isBlank c) (kind : TokenKind)
    (chars : List Char) : Parted kind chars c := by
  have mark : isMark c := by simp [isMark, blank]
  have free : String.ofList (chars ++ [c]) ∉ fixedLexemes := fun fixed =>
    not_isMark_of_fixed _ fixed c (by simp) mark
  cases kind with
  | charLiteral =>
    rintro rfl
    exact absurd blank (by decide)
  | operator => exact free
  | identifier | keyword | numericLiteral | type =>
    exact ⟨Munch.not_isWordChar_of_mark mark, free⟩
  | _ => trivial

namespace Munch

/-- A lexeme that begins like a name is of a kind that words have. -/
theorem kind_of_ofWord {text chars : List Char} {kind : TokenKind}
    (h : ofWord text = .lexeme kind chars) :
    kind = .identifier ∨ kind = .keyword ∨ kind = .numericLiteral ∨ kind = .type := by
  unfold ofWord ofGrammar at h
  grind

/-- A lexeme is the same lexeme where nothing behind it joins it. -/
theorem ofText_parted {text chars r : List Char} {kind : TokenKind}
    (h : ofText text = .lexeme kind chars) (other : kind ≠ .commentSeparator)
    (parted : ∀ c ∈ r.head?, Parted kind chars c) : ofText (chars ++ r) = .lexeme kind chars := by
  have alone := ofText_alone h
  obtain ⟨-, some_read⟩ := prefix_of_ofText h
  unfold ofText at alone ⊢
  rw [List.head?_append_of_ne_nil _ some_read]
  split
  · rename_i name
    rw [if_pos name] at alone
    cases r with
    | nil => rwa [List.append_nil]
    | cons c rest =>
      obtain ⟨stops, free⟩ :
          ¬isWordChar c ∧ String.ofList (chars ++ [c]) ∉ fixedLexemes := by
        have apart := parted c rfl
        rcases kind_of_ofWord alone with rfl | rfl | rfl | rfl <;> exact apart
      rw [ofWord_stop stops ?_ rest, alone]
      rintro rfl
      constructor <;> rintro rfl <;> exact free (by decide)
  · rename_i name
    rw [if_neg name] at alone
    unfold ofOther at alone ⊢
    cases longest : longestSymbol? chars with
    | none =>
      rw [longest] at alone
      cases alone
    | some symbol =>
      rw [longest] at alone
      injection alone with kind_eq chars_eq
      subst chars_eq
      have operator : kind = .operator := by
        split at kind_eq
        · exact absurd kind_eq.symm other
        · exact kind_eq.symm
      subst operator
      obtain ⟨mem, -, -⟩ := longestSymbol?_eq_some_iff.mp longest
      -- No symbol is longer than two characters, so only the next one could make it grow.
      have stays : ¬growsInto (String.ofList symbol.toList) r.head? := by
        intro grows
        obtain ⟨c, front, -⟩ := (Option.any_eq_true _ _).mp grows
        rw [front] at grows
        exact parted c front (growsInto_iff.mp grows)
      rw [longestSymbol?_of_stays (by rwa [String.ofList_toList]) stays, String.ofList_toList]
      exact congrArg (lexeme · symbol.toList) kind_eq

end Munch

/-- Only the mark of a comment opens one. -/
theorem Munch.eq_commentMark {text chars : List Char}
    (h : ofText text = .lexeme .commentSeparator chars) : chars = commentMark.toList := by
  unfold ofText ofWord ofOther ofGrammar at h
  grind

/-! ### Literals -/

theorem scanString_plain {c : Char} (quote : c ≠ '"') (newline : c ≠ '\n') (escape : c ≠ '\\')
    (inside : isStringChar c) (rest : List Char) :
    scanString (c :: rest) = (scanString rest).after 1 := by
  rw [scanString.eq_def]
  split <;> simp_all

/-- A string literal that closes is decided by the characters that are read. -/
theorem scanString_of_closed {l : List Char} (closed : (scanString l).ending = .closed) :
    (scanString l).reads ≤ l.length ∧
      ∀ r, scanString (l.take (scanString l).reads ++ r) = scanString l := by
  fun_induction scanString l with
  | case8 c rest quote newline single pair inside ih =>
    have escape : c ≠ '\\' := by
      rintro rfl
      cases rest <;> simp_all
    obtain ⟨reads, same⟩ := ih closed
    refine ⟨Nat.succ_le_succ reads, fun r => ?_⟩
    rw [Scan.after, List.take_succ_cons, List.cons_append,
      scanString_plain quote newline escape inside, same]
    rfl
  | _ => simp_all [scanString, Scan.after]

theorem scanString_append {l : List Char} (closed : (scanString l).ending = .closed)
    (r : List Char) : scanString (l ++ r) = scanString l := by
  have same := (scanString_of_closed closed).2 (l.drop (scanString l).reads ++ r)
  rwa [← List.append_assoc, List.take_append_drop] at same

theorem scanString_take {l : List Char} (closed : (scanString l).ending = .closed) :
    scanString (l.take (scanString l).reads) = scanString l := by
  simpa using (scanString_of_closed closed).2 []

theorem scanChar_single {rest : List Char} (other : rest.head? ≠ some '\'') :
    scanChar ('\'' :: rest) = ⟨1, .closed⟩ := by
  cases rest with
  | nil => rfl
  | cons d rest =>
    have single : ∀ more, d :: rest ≠ '\'' :: more := by
      rintro more ⟨⟩
      exact other rfl
    rw [scanChar]
    exact single

theorem scanChar_plain {c : Char} (quote : c ≠ '\'') (rest : List Char) :
    scanChar (c :: rest) =
      if isCharLiteralChar c then (scanChar rest).after 1 else ⟨1, .control⟩ := by
  rw [scanChar.eq_def]
  split <;> simp_all

theorem scanChar_append {l r : List Char} (closed : (scanChar l).ending = .closed)
    (other : r.head? ≠ some '\'') : scanChar (l ++ r) = scanChar l := by
  fun_induction scanChar l with
  | case3 rest single =>
    refine scanChar_single ?_
    cases rest with
    | nil => exact other
    | cons d rest => simpa using fun eq : d = '\'' => single rest (by rw [eq])
  | _ => simp_all [scanChar, Scan.after]

theorem scanChar_of_closed {l : List Char} (closed : (scanChar l).ending = .closed) :
    (scanChar l).reads ≤ l.length ∧ scanChar (l.take (scanChar l).reads) = scanChar l := by
  fun_induction scanChar l <;> simp_all [scanChar, Scan.after]

/-! ### Pieces -/

namespace Piece

variable {p q : Position} {d c : Char} {l w r : List Char} {piece : Piece}

theorem ofString_eq_ok :
    ofString p (d :: l) = .ok piece ↔ (scanString l).ending = .closed ∧
      piece = lexeme .stringLiteral (d :: l.take (scanString l).reads) p := by
  simp only [ofString, List.tail_cons, List.take_succ_cons]
  cases (scanString l).ending with
  | closed => simp [eq_comm]
  | unterminated | invalid => simp

theorem ofChar_eq_ok :
    ofChar p (d :: l) = .ok piece ↔ (scanChar l).ending = .closed ∧
      isCharLiteral (String.ofList (d :: l.take (scanChar l).reads)) ∧
      piece = lexeme .charLiteral (d :: l.take (scanChar l).reads) p := by
  simp only [ofChar, List.tail_cons, List.take_succ_cons]
  cases (scanChar l).ending with
  | closed =>
    by_cases literal : isCharLiteral (String.ofList (d :: l.take (scanChar l).reads))
    · simp only [literal, if_true, true_and, Except.ok.injEq]
      exact eq_comm
    · simp only [literal, Bool.false_eq_true, if_false, false_and, and_false, reduceCtorEq]
  | unterminated | control => simp

/-- A string literal stays the same with more behind it. -/
theorem ofString_append (h : ofString p (d :: l) = .ok piece) (r : List Char) :
    ofString p (d :: (l ++ r)) = .ok piece := by
  obtain ⟨closed, rfl⟩ := ofString_eq_ok.mp h
  refine ofString_eq_ok.mpr ?_
  rw [scanString_append closed, List.take_append_of_le_length (scanString_of_closed closed).1]
  exact ⟨closed, rfl⟩

theorem ofChar_append (h : ofChar p (d :: l) = .ok piece) (other : r.head? ≠ some '\'') :
    ofChar p (d :: (l ++ r)) = .ok piece := by
  obtain ⟨closed, literal, rfl⟩ := ofChar_eq_ok.mp h
  refine ofChar_eq_ok.mpr ?_
  rw [scanChar_append closed other, List.take_append_of_le_length (scanChar_of_closed closed).1]
  exact ⟨closed, literal, rfl⟩

theorem takeWhile_line {x : List Char} (newline : '\n' ∈ x) (r : List Char) :
    (x ++ r).takeWhile (· != '\n') = x.takeWhile (· != '\n') := by
  obtain ⟨u, v, rfl⟩ := List.append_of_mem newline
  rw [List.append_assoc, List.cons_append, takeWhile_stop (by simp), takeWhile_stop (by simp)]

theorem ofMunch_append (left : w ≠ []) (mark : isMark c)
    (h : ofMunch p (w ++ [c]) (.ofText (w ++ [c])) = .ok piece) (r : List Char) :
    ofMunch p (w ++ c :: r) (.ofText (w ++ c :: r)) = .ok piece ∨
      ∃ line, w ++ [c] = commentMark.toList ++ line ∧ '\n' ∉ line := by
  rw [Munch.ofText_mark mark left] at h ⊢
  cases found : Munch.ofText w with
  | unrecognized chars =>
    rw [found] at h
    cases h
  | lexeme kind chars =>
    obtain ⟨⟨u, rfl⟩, -⟩ := Munch.prefix_of_ofText found
    have more : u ++ c :: r = (u ++ [c]) ++ r := by simp
    rw [found, ofMunch, List.append_assoc, List.drop_left] at h
    rw [ofMunch, List.append_assoc, List.append_assoc, List.drop_left]
    by_cases separator : kind = .commentSeparator
    · subst separator
      rw [Munch.eq_commentMark found]
      rw [if_pos rfl] at h ⊢
      by_cases newline : '\n' ∈ u ++ [c]
      · left
        rw [more, takeWhile_line newline, ← Munch.eq_commentMark found]
        exact h
      · exact .inr ⟨u ++ [c], rfl, newline⟩
    · rw [if_neg separator] at h ⊢
      exact .inl h

/-- More text behind whitespace changes nothing, unless the whitespace belongs to a comment. -/
theorem ofText_append (left : w ≠ []) (blank : Text.isBlank c)
    (h : ofText p (w ++ [c]) = .ok piece) (other : r.head? ≠ some '\'') :
    ofText p (w ++ c :: r) = .ok piece ∨
      ∃ line, w ++ [c] = commentMark.toList ++ line ∧ '\n' ∉ line := by
  have more : w ++ c :: r = (w ++ [c]) ++ r := by simp
  obtain ⟨d, l, rfl⟩ := List.exists_cons_of_ne_nil left
  cases Front.of d with
  | string =>
    rw [more]
    exact .inl (ofString_append h r)
  | char =>
    rw [more]
    exact .inl (ofChar_append h other)
  | terminator => exact .inl h
  | punctuator double single mark =>
    rw [List.cons_append, ofText_punctuator double single mark] at h ⊢
    exact .inl h
  | munch goes plain =>
    rw [List.cons_append, ofText_munch goes plain] at h ⊢
    exact ofMunch_append left (by simp [isMark, blank]) h r

theorem ofMunch_alone {text chars : List Char} {kind : TokenKind}
    (h : ofMunch p text (.ofText text) = .ok (lexeme kind chars p)) :
    Munch.ofText text = .lexeme kind chars ∧ kind ≠ .commentSeparator := by
  cases found : Munch.ofText text with
  | unrecognized chars' =>
    rw [found] at h
    cases h
  | lexeme kind' chars' =>
    rw [found, ofMunch] at h
    split at h
    · simp [comment, lexeme] at h
    · rename_i other
      cases h
      exact ⟨rfl, other⟩

/-- A lexeme is the same lexeme wherever nothing behind it joins it. -/
theorem ofText_parted {text chars : List Char} {kind : TokenKind} (left : text ≠ [])
    (h : ofText p text = .ok (lexeme kind chars p)) (parted : ∀ c ∈ r.head?, Parted kind chars c) :
    ofText q (chars ++ r) = .ok (lexeme kind chars q) := by
  obtain ⟨d, l, rfl⟩ := List.exists_cons_of_ne_nil left
  cases Front.of d with
  | string =>
    obtain ⟨closed, eq⟩ := ofString_eq_ok.mp h
    cases eq
    refine ofString_append (ofString_eq_ok.mpr ?_) r
    rw [scanString_take closed, List.take_take, Nat.min_self]
    exact ⟨closed, rfl⟩
  | char =>
    obtain ⟨closed, literal, eq⟩ := ofChar_eq_ok.mp h
    cases eq
    refine ofChar_append (ofChar_eq_ok.mpr ?_) fun front => parted '\'' front rfl
    rw [(scanChar_of_closed closed).2, List.take_take, Nat.min_self]
    exact ⟨closed, literal, rfl⟩
  | terminator =>
    cases h
    rfl
  | punctuator double single mark =>
    rw [ofText_punctuator double single mark] at h
    cases h
    exact ofText_punctuator double single mark _
  | munch goes plain =>
    rw [ofText_munch goes plain] at h
    obtain ⟨found, other⟩ := ofMunch_alone h
    obtain ⟨⟨rest, split⟩, some_read⟩ := Munch.prefix_of_ofText found
    obtain ⟨d', u, rfl⟩ := List.exists_cons_of_ne_nil some_read
    cases split
    rw [List.cons_append, ofText_munch goes plain, ← List.cons_append,
      Munch.ofText_parted found other parted, ofMunch, if_neg other]

end Piece

end RatLang
