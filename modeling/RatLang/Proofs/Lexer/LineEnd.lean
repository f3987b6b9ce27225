import RatLang.Proofs.Lexer.Comment
import RatLang.Proofs.Lexer.Literal

/-!
# Line ends with a carriage return

A carriage return in front of a newline is whitespace behind a lexeme, and it is taken off the body
of a comment. So a text gives the same pieces with and without it, and the same errors. Only behind
a comment the newline begins one column later.
-/

namespace RatLang

/-- The text with a carriage return in front of every newline. -/
def crlf (text : List Char) : List Char :=
  text.flatMap fun c => if c = '\n' then ['\r', '\n'] else [c]

@[simp] theorem crlf_nil : crlf [] = [] := rfl

@[simp] theorem crlf_newline (text : List Char) : crlf ('\n' :: text) = '\r' :: '\n' :: crlf text :=
  rfl

@[simp] theorem crlf_cons {c : Char} (other : c ≠ '\n') (text : List Char) :
    crlf (c :: text) = c :: crlf text := by
  simp [crlf, other]

theorem crlf_append (u v : List Char) : crlf (u ++ v) = crlf u ++ crlf v := List.flatMap_append

/-- Within a line nothing changes. -/
theorem crlf_line {u : List Char} (single : '\n' ∉ u) : crlf u = u := by
  induction u with
  | nil => rfl
  | cons c u ih =>
    rw [List.mem_cons, not_or] at single
    rw [crlf_cons (Ne.symm single.1), ih single.2]

theorem crlf_ne_nil {text : List Char} (left : text ≠ []) : crlf text ≠ [] := by
  obtain ⟨c, l, rfl⟩ := List.exists_cons_of_ne_nil left
  by_cases newline : c = '\n' <;> simp [crlf, newline]

/-- A front without newlines stays. -/
theorem take_crlf {l : List Char} {n : Nat} (single : '\n' ∉ l.take n) :
    (crlf l).take n = l.take n := by
  induction n generalizing l with
  | zero => rfl
  | succ n ih =>
    cases l with
    | nil => rfl
    | cons c l =>
      rw [List.take_succ_cons, List.mem_cons, not_or] at single
      rw [crlf_cons (Ne.symm single.1), List.take_succ_cons, List.take_succ_cons, ih single.2]

theorem isBlank_crlf {text : List Char} (blank : ∀ c ∈ text, Text.isBlank c) :
    ∀ c ∈ crlf text, Text.isBlank c := by
  intro c mem
  obtain ⟨d, inside, mem⟩ := List.mem_flatMap.mp mem
  split at mem
  · simp only [List.mem_cons, List.not_mem_nil, or_false] at mem
    rcases mem with rfl | rfl <;> decide
  · rw [List.mem_singleton.mp mem]
    exact blank d inside

/-- What is no whitespace is no newline. -/
theorem ne_newline_of_stops {d : Char} {l : List Char}
    (stops : ∀ c ∈ (d :: l).head?, ¬Text.isBlank c) : d ≠ '\n' := by
  rintro rfl
  exact stops '\n' rfl (by decide)

theorem stops_crlf {text : List Char} (stops : ∀ c ∈ text.head?, ¬Text.isBlank c) :
    ∀ c ∈ (crlf text).head?, ¬Text.isBlank c := by
  cases text with
  | nil => exact stops
  | cons d text =>
    rw [crlf_cons (ne_newline_of_stops stops)]
    exact stops

theorem newline_mem_crlf {text : List Char} (newline : '\n' ∈ text) : '\n' ∈ crlf text :=
  List.mem_flatMap.mpr ⟨'\n', newline, by simp⟩

/-- What stands behind a text stands where it stood. -/
theorem Position.after_crlf (p : Position) (text : List Char) :
    p.after (crlf text) = p.after text := by
  induction text generalizing p with
  | nil => rfl
  | cons c text ih =>
    by_cases newline : c = '\n'
    · subst newline
      rw [crlf_newline, after_cons, after_cons, after_cons, ih]
      rfl
    · rw [crlf_cons newline, after_cons, after_cons, ih]

/-- The first character stays, unless it is a newline. -/
theorem head_crlf {d : Char} (other : d ≠ '\r') {text : List Char}
    (front : (crlf text).head? = some d) : text.head? = some d := by
  cases text with
  | nil => cases front
  | cons c text =>
    by_cases newline : c = '\n'
    · subst newline
      cases front
      exact absurd rfl other
    · rwa [crlf_cons newline] at front

/-! ### Scans -/

/-- A string literal ends in the same way. If it goes on to its end or to a character that may not
stand in it, there is no newline up to there. -/
theorem scanString_crlf (l : List Char) :
    (scanString (crlf l)).ending = (scanString l).ending ∧
      ((scanString l).ending ≠ .unterminated →
        (scanString (crlf l)).reads = (scanString l).reads ∧
          '\n' ∉ l.take (scanString l).reads) := by
  have inside_string : isStringChar '\r' = true := by decide
  fun_induction scanString l with
  | case6 c rest newline inside ih =>
    rw [crlf_cons (by decide), crlf_cons newline, scanString_escape newline inside]
    refine ⟨ih.1, fun stops => ?_⟩
    obtain ⟨reads, single⟩ := ih.2 stops
    exact ⟨by simp [Scan.after, reads], by simpa [Scan.after, Ne.symm newline] using single⟩
  | case7 c rest newline outside =>
    rw [crlf_cons (by decide), crlf_cons newline]
    simpa [scanString, newline, outside] using Ne.symm newline
  | case8 c rest quote newline single pair inside ih =>
    have escape : c ≠ '\\' := by
      rintro rfl
      cases rest <;> simp_all
    rw [crlf_cons newline, scanString_plain quote newline escape inside]
    refine ⟨ih.1, fun stops => ?_⟩
    obtain ⟨reads, single⟩ := ih.2 stops
    exact ⟨by simp [Scan.after, reads], by simpa [Scan.after, Ne.symm newline] using single⟩
  | case9 c rest quote newline single pair outside =>
    have escape : c ≠ '\\' := by
      rintro rfl
      cases rest <;> simp_all
    rw [crlf_cons newline, scanString_invalid quote newline escape outside]
    simpa using Ne.symm newline
  | _ => simp_all [scanString, Scan.after]

/-- A char literal ends at the same place, and the carriage return ends it as the newline does. -/
theorem scanChar_crlf (l : List Char) : scanChar (crlf l) = scanChar l := by
  fun_induction scanChar l with
  | case1 => rfl
  | case2 rest => simp [scanChar]
  | case3 rest single =>
    rw [crlf_cons (by decide)]
    refine scanChar_single fun front => ?_
    obtain ⟨more, rfl⟩ := List.head?_eq_some_iff.mp (head_crlf (by decide) front)
    exact single more rfl
  | case4 c rest single quote inside ih =>
    have newline : c ≠ '\n' := by
      rintro rfl
      exact absurd inside (by decide)
    rw [crlf_cons newline, scanChar_plain quote, if_pos inside, ih]
  | case5 c rest single quote outside =>
    by_cases newline : c = '\n'
    · subst newline
      rw [crlf_newline, scanChar_plain (by decide), if_neg (by decide)]
    · rw [crlf_cons newline, scanChar_plain quote, if_neg outside]

theorem scanChar_line {l : List Char} (closed : (scanChar l).ending = .closed) :
    '\n' ∉ l.take (scanChar l).reads := by
  fun_induction scanChar l with
  | case4 c rest single quote inside ih =>
    have newline : '\n' ≠ c := by
      rintro rfl
      exact absurd inside (by decide)
    simpa [Scan.after, newline] using ih closed
  | _ => simp_all

/-! ### Lexemes -/

namespace Munch

variable {text chars : List Char} {kind : TokenKind}

/-- There is no newline in a lexeme. -/
theorem newline_not_mem (first : text.head? ≠ some '\n') (h : ofText text = .lexeme kind chars) :
    '\n' ∉ chars := by
  intro newline
  obtain ⟨u, v, rfl, -⟩ := List.eq_append_cons_of_mem newline
  obtain ⟨⟨rest, split⟩, -⟩ := prefix_of_ofText h
  have left : u ≠ [] := by
    rintro rfl
    rw [← split] at first
    exact first rfl
  have alone := ofText_alone h
  rw [ofText_mark (by decide) left] at alone
  have short := (prefix_of_ofText alone).1.length_le
  rw [List.length_append, List.length_cons] at short
  omega

theorem ofText_crlf (left : text ≠ []) (first : text.head? ≠ some '\n') :
    ofText (crlf text) = ofText text := by
  by_cases newline : '\n' ∈ text
  · obtain ⟨u, v, rfl, single⟩ := List.eq_append_cons_of_mem newline
    have left' : u ≠ [] := by
      rintro rfl
      exact first rfl
    rw [crlf_append, crlf_line single, crlf_newline, ofText_mark (by decide) left',
      ofText_mark (by decide) left']
  · rw [crlf_line newline]

end Munch

/-! ### Pieces -/

/-- The same error at the same position. What is read of a char literal that is none may end with
the carriage return instead of the newline. -/
def LexError.Alike (cause cause' : LexError) : Prop :=
  cause = cause' ∨ ∃ lexeme lexeme' p,
    cause = .invalidCharLiteral lexeme p ∧ cause' = .invalidCharLiteral lexeme' p

namespace Piece

variable {p : Position} {d : Char} {l text rest : List Char} {piece : Piece} {cause : LexError}

theorem ofString_crlf (first : d ≠ '\n') (p : Position) (l : List Char) :
    ofString p (d :: crlf l) = ofString p (d :: l) := by
  obtain ⟨ending, reads⟩ := scanString_crlf l
  simp only [ofString, List.tail_cons, ending]
  cases stop : (scanString l).ending with
  | unterminated => rfl
  | closed =>
    obtain ⟨same, single⟩ := reads (by simp [stop])
    rw [same, List.take_succ_cons, List.take_succ_cons, take_crlf single]
  | invalid c =>
    obtain ⟨same, single⟩ := reads (by simp [stop])
    have shorter : '\n' ∉ (d :: l).take (scanString l).reads := by
      intro newline
      have inside := List.take_subset_take_left (d :: l) (Nat.le_succ _) newline
      rw [List.take_succ_cons, List.mem_cons] at inside
      exact inside.elim (Ne.symm first) single
    have front := take_crlf shorter
    rw [crlf_cons first] at front
    rw [same, front]

theorem ofChar_crlf (p : Position) (d : Char) (l : List Char) :
    (∀ piece, ofChar p (d :: l) = .ok piece → ofChar p (d :: crlf l) = .ok piece) ∧
      ∀ cause, ofChar p (d :: l) = .error cause →
        ∃ cause', ofChar p (d :: crlf l) = .error cause' ∧ cause.Alike cause' := by
  cases stop : (scanChar l).ending with
  | closed =>
    have same : ofChar p (d :: crlf l) = ofChar p (d :: l) := by
      simp only [ofChar, List.tail_cons, scanChar_crlf, stop, List.take_succ_cons,
        take_crlf (scanChar_line stop)]
      rfl
    rw [same]
    exact ⟨fun _ => id, fun cause failed => ⟨cause, failed, .inl rfl⟩⟩
  | unterminated =>
    simp only [ofChar, List.tail_cons, scanChar_crlf, stop]
    refine ⟨?_, fun cause failed => ⟨cause, failed, .inl rfl⟩⟩
    intro piece found
    cases found
  | control =>
    simp only [ofChar, List.tail_cons, scanChar_crlf, stop]
    constructor
    · intro piece found
      cases found
    · rintro cause ⟨⟩
      exact ⟨_, rfl, .inr ⟨_, _, p, rfl, rfl⟩⟩

/-- The pieces are the same, but for the carriage return behind a comment. -/
inductive Follows (p : Position) (text : List Char) (piece : Piece) : List Char → Prop where
  | same {rest : List Char} (found : ofText p (crlf text) = .ok piece)
    (split : crlf text = piece.chars ++ crlf rest) : Follows p text piece rest
  | comment {rest : List Char} (found : ofText p (crlf text) =
      .ok ⟨piece.chars ++ ['\r'], piece.tokens⟩)
    (split : crlf text = piece.chars ++ ['\r'] ++ '\n' :: crlf rest)
    (body : ∃ mark line, piece = .comment mark line p) : Follows p text piece ('\n' :: rest)

theorem Follows.of_single (single : '\n' ∉ piece.chars) (split : text = piece.chars ++ rest)
    (found : ofText p (crlf text) = .ok piece) : Follows p text piece rest :=
  .same found (by rw [split, crlf_append, crlf_line single])

theorem dropCarriageReturn_clean {line : List Char} (clean : '\r' ∉ line) :
    Source.dropCarriageReturn line = line :=
  if_neg fun last => clean (List.mem_of_getLast? last)

/-- The carriage return behind a comment does not belong to its body. -/
theorem comment_crlf {line : List Char} (clean : '\r' ∉ line) (mark : List Char) (p : Position) :
    comment mark (line ++ ['\r']) p =
      ⟨(comment mark line p).chars ++ ['\r'], (comment mark line p).tokens⟩ := by
  have body : Source.dropCarriageReturn (line ++ ['\r']) = line := by
    rw [Source.dropCarriageReturn, if_pos (by simp), List.dropLast_concat]
  simp only [comment, body, dropCarriageReturn_clean clean, List.append_assoc]

/-- The line of a comment ends with its newline or with the text. -/
theorem Follows.of_comment {mark more : List Char} (single : '\n' ∉ mark)
    (whole : text = mark ++ more) (clean : '\r' ∉ text)
    (split : text = (Piece.comment mark (more.takeWhile (· != '\n')) p).chars ++ rest)
    (found : ofText p (crlf text) =
      .ok (Piece.comment mark ((crlf more).takeWhile (· != '\n')) p)) :
    Follows p text (Piece.comment mark (more.takeWhile (· != '\n')) p) rest := by
  by_cases newline : '\n' ∈ more
  · obtain ⟨line, rest', rfl, single'⟩ := List.eq_append_cons_of_mem newline
    have clean' : '\r' ∉ line := fun mem => clean (by simp [whole, mem])
    have returned : crlf (line ++ '\n' :: rest') = (line ++ ['\r']) ++ '\n' :: crlf rest' := by
      rw [crlf_append, crlf_line single', crlf_newline, List.append_assoc]
      rfl
    rw [returned, takeWhile_newline (by simpa using single'), comment_crlf clean'] at found
    rw [takeWhile_newline single'] at split ⊢
    have behind : rest = '\n' :: rest' := by
      refine List.append_cancel_left (split.symm.trans ?_)
      rw [whole, Piece.comment, List.append_assoc]
    subst behind
    refine .comment found ?_ ⟨mark, line, rfl⟩
    rw [whole, crlf_append, crlf_line single, returned, Piece.comment]
    simp
  · have line : '\n' ∉ text := by simp [whole, single, newline]
    refine .of_single ?_ split ?_
    · exact fun mem => line (split ▸ List.mem_append_left rest mem)
    · rwa [crlf_line newline] at found

theorem ofMunch_crlf (left : text ≠ []) (first : text.head? ≠ some '\n') (clean : '\r' ∉ text)
    (found : ofMunch p text (.ofText text) = .ok piece) (split : text = piece.chars ++ rest)
    (same : ofText p (crlf text) = ofMunch p (crlf text) (.ofText (crlf text))) :
    Follows p text piece rest := by
  rw [Munch.ofText_crlf left first] at same
  cases munch : Munch.ofText text with
  | unrecognized chars =>
    rw [munch] at found
    cases found
  | lexeme kind chars =>
    have single := Munch.newline_not_mem first munch
    obtain ⟨⟨more, whole⟩, -⟩ := Munch.prefix_of_ofText munch
    have whole' : crlf text = chars ++ crlf more := by
      rw [← whole, crlf_append, crlf_line single]
    rw [munch, ofMunch, ← whole, List.drop_left] at found
    rw [munch, ofMunch, whole', List.drop_left, ← whole'] at same
    split at found
    · rename_i separator
      rw [if_pos separator] at same
      cases found
      exact .of_comment single whole.symm clean split same
    · rename_i separator
      rw [if_neg separator] at same
      cases found
      exact .of_single single split same

theorem ofText_crlf_ok (left : text ≠ []) (stops : ∀ c ∈ text.head?, ¬Text.isBlank c)
    (clean : '\r' ∉ text) (found : ofText p text = .ok piece) (split : text = piece.chars ++ rest) :
    Follows p text piece rest := by
  obtain ⟨d, l, rfl⟩ := List.exists_cons_of_ne_nil left
  have first := ne_newline_of_stops stops
  cases Front.of d with
  | string =>
    refine .of_single ?_ split ?_
    · obtain ⟨closed, rfl⟩ := ofString_eq_ok.mp found
      have single := ((scanString_crlf l).2 (by simp [closed])).2
      simpa [lexeme] using single
    · rw [crlf_cons first, ofText_string, ofString_crlf first]
      exact found
  | char =>
    refine .of_single ?_ split ?_
    · obtain ⟨closed, -, rfl⟩ := ofChar_eq_ok.mp found
      simpa [lexeme] using scanChar_line closed
    · rw [crlf_cons first, ofText_char]
      exact (ofChar_crlf p '\'' l).1 piece found
  | terminator =>
    cases found
    exact .of_single (by simp [terminatorMark]) split (by rw [crlf_cons first]; rfl)
  | punctuator double single mark =>
    rw [ofText_punctuator double single mark] at found
    cases found
    refine .of_single (by simpa [lexeme] using Ne.symm first) split ?_
    rw [crlf_cons first, ofText_punctuator double single mark]
  | munch goes plain =>
    rw [ofText_munch goes plain] at found
    refine ofMunch_crlf left (by simpa using first) clean found split ?_
    rw [crlf_cons first, ofText_munch goes plain]

theorem ofText_crlf_error (left : text ≠ []) (stops : ∀ c ∈ text.head?, ¬Text.isBlank c)
    (failed : ofText p text = .error cause) :
    ∃ cause', ofText p (crlf text) = .error cause' ∧ cause.Alike cause' := by
  obtain ⟨d, l, rfl⟩ := List.exists_cons_of_ne_nil left
  have first := ne_newline_of_stops stops
  rw [crlf_cons first]
  cases Front.of d with
  | string =>
    refine ⟨cause, ?_, .inl rfl⟩
    rw [ofText_string, ofString_crlf first]
    exact failed
  | char => exact (ofChar_crlf p '\'' l).2 cause failed
  | terminator => cases failed
  | punctuator double single mark =>
    rw [ofText_punctuator double single mark] at failed
    cases failed
  | munch goes plain =>
    refine ⟨cause, ?_, .inl rfl⟩
    rw [ofText_munch goes plain] at failed ⊢
    rw [← crlf_cons first, Munch.ofText_crlf left (by simpa using first)]
    cases munch : Munch.ofText (d :: l) with
    | lexeme kind chars =>
      rw [munch] at failed
      cases failed
    | unrecognized chars =>
      rw [munch] at failed
      exact failed

end Piece

/-! ### Tokens -/

/-- The same tokens at the same positions. Only a terminator behind the body of a comment may stand
elsewhere; `behind` says that a body of a comment stands in front of the lists. -/
inductive SameTokens : (behind : Bool) → List Token → List Token → Prop where
  | nil {behind : Bool} : SameTokens behind [] []
  | cons {behind : Bool} {t t' : Token} {ts ts' : List Token} (kind : t'.kind = t.kind)
    (lexeme : t'.lexeme = t.lexeme)
    (place : t'.position = t.position ∨ behind ∧ t.isTerminator)
    (rest : SameTokens (t.kind == .commentBody) ts ts') : SameTokens behind (t :: ts) (t' :: ts')

namespace SameTokens

variable {behind : Bool} {t t' : Token} {ts ts' : List Token}

theorem relax (h : SameTokens false ts ts') : SameTokens behind ts ts' := by
  cases h with
  | nil => exact .nil
  | cons kind lexeme place rest =>
    exact .cons kind lexeme (.inl (place.resolve_right (by simp))) rest

/-- The same token stands in front of both lists. -/
theorem same_cons (t : Token) (h : SameTokens (t.kind == .commentBody) ts ts') :
    SameTokens behind (t :: ts) (t :: ts') :=
  .cons rfl rfl (.inl rfl) h

theorem same_append (us : List Token) (h : SameTokens false ts ts') :
    SameTokens behind (us ++ ts) (us ++ ts') := by
  induction us generalizing behind with
  | nil => exact h.relax
  | cons u us ih => exact .same_cons u ih

/-- Behind a comment its terminator may stand elsewhere. -/
theorem behind_comment {mark line : List Char} {p q q' : Position}
    (h : SameTokens false ts (.terminator q :: ts')) :
    SameTokens behind ((Piece.comment mark line p).tokens ++ ts)
      ((Piece.comment mark line p).tokens ++ .terminator q' :: ts') := by
  cases h with
  | @cons _ t _ _ _ kind lexeme _ rest =>
    have ends : t.isTerminator := by
      rw [Token.isTerminator_iff, ← kind]
      rfl
    exact .same_cons _ (.same_cons _ (.cons kind lexeme (.inr ⟨rfl, ends⟩) rest))

/-- Terminators side by side are merged in the same way. -/
theorem mergeTerminators (h : SameTokens behind ts ts') :
    SameTokens behind (RatLang.mergeTerminators ts) (RatLang.mergeTerminators ts') := by
  induction h with
  | nil => exact .nil
  | @cons behind t t' ts ts' kind lexeme place _ ih =>
    have ends : t'.isTerminator = t.isTerminator := by
      rw [Token.isTerminator, Token.isTerminator, kind]
    generalize merged : RatLang.mergeTerminators ts = q at ih
    generalize merged' : RatLang.mergeTerminators ts' = q' at ih
    cases ih with
    | nil =>
      simp only [RatLang.mergeTerminators, merged, merged']
      exact .cons kind lexeme place .nil
    | @cons _ u u' more more' kind' lexeme' place' rest =>
      have ends' : u'.isTerminator = u.isTerminator := by
        rw [Token.isTerminator, Token.isTerminator, kind']
      rw [mergeTerminators_cons merged, mergeTerminators_cons merged', ends, ends']
      split
      · rename_i both
        rw [Bool.and_eq_true, Token.isTerminator_iff, Token.isTerminator_iff] at both
        rw [both.2] at rest
        exact .cons kind lexeme place rest.relax
      · exact .cons kind lexeme place (.cons kind' lexeme' place' rest)

end SameTokens

namespace Piece

variable {p : Position} {text : List Char}

/-- In front of a newline a carriage return is whitespace, wherever the line ends. -/
theorem cut_crlf_break (p : Position) (rest : List Char) :
    ∃ further : Except LexError (List Token),
      cut p (crlf ('\n' :: rest)) = further.map (.terminator p :: ·) ∧
      cut (p.next '\r') ('\n' :: crlf rest) = further.map (.terminator (p.next '\r') :: ·) := by
  have blank : ∀ c ∈ ['\r'], Text.isBlank c := List.forall_mem_singleton.mpr (by decide)
  exact ⟨_, cut_break blank (crlf rest), cut_break (List.forall_mem_nil _) (crlf rest)⟩

theorem cut_crlf_newline {blanks rest : List Char} (blank : ∀ c ∈ blanks, Text.isBlank c)
    (newline : '\n' ∈ blanks) (stops : ∀ c ∈ rest.head?, ¬Text.isBlank c) :
    cut p (crlf (blanks ++ rest)) =
      (cut (p.after blanks) (crlf rest)).map (.terminator p :: ·) := by
  rw [crlf_append, cut_newline (isBlank_crlf blank) (newline_mem_crlf newline) (stops_crlf stops),
    Position.after_crlf]

/-- A piece gives its tokens, and what comes next gives the same tokens as without it. Only behind
a comment its first token, a terminator, stands elsewhere. -/
theorem cut_crlf_piece {blanks rest : List Char} {piece : Piece}
    (blank : ∀ c ∈ blanks, Text.isBlank c) (plain : '\n' ∉ blanks)
    (stops : ∀ c ∈ text.head?, ¬Text.isBlank c) (left : text ≠ []) (clean : '\r' ∉ text)
    (found : ofText (p.after blanks) text = .ok piece) (split : text = piece.chars ++ rest) :
    cut p (crlf (blanks ++ text)) =
        (cut ((p.after blanks).after piece.chars) (crlf rest)).map (piece.tokens ++ ·) ∨
      ∃ (mark line : List Char) (q q' : Position) (further : Except LexError (List Token)),
        piece = comment mark line (p.after blanks) ∧
        cut ((p.after blanks).after piece.chars) (crlf rest) =
          further.map (.terminator q :: ·) ∧
        cut p (crlf (blanks ++ text)) =
          (further.map (.terminator q' :: ·)).map (piece.tokens ++ ·) := by
  rw [crlf_append, crlf_line plain]
  cases ofText_crlf_ok left stops clean found split with
  | same found' split' =>
    exact .inl (cut_piece blank plain (stops_crlf stops) (crlf_ne_nil left) found' split')
  | @comment rest found' split' body =>
    obtain ⟨mark, line, eq⟩ := body
    let q := (p.after blanks).after piece.chars
    obtain ⟨further, there, here⟩ := cut_crlf_break q rest
    refine .inr ⟨mark, line, q, q.next '\r', further, eq, there, ?_⟩
    rw [cut_piece blank plain (stops_crlf stops) (crlf_ne_nil left) found' split',
      Position.after_append, ← here]
    rfl

theorem Cuts.crlf {ts : List Token} (cuts : Cuts p text ts) (clean : '\r' ∉ text) :
    ∃ ts', cut p (RatLang.crlf text) = .ok ts' ∧ SameTokens false ts ts' := by
  induction cuts with
  | done blank plain =>
    rw [crlf_line plain, cut_done blank plain]
    exact ⟨[], rfl, .nil⟩
  | @newline p blanks rest ts blank newline stops _ ih =>
    obtain ⟨ts', eq, same⟩ := ih fun mem => clean (List.mem_append_right blanks mem)
    rw [cut_crlf_newline blank newline stops, eq]
    exact ⟨_, rfl, .same_cons _ same⟩
  | @piece p blanks text rest piece ts blank plain stops left found split _ ih =>
    have clean' : '\r' ∉ text := fun mem => clean (List.mem_append_right blanks mem)
    obtain ⟨ts', eq, same⟩ := ih fun mem => clean' (split ▸ List.mem_append_right _ mem)
    rcases cut_crlf_piece blank plain stops left clean' found split with
      here | ⟨mark, line, q, q', further, rfl, there, here⟩
    · rw [here, eq]
      exact ⟨_, rfl, same.same_append _⟩
    · -- Only the terminator behind the comment is exchanged; what comes behind it is the same.
      rw [there] at eq
      obtain ⟨us, rfl, rfl⟩ := ok_of_map eq
      exact ⟨_, here, same.behind_comment⟩

theorem Fails.crlf {cause : LexError} (fails : Fails p text cause) (clean : '\r' ∉ text) :
    ∃ cause', cut p (RatLang.crlf text) = .error cause' ∧ cause.Alike cause' := by
  induction fails with
  | failed blank plain stops left found =>
    obtain ⟨cause', found', alike⟩ := ofText_crlf_error left stops found
    rw [crlf_append, crlf_line plain]
    exact ⟨cause', cut_failed blank plain (stops_crlf stops) (crlf_ne_nil left) found', alike⟩
  | @newline p blanks rest cause blank newline stops _ ih =>
    obtain ⟨cause', eq, alike⟩ := ih fun mem => clean (List.mem_append_right blanks mem)
    rw [cut_crlf_newline blank newline stops, eq]
    exact ⟨cause', rfl, alike⟩
  | @piece p blanks text rest piece cause blank plain stops left found split _ ih =>
    have clean' : '\r' ∉ text := fun mem => clean (List.mem_append_right blanks mem)
    obtain ⟨cause', eq, alike⟩ := ih fun mem => clean' (split ▸ List.mem_append_right _ mem)
    refine ⟨cause', ?_, alike⟩
    rcases cut_crlf_piece blank plain stops left clean' found split with
      here | ⟨mark, line, q, q', further, -, there, here⟩
    · rw [here, eq]
      rfl
    · rw [there] at eq
      rw [here, error_of_map eq]
      rfl

end Piece

end RatLang
