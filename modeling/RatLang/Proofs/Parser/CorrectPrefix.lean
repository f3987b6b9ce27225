import Mathlib.Data.List.Chain
import RatLang.Proofs.Parser.Incremental.Sequence

/-!
# The correct-prefix property

A list of tokens that is no program is either the beginning of one, and then the parser has run out
of tokens, or it has a first token behind which nothing can help, and then the parser names this
token, whatever comes after it.
-/

namespace RatLang

/-- The tokens that count: there are no comments among them, and no terminators side by side. -/
def significant (tokens : List Token) : List Token :=
  mergeTerminators (tokens.filter fun t => !t.isComment)

/-- Some continuation of the tokens is a program. -/
def Viable (tokens : List Token) : Prop :=
  ∃ (us : List Token) (program : List Stmt), parse (tokens ++ us) = .ok program

/-! ### Tidied lists -/

/-- Two tokens that may stand side by side. -/
def Apart (t next : Token) : Prop := t.isTerminator → ¬next.isTerminator

/-- There are no comments in the list, and no terminators side by side. -/
structure Tidy (q : List Token) : Prop where
  noComment : ∀ t ∈ q, ¬t.isComment
  apart : q.IsChain Apart

theorem mergeTerminators_cons {t next : Token} {rest more : List Token}
    (merged : mergeTerminators rest = next :: more) :
    mergeTerminators (t :: rest) =
      if t.isTerminator && next.isTerminator then t :: more else t :: next :: more := by
  simp only [mergeTerminators, merged]

/-- Either a token stays in front of the merged rest, or it takes the place of a terminator. -/
theorem mergeTerminators_cases (t : Token) (q : List Token) :
    mergeTerminators (t :: q) = t :: mergeTerminators q ∨
      ∃ next more, t.isTerminator ∧ next.isTerminator ∧ mergeTerminators q = next :: more ∧
        mergeTerminators (t :: q) = t :: more := by
  cases merged : mergeTerminators q with
  | nil => exact .inl (by simp only [mergeTerminators, merged])
  | cons next more =>
    rw [mergeTerminators_cons merged]
    by_cases both : t.isTerminator && next.isTerminator
    · rw [if_pos both]
      rw [Bool.and_eq_true] at both
      exact .inr ⟨next, more, both.1, both.2, rfl, rfl⟩
    · rw [if_neg both]
      exact .inl rfl

theorem mergeTerminators_head (t : Token) (rest : List Token) :
    ∃ more, mergeTerminators (t :: rest) = t :: more := by
  cases merged : mergeTerminators rest with
  | nil => exact ⟨[], by simp only [mergeTerminators, merged]⟩
  | cons next more =>
    rw [mergeTerminators_cons merged]
    split
    · exact ⟨more, rfl⟩
    · exact ⟨next :: more, rfl⟩

theorem mergeTerminators_sublist (q : List Token) : (mergeTerminators q).Sublist q := by
  induction q with
  | nil => exact List.Sublist.refl _
  | cons t rest ih =>
    cases merged : mergeTerminators rest with
    | nil =>
      simp only [mergeTerminators, merged]
      exact (List.nil_sublist rest).cons_cons t
    | cons next more =>
      rw [mergeTerminators_cons merged]
      rw [merged] at ih
      split
      · exact ((List.sublist_cons_self next more).trans ih).cons_cons t
      · exact ih.cons_cons t

theorem apart_mergeTerminators (q : List Token) : (mergeTerminators q).IsChain Apart := by
  induction q with
  | nil => exact .nil
  | cons t rest ih =>
    cases merged : mergeTerminators rest with
    | nil =>
      simp only [mergeTerminators, merged]
      exact .singleton t
    | cons next more =>
      rw [mergeTerminators_cons merged]
      rw [merged] at ih
      split
      · rename_i both
        rw [Bool.and_eq_true] at both
        exact ih.imp_head fun apart _ => apart both.2
      · rename_i both
        rw [Bool.and_eq_true] at both
        exact .cons_cons (fun first second => both ⟨first, second⟩) ih

/-- What is tidy at the front stays as it is, whatever comes next. -/
theorem mergeTerminators_append {q : List Token} (apart : q.IsChain Apart) (us : List Token) :
    ∃ vs, mergeTerminators (q ++ us) = q ++ vs := by
  induction q with
  | nil => exact ⟨_, rfl⟩
  | cons t rest ih =>
    cases rest with
    | nil => exact mergeTerminators_head t us
    | cons next more =>
      obtain ⟨differ, apart'⟩ := List.isChain_cons_cons.mp apart
      obtain ⟨vs, merged⟩ := ih apart'
      refine ⟨vs, ?_⟩
      rw [List.cons_append, mergeTerminators_cons merged, if_neg]
      · rfl
      · rw [Bool.and_eq_true]
        exact fun both => differ both.1 both.2

/-- A list without terminators side by side stays as it is. -/
theorem mergeTerminators_eq {q : List Token} (apart : q.IsChain Apart) :
    mergeTerminators q = q := by
  obtain ⟨vs, eq⟩ := mergeTerminators_append apart []
  rw [List.append_nil] at eq
  have shorter := (mergeTerminators_sublist q).length_le
  rw [eq, List.length_append] at shorter
  rw [eq, List.length_eq_zero_iff.mp (by omega : vs.length = 0), List.append_nil]

/-- What is merged behind a token depends on nothing but the merged rest. -/
theorem mergeTerminators_congr {q q' : List Token} (t : Token)
    (same : mergeTerminators q = mergeTerminators q') :
    mergeTerminators (t :: q) = mergeTerminators (t :: q') := by
  simp only [mergeTerminators, same]

theorem mergeTerminators_append_congr (u : List Token) {v v' : List Token}
    (same : mergeTerminators v = mergeTerminators v') :
    mergeTerminators (u ++ v) = mergeTerminators (u ++ v') := by
  induction u with
  | nil => exact same
  | cons t u ih => exact mergeTerminators_congr t ih

/-- A terminator behind another one is dropped. -/
theorem mergeTerminators_twice {t u : Token} (before rest : List Token) (ends : t.isTerminator)
    (ends' : u.isTerminator) :
    mergeTerminators (before ++ t :: u :: rest) = mergeTerminators (before ++ t :: rest) := by
  induction before with
  | cons v before ih => exact mergeTerminators_congr v ih
  | nil =>
    obtain ⟨more, merged⟩ := mergeTerminators_head u rest
    rw [List.nil_append, List.nil_append, mergeTerminators_cons merged, ends, ends']
    cases behind : mergeTerminators rest with
    | nil =>
      simp only [mergeTerminators, behind] at merged ⊢
      cases merged
      rfl
    | cons v vs =>
      rw [mergeTerminators_cons behind, ends]
      rw [mergeTerminators_cons behind, ends'] at merged
      split at merged <;> cases merged <;> simp_all

/-- What is merged already is merged in the same way. -/
theorem mergeTerminators_append_merged (u v : List Token) :
    mergeTerminators (u ++ mergeTerminators v) = mergeTerminators (u ++ v) :=
  mergeTerminators_append_congr u (mergeTerminators_eq (apart_mergeTerminators v))

theorem mergeTerminators_merged_append (u v : List Token) :
    mergeTerminators (mergeTerminators u ++ v) = mergeTerminators (u ++ v) := by
  induction u with
  | nil => rfl
  | cons t u ih =>
    rw [List.cons_append, ← mergeTerminators_congr t ih]
    rcases mergeTerminators_cases t u with kept | ⟨next, more, ends, ends', merged, dropped⟩
    · rw [kept, List.cons_append]
    · rw [dropped, merged]
      exact (mergeTerminators_twice [] (more ++ v) ends ends').symm

/-- Nothing is merged across a token that is no terminator. -/
theorem mergeTerminators_visible {c : Token} (visible : ¬c.isTerminator) (u v : List Token) :
    mergeTerminators (u ++ c :: v) = mergeTerminators u ++ c :: mergeTerminators v := by
  induction u with
  | nil =>
    rcases mergeTerminators_cases c v with kept | ⟨_, _, ends, _⟩
    · exact kept
    · exact absurd ends visible
  | cons t u ih =>
    rw [List.cons_append]
    cases merged : mergeTerminators u with
    | nil =>
      rw [merged, List.nil_append] at ih
      have apart : ¬(t.isTerminator && c.isTerminator) := by simp [visible]
      rw [mergeTerminators_cons ih, if_neg apart]
      simp only [mergeTerminators, merged, List.cons_append, List.nil_append]
    | cons next more =>
      rw [merged, List.cons_append] at ih
      rw [mergeTerminators_cons ih, mergeTerminators_cons merged]
      split <;> rfl

theorem tidy_significant (tokens : List Token) : Tidy (significant tokens) := by
  refine ⟨?_, apart_mergeTerminators _⟩
  intro t mem
  have kept := (mergeTerminators_sublist _).subset mem
  simpa using (List.mem_filter.mp kept).2

theorem noComment_of_terminator {t : Token} (ends : t.isTerminator) : ¬t.isComment := by
  rw [Token.isTerminator_iff] at ends
  simp [Token.isComment, ends]

/-- A token that is no comment counts, unless it is merged with the token behind it. -/
theorem significant_cons {t : Token} (word : ¬t.isComment) (q : List Token) :
    significant (t :: q) = mergeTerminators (t :: q.filter fun t => !t.isComment) := by
  rw [significant, List.filter_cons_of_pos (by simpa using word)]

theorem significant_comment {t : Token} (comment : t.isComment) (q : List Token) :
    significant (t :: q) = significant q := by
  rw [significant, List.filter_cons_of_neg (by simpa using comment), significant]

/-- Merging terminators once more changes nothing that counts. -/
theorem significant_mergeTerminators (q : List Token) :
    significant (mergeTerminators q) = significant q := by
  induction q with
  | nil => rfl
  | cons t q ih =>
    rcases mergeTerminators_cases t q with kept | ⟨next, more, ends, ends', merged, eq⟩
    · rw [kept]
      by_cases comment : t.isComment
      · rw [significant_comment comment, significant_comment comment, ih]
      · rw [significant_cons comment, significant_cons comment]
        exact mergeTerminators_congr t ih
    · have word := noComment_of_terminator ends
      have word' := noComment_of_terminator ends'
      rw [merged, significant_cons word'] at ih
      rw [eq, significant_cons word, significant_cons word, ← mergeTerminators_congr t ih]
      exact (mergeTerminators_twice [] _ ends ends').symm

namespace Tidy

variable {q us : List Token}

/-- There is no comment to leave out. -/
theorem filter_eq (h : Tidy q) : q.filter (fun t => !t.isComment) = q := by
  apply List.filter_eq_self.mpr
  intro t mem
  simpa using h.noComment t mem

theorem significant_append (h : Tidy q) (us : List Token) :
    ∃ vs, significant (q ++ us) = q ++ vs := by
  rw [significant, List.filter_append, h.filter_eq]
  exact mergeTerminators_append h.apart _

theorem significant_eq (h : Tidy q) : significant q = q := by
  rw [significant, h.filter_eq, mergeTerminators_eq h.apart]

theorem append_plain (h : Tidy q) (plain : ∀ t ∈ us, t.Plain) : Tidy (q ++ us) := by
  constructor
  · intro t mem
    exact (List.mem_append.mp mem).elim (h.noComment t) fun mem => (plain t mem).2
  · refine List.isChain_append.mpr ⟨h.apart, ?_, ?_⟩
    · refine List.Pairwise.isChain (List.pairwise_of_forall_mem_list ?_)
      intro t _ next mem _
      exact (plain next mem).1
    · intro t _ next mem _
      exact (plain next (List.mem_of_mem_head? mem)).1

theorem of_append (h : Tidy (q ++ us)) : Tidy q :=
  ⟨fun t mem => h.noComment t (List.mem_append_left us mem), (List.isChain_append.mp h.apart).1⟩

end Tidy

/-! ### Runs on tidied lists -/

namespace ParseState

/-- The state in front of a queue. -/
def start (q : List Token) : ParseState := ⟨q, .start, []⟩

theorem start_extend (q us : List Token) : (start q).extend us = start (q ++ us) := rfl

end ParseState

namespace Parser

open ParseState (start)

/-- The program that a run gives, or its error. -/
def verdict {α : Type} : EStateM.Result ParseError ParseState α → Except ParseError α
  | .ok a _ => .ok a
  | .error cause _ => .error cause

theorem parse_eq (tokens : List Token) :
    parse tokens = verdict (run (sequence false) (start (significant tokens))) := by
  have same : parse tokens = verdict (run (sequence false) (ParseState.ofTokens tokens)) := by
    unfold parse run
    cases sequence false (ParseState.ofTokens tokens) <;> rfl
  exact same

theorem parse_significant (tokens : List Token) : parse (significant tokens) = parse tokens := by
  rw [parse_eq, parse_eq, (tidy_significant tokens).significant_eq]

/-- An action whose outcome is pending can still succeed. -/
theorem viable_of_pending {q : List Token} (tidy : Tidy q)
    (pending : Pending Used (run (sequence false) (start q))) : Viable q := by
  obtain ⟨us, plain, program, s', -, ok⟩ := (incremental_sequence false (start q)).completes pending
  obtain ⟨-, eq⟩ := ok [] fun _ => rfl
  refine ⟨us, program, ?_⟩
  rw [List.append_nil, ParseState.start_extend] at eq
  rw [parse_eq, (tidy.append_plain plain).significant_eq, eq]
  rfl

/-- The empty list is a program. -/
theorem run_nil : run (sequence false) (start []) = .ok [] (start []) := by
  rw [run_sequence]
  rfl

/-- A failure on a token is a failure on the first token that cannot stand where it stands. -/
theorem exists_earliest {q : List Token} {found expected : String} {position : Position}
    {s' : ParseState}
    (failed : run (sequence false) (start q) =
      .error (.unexpectedToken found expected position) s') :
    ∃ (before : List Token) (t : Token) (us : List Token) (s'' : ParseState),
      q = before ++ t :: us ∧ t.lexeme = found ∧ t.position = position ∧
      run (sequence false) (start (before ++ [t])) =
        .error (.unexpectedToken found expected position) s'' ∧
      Pending Used (run (sequence false) (start before)) := by
  obtain ⟨s₀, us, cut, ⟨t, last, lexeme, place⟩, s₀', eq⟩ :=
    (incremental_sequence false (start q)).blames _ _ _ _ failed
  obtain ⟨before, queue⟩ := List.getLast?_eq_some_iff.mp last
  have state : s₀ = start (before ++ [t]) := by
    have queues : q = s₀.queue ++ us := congrArg ParseState.queue cut
    have same : s₀.extend us = (start (before ++ [t])).extend us := by
      rw [← cut, ParseState.start_extend, queues, queue]
    exact ParseState.extend_injective same
  have split : q = before ++ t :: us := by
    have queues : q = s₀.queue ++ us := congrArg ParseState.queue cut
    rw [queues, queue, List.append_assoc, List.singleton_append]
  rw [state] at eq
  by_cases pending : Pending Used (run (sequence false) (start before))
  · exact ⟨before, t, us, s₀', split, lexeme, place, eq, pending⟩
  · -- The run has failed already, so that it has failed on the same token.
    have longer := (incremental_sequence false (start before)).stable pending [t]
    rw [ParseState.start_extend, eq] at longer
    cases earlier : run (sequence false) (start before) with
    | ok program s'' =>
      rw [earlier] at longer
      cases longer
    | error cause s'' =>
      rw [earlier] at longer
      injection longer with cause_eq
      rw [← cause_eq] at earlier
      have : before.length < q.length := by simp [split]
      obtain ⟨before', t', us', s₃, split', rest⟩ := exists_earliest earlier
      exact ⟨before', t', us' ++ t :: us, s₃, by simp [split, split'], rest⟩
termination_by q.length

/-- Behind the first token that cannot stand where it stands, nothing changes the error. -/
theorem parse_blamed {q : List Token} (tidy : Tidy q) {found expected : String}
    {position : Position} {s' : ParseState}
    (failed : run (sequence false) (start q) =
      .error (.unexpectedToken found expected position) s') (us : List Token) :
    parse (q ++ us) = .error (.unexpectedToken found expected position) := by
  obtain ⟨vs, eq⟩ := tidy.significant_append us
  have settled : ¬Pending Used (run (sequence false) (start q)) := by
    rw [failed]
    exact id
  have longer := (incremental_sequence false (start q)).stable settled vs
  rw [failed, ParseState.start_extend] at longer
  rw [parse_eq, eq, longer]
  rfl

end Parser

theorem parse_mergeTerminators (q : List Token) : parse (mergeTerminators q) = parse q := by
  rw [← Parser.parse_significant, significant_mergeTerminators, Parser.parse_significant]

/-- Every list of tokens is a program, or the beginning of one, or it has a first token that no
continuation can make good, and then the parser names this token whatever comes behind it. -/
theorem correct_prefix (tokens : List Token) :
    parse tokens = parse (significant tokens) ∧
    match parse (significant tokens) with
    | .ok _ => True
    | .error (.outOfTokens _ position) =>
      (∃ last, (significant tokens).getLast? = some last ∧ position = last.position) ∧
      Viable (significant tokens)
    | .error (.unexpectedToken found expected position) =>
      ∃ (i : Nat) (token : Token), (significant tokens)[i]? = some token ∧
        token.lexeme = found ∧ token.position = position ∧
        Viable ((significant tokens).take i) ∧
        ∀ us, parse ((significant tokens).take (i + 1) ++ us) =
          .error (.unexpectedToken found expected position) := by
  have tidy := tidy_significant tokens
  refine ⟨(Parser.parse_significant tokens).symm, ?_⟩
  rw [Parser.parse_significant, Parser.parse_eq]
  generalize significant tokens = ts at *
  cases eq : Parser.run (Parser.sequence false) (ParseState.start ts) with
  | ok program s' => trivial
  | error cause s' =>
    cases cause with
    | outOfTokens expected position =>
      have incremental := Parser.incremental_sequence false (ParseState.start ts)
      refine ⟨?_, Parser.viable_of_pending tidy (eq ▸ trivial)⟩
      have place : position = (ParseState.start ts).endPosition :=
        incremental.disciplined.concerns_of_error eq
      cases is_last : ts.getLast? with
      | none =>
        rw [List.getLast?_eq_none_iff.mp is_last, Parser.run_nil] at eq
        cases eq
      | some last =>
        refine ⟨last, rfl, ?_⟩
        rw [place, ParseState.endPosition, ParseState.start, is_last]
        rfl
    | unexpectedToken found expected position =>
      obtain ⟨before, t, us, s'', split, lexeme, place, failed, pending⟩ :=
        Parser.exists_earliest eq
      have split' : ts = (before ++ [t]) ++ us := by simp [split]
      have taken : ts.take (before.length + 1) = before ++ [t] := by
        rw [split']
        exact List.take_left' (by simp)
      refine ⟨before.length, t, by simp [split], lexeme, place, ?_, ?_⟩
      · rw [split, List.take_left]
        exact Parser.viable_of_pending (Tidy.of_append (split ▸ tidy)) pending
      · intro us'
        rw [taken]
        exact Parser.parse_blamed (Tidy.of_append (split' ▸ tidy)) failed us'

end RatLang
