import Mathlib
import RatLang.Proofs.Lexer.History
import RatLang.Proofs.Parser.Course

/-!
# Terminators stay apart

A statement needs one terminator behind it, and no more than one is ever there. The lexer adds no
second one. Where comments are left out in front of the parser, terminators can meet, and each run
of them is reduced to its first one. From then on they stay apart: the parser only takes tokens off
its queue, and the terminator that it puts back was taken from there.
-/

namespace RatLang

open RatLang.Parser (Happens)

/-- Are both tokens terminators? -/
def bothTerminators (t next : Token) : Bool := t.isTerminator && next.isTerminator

/-! ### Runs of terminators -/

/-- The first run of a list begins with its first element. -/
theorem exists_splitBy_cons {α : Type} (r : α → α → Bool) (a : α) (rest : List α) :
    ∃ g gs, (a :: rest).splitBy r = (a :: g) :: gs := by
  have whole := List.flatten_splitBy r (a :: rest)
  have filled := List.nil_notMem_splitBy r (a :: rest)
  cases groups : (a :: rest).splitBy r with
  | nil => simp [groups] at whole
  | cons first gs =>
    rw [groups] at whole filled
    cases first with
    | nil => simp at filled
    | cons b g =>
      obtain rfl : b = a := by simpa using congrArg List.head? whole
      exact ⟨g, gs, rfl⟩

/-- An element that goes with the next one joins its run. -/
theorem splitBy_cons_of_related {α : Type} {r : α → α → Bool} {a b : α} {rest g : List α}
    {gs : List (List α)} (related : r a b) (groups : (b :: rest).splitBy r = (b :: g) :: gs) :
    (a :: b :: rest).splitBy r = (a :: b :: g) :: gs := by
  obtain ⟨whole, filled, runs, breaks⟩ := List.splitBy_eq_iff.mp groups
  refine List.splitBy_eq_iff.mpr ⟨?_, ?_, ?_, ?_⟩
  · rw [whole]
    rfl
  · simpa using filled
  · rw [List.forall_mem_cons] at runs ⊢
    exact ⟨.cons_cons related runs.1, runs.2⟩
  · rw [List.isChain_cons] at breaks ⊢
    refine ⟨fun next front => ?_, breaks.2⟩
    obtain ⟨_, left, differ⟩ := breaks.1 next front
    exact ⟨List.cons_ne_nil _ _, left, differ⟩

/-- An element that does not go with the next one is a run of its own. -/
theorem splitBy_cons_of_unrelated {α : Type} {r : α → α → Bool} {a b : α} (rest : List α)
    (unrelated : r a b = false) :
    (a :: b :: rest).splitBy r = [a] :: (b :: rest).splitBy r := by
  have single : [a].splitBy r = [[a]] := rfl
  rw [← List.singleton_append, List.splitBy_append_cons rest (by simpa using unrelated), single]
  rfl

/-- To merge terminators is to keep the first token of every run of them. -/
theorem mergeTerminators_eq_flatMap (ts : List Token) :
    mergeTerminators ts = (ts.splitBy bothTerminators).flatMap (·.take 1) := by
  induction ts with
  | nil => rfl
  | cons t ts ih =>
    cases ts with
    | nil => rfl
    | cons next rest =>
      obtain ⟨g, gs, groups⟩ := exists_splitBy_cons bothTerminators next rest
      have merged : mergeTerminators (next :: rest) = next :: gs.flatMap (·.take 1) := by
        rw [ih, groups]
        rfl
      rw [mergeTerminators_cons merged]
      by_cases both : t.isTerminator && next.isTerminator
      · have related : bothTerminators t next := both
        rw [if_pos both, splitBy_cons_of_related related groups]
        rfl
      · have unrelated : bothTerminators t next = false := by
          simpa [bothTerminators] using both
        rw [if_neg both, splitBy_cons_of_unrelated rest unrelated, groups]
        rfl

/-! ### The queue -/

theorem Tidy.of_suffix {q q' : List Token} (h : Tidy q) (suffix : q' <:+ q) : Tidy q' :=
  ⟨fun t mem => h.noComment t (suffix.mem mem), h.apart.suffix suffix⟩

/-- Whatever is done with a lexer, no two terminators stand side by side among its tokens. In front
of the parser each run of terminators is reduced to its first one. And in every state that the
parser passes, there are no comments in the queue and no terminators side by side. -/
theorem terminators_apart :
    (∀ source history, ((Lexer.ofSource source).performAll history).tokens.toList.IsChain Apart) ∧
    (∀ tokens, (ParseState.ofTokens tokens).queue =
      ((tokens.filter fun t => !t.isComment).splitBy bothTerminators).flatMap (·.take 1)) ∧
    ∀ tokens s, Happens tokens (.at s) → Tidy s.queue := by
  refine ⟨fun source history => ?_, fun tokens => mergeTerminators_eq_flatMap _, ?_⟩
  · exact (Lexer.Spread.ofSource source).performAll history
  · intro tokens s passed
    exact (tidy_significant tokens).of_suffix (Parser.within_of_happens passed)

/-- Behind a conditional without an `else` the terminator in front of the next statement is put
back. A comment stood between it and another one. -/
theorem terminators_apart_restored :
    let opens : Token := ⟨.punctuator, "\x7b", ⟨1, 6⟩⟩
    let closes : Token := ⟨.punctuator, "\x7d", ⟨1, 7⟩⟩
    let ends : Token := ⟨.statementTerminator, ";", ⟨1, 9⟩⟩
    let next : Token := ⟨.identifier, "b", ⟨2, 1⟩⟩
    let tokens : List Token :=
      [⟨.keyword, "if", ⟨1, 1⟩⟩, ⟨.identifier, "a", ⟨1, 4⟩⟩, opens, closes, ends,
        ⟨.commentSeparator, "//", ⟨1, 11⟩⟩, ⟨.commentBody, "", ⟨1, 13⟩⟩,
        ⟨.statementTerminator, ";", ⟨1, 13⟩⟩, next]
    let restored : ParseState := ⟨[ends, next], ⟨1, 9⟩, []⟩
    Happens tokens (.at restored) ∧ Tidy restored.queue := by
  intro opens closes ends next tokens restored
  refine ⟨?passed, terminators_apart.2.2 tokens restored ?passed⟩
  have condition : (Parser.Call.expression 0).action
      ⟨[⟨.identifier, "a", ⟨1, 4⟩⟩, opens, closes, ends, next], ⟨1, 1⟩, []⟩ =
        .ok (.identifier ⟨"a", ⟨1, 4⟩⟩) ⟨[opens, closes, ends, next], ⟨1, 4⟩, []⟩ := by
    dsimp only [opens, closes, ends, next, Parser.Call.action]
    cbv
  have block : Parser.Call.body.action ⟨[opens, closes, ends, next], ⟨1, 4⟩, []⟩ =
      .ok [] ⟨[ends, next], ⟨1, 7⟩, []⟩ := by
    dsimp only [opens, closes, ends, next, Parser.Call.action]
    cbv
  have skipped : (Parser.Call.terminators none).action ⟨[ends, next], ⟨1, 7⟩, []⟩ =
      .ok (some ends) ⟨[next], ⟨1, 9⟩, []⟩ := rfl
  have branches : Parser.Occurs Parser.Call.elseBranches.program ⟨[ends, next], ⟨1, 7⟩, []⟩
      (.at restored) :=
    .behind skipped (.look (.restore (.here (.done []) restored)))
  refine .inside (.behind rfl (.look (.inside (.look (.inside ?_)))))
  exact .pop rfl (.behind condition (.behind block (.inside branches)))

end RatLang
