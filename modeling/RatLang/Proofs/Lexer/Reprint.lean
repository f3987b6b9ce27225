import RatLang.Proofs.Lexer.Spaced

/-!
# Tokens that are printed are read back

The lexemes of a text with whitespace of any kind between them give the same words again, at other
places. Only a newline between them would be a token of its own.
-/

namespace RatLang

/-! ### The tokens of a text -/

/-- The same words have no terminators side by side either. -/
theorem apart_relocate {w w' : List Token} (apart : w.IsChain Apart) (same : SameWords w' w) :
    w'.IsChain Apart := by
  have bare : (w.map Token.bare).IsChain Apart := (List.isChain_map Token.bare).mpr apart
  rw [← same] at bare
  exact (List.isChain_map Token.bare).mp bare

/-- The same words are as tidy at other places. -/
theorem Tidy.relocate {w w' : List Token} (h : Tidy w) (same : SameWords w' w) : Tidy w' := by
  refine ⟨fun t mem comment => ?_, apart_relocate h.apart same⟩
  have inside : t.bare ∈ w.map Token.bare := same ▸ List.mem_map_of_mem mem
  obtain ⟨u, mem', eq⟩ := List.mem_map.mp inside
  have kind : u.kind = t.kind := by injection eq
  refine h.noComment u mem' ?_
  rwa [Token.isComment, kind]

/-- The tokens of a text have no terminators side by side. -/
theorem apart_of_tokenize {text : String} {ts : List Token} (lexed : tokenize text = .ok ts) :
    ts.IsChain Apart := by
  obtain ⟨ts, -, rfl⟩ := exists_cuts lexed
  exact apart_mergeTerminators ts

/-- Every token of a text without comments is recognized. -/
theorem recognized_of_tokenize {text : String} {ts : List Token} (lexed : tokenize text = .ok ts)
    (plain : ∀ t ∈ ts, ¬t.isComment) : ∀ t ∈ ts, Piece.Recognized t := by
  intro t mem
  obtain ⟨_, spells⟩ := spells_of_mem lexed mem (plain t mem)
  exact Piece.recognized_of_spells spells

/-- A text of separated words gives these words. -/
theorem tokenize_separated {ws : List (List Char × Token)} {ts : List Token}
    (words : ws.map Prod.snd = ts) (separated : Piece.Separated [] ws) (apart : ts.IsChain Apart) :
    ∃ ts', tokenize (String.ofList (Piece.spaced ws)) = .ok ts' ∧ SameWords ts' ts := by
  obtain ⟨ts', q, same, eq⟩ := Piece.cut_separated separated .start
  rw [words] at same
  have ended : Piece.cut q [] = .ok [] := Piece.cut_done (List.forall_mem_nil _) List.not_mem_nil
  rw [List.append_nil, ended] at eq
  refine ⟨ts', ?_, same⟩
  rw [tokenize_eq_cut, String.toList_ofList, eq]
  have merged := mergeTerminators_eq (apart_relocate apart same)
  simp [Except.map, merged]

/-! ### Separators -/

/-- Tokens with a separator of its own in front of each. -/
def gaps (separator : Nat → String) (ts : List Token) : List (List Char × Token) :=
  ts.mapIdx fun i t => ((separator i).toList, t)

/-- The lexemes of tokens, with separators between them. -/
def joinLexemes (separator : Nat → String) : List Token → String
  | [] => ""
  | t :: rest => t.lexeme ++ String.join (rest.mapIdx fun i u => separator i ++ u.lexeme)

section

variable {separator : Nat → String}

theorem of_mem_gaps {ts : List Token} {w : List Char × Token} (mem : w ∈ gaps separator ts) :
    (∃ i, w.1 = (separator i).toList) ∧ w.2 ∈ ts := by
  obtain ⟨i, bound, rfl⟩ := List.mem_mapIdx.mp mem
  exact ⟨⟨i, rfl⟩, List.getElem_mem bound⟩

theorem map_snd_gaps (ts : List Token) : (gaps separator ts).map Prod.snd = ts :=
  List.ext_getElem (by simp [gaps]) (by simp [gaps])

theorem spaced_gaps (ts : List Token) :
    Piece.spaced (gaps separator ts) =
      (String.join (ts.mapIdx fun i u => separator i ++ u.lexeme)).toList := by
  induction ts generalizing separator with
  | nil => rfl
  | cons t ts ih =>
    rw [gaps, List.mapIdx_cons, List.mapIdx_cons, Piece.spaced]
    simp only [gaps] at ih
    simp [ih]

theorem spaced_joinLexemes (t : Token) (rest : List Token) :
    String.ofList (Piece.spaced (([], t) :: gaps separator rest)) =
      joinLexemes separator (t :: rest) := by
  apply String.toList_injective
  rw [String.toList_ofList, Piece.spaced, spaced_gaps, joinLexemes, String.toList_append,
    List.nil_append]

/-- Separators of whitespace keep the words of a text apart. -/
theorem separated_gaps {t : Token} {rest : List Token}
    (words : ∀ u ∈ t :: rest, Piece.Recognized u) (given : ∀ i, separator i ≠ "")
    (blank : ∀ i, ∀ c ∈ (separator i).toList, Text.isBlank c ∧ c ≠ '\n') :
    Piece.Separated [] (([], t) :: gaps separator rest) := by
  refine Piece.separated_of_blanks ?_ ?_ ?_ (by simp)
  · refine List.forall_mem_cons.mpr ⟨by simp, fun w mem => ?_⟩
    obtain ⟨⟨i, eq⟩, -⟩ := of_mem_gaps mem
    rw [eq]
    exact ⟨fun c mem => (blank i c mem).1, fun newline => (blank i '\n' newline).2 rfl⟩
  · intro w mem
    obtain ⟨⟨i, eq⟩, -⟩ := of_mem_gaps mem
    rw [eq, ne_eq, String.toList_eq_nil_iff]
    exact given i
  · refine List.forall_mem_cons.mpr ⟨words t List.mem_cons_self, fun w mem => ?_⟩
    exact words w.2 (List.mem_cons_of_mem t (of_mem_gaps mem).2)

end

/-- Whatever whitespace without newlines is put between the lexemes of a text without comments, it
is cut into tokens of the same kinds with the same lexemes. -/
theorem tokenize_joinLexemes {text : String} {ts : List Token} {separator : Nat → String}
    (lexed : tokenize text = .ok ts) (plain : ∀ t ∈ ts, ¬t.isComment)
    (given : ∀ i, separator i ≠ "")
    (blank : ∀ i, ∀ c ∈ (separator i).toList, Text.isBlank c ∧ c ≠ '\n') :
    ∃ ts', tokenize (joinLexemes separator ts) = .ok ts' ∧ SameWords ts' ts := by
  have apart := apart_of_tokenize lexed
  cases ts with
  | nil =>
    have empty : String.ofList (Piece.spaced []) = joinLexemes separator [] := rfl
    rw [← empty]
    exact tokenize_separated List.map_nil .nil apart
  | cons t rest =>
    have separated := separated_gaps (recognized_of_tokenize lexed plain) given blank
    rw [← spaced_joinLexemes]
    exact tokenize_separated (congrArg (t :: ·) (map_snd_gaps rest)) separated apart

/-- A keyword and an operator that could both go on, a char literal that holds its quote, the end of
a line, a string literal that holds its quote, and a name. -/
theorem tokenize_joinLexemes_quotes :
    let text := "fn?+'\\''\n;\"a\\\"b\"x"
    let ts : List Token := [⟨.keyword, "fn?", ⟨1, 1⟩⟩, ⟨.operator, "+", ⟨1, 4⟩⟩,
      ⟨.charLiteral, "'\\''", ⟨1, 5⟩⟩, ⟨.statementTerminator, ";", ⟨1, 9⟩⟩,
      ⟨.stringLiteral, "\"a\\\"b\"", ⟨2, 2⟩⟩, ⟨.identifier, "x", ⟨2, 8⟩⟩]
    let separator (i : Nat) : String := if i = 2 then "\t\u2028" else " "
    tokenize text = .ok ts ∧
    joinLexemes separator ts = "fn? + '\\''\t\u2028; \"a\\\"b\" x" ∧
    ∃ ts', tokenize (joinLexemes separator ts) = .ok ts' ∧ SameWords ts' ts := by
  intro text ts separator
  have lexed : tokenize text = .ok ts := by decide +kernel
  have plain : ∀ t ∈ ts, ¬t.isComment := by decide
  have given (i : Nat) : separator i ≠ "" := by
    simp only [separator]
    split <;> decide
  have blank (i : Nat) : ∀ c ∈ (separator i).toList, Text.isBlank c ∧ c ≠ '\n' := by
    have checked : (separator i).toList.all fun c => Text.isBlank c && c != '\n' := by
      simp only [separator]
      split <;> decide
    simpa using checked
  have joined : joinLexemes separator ts = "fn? + '\\''\t\u2028; \"a\\\"b\" x" := by
    decide +kernel
  exact ⟨lexed, joined, tokenize_joinLexemes lexed plain given blank⟩

end RatLang
