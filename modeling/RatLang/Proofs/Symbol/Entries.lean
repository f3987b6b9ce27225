import Mathlib.Data.List.Basic
import Mathlib.Data.Prod.Basic
import RatLang.Proofs.OrderedMap
import RatLang.Symbol.Table

/-!
# Building a table

Pairs enter the two maps of a table one after the other, and what both maps hold by then are exactly
the pairs in front of the next one. So a list makes a table if no lexeme and no symbol occurs twice
in it, and then each lookup undoes the other. Otherwise the first pair with a lexeme or a symbol
that occurs in front of it is reported.
-/

namespace RatLang

namespace SymbolTable

/-- No lexeme and no symbol occurs twice. -/
def Distinct (entries : List (String × Symbol)) : Prop :=
  (entries.map Prod.fst).Nodup ∧ (entries.map Prod.snd).Nodup

/-- The lexeme or the symbol of the pair occurs among the given pairs. -/
def Taken (pair : String × Symbol) (before : List (String × Symbol)) : Prop :=
  pair.1 ∈ before.map Prod.fst ∨ pair.2 ∈ before.map Prod.snd

/-- What is reported of a pair that clashes with the pairs before it. -/
def clash (pair : String × Symbol) (before : List (String × Symbol)) : TableError :=
  if pair.1 ∈ before.map Prod.fst then .duplicateLexeme pair.1 else .duplicateSymbol pair.2

/-- The pair at a place clashes with the pairs before it, and no pair before it does. -/
structure FirstClash (entries : List (String × Symbol)) (i : Nat) (pair : String × Symbol) :
    Prop where
  found : entries[i]? = some pair
  taken : Taken pair (entries.take i)
  fresh : ∀ j < i, ∀ earlier, entries[j]? = some earlier → ¬Taken earlier (entries.take j)

/-- The table holds these pairs and no others, in both directions and in their order. -/
structure Mirrors (table : SymbolTable) (pairs : List (String × Symbol)) : Prop where
  forward : table.forward.entries = pairs
  reverse : table.reverse.entries = pairs.map Prod.swap

variable {table : SymbolTable} {pair : String × Symbol}
  {entries pairs held front behind : List (String × Symbol)}

/-- A pair that clashes makes a list that is not distinct. -/
theorem Distinct.not_taken (distinct : Distinct (front ++ pair :: behind)) : ¬Taken pair front := by
  obtain ⟨lexemes, symbols⟩ := distinct
  rw [List.map_append, List.map_cons, List.nodup_append] at lexemes symbols
  rintro (lexeme | symbol)
  · exact lexemes.2.2 _ lexeme _ List.mem_cons_self rfl
  · exact symbols.2.2 _ symbol _ List.mem_cons_self rfl

/-! ### Both directions -/

theorem mirrors_empty : Mirrors empty [] := ⟨rfl, rfl⟩

namespace Mirrors

theorem lexemes (mirrors : Mirrors table pairs) :
    table.forward.entries.map Prod.fst = pairs.map Prod.fst := by
  rw [mirrors.forward]

theorem symbols (mirrors : Mirrors table pairs) :
    table.reverse.entries.map Prod.fst = pairs.map Prod.snd := by
  rw [mirrors.reverse, List.map_map]
  rfl

/-- No key of a map occurs twice, so what both maps hold is distinct. -/
theorem distinct (mirrors : Mirrors table pairs) : Distinct pairs :=
  ⟨mirrors.lexemes ▸ table.forward.nodup, mirrors.symbols ▸ table.reverse.nodup⟩

theorem symbol?_eq_some_iff (mirrors : Mirrors table pairs) {lexeme : String} {symbol : Symbol} :
    table.symbol? lexeme = some symbol ↔ (lexeme, symbol) ∈ pairs := by
  rw [symbol?, OrderedMap.get?_eq_some_iff, mirrors.forward]

theorem lexeme?_eq_some_iff (mirrors : Mirrors table pairs) {lexeme : String} {symbol : Symbol} :
    table.lexeme? symbol = some lexeme ↔ (lexeme, symbol) ∈ pairs := by
  rw [lexeme?, OrderedMap.get?_eq_some_iff, mirrors.reverse, ← Prod.swap_prod_mk,
    List.mem_map_of_injective Prod.swap_injective]

/-- The pairs and their order determine both maps. -/
theorem unique {other : SymbolTable} (mirrors : Mirrors table pairs)
    (mirrors' : Mirrors other pairs) : table = other := by
  ext1
  · exact OrderedMap.ext (mirrors.forward.trans mirrors'.forward.symm)
  · exact OrderedMap.ext (mirrors.reverse.trans mirrors'.reverse.symm)

/-! ### One pair -/

/-- A pair that does not clash replaces nothing in either map and comes last in both. -/
theorem insert_of_fresh (mirrors : Mirrors table held) (fresh : ¬Taken pair held) :
    ∃ larger, table.insert pair.1 pair.2 = .ok larger ∧ Mirrors larger (held ++ [pair]) := by
  obtain ⟨lexeme, symbol⟩ := not_or.mp fresh
  rw [← mirrors.lexemes] at lexeme
  rw [← mirrors.symbols] at symbol
  obtain ⟨forward, entered, lexemes⟩ := OrderedMap.insert_of_notMem lexeme
  obtain ⟨reverse, entered', symbols⟩ := OrderedMap.insert_of_notMem symbol
  refine ⟨⟨forward, reverse⟩, by rw [insert, entered, entered'], ?_, ?_⟩
  · rw [lexemes, mirrors.forward]
  · rw [symbols, mirrors.reverse, List.map_append]
    rfl

/-- A pair that clashes replaces something, its lexeme first. -/
theorem insert_of_taken (mirrors : Mirrors table held) (taken : Taken pair held) :
    table.insert pair.1 pair.2 = .error (clash pair held) := by
  rw [clash]
  by_cases lexeme : pair.1 ∈ held.map Prod.fst
  · rw [if_pos lexeme]
    rw [← mirrors.lexemes] at lexeme
    obtain ⟨old, replaced, entered⟩ := OrderedMap.insert_of_mem lexeme
    rw [insert, entered]
  · have symbol := taken.resolve_left lexeme
    rw [if_neg lexeme]
    rw [← mirrors.lexemes] at lexeme
    rw [← mirrors.symbols] at symbol
    obtain ⟨forward, entered, -⟩ := OrderedMap.insert_of_notMem lexeme
    obtain ⟨old, replaced, entered'⟩ := OrderedMap.insert_of_mem symbol
    rw [insert, entered, entered']

end Mirrors

/-! ### All pairs -/

/-- What entering pairs into a table that holds some already comes to. -/
inductive Fills (held pairs : List (String × Symbol)) : Except TableError SymbolTable → Prop where
  | filled {larger : SymbolTable} (mirrors : Mirrors larger (held ++ pairs)) :
    Fills held pairs (.ok larger)
  | refused {front behind : List (String × Symbol)} {pair : String × Symbol}
    (split : pairs = front ++ pair :: behind) (distinct : Distinct (held ++ front))
    (taken : Taken pair (held ++ front)) :
    Fills held pairs (.error (clash pair (held ++ front)))

/-- While pairs enter, both maps hold those that were there and those that have entered. -/
theorem Mirrors.fills (mirrors : Mirrors table held) (pairs : List (String × Symbol)) :
    Fills held pairs (table.insertAll pairs) := by
  induction pairs generalizing table held with
  | nil => exact .filled ((List.append_nil held).symm ▸ mirrors)
  | cons pair rest ih =>
    by_cases taken : Taken pair held
    · have nothing : held = held ++ [] := (List.append_nil held).symm
      have refused : Fills held (pair :: rest) (.error (clash pair (held ++ []))) :=
        .refused rfl (nothing ▸ mirrors.distinct) (nothing ▸ taken)
      rw [← nothing] at refused
      rw [insertAll, mirrors.insert_of_taken taken]
      exact refused
    · obtain ⟨larger, entered, mirrors'⟩ := mirrors.insert_of_fresh taken
      have moved (rest : List (String × Symbol)) : held ++ [pair] ++ rest = held ++ pair :: rest :=
        (List.append_cons held pair rest).symm
      rw [insertAll, entered]
      have filling := ih mirrors'
      dsimp only
      generalize larger.insertAll rest = outcome at filling
      cases filling with
      | filled all => exact .filled (moved rest ▸ all)
      | @refused front behind clashing split distinct taken =>
        rw [moved front] at distinct taken ⊢
        exact .refused (by rw [split, List.cons_append]) distinct taken

/-! ### A list of pairs -/

variable {i j : Nat}

theorem split_at (found : entries[i]? = some pair) :
    entries = entries.take i ++ pair :: entries.drop (i + 1) := by
  obtain ⟨bound, rfl⟩ := List.getElem?_eq_some_iff.mp found
  rw [← List.drop_eq_getElem_cons bound, List.take_append_drop]

theorem firstClash_of_split (distinct : Distinct front) (taken : Taken pair front) :
    FirstClash (front ++ pair :: behind) front.length pair where
  found := by simp
  taken := by simpa using taken
  fresh := by
    intro j before earlier found
    rw [List.getElem?_append_left before] at found
    rw [List.take_append_of_le_length (Nat.le_of_lt before)]
    rw [split_at found] at distinct
    exact distinct.not_taken

theorem FirstClash.not_distinct (first : FirstClash entries i pair) : ¬Distinct entries := by
  intro distinct
  rw [split_at first.found] at distinct
  exact distinct.not_taken first.taken

/-- There is only one first clash. -/
theorem FirstClash.unique {other : String × Symbol} (first : FirstClash entries i pair)
    (second : FirstClash entries j other) : i = j ∧ pair = other := by
  have same : i = j := by
    rcases Nat.lt_trichotomy i j with before | same | behind
    · exact absurd first.taken (second.fresh i before pair first.found)
    · exact same
    · exact absurd second.taken (first.fresh j behind other second.found)
  subst same
  exact ⟨rfl, Option.some.inj (first.found.symm.trans second.found)⟩

/-- What becomes of a list of pairs. -/
inductive Builds (entries : List (String × Symbol)) : Except TableError SymbolTable → Prop where
  | built {table : SymbolTable} (mirrors : Mirrors table entries) : Builds entries (.ok table)
  | clashes {i : Nat} {pair : String × Symbol} (first : FirstClash entries i pair) :
    Builds entries (.error (clash pair (entries.take i)))

theorem builds_ofEntries (entries : List (String × Symbol)) :
    Builds entries (ofEntries entries) := by
  have filling := mirrors_empty.fills entries
  rw [ofEntries]
  generalize empty.insertAll entries = outcome at filling
  cases filling with
  | filled mirrors => exact .built mirrors
  | @refused front behind pair split distinct taken =>
    subst split
    have first : FirstClash (front ++ pair :: behind) front.length pair :=
      firstClash_of_split distinct taken
    have report := Builds.clashes first
    rwa [List.take_left] at report

/-- Pairs become a table exactly if no lexeme and no symbol occurs twice among them. Both lookups of
the table find the pairs that were given, which it holds in their order. Otherwise some pair is the
first one with a lexeme or a symbol that occurs before it, and its lexeme is reported if that is the
one that does, and else its symbol. -/
theorem ofEntries_bijection (entries : List (String × Symbol)) :
    ((∃ table, ofEntries entries = .ok table) ↔
        (entries.map Prod.fst).Nodup ∧ (entries.map Prod.snd).Nodup) ∧
      (∀ table, ofEntries entries = .ok table →
        (∀ lexeme symbol,
          (table.symbol? lexeme = some symbol ↔ (lexeme, symbol) ∈ entries) ∧
          ((lexeme, symbol) ∈ entries ↔ table.lexeme? symbol = some lexeme)) ∧
        table.entries = entries ∧ table.size = entries.length) ∧
      (¬((entries.map Prod.fst).Nodup ∧ (entries.map Prod.snd).Nodup) →
        ∃ i pair, FirstClash entries i pair) ∧
      ∀ i pair, FirstClash entries i pair →
        ofEntries entries = .error
          (if pair.1 ∈ (entries.take i).map Prod.fst then .duplicateLexeme pair.1
          else .duplicateSymbol pair.2) := by
  have builds := builds_ofEntries entries
  refine ⟨⟨?_, ?_⟩, ?_, ?_, ?_⟩
  · rintro ⟨table, built⟩
    rw [built] at builds
    cases builds with
    | built mirrors => exact mirrors.distinct
  · intro distinct
    generalize ofEntries entries = outcome at builds
    cases builds with
    | @built table _ => exact ⟨table, rfl⟩
    | clashes first => exact absurd distinct first.not_distinct
  · intro table built
    rw [built] at builds
    cases builds with
    | built mirrors =>
      refine ⟨fun lexeme symbol => ⟨mirrors.symbol?_eq_some_iff, mirrors.lexeme?_eq_some_iff.symm⟩,
        mirrors.forward, ?_⟩
      rw [size, OrderedMap.size, mirrors.forward]
  · intro repeated
    generalize ofEntries entries = outcome at builds
    cases builds with
    | built mirrors => exact absurd mirrors.distinct repeated
    | clashes first => exact ⟨_, _, first⟩
  · intro i pair first
    generalize ofEntries entries = outcome at builds
    cases builds with
    | built mirrors => exact absurd mirrors.distinct first.not_distinct
    | clashes other =>
      obtain ⟨rfl, rfl⟩ := first.unique other
      rfl

/-- Two pairs without a clash are found from both sides. With two more, the third pair repeats a
symbol, and what the fourth one repeats is not looked at any more. -/
theorem ofEntries_bijection_symbol :
    (∃ table, ofEntries [("a", .typeInt), ("b", .typeChar)] = .ok table ∧
      table.symbol? "b" = some .typeChar ∧ table.lexeme? .typeInt = some "a" ∧ table.size = 2) ∧
    ofEntries [("a", .typeInt), ("b", .typeChar), ("c", .typeInt), ("a", .typeVoid)] =
      .error (.duplicateSymbol .typeInt) := by
  constructor
  · obtain ⟨⟨-, builds⟩, found, -⟩ := ofEntries_bijection [("a", .typeInt), ("b", .typeChar)]
    obtain ⟨table, built⟩ := builds (by decide)
    obtain ⟨lookups, -, size⟩ := found table built
    exact ⟨table, built, (lookups "b" .typeChar).1.mpr (by decide),
      (lookups "a" .typeInt).2.mp (by decide), size⟩
  · have first : FirstClash [("a", .typeInt), ("b", .typeChar), ("c", .typeInt), ("a", .typeVoid)]
        2 ("c", .typeInt) := by
      refine ⟨rfl, .inr (by decide), fun j before earlier found => ?_⟩
      rcases j with _ | _ | j
      · cases found
        simp [Taken]
      · cases found
        simp [Taken]
      · omega
    exact (ofEntries_bijection _).2.2.2 2 ("c", .typeInt) first

end SymbolTable

end RatLang
