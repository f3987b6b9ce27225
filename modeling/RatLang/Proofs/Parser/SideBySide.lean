import RatLang.Proofs.Parser.Terminator

/-!
# Programs side by side

No statement ends with a terminator, so a list of tokens can be taken apart wherever a terminator
stands at the outermost level. Two programs with a terminator between them are one program, and the
statements of a bare block are those of the program around it.
-/

namespace RatLang

namespace Grammar

/-! ### The last token of a statement -/

/-- The list ends with a token that is no terminator. -/
def Firm (w : List Token) : Prop := ∃ u t, w = u ++ [t] ∧ ¬t.isTerminator

theorem Firm.append {w : List Token} (v : List Token) (firm : Firm w) : Firm (v ++ w) := by
  obtain ⟨u, t, rfl, visible⟩ := firm
  exact ⟨v ++ u, t, (List.append_assoc v u [t]).symm, visible⟩

theorem Firm.cons {w : List Token} (t : Token) (firm : Firm w) : Firm (t :: w) :=
  firm.append [t]

theorem Firm.of_visible {w : List Token} (visible : Visible w) (some_given : w ≠ []) : Firm w :=
  ⟨w.dropLast, w.getLast some_given, (List.dropLast_append_getLast some_given).symm,
    visible _ (List.getLast_mem some_given)⟩

theorem Body.firm {w : List Token} {p : List Stmt} (h : Body w p) : Firm w := by
  obtain ⟨-, -, -, closes⟩ := h
  exact (Firm.append _ ⟨[], _, rfl, noTerminator_of_isPunct closes⟩).cons _ |>.append _

/-- Behind a body the branches of a conditional end with a body. -/
theorem Branches.firm {w : List Token} {branches : List Branch} (h : Branches w branches)
    {b : List Token} (before : Firm b) : Firm (b ++ w) := by
  cases h with
  | nil => rwa [List.append_nil]
  | elseIf skipped opens skipped' opens' condition body rest =>
    have bodies := rest.firm body.firm
    exact (((((bodies.append _).cons _).append _).cons _).append _).append b
  | last skipped opens body => exact ((body.firm.cons _).append _).append b

theorem Statement.firm {w : List Token} {s : Stmt} (h : Statement w s) : Firm w := by
  cases h with
  | simple simple =>
    obtain ⟨t, v, form, rfl, -⟩ := simple.first
    exact .of_visible simple.visible (List.cons_ne_nil t v)
  | function front body => exact body.firm.append _
  | conditional opens condition body rest => exact ((rest.firm body.firm).append _).cons _

/-! ### Sequences -/

/-- Two lists of tokens between which a statement may end. -/
def Seam (w v : List Token) : Prop :=
  (∀ t ∈ w.getLast?, t.isTerminator) ∨ ∀ t ∈ v.head?, t.isTerminator

/-- The end of a list is the end of its last part. -/
theorem Seam.behind {u w v : List Token} (seam : Seam (u ++ w) v) : Seam w v := by
  rcases seam with ends | ends
  · refine .inl fun t last => ends t ?_
    rw [List.getLast?_append, last]
    rfl
  · exact .inr ends

/-- Where a statement may end between them, two sequences are one. -/
theorem Sequence.append {w v : List Token} {p q : List Stmt} :
    Sequence w p → Sequence v q → Seam w v → Sequence (w ++ v) (p ++ q)
  | .nil, second, _ => second
  | @Sequence.terminator t w _ ends rest, second, seam => by
    have seam' : Seam ([t] ++ w) v := seam
    exact .terminator ends (rest.append second seam'.behind)
  | @Sequence.block opening closing b w _ _ opens inner closes rest, second, seam => by
    have seam' : Seam ((opening :: (b ++ [closing])) ++ w) v := by simpa using seam
    simp only [List.cons_append, List.append_assoc]
    exact .block opens inner closes (rest.append second seam'.behind)
  | @Sequence.statement b w _ _ first ends rest, second, seam => by
    rw [List.append_assoc, List.cons_append]
    refine .statement first ?_ (rest.append second seam.behind)
    cases w with
    | cons t w => exact ends
    | nil =>
      rcases seam with terminated | terminated
      · obtain ⟨u, t, rfl, visible⟩ := first.firm
        exact absurd (terminated t (by simp)) visible
      · exact terminated

/-- The terminator in front of a sequence may be missing. -/
theorem Sequence.behind_terminator {t : Token} {w : List Token} {p : List Stmt}
    (ends : t.isTerminator) (h : Sequence (t :: w) p) : Sequence w p := by
  generalize whole : t :: w = v at h
  cases h with
  | nil => cases whole
  | terminator _ rest =>
    cases whole
    exact rest
  | block opens =>
    cases whole
    exact absurd ends (noTerminator_of_isPunct opens)
  | statement first =>
    obtain ⟨t', v, form, rfl, opens⟩ := first.first
    cases whole
    exact absurd ends opens.noTerminator

/-- Behind a terminator a sequence goes on with no other terminator. -/
theorem Sequence.exists_visible {t : Token} {v : List Token} {q : List Stmt} (ends : t.isTerminator)
    (apart : v.IsChain Apart) (h : Sequence v q) :
    ∃ v', Sequence v' q ∧ (t :: v').IsChain Apart ∧
      ∀ w, mergeTerminators (w ++ t :: v) = mergeTerminators (w ++ t :: v') := by
  cases v with
  | nil => exact ⟨[], h, .singleton t, fun _ => rfl⟩
  | cons u v =>
    by_cases again : u.isTerminator
    · refine ⟨v, h.behind_terminator again, ?_, fun w => mergeTerminators_twice w v ends again⟩
      exact apart.imp_head fun differ _ => differ again
    · exact ⟨u :: v, h, .cons_cons (fun _ => again) apart, fun _ => rfl⟩

/-- The terminator between two sequences is merged with one at the end of the first sequence, or it
stays. -/
theorem Sequence.join_apart {t : Token} {w v : List Token} {p q : List Stmt} (ends : t.isTerminator)
    (apart : w.IsChain Apart) (apart' : (t :: v).IsChain Apart) (first : Sequence w p)
    (second : Sequence v q) : Sequence (mergeTerminators (w ++ t :: v)) (p ++ q) := by
  by_cases terminated : ∃ s ∈ w.getLast?, s.isTerminator
  · obtain ⟨s, last, ends'⟩ := terminated
    obtain ⟨before, rfl⟩ := List.getLast?_eq_some_iff.mp last
    have chain : (before ++ [s] ++ v).IsChain Apart := by
      refine List.isChain_append.mpr ⟨apart, apart'.tail, fun _ _ y front _ => ?_⟩
      exact (List.isChain_cons.mp apart').1 y front ends
    have merged : mergeTerminators (before ++ [s] ++ t :: v) = before ++ [s] ++ v := by
      rw [← mergeTerminators_eq chain, List.append_assoc, List.append_assoc]
      exact mergeTerminators_twice before v ends' ends
    rw [merged]
    exact first.append second (.inl (by simpa using ends'))
  · have chain : (w ++ t :: v).IsChain Apart := by
      refine List.isChain_append.mpr ⟨apart, apart', fun x last _ _ ends' => ?_⟩
      exact absurd ⟨x, last, ends'⟩ terminated
    rw [mergeTerminators_eq chain]
    exact first.append (.terminator ends second) (.inr (by simpa using ends))

/-- Two sequences with a terminator between them are one, whatever the terminator is merged with. -/
theorem Sequence.join {t : Token} {u v : List Token} {p q : List Stmt} (ends : t.isTerminator)
    (first : Sequence (mergeTerminators u) p) (second : Sequence (mergeTerminators v) q) :
    Sequence (mergeTerminators (u ++ t :: v)) (p ++ q) := by
  obtain ⟨v', second', apart', dropped⟩ := second.exists_visible ends (apart_mergeTerminators v)
  have merged : mergeTerminators (u ++ t :: v) = mergeTerminators (mergeTerminators u ++ t :: v') :=
    calc mergeTerminators (u ++ t :: v)
      _ = mergeTerminators (mergeTerminators u ++ t :: v) :=
        (mergeTerminators_merged_append u (t :: v)).symm
      _ = mergeTerminators (mergeTerminators u ++ t :: mergeTerminators v) := by
        simpa using (mergeTerminators_append_merged (mergeTerminators u ++ [t]) v).symm
      _ = mergeTerminators (mergeTerminators u ++ t :: v') := dropped _
  rw [merged]
  exact first.join_apart ends (apart_mergeTerminators u) apart' second'

end Grammar

/-! ### Parsing -/

theorem significant_append_cons {t : Token} (ends : t.isTerminator) (ts us : List Token) :
    significant (ts ++ t :: us) =
      mergeTerminators (ts.filter (fun t => !t.isComment) ++
        t :: us.filter fun t => !t.isComment) := by
  have word := noComment_of_terminator ends
  rw [significant, List.filter_append, List.filter_cons_of_pos (by simpa using word)]

/-- Two programs with a terminator between them are one program. -/
theorem parse_append {t : Token} {ts us : List Token} {p q : List Stmt} (ends : t.isTerminator)
    (first : parse ts = .ok p) (second : parse us = .ok q) :
    parse (ts ++ t :: us) = .ok (p ++ q) := by
  apply parse_of_derives
  rw [significant_append_cons ends]
  exact (derives_of_parse first).join ends (derives_of_parse second)

/-- The statements between two braces are those of the program around them. -/
theorem parse_block {opening t t' closing t'' : Token} {ts us : List Token} {p q : List Stmt}
    (opens : opening.isPunct '\x7b') (ends : t.isTerminator) (ends' : t'.isTerminator)
    (closes : closing.isPunct '\x7d') (ends'' : t''.isTerminator)
    (inner : parse ts = .ok p) (rest : parse us = .ok q) :
    parse (opening :: t :: (ts ++ t' :: closing :: t'' :: us)) = .ok (p ++ q) := by
  let body := ts.filter fun t => !t.isComment
  let behind := us.filter fun t => !t.isComment
  have words : ((opening :: t :: (ts ++ t' :: closing :: t'' :: us)).filter fun t => !t.isComment) =
      opening :: (t :: (body ++ [t'])) ++ closing :: t'' :: behind := by
    have word := noComment_of_terminator ends
    have word' := noComment_of_terminator ends'
    have word'' := noComment_of_terminator ends''
    simp [body, behind, word, word', word'', Grammar.not_isComment_of_isPunct opens,
      Grammar.not_isComment_of_isPunct closes]
  have block : Grammar.Sequence (mergeTerminators (t :: (body ++ [t']))) p := by
    have terminated : Grammar.Sequence (mergeTerminators (body ++ [t'])) p := by
      simpa using (derives_of_parse inner).join (v := []) ends' .nil
    exact Grammar.Sequence.nil.join (u := []) ends terminated
  have more : Grammar.Sequence (mergeTerminators (t'' :: behind)) q :=
    Grammar.Sequence.nil.join (u := []) ends'' (derives_of_parse rest)
  apply parse_of_derives
  rw [significant, words, List.cons_append, ← List.nil_append (opening :: _),
    mergeTerminators_visible (Grammar.noTerminator_of_isPunct opens),
    mergeTerminators_visible (Grammar.noTerminator_of_isPunct closes)]
  exact .block opens block closes more

end RatLang
