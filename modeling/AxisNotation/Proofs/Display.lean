import AxisNotation.Proofs.Grammar

/-!
# Displaying and reading back

The display of a pattern puts single spaces between terms and around the arrow, so no two words run
together: it is cut into the tokens of its sides and the arrow (`Pattern.exists_cut`), provided that
the names are legal. A pattern is therefore read back from its display (`Pattern.parse_render`), up
to spans, on which the display does not depend (`Terms.render_of_same`).
-/

namespace AxisNotation

variable {position : Nat} {text : List Char} {tokens : List Token}

/-! ## Cuts of displayed texts -/

namespace Token.Cut

/-- A word by itself. -/
lemma single (kind : TokenKind) (proper : kind.Proper) :
    Cut position kind.text.toList [⟨kind, .ofWidth position kind.text.length⟩] := by
  have cut : Cut position (kind.text.toList ++ []) _ := .word proper kind.endsBefore_nil .nil
  rwa [List.append_nil] at cut

lemma space (cut : Cut (position + 1) text tokens) : Cut position (' ' :: text) tokens :=
  .blank (by decide) cut

lemma separates_space : TokenKind.Separates (' ' :: text) := by
  intro c hc
  cases hc
  exact ⟨by decide, by decide⟩

lemma separates_closing : TokenKind.Separates TokenKind.closing.text.toList := by
  intro c hc
  cases hc
  exact ⟨by decide, by decide⟩

end Token.Cut

lemma Term.toList_render_group (ms : Terms) (s : Span) : (Term.group ms s).render.toList
    = TokenKind.opening.text.toList
      ++ ((Terms.render ms).toList ++ TokenKind.closing.text.toList) := by
  rw [Term.render, String.toList_append, String.toList_append, List.append_assoc]
  rfl

lemma Terms.toList_render_cons (t u : Term) (us : Terms) : (Terms.render (t :: u :: us)).toList
    = t.render.toList ++ ' ' :: (Terms.render (u :: us)).toList := by
  rw [Terms.render, Terms.texts, Terms.texts, String.intercalate_cons_cons, String.toList_append,
    String.toList_append, List.append_assoc]
  rfl

mutual

lemma Term.exists_cut (t : Term) (legal : ∀ n ∈ t.names, Name.isLegal n = true) (position : Nat) :
    ∃ tokens, Token.Cut position t.render.toList tokens ∧ tokens.map (·.kind) = t.tokens := by
  cases t with
  | name n s => exact ⟨_, .single (.name n) (legal n (List.mem_singleton_self n)), rfl⟩
  | group ms s =>
    obtain ⟨enclosed, cut, kinds⟩ := Terms.exists_cut ms legal (position + 1)
    rw [Term.toList_render_group]
    refine ⟨_, .word trivial trivial
      (cut.append (.single .closing trivial) Token.Cut.separates_closing), ?_⟩
    rw [List.map_cons, List.map_append, kinds]
    rfl
  | ellipsis s => exact ⟨_, .single .ellipsis trivial, rfl⟩
  | unit s => exact ⟨_, .single .unit trivial, rfl⟩

/-- The text of terms is cut into their tokens. -/
lemma Terms.exists_cut (ts : Terms) (legal : ∀ n ∈ Terms.names ts, Name.isLegal n = true)
    (position : Nat) :
    ∃ tokens, Token.Cut position (Terms.render ts).toList tokens
      ∧ tokens.map (·.kind) = Terms.tokens ts := by
  cases ts with
  | nil => exact ⟨[], .nil, rfl⟩
  | cons t ts =>
    obtain ⟨legal_first, legal_rest⟩ := List.forall_mem_append.mp legal
    obtain ⟨first, cut, kinds⟩ := Term.exists_cut t legal_first position
    obtain ⟨others, cut', kinds'⟩ :=
      Terms.exists_cut ts legal_rest (position + t.render.toList.length + 1)
    cases ts with
    | nil =>
      refine ⟨first, cut, ?_⟩
      rw [kinds, Terms.tokens, Terms.tokens, List.append_nil]
    | cons u us =>
      rw [Terms.toList_render_cons]
      refine ⟨first ++ others, cut.append cut'.space Token.Cut.separates_space, ?_⟩
      rw [List.map_append, kinds, kinds']
      rfl

end

/-- The display of two sides is cut into their tokens and the arrow between them. -/
lemma Pattern.exists_cut {input output : Terms}
    (legal : ∀ n ∈ input.names ++ output.names, Name.isLegal n = true) :
    ∃ tokens, Token.Cut 0 (display input output).toList tokens
      ∧ tokens.map (·.kind) = Terms.tokens input ++ .arrow :: Terms.tokens output := by
  have chars : (display input output).toList = input.render.toList
      ++ ' ' :: (TokenKind.arrow.text.toList ++ ' ' :: output.render.toList) := by
    rw [display, String.toList_append, String.toList_append, List.append_assoc]
    rfl
  obtain ⟨legal_input, legal_output⟩ := List.forall_mem_append.mp legal
  obtain ⟨before, cut, kinds⟩ := Terms.exists_cut input legal_input 0
  obtain ⟨after, cut', kinds'⟩ := Terms.exists_cut output legal_output
    (0 + input.render.toList.length + 1 + TokenKind.arrow.text.length + 1)
  have arrow : Token.Cut _ (TokenKind.arrow.text.toList ++ ' ' :: output.render.toList) _ :=
    .word trivial trivial cut'.space
  rw [chars]
  refine ⟨_, cut.append arrow.space Token.Cut.separates_space, ?_⟩
  rw [List.map_append, List.map_cons, kinds, kinds']

/-! ## Texts and spans -/

mutual

lemma Term.render_bare (t : Term) : t.bare.render = t.render := by
  cases t with
  | name n s => rfl
  | group ms s => rw [Term.bare, Term.render, Term.render, Terms.texts_bare ms]
  | ellipsis s => rfl
  | unit s => rfl

/-- The texts of terms do not depend on their spans. -/
lemma Terms.texts_bare (ts : Terms) : Terms.texts (Terms.bare ts) = Terms.texts ts := by
  cases ts with
  | nil => rfl
  | cons t ts => rw [Terms.bare, Terms.texts, Terms.texts, Term.render_bare t, Terms.texts_bare ts]

end

lemma Terms.render_of_same {ts us : Terms} (h : ts.same us = true) : ts.render = us.render := by
  rw [Terms.same_iff] at h
  rw [Terms.render, Terms.render, ← texts_bare ts, ← texts_bare us, h]

/-! ## Patterns -/

/-- Words spell terms with legal names. -/
lemma Terms.Reads.legal {ts : Terms} (reads : Terms.Reads tokens ts)
    (proper : ∀ t ∈ tokens, t.kind.Proper) : ∀ n ∈ Terms.names ts, Name.isLegal n = true := by
  induction reads with
  | nil => exact nofun
  | name reads ih =>
    obtain ⟨first, rest⟩ := List.forall_mem_cons.mp proper
    exact List.forall_mem_cons.mpr ⟨first, ih rest⟩
  | unit reads ih => exact ih (List.forall_mem_cons.mp proper).2
  | ellipsis reads ih => exact ih (List.forall_mem_cons.mp proper).2
  | group _ _ ih_members ih =>
    obtain ⟨inner, outer⟩ := List.forall_mem_append.mp (List.forall_mem_cons.mp proper).2
    exact List.forall_mem_append.mpr ⟨ih_members inner, ih (List.forall_mem_cons.mp outer).2⟩

namespace Pattern

variable {p : Pattern}

/-- A parsed pattern has legal names. -/
lemma legal_of_parse {text : String} (h : parse text = .ok p) :
    ∀ n ∈ p.input.names ++ p.output.names, Name.isLegal n = true := by
  obtain ⟨tokens, scanned, reads⟩ := parse_eq_ok.mp h
  have proper := (Token.scanFrom_eq_ok.mp scanned).proper
  cases reads with
  | sides first second =>
    obtain ⟨before, rest⟩ := List.forall_mem_append.mp proper
    have after := (List.forall_mem_cons.mp rest).2
    exact List.forall_mem_append.mpr ⟨first.legal before, second.legal after⟩

lemma exists_parse_render (legal : ∀ n ∈ p.input.names ++ p.output.names, Name.isLegal n = true) :
    ∃ q, parse p.render = .ok q ∧ q.same p = true ∧ q.render = p.render := by
  obtain ⟨tokens, cut, kinds⟩ := exists_cut legal
  obtain ⟨q, reads, input, output⟩ := exists_reads p.render kinds
  refine ⟨q, parse_eq_ok.mpr ⟨tokens, Token.scanFrom_eq_ok.mpr cut, reads⟩, ?_, ?_⟩
  · exact Bool.and_eq_true_iff.mpr ⟨input, output⟩
  · rw [render, render, display, Terms.render_of_same input, Terms.render_of_same output]
    rfl

/-- A pattern with legal names, however it was made, is read back from its display, and so is every
parsed pattern. -/
theorem parse_render :
    (∀ p : Pattern, (∀ n ∈ p.input.names ++ p.output.names, Name.isLegal n = true) →
      ∃ q, parse p.render = .ok q ∧ q.same p = true ∧ q.render = p.render)
    ∧ ∀ text p, parse text = .ok p →
      ∃ q, parse p.render = .ok q ∧ q.same p = true ∧ q.render = p.render :=
  ⟨fun _ legal => exists_parse_render legal, fun _ _ h => exists_parse_render (legal_of_parse h)⟩

/-- An empty group and two ellipses next to a parenthesis are read back, and a text with other
spaces is the same pattern as its display. -/
theorem parse_render_dots :
    (∃ q, parse "(a () ...) ... -> " = .ok q ∧ q.render = "(a () ...) ... -> ")
    ∧ ∃ p q, parse " (a(  )... )...->" = .ok p ∧ parse p.render = .ok q ∧ q.same p = true := by
  have legal : ∀ n ∈ ["a"], Name.isLegal n = true := by decide +kernel
  obtain ⟨q, parsed, -, displayed⟩ := parse_render.1 (.ofSides [.group [.name "a" .nowhere,
    .group [] .nowhere, .ellipsis .nowhere] .nowhere, .ellipsis .nowhere] []) legal
  have spaced : (parse " (a(  )... )...->").map Pattern.render = .ok "(a () ...) ... -> " := by
    decide +kernel
  obtain ⟨p, parsed', -⟩ := map_eq_ok.mp spaced
  obtain ⟨q', back, same, -⟩ := parse_render.2 _ p parsed'
  exact ⟨⟨q, parsed, displayed⟩, p, q', parsed', back, same⟩

end Pattern

end AxisNotation
