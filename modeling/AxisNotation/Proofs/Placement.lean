import AxisNotation.Proofs.Display
import AxisNotation.Proofs.Rules
import AxisNotation.Proofs.Segmentation

/-!
# The places of terms

A term at any depth has the span from its first token to its last, and these are tokens of its side
that follow one another (`Terms.subterm_reads`). The characters from one token of a text to another
are cut into the tokens between them (`Token.Cut.slice`), so the characters at the span of a term
have the tokens of this term. With an arrow behind them they are read as the term
(`Pattern.exists_parse_chars`). Since tokens stand one after the other, so do terms
(`Pattern.spans_exact`).
-/

namespace AxisNotation

/-- Terms of which each ends before the next one starts. -/
def Terms.Apart (ts : Terms) : Prop :=
  ts.Pairwise fun a b => a.span.stop ≤ b.span.start

/-- Tokens that take some place each, one after the other. -/
structure Token.Spread (tokens : List Token) : Prop where
  nonempty : ∀ t ∈ tokens, t.span.start < t.span.stop
  apart : tokens.Pairwise fun a b => a.span.stop ≤ b.span.start

variable {position : Nat} {text : List Char} {tokens others before after mid : List Token}
  {a b : Token} {t : Term} {ts : Terms}

/-! ## Parts of cuts -/

namespace Token

lemma Cut.spread (cut : Cut position text tokens) : Spread tokens where
  nonempty t ht := (cut.inside t ht).2.1
  apart := cut.ordered

lemma Spread.of_part (spread : Spread tokens) (part : mid <:+: tokens) : Spread mid where
  nonempty t ht := spread.nonempty t (part.subset ht)
  apart := spread.apart.sublist part.sublist

namespace Cut

/-- The characters from a token on are cut into the tokens from this one on. -/
lemma from_token (cut : Cut position text (before ++ a :: after)) : ∃ skipped rest,
    text = skipped ++ rest ∧ a.span.start = position + skipped.length
      ∧ Cut a.span.start rest (a :: after) := by
  generalize whole : before ++ a :: after = tokens at cut
  induction cut generalizing before with
  | nil => simp at whole
  | @blank position c text tokens solid cut ih =>
    obtain ⟨skipped, rest, rfl, start, cut⟩ := ih whole
    refine ⟨c :: skipped, rest, rfl, ?_, cut⟩
    rw [start, List.length_cons, Nat.add_assoc, Nat.add_comm 1]
  | @word position kind text tokens proper ends cut ih =>
    cases before with
    | nil =>
      obtain ⟨rfl, rfl⟩ := List.cons.inj whole
      exact ⟨[], _, rfl, rfl, .word proper ends cut⟩
    | cons first before =>
      obtain ⟨rfl, behind⟩ := List.cons.inj whole
      obtain ⟨skipped, rest, rfl, start, cut⟩ := ih behind
      refine ⟨kind.text.toList ++ skipped, rest, (List.append_assoc _ _ _).symm, ?_, cut⟩
      rw [start, List.length_append, String.length_toList, Nat.add_assoc]

/-- The characters up to the end of a token are cut into the tokens up to this one. -/
lemma up_to_token (cut : Cut position text (before ++ b :: after)) : ∃ taken rest,
    text = taken ++ rest ∧ b.span.stop = position + taken.length
      ∧ Cut position taken (before ++ [b]) := by
  generalize whole : before ++ b :: after = tokens at cut
  induction cut generalizing before with
  | nil => simp at whole
  | @blank position c text tokens solid cut ih =>
    obtain ⟨taken, rest, rfl, stop, cut⟩ := ih whole
    refine ⟨c :: taken, rest, rfl, ?_, .blank solid cut⟩
    rw [stop, List.length_cons, Nat.add_assoc, Nat.add_comm 1]
  | @word position kind text tokens proper ends cut ih =>
    cases before with
    | nil =>
      obtain ⟨rfl, rfl⟩ := List.cons.inj whole
      refine ⟨kind.text.toList, text, rfl, ?_, .single kind proper⟩
      rw [String.length_toList]
      rfl
    | cons first before =>
      obtain ⟨rfl, behind⟩ := List.cons.inj whole
      obtain ⟨taken, rest, rfl, stop, cut⟩ := ih behind
      refine ⟨kind.text.toList ++ taken, rest, (List.append_assoc _ _ _).symm, ?_,
        .word proper ends.of_append cut⟩
      rw [stop, List.length_append, String.length_toList, Nat.add_assoc]

/-- The characters from the first to the last of tokens that follow one another are cut into
them. -/
lemma slice (cut : Cut 0 text tokens) (part : mid <:+: tokens) (first : mid.head? = some a)
    (last : mid.getLast? = some b) :
    Cut a.span.start (Span.chars ⟨a.span.start, b.span.stop⟩ text) mid := by
  obtain ⟨before, after, rfl⟩ := part
  obtain ⟨later, rfl⟩ := List.head?_eq_some_iff.mp first
  obtain ⟨earlier, whole⟩ := List.getLast?_eq_some_iff.mp last
  rw [List.append_assoc, List.cons_append] at cut
  obtain ⟨skipped, rest, rfl, start, cut⟩ := cut.from_token
  rw [← List.cons_append, whole, List.append_assoc] at cut
  obtain ⟨taken, rest, rfl, stop, cut⟩ := cut.up_to_token
  have chars : Span.chars ⟨a.span.start, b.span.stop⟩ (skipped ++ (taken ++ rest)) = taken := by
    rw [Span.chars, stop, start, Nat.zero_add, List.extract_eq_take_drop, List.drop_left,
      Nat.add_sub_cancel_left, List.take_left]
  rw [chars, whole]
  exact cut

/-- A token takes as many characters as its word has. -/
lemma width (cut : Cut position text tokens) :
    ∀ t ∈ tokens, t.span = .ofWidth t.span.start t.kind.text.length := by
  induction cut with
  | nil => exact List.forall_mem_nil _
  | blank solid cut ih => exact ih
  | word proper ends cut ih => exact List.forall_mem_cons.mpr ⟨rfl, ih⟩

/-- Wherever a text starts, it is cut into the same words. -/
lemma move (cut : Cut position text tokens) (start : Nat) :
    ∃ others, Cut start text others ∧ others.map (·.kind) = tokens.map (·.kind) := by
  induction cut generalizing start with
  | nil => exact ⟨[], .nil, rfl⟩
  | blank solid cut ih =>
    obtain ⟨others, cut, kinds⟩ := ih (start + 1)
    exact ⟨others, .blank solid cut, kinds⟩
  | @word position kind text tokens proper ends cut ih =>
    obtain ⟨others, cut, kinds⟩ := ih (start + kind.text.length)
    exact ⟨_, .word proper ends cut, congrArg (kind :: ·) kinds⟩

lemma separates_arrow : TokenKind.Separates TokenKind.arrow.text.toList := by
  intro c hc
  cases hc
  exact ⟨by decide, by decide⟩

end Cut

end Token

/-! ## The tokens of a subterm -/

namespace Terms

namespace Reads

/-- The tokens of the first term come first. -/
lemma of_cons (reads : Reads tokens (t :: ts)) :
    ∃ front rest, tokens = front ++ rest ∧ Reads front [t] ∧ Reads rest ts := by
  cases reads with
  | name reads => exact ⟨[_], _, rfl, .name .nil, reads⟩
  | unit reads => exact ⟨[_], _, rfl, .unit .nil, reads⟩
  | ellipsis reads => exact ⟨[_], _, rfl, .ellipsis .nil, reads⟩
  | @group o c enclosed tokens members ts inner reads =>
    exact ⟨⟨.opening, o⟩ :: (enclosed ++ [⟨.closing, c⟩]), tokens, by simp, .group inner .nil,
      reads⟩

end Reads

end Terms

mutual

lemma Term.subterm_reads (t : Term) {u : Term} {tokens : List Token}
    (reads : Terms.Reads tokens [t]) (h : u ∈ t.subterms) :
    ∃ mid, mid <:+: tokens ∧ Terms.Reads mid [u] := by
  cases t with
  | group ms s =>
    rcases List.mem_cons.mp h with rfl | inside
    · exact ⟨tokens, List.infix_rfl, reads⟩
    · cases reads with
      | group inner _ =>
        obtain ⟨mid, part, reads⟩ := Terms.subterm_reads ms inner inside
        exact ⟨mid, List.infix_cons (List.infix_append_of_infix_left part), reads⟩
  | _ =>
    obtain rfl := List.mem_singleton.mp h
    exact ⟨tokens, List.infix_rfl, reads⟩

/-- The tokens of a term at any depth follow one another. -/
lemma Terms.subterm_reads (ts : Terms) {u : Term} {tokens : List Token}
    (reads : Terms.Reads tokens ts) (h : u ∈ Terms.subterms ts) :
    ∃ mid, mid <:+: tokens ∧ Terms.Reads mid [u] := by
  cases ts with
  | nil => cases h
  | cons t ts =>
    obtain ⟨front, rest, rfl, first, reads⟩ := reads.of_cons
    rcases List.mem_append.mp h with here | later
    · obtain ⟨mid, part, reads⟩ := Term.subterm_reads t first here
      exact ⟨mid, List.infix_append_of_infix_left part, reads⟩
    · obtain ⟨mid, part, reads⟩ := Terms.subterm_reads ts reads later
      exact ⟨mid, List.infix_append_of_infix_right part, reads⟩

end

namespace Terms.Reads

/-- A term takes the place from its first token to its last. -/
lemma ends (reads : Reads tokens [t]) : ∃ a b, tokens.head? = some a ∧ tokens.getLast? = some b
    ∧ t.span = ⟨a.span.start, b.span.stop⟩ := by
  cases reads with
  | name reads =>
    cases reads
    exact ⟨_, _, rfl, rfl, rfl⟩
  | unit reads =>
    cases reads
    exact ⟨_, _, rfl, rfl, rfl⟩
  | ellipsis reads =>
    cases reads
    exact ⟨_, _, rfl, rfl, rfl⟩
  | @group o c enclosed tokens members _ inner reads =>
    cases reads
    refine ⟨⟨.opening, o⟩, ⟨.closing, c⟩, rfl, ?_, rfl⟩
    rw [← List.cons_append, List.getLast?_concat]

/-- A term at any depth starts where one token starts and stops where one stops. -/
lemma subterm_span (reads : Reads tokens ts) (h : t ∈ subterms ts) :
    ∃ a ∈ tokens, ∃ b ∈ tokens, t.span = ⟨a.span.start, b.span.stop⟩ := by
  obtain ⟨mid, part, reads⟩ := subterm_reads ts reads h
  obtain ⟨a, b, first, last, span⟩ := reads.ends
  exact ⟨a, part.subset (List.mem_of_head? first), b, part.subset (List.mem_of_getLast? last), span⟩

/-- The terms stand one after the other, as their tokens do. -/
lemma apart (reads : Reads tokens ts) (spread : Token.Spread tokens) : Apart ts := by
  induction ts generalizing tokens with
  | nil => exact .nil
  | cons t ts ih =>
    obtain ⟨front, rest, rfl, first, reads⟩ := reads.of_cons
    have ordered := List.pairwise_append.mp spread.apart
    refine .cons (fun u hu => ?_) (ih reads (spread.of_part (List.suffix_append _ _).isInfix))
    obtain ⟨_, -, b, hb, span⟩ := first.subterm_span (mem_subterms List.mem_cons_self)
    obtain ⟨a, ha, _, -, span'⟩ := reads.subterm_span (mem_subterms hu)
    rw [span, span']
    exact ordered.2.2 b hb a ha

/-- The members of a group stand between its parentheses, one after the other. -/
lemma group_apart {ms : Terms} {s : Span} (reads : Reads tokens ts) (spread : Token.Spread tokens)
    (h : .group ms s ∈ subterms ts) :
    Apart ms ∧ ∀ m ∈ ms, s.start < m.span.start ∧ m.span.stop < s.stop := by
  obtain ⟨mid, part, reads⟩ := subterm_reads ts reads h
  have spread := spread.of_part part
  cases reads with
  | @group o c enclosed tokens _ _ inner reads =>
    have within : enclosed <:+: ⟨.opening, o⟩ :: (enclosed ++ ⟨.closing, c⟩ :: tokens) :=
      List.infix_cons (List.prefix_append _ _).isInfix
    refine ⟨inner.apart (spread.of_part within), fun m hm => ?_⟩
    obtain ⟨a, ha, b, hb, span⟩ := inner.subterm_span (mem_subterms hm)
    obtain ⟨opened, ordered⟩ := List.pairwise_cons.mp spread.apart
    have low := opened a (List.mem_append_left _ ha)
    have high := (List.pairwise_append.mp ordered).2.2 b hb _ List.mem_cons_self
    have opening := spread.nonempty ⟨.opening, o⟩ List.mem_cons_self
    have closing := spread.nonempty ⟨.closing, c⟩ (by simp)
    rw [span]
    exact ⟨Nat.lt_of_lt_of_le opening low, Nat.lt_of_le_of_lt high closing⟩

end Terms.Reads

/-! ## Patterns -/

namespace Pattern

/-- Each side is read from a part of the tokens. -/
lemma Reads.exists_part {pattern : String} {p : Pattern} (reads : Reads pattern tokens p)
    (side : Side) : ∃ part, part <:+: tokens ∧ Terms.Reads part (p.side side) := by
  cases reads with
  | @sides before after s input output first second =>
    cases side with
    | input => exact ⟨before, (List.prefix_append _ _).isInfix, first⟩
    | output => exact ⟨after, ⟨before ++ [⟨.arrow, s⟩], [], by simp⟩, second⟩

/-- The arrow stands between the terms of the input and those of the output. -/
lemma Reads.arrow_between {pattern : String} {p : Pattern} (reads : Reads pattern tokens p)
    (cut : Token.Cut 0 text tokens) :
    Span.chars (.ofWidth p.source.arrow 2) text = "->".toList
      ∧ (∀ t ∈ p.input.subterms, t.span.stop ≤ p.source.arrow)
      ∧ ∀ t ∈ p.output.subterms, p.source.arrow + 2 ≤ t.span.start := by
  cases reads with
  | @sides before after s input output first second =>
    have two : TokenKind.arrow.text.length = 2 := by decide
    have arrow : s = .ofWidth s.start 2 := two ▸ cut.width ⟨.arrow, s⟩ (by simp)
    obtain ⟨-, behind, across⟩ := List.pairwise_append.mp cut.ordered
    refine ⟨?_, fun t ht => ?_, fun t ht => ?_⟩
    · rw [← arrow]
      exact cut.covers.written ⟨.arrow, s⟩ (by simp)
    · obtain ⟨_, -, b, hb, span⟩ := first.subterm_span ht
      rw [span]
      exact across b hb _ List.mem_cons_self
    · obtain ⟨a, ha, _, -, span⟩ := second.subterm_span ht
      have low := (List.pairwise_cons.mp behind).1 a ha
      rw [span]
      rw [arrow] at low
      exact low

/-- A term takes a part of the text. -/
lemma span_inside (cut : Token.Cut 0 text tokens) (part : mid <:+: tokens)
    (reads : Terms.Reads mid [t]) : t.span.start < t.span.stop ∧ t.span.stop ≤ text.length := by
  obtain ⟨a, b, first, last, span⟩ := reads.ends
  have last_mem := List.mem_of_getLast? last
  obtain ⟨low, nonempty, -⟩ := (cut.slice part first last).inside b last_mem
  obtain ⟨-, -, high⟩ := cut.inside b (part.subset last_mem)
  rw [span]
  exact ⟨Nat.lt_of_le_of_lt low nonempty, Nat.zero_add text.length ▸ high⟩

/-- The characters at a term, with an arrow behind them, are read as the term. -/
lemma exists_parse_chars (cut : Token.Cut 0 text tokens) (part : mid <:+: tokens)
    (reads : Terms.Reads mid [t]) :
    ∃ q, parse (String.ofList (t.span.chars text) ++ "->") = .ok q
      ∧ q.input.same [t] = true ∧ q.output.same [] = true := by
  obtain ⟨a, b, first, last, span⟩ := reads.ends
  obtain ⟨others, alone, kinds⟩ := (cut.slice part first last).move 0
  rw [← span] at alone
  obtain ⟨arrow, whole⟩ : ∃ arrow, Token.Cut 0
      (t.span.chars text ++ TokenKind.arrow.text.toList) (others ++ [⟨.arrow, arrow⟩]) :=
    ⟨_, alone.append (.single .arrow trivial) Token.Cut.separates_arrow⟩
  have kinds : List.map Token.kind (others ++ [⟨.arrow, arrow⟩])
      = Terms.tokens [t] ++ .arrow :: Terms.tokens [] := by
    rw [List.map_append, kinds, reads.kinds]
    rfl
  obtain ⟨q, reads, same⟩ := exists_reads (String.ofList (t.span.chars text) ++ "->") kinds
  refine ⟨q, parse_eq_ok.mpr ⟨_, Token.scanFrom_eq_ok.mpr ?_, reads⟩, same⟩
  rw [String.toList_append, String.toList_ofList]
  exact whole

/-- The terms of a parsed pattern stand at their spans. The characters at the span of a term, with
an arrow behind them, are read as this term. The terms of a side or of a group stand one after the
other, those of a group between its parentheses, those of the input before the arrow and those of
the output behind it. -/
theorem spans_exact {text : String} {p : Pattern} (h : parse text = .ok p) :
    (∀ side, ∀ t ∈ (p.side side).subterms,
      t.span.start < t.span.stop ∧ t.span.stop ≤ text.length
        ∧ ∃ q, parse (String.ofList (t.span.chars text.toList) ++ "->") = .ok q
          ∧ q.input.same [t] = true ∧ q.output.same [] = true)
    ∧ (∀ side, (p.side side).Apart ∧ ∀ ms s, .group ms s ∈ (p.side side).subterms →
      Terms.Apart ms ∧ ∀ m ∈ ms, s.start < m.span.start ∧ m.span.stop < s.stop)
    ∧ Span.chars (.ofWidth p.source.arrow 2) text.toList = "->".toList
    ∧ (∀ t ∈ p.input.subterms, t.span.stop ≤ p.source.arrow)
    ∧ ∀ t ∈ p.output.subterms, p.source.arrow + 2 ≤ t.span.start := by
  obtain ⟨tokens, scanned, reads⟩ := parse_eq_ok.mp h
  have cut := Token.scanFrom_eq_ok.mp scanned
  refine ⟨fun side t ht => ?_, fun side => ?_, reads.arrow_between cut⟩
  · obtain ⟨part, inside, reads⟩ := reads.exists_part side
    obtain ⟨mid, inner, reads⟩ := Terms.subterm_reads _ reads ht
    have inside := inner.trans inside
    obtain ⟨nonempty, high⟩ := span_inside cut inside reads
    rw [String.length_toList] at high
    exact ⟨nonempty, high, exists_parse_chars cut inside reads⟩
  · obtain ⟨part, inside, reads⟩ := reads.exists_part side
    have spread := cut.spread.of_part inside
    exact ⟨reads.apart spread, fun ms s => reads.group_apart spread⟩

/-- Spans of nested groups, without blanks at some of the parentheses. -/
theorem spans_exact_nested :
    ∃ p, parse " a((b ...)1 )->..." = .ok p
      ∧ (∀ t ∈ p.output.subterms, p.source.arrow + 2 ≤ t.span.start)
      ∧ ∀ t ∈ p.input.subterms,
        ∃ q, parse (String.ofList (t.span.chars " a((b ...)1 )->...".toList) ++ "->") = .ok q
          ∧ q.input.same [t] = true ∧ q.output.same [] = true := by
  have spans : (parse " a((b ...)1 )->...").map (·.input.subterms.map Term.span)
      = .ok [⟨1, 2⟩, ⟨2, 13⟩, ⟨3, 10⟩, ⟨4, 5⟩, ⟨6, 9⟩, ⟨10, 11⟩] := by decide +kernel
  obtain ⟨p, parsed, -⟩ := map_eq_ok.mp spans
  obtain ⟨texts, -, -, -, behind⟩ := spans_exact parsed
  exact ⟨p, parsed, behind, fun t ht => (texts .input t ht).2.2⟩

end Pattern

end AxisNotation
