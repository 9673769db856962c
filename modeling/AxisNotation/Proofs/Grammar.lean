import AxisNotation.Pattern.Parser
import AxisNotation.Proofs.Scanning

/-!
# The grammar of patterns

A side is a list of terms, each spelled by a token or by a parenthesised list of terms
(`Terms.Reads`); a pattern is two sides with an arrow between them (`Pattern.Reads`). The tokens are
read from left to right with a stack of open groups. What has been read at any time is described by
`Terms.Partial`, which every token keeps, so the terms in the end are those that all the tokens
spell (`Terms.Partial.readFrom`). Exactly the texts whose tokens have the kinds of two sides around
an arrow are parsed (`Pattern.parse_exact`).
-/

namespace AxisNotation

/-- The terms that tokens spell. A group takes the place from its opening parenthesis to the closing
one that belongs to it; every other term takes the place of its token. -/
inductive Terms.Reads : List Token → Terms → Prop where
  | nil : Reads [] []
  | name {n : String} {s : Span} {tokens : List Token} {ts : Terms} :
      Reads tokens ts → Reads (⟨.name n, s⟩ :: tokens) (.name n s :: ts)
  | unit {s : Span} {tokens : List Token} {ts : Terms} :
      Reads tokens ts → Reads (⟨.unit, s⟩ :: tokens) (.unit s :: ts)
  | ellipsis {s : Span} {tokens : List Token} {ts : Terms} :
      Reads tokens ts → Reads (⟨.ellipsis, s⟩ :: tokens) (.ellipsis s :: ts)
  | group {o c : Span} {enclosed tokens : List Token} {members ts : Terms} :
      Reads enclosed members → Reads tokens ts →
      Reads (⟨.opening, o⟩ :: (enclosed ++ ⟨.closing, c⟩ :: tokens))
        (.group members ⟨o.start, c.stop⟩ :: ts)

/-- The pattern that the tokens of a text spell: a side, an arrow and a side. -/
inductive Pattern.Reads (text : String) : List Token → Pattern → Prop where
  | sides {before after : List Token} {s : Span} {input output : Terms} :
      Terms.Reads before input → Terms.Reads after output →
      Reads text (before ++ ⟨.arrow, s⟩ :: after)
        ⟨input, output, ⟨text, before.length, after.length, s.start⟩⟩

variable {tokens others done : List Token} {terms ts us : Terms} {pattern text : String}
  {groups : List OpenGroup}

/-! ## The order of tokens -/

/-- Tokens as they stand in a text. -/
def Token.Ordered (tokens : List Token) : Prop :=
  tokens.Pairwise fun a b => a.span.start ≤ b.span.start ∧ a.span.stop ≤ b.span.stop

/-- The place from a token to a later one. -/
lemma Token.Ordered.join {a b : Token} (ordered : Ordered (tokens ++ b :: others))
    (h : a ∈ tokens) : a.span.join b.span = ⟨a.span.start, b.span.stop⟩ := by
  obtain ⟨start, stop⟩ := (List.pairwise_append.mp ordered).2.2 a h b List.mem_cons_self
  rw [Span.join, min_eq_left start, max_eq_right stop]

/-- Scanned tokens stand in the order of the text. -/
lemma Token.Cut.isOrdered {position : Nat} {chars : List Char}
    (cut : Token.Cut position chars tokens) : Token.Ordered tokens := by
  refine cut.ordered.imp_of_mem fun ha hb between => ?_
  obtain ⟨-, first, -⟩ := cut.inside _ ha
  obtain ⟨-, second, -⟩ := cut.inside _ hb
  exact ⟨by omega, by omega⟩

/-! ## The kinds of tokens -/

mutual

lemma Term.arrow_notMem : (t : Term) → TokenKind.arrow ∉ t.tokens
  | .name n _ => by simp [Term.tokens]
  | .group ms _ => by simpa [Term.tokens] using Terms.arrow_notMem ms
  | .ellipsis _ => by simp [Term.tokens]
  | .unit _ => by simp [Term.tokens]

/-- The arrow belongs to no term. -/
lemma Terms.arrow_notMem : (ts : Terms) → TokenKind.arrow ∉ Terms.tokens ts
  | [] => List.not_mem_nil
  | t :: ts => by
    rw [Terms.tokens, List.mem_append, not_or]
    exact ⟨Term.arrow_notMem t, Terms.arrow_notMem ts⟩

end

namespace Terms.Reads

lemma append (first : Reads tokens ts) (second : Reads others us) :
    Reads (tokens ++ others) (ts ++ us) := by
  induction first with
  | nil => exact second
  | name first ih => exact .name ih
  | unit first ih => exact .unit ih
  | ellipsis first ih => exact .ellipsis ih
  | group members first _ ih =>
    rw [List.cons_append, List.append_assoc]
    exact .group members ih

/-- The tokens are those of the terms. -/
lemma kinds (reads : Reads tokens ts) : tokens.map (·.kind) = Terms.tokens ts := by
  induction reads with
  | nil => rfl
  | name reads ih => exact congrArg _ ih
  | unit reads ih => exact congrArg _ ih
  | ellipsis reads ih => exact congrArg _ ih
  | group members reads enclosed ih =>
    simp only [List.map_cons, List.map_append, enclosed, ih, Terms.tokens, Term.tokens,
      List.cons_append, List.append_assoc, List.nil_append]

/-- No term has an arrow among its tokens. -/
lemma kind_ne_arrow (reads : Reads tokens ts) : ∀ t ∈ tokens, t.kind ≠ .arrow := by
  intro t ht arrow
  have mem := List.mem_map_of_mem (f := (·.kind)) ht
  rw [reads.kinds, arrow] at mem
  exact Terms.arrow_notMem ts mem

end Terms.Reads

mutual

lemma Term.exists_reads (t : Term) {tokens : List Token} (h : tokens.map (·.kind) = t.tokens) :
    ∃ u, Terms.Reads tokens [u] ∧ u.same t = true := by
  cases t with
  | name n s =>
    obtain ⟨⟨kind, span⟩, rfl, rfl⟩ := List.map_eq_singleton_iff.mp h
    exact ⟨.name n span, .name .nil, by simp [Term.same]⟩
  | group ms s =>
    obtain ⟨⟨kind, o⟩, rest, rfl, rfl, enclosed⟩ := List.map_eq_cons_iff.mp h
    obtain ⟨inside, last, rfl, members, closing⟩ := List.map_eq_append_iff.mp enclosed
    obtain ⟨⟨kind, c⟩, rfl, rfl⟩ := List.map_eq_singleton_iff.mp closing
    obtain ⟨us, reads, same⟩ := Terms.exists_reads ms members
    exact ⟨.group us ⟨o.start, c.stop⟩, .group reads .nil, same⟩
  | ellipsis s =>
    obtain ⟨⟨kind, span⟩, rfl, rfl⟩ := List.map_eq_singleton_iff.mp h
    exact ⟨.ellipsis span, .ellipsis .nil, rfl⟩
  | unit s =>
    obtain ⟨⟨kind, span⟩, rfl, rfl⟩ := List.map_eq_singleton_iff.mp h
    exact ⟨.unit span, .unit .nil, rfl⟩

/-- Tokens of the kinds of some terms spell these terms. -/
lemma Terms.exists_reads (ts : Terms) {tokens : List Token}
    (h : tokens.map (·.kind) = Terms.tokens ts) :
    ∃ us, Terms.Reads tokens us ∧ Terms.same us ts = true := by
  cases ts with
  | nil =>
    cases List.map_eq_nil_iff.mp h
    exact ⟨[], .nil, rfl⟩
  | cons t ts =>
    obtain ⟨tokens, others, rfl, first, rest⟩ := List.map_eq_append_iff.mp h
    obtain ⟨u, reads, same⟩ := Term.exists_reads t first
    obtain ⟨us, reads', same'⟩ := Terms.exists_reads ts rest
    exact ⟨u :: us, reads.append reads', Bool.and_eq_true_iff.mpr ⟨same, same'⟩⟩

end

/-! ## Reading a side -/

/-- Tokens that spell terms are read as these terms, whatever stands before and after them. -/
lemma Terms.readFrom_of_reads (reads : Reads tokens ts) (ordered : Token.Ordered tokens) :
    readFrom pattern groups terms (tokens ++ others)
      = readFrom pattern groups (terms ++ ts) others := by
  induction reads generalizing groups terms others with
  | nil => rw [List.nil_append, List.append_nil]
  | name reads ih =>
    rw [List.cons_append, readFrom, ih ordered.of_cons, List.append_assoc]
    rfl
  | unit reads ih =>
    rw [List.cons_append, readFrom, ih ordered.of_cons, List.append_assoc]
    rfl
  | ellipsis reads ih =>
    rw [List.cons_append, readFrom, ih ordered.of_cons, List.append_assoc]
    rfl
  | @group o c enclosed tokens members ts _ _ ih_members ih =>
    obtain ⟨inner, outer, -⟩ := List.pairwise_append.mp (List.Pairwise.of_cons ordered)
    have in_order : Token.Ordered ((⟨.opening, o⟩ :: enclosed) ++ ⟨.closing, c⟩ :: tokens) :=
      ordered
    have span : o.join c = ⟨o.start, c.stop⟩ := in_order.join List.mem_cons_self
    rw [List.cons_append, readFrom, List.append_assoc, ih_members inner, List.cons_append]
    simp only [readFrom, span, List.nil_append]
    rw [ih outer.of_cons, List.append_assoc]
    rfl

/-- What the tokens so far spell: the terms in the innermost open group come after the parenthesis
that opens it, the terms before it come before this parenthesis, and so on outwards. -/
inductive Terms.Partial : List Token → List OpenGroup → Terms → Prop where
  | outer {done : List Token} {ts : Terms} : Reads done ts → Partial done [] ts
  | inner {done enclosed : List Token} {groups : List OpenGroup} {before ts : Terms} {o : Span} :
      Partial done groups before → Reads enclosed ts →
      Partial (done ++ ⟨.opening, o⟩ :: enclosed) (⟨o, before⟩ :: groups) ts

namespace Terms.Partial

/-- More terms are read into the innermost group. -/
lemma append (so_far : Partial done groups ts) (reads : Reads tokens us) :
    Partial (done ++ tokens) groups (ts ++ us) := by
  cases so_far with
  | outer first => exact .outer (first.append reads)
  | inner outside first =>
    rw [List.append_assoc, List.cons_append]
    exact .inner outside (first.append reads)

/-- A group is closed: it becomes a term of the group around it. -/
lemma close {before : Terms} {o c : Span} (so_far : Partial done (⟨o, before⟩ :: groups) ts) :
    Partial (done ++ [⟨.closing, c⟩]) groups (before ++ [.group ts ⟨o.start, c.stop⟩]) := by
  cases so_far with
  | inner outside members =>
    rw [List.append_assoc]
    exact outside.append (.group members .nil)

lemma opening_mem {before : Terms} {o : Span} (so_far : Partial done (⟨o, before⟩ :: groups) ts) :
    ⟨.opening, o⟩ ∈ done := by
  cases so_far with
  | inner outside members => exact List.mem_append_right _ List.mem_cons_self

/-- Reading goes on from what has been read so far. It gives the terms that all the tokens spell, or
a fault at one of the tokens. -/
theorem readFrom (so_far : Partial done groups terms) (ordered : Token.Ordered (done ++ tokens)) :
    (∃ ts, Terms.readFrom pattern groups terms tokens = .ok ts ∧ Reads (done ++ tokens) ts)
      ∨ ∃ cause, ∃ t ∈ done ++ tokens,
        Terms.readFrom pattern groups terms tokens = .error (.parse pattern cause t.span) := by
  -- Each token moves from the tokens still to be read to the end of those done, and the invariant
  -- is kept by `append`, `inner` and `close`.
  induction tokens generalizing done groups terms with
  | nil =>
    rw [List.append_nil]
    cases so_far with
    | outer reads => exact .inl ⟨terms, rfl, reads⟩
    | inner outside members => exact .inr ⟨_, _, opening_mem (.inner outside members), rfl⟩
  | cons token tokens ih =>
    have ends : ∀ t ∈ done, t.span.join token.span = ⟨t.span.start, token.span.stop⟩ :=
      fun t ht => Token.Ordered.join ordered ht
    rw [List.append_cons] at ordered ⊢
    have here : token ∈ done ++ [token] ++ tokens :=
      List.mem_append_left _ (List.mem_append_right _ List.mem_cons_self)
    obtain ⟨kind, s⟩ := token
    cases kind with
    | name n => exact ih (so_far.append (.name .nil)) ordered
    | unit => exact ih (so_far.append (.unit .nil)) ordered
    | ellipsis => exact ih (so_far.append (.ellipsis .nil)) ordered
    | opening => exact ih (.inner so_far .nil) ordered
    | closing =>
      cases groups with
      | nil => exact .inr ⟨_, _, here, rfl⟩
      | cons g gs =>
        have span : g.opening.join s = ⟨g.opening.start, s.stop⟩ := ends _ so_far.opening_mem
        simp only [Terms.readFrom, span]
        exact ih so_far.close ordered
    | arrow => exact .inr ⟨_, _, here, rfl⟩

end Terms.Partial

namespace Terms

/-- Tokens spell a side, or the fault is one of them. -/
lemma read_cases (pattern : String) (ordered : Token.Ordered tokens) :
    (∃ ts, read pattern tokens = .ok ts ∧ Reads tokens ts)
      ∨ ∃ cause, ∃ t ∈ tokens, read pattern tokens = .error (.parse pattern cause t.span) :=
  Partial.readFrom (.outer .nil) ordered

/-- A side is read from tokens that spell it. -/
lemma Reads.read (reads : Reads tokens ts) (ordered : Token.Ordered tokens) :
    Terms.read pattern tokens = .ok ts := by
  have h : readFrom pattern [] [] (tokens ++ []) = readFrom pattern [] ([] ++ ts) [] :=
    readFrom_of_reads reads ordered
  rw [List.append_nil] at h
  exact h

/-- Terms with the same tokens are the same. -/
lemma same_of_tokens (h : Terms.tokens ts = Terms.tokens us) : Terms.same ts us = true := by
  -- Tokens without places spell both, and what tokens spell is found by reading them.
  have kinds (vs : Terms) :
      ((Terms.tokens vs).map (Token.mk · .nowhere)).map (·.kind) = Terms.tokens vs := by
    rw [List.map_map]
    exact List.map_id _
  have ordered : Token.Ordered ((Terms.tokens ts).map (Token.mk · .nowhere)) :=
    List.pairwise_map.mpr (List.pairwise_of_forall fun _ _ => ⟨Nat.le_refl _, Nat.le_refl _⟩)
  obtain ⟨vs, reads, same⟩ := exists_reads ts (kinds ts)
  obtain ⟨ws, reads', same'⟩ := exists_reads us ((kinds ts).trans h)
  have read : Terms.read "" _ = .ok vs := reads.read ordered
  cases read.symm.trans (reads'.read ordered)
  rw [Terms.same_iff] at same same' ⊢
  exact same.symm.trans same'

end Terms

/-! ## Reading a pattern -/

namespace Pattern

variable {p : Pattern} {input output : Terms}

lemma Reads.kinds (reads : Pattern.Reads text tokens p) :
    tokens.map (·.kind) = Terms.tokens p.input ++ .arrow :: Terms.tokens p.output := by
  cases reads with
  | sides first second => rw [List.map_append, List.map_cons, first.kinds, second.kinds]

/-- Tokens of the kinds of two sides with an arrow between them spell these sides. -/
lemma exists_reads (text : String)
    (h : tokens.map (·.kind) = Terms.tokens input ++ .arrow :: Terms.tokens output) :
    ∃ p, Pattern.Reads text tokens p ∧ p.input.same input = true ∧ p.output.same output = true := by
  obtain ⟨before, rest, rfl, first, h⟩ := List.map_eq_append_iff.mp h
  obtain ⟨⟨kind, s⟩, after, rfl, rfl, second⟩ := List.map_eq_cons_iff.mp h
  obtain ⟨ts, reads, same⟩ := Terms.exists_reads input first
  obtain ⟨us, reads', same'⟩ := Terms.exists_reads output second
  exact ⟨_, .sides reads reads', same, same'⟩

/-- The sides are told apart by the tokens. -/
lemma Reads.same_sides (reads : Pattern.Reads text tokens p)
    (h : tokens.map (·.kind) = Terms.tokens input ++ .arrow :: Terms.tokens output) :
    input.same p.input = true ∧ output.same p.output = true := by
  rw [reads.kinds,
    List.append_cons_inj_of_notMem (Terms.arrow_notMem _) (Terms.arrow_notMem _)] at h
  obtain ⟨before, -, after⟩ := h
  exact ⟨Terms.same_of_tokens before.symm, Terms.same_of_tokens after.symm⟩

/-- Without an arrow there is no pattern. -/
lemma ofTokens_of_no_arrow (none : ∀ t ∈ tokens, t.kind ≠ .arrow) :
    ofTokens text tokens = .error (.parse text .noArrow ⟨0, text.length⟩) := by
  have rest_eq : tokens.dropWhile (·.kind ≠ .arrow) = [] :=
    List.dropWhile_eq_nil_iff.mpr fun t ht => decide_eq_true (none t ht)
  unfold ofTokens
  rw [rest_eq]

lemma split_at_arrow {before after : List Token} {s : Span}
    (first : ∀ t ∈ before, t.kind ≠ .arrow) :
    (before ++ ⟨.arrow, s⟩ :: after).takeWhile (·.kind ≠ .arrow) = before
      ∧ (before ++ ⟨.arrow, s⟩ :: after).dropWhile (·.kind ≠ .arrow) = ⟨.arrow, s⟩ :: after := by
  have first : ∀ t ∈ before, decide (t.kind ≠ .arrow) = true :=
    fun t ht => decide_eq_true (first t ht)
  refine ⟨takeWhile_append_of_stop first (by simp), ?_⟩
  rw [List.dropWhile_append_of_pos first]
  rfl

/-- The first arrow stands between the two sides. -/
lemma ofTokens_append {before after : List Token} {s : Span}
    (first : ∀ t ∈ before, t.kind ≠ .arrow) (single : after.find? (·.kind = .arrow) = none) :
    ofTokens text (before ++ ⟨.arrow, s⟩ :: after) = do
      let input ← Terms.read text before
      let output ← Terms.read text after
      return ⟨input, output, ⟨text, before.length, after.length, s.start⟩⟩ := by
  obtain ⟨before_eq, rest_eq⟩ := split_at_arrow first
  unfold ofTokens
  rw [before_eq, rest_eq]
  dsimp only
  rw [single]

/-- There may be no other arrow. -/
lemma ofTokens_of_second_arrow {before after : List Token} {s : Span} {second : Token}
    (first : ∀ t ∈ before, t.kind ≠ .arrow)
    (another : after.find? (·.kind = .arrow) = some second) :
    ofTokens text (before ++ ⟨.arrow, s⟩ :: after)
      = .error (.parse text .secondArrow second.span) := by
  obtain ⟨-, rest_eq⟩ := split_at_arrow first
  unfold ofTokens
  rw [rest_eq]
  dsimp only
  rw [another]

/-- A pattern is read from tokens that spell it. -/
lemma Reads.ofTokens (reads : Pattern.Reads text tokens p) (ordered : Token.Ordered tokens) :
    Pattern.ofTokens text tokens = .ok p := by
  cases reads with
  | @sides before after s input output first second =>
    have single : after.find? (·.kind = .arrow) = none :=
      List.find?_eq_none.mpr fun t ht => by simpa using second.kind_ne_arrow t ht
    obtain ⟨before_ordered, rest_ordered, -⟩ := List.pairwise_append.mp ordered
    rw [ofTokens_append first.kind_ne_arrow single, first.read before_ordered]
    dsimp only [bind, Except.bind]
    rw [second.read rest_ordered.of_cons]
    rfl

/-- Tokens spell a pattern, or the fault is one of them or the absence of an arrow. -/
lemma ofTokens_cases (text : String) (ordered : Token.Ordered tokens) :
    (∃ p, ofTokens text tokens = .ok p ∧ Pattern.Reads text tokens p)
      ∨ ∃ cause span, ofTokens text tokens = .error (.parse text cause span)
        ∧ (span = ⟨0, text.length⟩ ∨ ∃ t ∈ tokens, span = t.span) := by
  cases found : tokens.find? (·.kind = .arrow) with
  | none =>
    have none_arrow : ∀ t ∈ tokens, t.kind ≠ .arrow := fun t ht => by
      simpa using List.find?_eq_none.mp found t ht
    exact .inr ⟨_, _, ofTokens_of_no_arrow none_arrow, .inl rfl⟩
  | some arrow =>
    obtain ⟨is_arrow, before, after, rfl, none_arrow⟩ := List.find?_eq_some_iff_append.mp found
    obtain ⟨kind, s⟩ := arrow
    obtain rfl : kind = .arrow := of_decide_eq_true is_arrow
    obtain ⟨before_ordered, rest_ordered, -⟩ := List.pairwise_append.mp ordered
    have in_after {t : Token} (ht : t ∈ after) : t ∈ before ++ ⟨.arrow, s⟩ :: after :=
      List.mem_append_right _ (List.mem_cons_of_mem _ ht)
    have none_arrow : ∀ t ∈ before, t.kind ≠ .arrow := fun t ht => by simpa using none_arrow t ht
    cases another : after.find? (·.kind = .arrow) with
    | some second =>
      have inside := in_after (List.mem_of_find?_eq_some another)
      exact .inr ⟨_, _, ofTokens_of_second_arrow none_arrow another, .inr ⟨second, inside, rfl⟩⟩
    | none =>
      rw [ofTokens_append none_arrow another]
      dsimp only [bind, Except.bind]
      rcases Terms.read_cases text before_ordered with
        ⟨input, read, first⟩ | ⟨cause, t, ht, read⟩
      · rw [read]
        rcases Terms.read_cases text rest_ordered.of_cons with
          ⟨output, read, second⟩ | ⟨cause, t, ht, read⟩
        · dsimp only
          rw [read]
          exact .inl ⟨_, rfl, .sides first second⟩
        · dsimp only
          rw [read]
          exact .inr ⟨_, _, rfl, .inr ⟨t, in_after ht, rfl⟩⟩
      · rw [read]
        exact .inr ⟨_, _, rfl, .inr ⟨t, List.mem_append_left _ ht, rfl⟩⟩

/-- A text is parsed as the pattern that its tokens spell; otherwise the fault is a part of the
text. -/
lemma parse_cases (text : String) :
    (∃ tokens p, Token.scan text = .ok tokens ∧ parse text = .ok p ∧ Pattern.Reads text tokens p)
      ∨ ∃ cause span, parse text = .error (.parse text cause span) ∧ span.start ≤ span.stop
        ∧ span.stop ≤ text.length := by
  cases scanned : Token.scan text with
  | error e =>
    obtain ⟨cause, span, rfl, -, nonempty, inside⟩ := Token.scanFrom_eq_error scanned
    rw [String.length_toList, Nat.zero_add] at inside
    exact .inr ⟨cause, span, by rw [parse, scanned]; rfl, Nat.le_of_lt nonempty, inside⟩
  | ok tokens =>
    have cut := Token.scanFrom_eq_ok.mp scanned
    have parsed : parse text = ofTokens text tokens := by rw [parse, scanned]; rfl
    rcases ofTokens_cases text cut.isOrdered with
      ⟨p, made, reads⟩ | ⟨cause, span, made, place⟩
    · exact .inl ⟨tokens, p, rfl, parsed.trans made, reads⟩
    · refine .inr ⟨cause, span, parsed.trans made, ?_⟩
      rcases place with rfl | ⟨t, ht, rfl⟩
      · exact ⟨Nat.zero_le _, Nat.le_refl _⟩
      · obtain ⟨-, nonempty, inside⟩ := cut.inside t ht
        rw [String.length_toList, Nat.zero_add] at inside
        exact ⟨Nat.le_of_lt nonempty, inside⟩

lemma parse_eq_ok : parse text = .ok p ↔
    ∃ tokens, Token.scan text = .ok tokens ∧ Pattern.Reads text tokens p := by
  constructor
  · intro parsed
    rcases parse_cases text with ⟨tokens, q, scanned, parsed', reads⟩ | ⟨cause, span, failed, _⟩
    · cases parsed.symm.trans parsed'
      exact ⟨tokens, scanned, reads⟩
    · cases parsed.symm.trans failed
  · rintro ⟨tokens, scanned, reads⟩
    rw [parse, scanned]
    exact reads.ofTokens (Token.scanFrom_eq_ok.mp scanned).isOrdered

/-- A text is parsed exactly when it is scanned and the kinds of its tokens are those of two sides
with an arrow between them. The two sides are then the only such sides, up to spans, and the parsed
pattern has their spans, the text, the numbers of tokens and the position of the arrow from the
tokens. Every other text is rejected with an error that carries it and a span inside it. -/
theorem parse_exact (text : String) :
    (∀ p, parse text = .ok p ↔
      ∃ tokens, Token.scan text = .ok tokens ∧ Pattern.Reads text tokens p)
    ∧ ((∃ p, parse text = .ok p) ↔ ∃ tokens input output, Token.scan text = .ok tokens
      ∧ tokens.map (·.kind) = Terms.tokens input ++ .arrow :: Terms.tokens output)
    ∧ (∀ p tokens input output, parse text = .ok p → Token.scan text = .ok tokens →
      tokens.map (·.kind) = Terms.tokens input ++ .arrow :: Terms.tokens output →
      input.same p.input = true ∧ output.same p.output = true)
    ∧ ∀ e, parse text = .error e → ∃ cause span, e = .parse text cause span
      ∧ span.start ≤ span.stop ∧ span.stop ≤ text.length := by
  refine ⟨fun p => parse_eq_ok, ⟨?_, ?_⟩, ?_, ?_⟩
  · rintro ⟨p, parsed⟩
    obtain ⟨tokens, scanned, reads⟩ := parse_eq_ok.mp parsed
    exact ⟨tokens, p.input, p.output, scanned, reads.kinds⟩
  · rintro ⟨tokens, input, output, scanned, kinds⟩
    obtain ⟨p, reads, -⟩ := exists_reads text kinds
    exact ⟨p, parse_eq_ok.mpr ⟨tokens, scanned, reads⟩⟩
  · intro p tokens input output parsed scanned kinds
    obtain ⟨tokens', scanned', reads⟩ := parse_eq_ok.mp parsed
    cases scanned.symm.trans scanned'
    exact reads.same_sides kinds
  · intro e failed
    rcases parse_cases text with
      ⟨tokens, p, scanned, parsed, reads⟩ | ⟨cause, span, failed', inside⟩
    · cases failed.symm.trans parsed
    · cases failed.symm.trans failed'
      exact ⟨cause, span, rfl, inside⟩

/-- A group and a unit axis are read, and an unclosed group is rejected. -/
theorem parse_exact_groups :
    (∃ p tokens, Token.scan "(b 1) -> b" = .ok tokens ∧ Pattern.Reads "(b 1) -> b" tokens p)
    ∧ ∃ cause span, parse "(b -> b" = .error (.parse "(b -> b" cause span) ∧ span.stop ≤ 7 := by
  have parsed : (parse "(b 1) -> b").map (·.input.map Term.span) = .ok [⟨0, 5⟩] := by
    decide +kernel
  have rejected : (parse "(b -> b").map Pattern.render
      = .error (.parse "(b -> b" .unclosedOpening ⟨0, 1⟩) := by decide +kernel
  obtain ⟨p, made, -⟩ := map_eq_ok.mp parsed
  obtain ⟨tokens, scanned, reads⟩ := ((parse_exact "(b 1) -> b").1 p).mp made
  cases failed : parse "(b -> b" with
  | ok p =>
    rw [failed] at rejected
    cases rejected
  | error e =>
    obtain ⟨cause, span, rfl, -, inside⟩ := (parse_exact "(b -> b").2.2.2 e failed
    exact ⟨⟨p, tokens, scanned, reads⟩, cause, span, rfl, inside⟩

end Pattern

end AxisNotation
