import AxisNotation.Proofs.Scanning

/-!
# Splitting a text into words and blanks

A text is split into pieces, each a blank or a word, such that every word is as long as it can be
(`Piece.Splits`). There is at most one way to do so (`Piece.Splits.unique`), and the tokens of a
scanned text are the words of this split (`Piece.exists_splits`). They cover all of the text but its
blanks (`Token.Covers`). A text without a split is at fault somewhere, and the characters before the
fault are a text that has one (`Token.scan_exact`).
-/

namespace AxisNotation

/-- The characters of a text at a span. -/
def Span.chars (s : Span) (text : List Char) : List Char :=
  text.extract s.start s.stop

/-- A part of a text. -/
inductive Piece where
  | blank (c : Char)
  | word (kind : TokenKind)

namespace Piece

/-- The characters of a piece. -/
def chars : Piece → List Char
  | blank c => [c]
  | word kind => kind.text.toList

/-- The text that some pieces make, one after the other. -/
def join (pieces : List Piece) : List Char :=
  pieces.flatMap chars

/-- The words among some pieces of which the first starts at a position. -/
def tokens : Nat → List Piece → List Token
  | _, [] => []
  | position, blank _ :: pieces => tokens (position + 1) pieces
  | position, word kind :: pieces =>
    ⟨kind, .ofWidth position kind.text.length⟩ :: tokens (position + kind.text.length) pieces

/-- Pieces that make a text. No name and no unit is directly followed by a character of names, and
no dot directly precedes or follows an ellipsis. -/
structure Splits (text : List Char) (pieces : List Piece) : Prop where
  whole : join pieces = text
  blanks : ∀ c, blank c ∈ pieces → Text.isBlank c = true
  words : ∀ kind, word kind ∈ pieces → kind.Proper
  followed : ∀ before kind after, pieces = before ++ word kind :: after →
    kind.EndsBefore (join after)
  preceded : ∀ before after, pieces = before ++ word .ellipsis :: after →
    ∀ c ∈ (join before).getLast?, c ≠ '.'

end Piece

/-- Tokens of a text that stand in it one after the other, each where its word is written, and leave
only blanks out. -/
structure Token.Covers (text : List Char) (tokens : List Token) : Prop where
  inside : ∀ t ∈ tokens, t.span.start < t.span.stop ∧ t.span.stop ≤ text.length
  ordered : tokens.Pairwise fun a b => a.span.stop ≤ b.span.start
  written : ∀ t ∈ tokens, t.span.chars text = t.kind.text.toList
  others : ∀ (i : Nat) (c : Char), text[i]? = some c →
    (∀ t ∈ tokens, ¬ (t.span.start ≤ i ∧ i < t.span.stop)) → Text.isBlank c = true

variable {position : Nat} {text : List Char} {tokens : List Token} {kind : TokenKind} {c : Char}
  {p p' : Piece} {pieces pieces' : List Piece}

/-- Only the ellipsis ends with a dot. -/
lemma TokenKind.Proper.eq_ellipsis (proper : kind.Proper)
    (last : kind.text.toList.getLast? = some '.') : kind = .ellipsis := by
  cases kind with
  | name n =>
    obtain ⟨-, -, -, -, parts⟩ := Name.isLegal_iff.mp proper
    have part := parts '.' (List.mem_of_getLast? last)
    exact absurd part (by decide)
  | unit => exact absurd last (by decide)
  | ellipsis => rfl
  | opening => exact absurd last (by decide)
  | closing => exact absurd last (by decide)
  | arrow => exact absurd last (by decide)

namespace Piece

lemma join_cons (p : Piece) (pieces : List Piece) : join (p :: pieces) = p.chars ++ join pieces :=
  List.flatMap_cons

/-- A dot before an ellipsis would belong to another ellipsis, which is followed by no dot. -/
lemma splits_of_followed (blanks : ∀ c, blank c ∈ pieces → Text.isBlank c = true)
    (words : ∀ kind, word kind ∈ pieces → kind.Proper)
    (followed : ∀ before kind after, pieces = before ++ word kind :: after →
      kind.EndsBefore (join after)) : Splits (join pieces) pieces := by
  refine ⟨rfl, blanks, words, followed, ?_⟩
  rintro before after rfl _ last rfl
  rcases List.eq_nil_or_concat before with rfl | ⟨earlier, p, rfl⟩
  · cases last
  · cases p with
    | blank c =>
      obtain rfl : c = '.' := by simpa [join, chars] using last
      exact absurd (blanks '.' (by simp)) (by decide)
    | word kind =>
      have proper := words kind (by simp)
      obtain ⟨d, cs, spelled⟩ := proper.exists_cons
      have last : kind.text.toList.getLast? = some '.' := by
        simpa [join, chars, List.getLast?_append, spelled] using last
      obtain rfl := proper.eq_ellipsis last
      have ends := followed earlier .ellipsis (word .ellipsis :: after) (by simp)
      exact ends '.' rfl rfl

/-! ## One piece after the other -/

/-- A property of every word and the pieces behind it, looked at from the front. -/
lemma forall_words_cons {P : TokenKind → List Piece → Prop} :
    (∀ before kind after, p :: pieces = before ++ word kind :: after → P kind after)
      ↔ (∀ kind, p = word kind → P kind pieces)
        ∧ ∀ before kind after, pieces = before ++ word kind :: after → P kind after := by
  constructor
  · intro h
    refine ⟨fun kind e => h [] kind pieces (by rw [e]; rfl), fun before kind after e => ?_⟩
    exact h (p :: before) kind after (by rw [e]; rfl)
  · rintro ⟨first, rest⟩ before kind after e
    cases before with
    | nil =>
      obtain ⟨same, rfl⟩ := List.cons.inj e
      exact first kind same
    | cons q before => exact rest before kind after (List.cons.inj e).2

/-- The first piece is the start of the text, and the others make the rest. -/
lemma splits_cons : Splits text (p :: pieces) ↔ ∃ rest, text = p.chars ++ rest
    ∧ (∀ c, p = blank c → Text.isBlank c = true)
    ∧ (∀ kind, p = word kind → kind.Proper ∧ kind.EndsBefore rest) ∧ Splits rest pieces := by
  constructor
  · rintro ⟨rfl, blanks, words, followed, -⟩
    obtain ⟨first, rest⟩ := forall_words_cons.mp followed
    refine ⟨join pieces, join_cons p pieces, fun c e => blanks c (e ▸ List.mem_cons_self),
      fun kind e => ⟨words kind (e ▸ List.mem_cons_self), first kind e⟩, ?_⟩
    exact splits_of_followed (fun c mem => blanks c (List.mem_cons_of_mem p mem))
      (fun kind mem => words kind (List.mem_cons_of_mem p mem)) rest
  · rintro ⟨_, rfl, blank_first, word_first, rfl, blanks, words, followed, -⟩
    rw [← join_cons]
    refine splits_of_followed (fun c mem => ?_) (fun kind mem => ?_) ?_
    · exact (List.mem_cons.mp mem).elim (fun e => blank_first c e.symm) (blanks c)
    · exact (List.mem_cons.mp mem).elim (fun e => (word_first kind e.symm).1) (words kind)
    · exact forall_words_cons.mpr ⟨fun kind e => (word_first kind e).2, followed⟩

lemma splits_nil : Splits [] [] where
  whole := rfl
  blanks _ := nofun
  words _ := nofun
  followed before kind after e := by simp at e
  preceded before after e := by simp at e

/-- What is read at the start of a text is its first piece. -/
lemma read_of_splits {rest : List Char} (h : Splits (c :: rest) (p :: pieces)) :
    (p = blank c ∧ Lexeme.read c rest = .blank)
      ∨ ∃ kind, p = word kind ∧ Lexeme.read c rest = .token kind kind.text.length := by
  obtain ⟨after, whole, blanks, words, -⟩ := splits_cons.mp h
  cases p with
  | blank d =>
    obtain ⟨rfl, rfl⟩ : c = d ∧ rest = after := List.cons.inj whole
    exact .inl ⟨rfl, by rw [Lexeme.read, if_pos (blanks c rfl)]⟩
  | word kind =>
    obtain ⟨proper, ends⟩ := words kind rfl
    exact .inr ⟨kind, rfl, Lexeme.read_of_text proper ends whole⟩

lemma chars_ne_nil (h : Splits text (p :: pieces)) : text ≠ [] := by
  obtain ⟨rest, rfl, -, words, -⟩ := splits_cons.mp h
  cases p with
  | blank c => exact List.cons_ne_nil c rest
  | word kind =>
    obtain ⟨c, cs, spelled⟩ := (words kind rfl).1.exists_cons
    rw [chars, spelled]
    exact List.cons_ne_nil c _

/-- There is only one way to split a text. -/
theorem Splits.unique (h : Splits text pieces) (h' : Splits text pieces') : pieces = pieces' := by
  induction pieces generalizing text pieces' with
  | nil =>
    cases pieces' with
    | nil => rfl
    | cons p' pieces' => exact absurd h.whole.symm (chars_ne_nil h')
  | cons p pieces ih =>
    cases pieces' with
    | nil => exact absurd h'.whole.symm (chars_ne_nil h)
    | cons p' pieces' =>
      obtain ⟨c, cs, rfl⟩ := List.exists_cons_of_ne_nil (chars_ne_nil h)
      -- both pieces are what is read at the start
      have same : p = p' := by
        rcases read_of_splits h with ⟨rfl, read⟩ | ⟨kind, rfl, read⟩
        · rcases read_of_splits h' with ⟨rfl, -⟩ | ⟨kind', rfl, read'⟩
          · rfl
          · cases read.symm.trans read'
        · rcases read_of_splits h' with ⟨rfl, read'⟩ | ⟨kind', rfl, read'⟩
          · cases read.symm.trans read'
          · cases read.symm.trans read'
            rfl
      subst same
      obtain ⟨rest, whole, -, -, h⟩ := splits_cons.mp h
      obtain ⟨rest', whole', -, -, h'⟩ := splits_cons.mp h'
      obtain rfl := List.append_cancel_left (whole.symm.trans whole')
      rw [ih h h']

/-! ## Splits and cuts -/

/-- A cut text is split, and its tokens are the words. -/
lemma exists_splits (cut : Token.Cut position text tokens) :
    ∃ pieces, Splits text pieces ∧ tokens = Piece.tokens position pieces := by
  induction cut with
  | nil => exact ⟨[], splits_nil, rfl⟩
  | @blank position c text tokens solid cut ih =>
    obtain ⟨pieces, splits, rfl⟩ := ih
    refine ⟨blank c :: pieces, splits_cons.mpr ⟨text, rfl, ?_, nofun, splits⟩, rfl⟩
    rintro _ ⟨⟩
    exact solid
  | @word position kind text tokens proper ends cut ih =>
    obtain ⟨pieces, splits, rfl⟩ := ih
    refine ⟨word kind :: pieces, splits_cons.mpr ⟨text, rfl, nofun, ?_, splits⟩, rfl⟩
    rintro _ ⟨⟩
    exact ⟨proper, ends⟩

lemma Splits.cut (h : Splits text pieces) (position : Nat) :
    Token.Cut position text (Piece.tokens position pieces) := by
  induction pieces generalizing text position with
  | nil =>
    obtain rfl : text = [] := h.whole.symm
    exact .nil
  | cons p pieces ih =>
    obtain ⟨rest, rfl, blanks, words, others⟩ := splits_cons.mp h
    cases p with
    | blank c => exact .blank (blanks c rfl) (ih others _)
    | word kind =>
      obtain ⟨proper, ends⟩ := words kind rfl
      exact .word proper ends (ih others _)

end Piece

namespace Token

/-! ## What tokens cover -/

namespace Cut

/-- At the span of a token stand the characters of its word. -/
lemma written (cut : Cut position text tokens) {before : List Char}
    (place : before.length = position) :
    ∀ t ∈ tokens, t.span.chars (before ++ text) = t.kind.text.toList := by
  induction cut generalizing before with
  | nil => exact List.forall_mem_nil _
  | blank solid cut ih =>
    rw [List.append_cons]
    exact ih (by rw [List.length_append, place, List.length_singleton])
  | @word position kind text tokens proper ends cut ih =>
    refine List.forall_mem_cons.mpr ⟨?_, ?_⟩
    · subst place
      rw [Span.chars, Span.ofWidth, List.extract_eq_take_drop, List.drop_left,
        Nat.add_sub_cancel_left, ← String.length_toList, List.take_left]
    · rw [← List.append_assoc]
      exact ih (by rw [List.length_append, place, String.length_toList])

/-- A character of the text at which no token stands is a blank. -/
lemma others (cut : Cut position text tokens) {i : Nat} (found : text[i]? = some c)
    (free : ∀ t ∈ tokens, ¬ (t.span.start ≤ position + i ∧ position + i < t.span.stop)) :
    Text.isBlank c = true := by
  induction cut generalizing i with
  | nil => cases found
  | @blank position d text tokens solid cut ih =>
    cases i with
    | zero =>
      obtain rfl : d = c := Option.some.inj found
      exact solid
    | succ i =>
      refine ih (i := i) found fun t ht => ?_
      rw [Nat.add_right_comm]
      exact free t ht
  | @word position kind text tokens proper ends cut ih =>
    obtain ⟨first, rest⟩ := List.forall_mem_cons.mp free
    -- the character does not belong to the first word
    have behind : kind.text.length ≤ i := by
      by_contra inside
      exact first ⟨Nat.le_add_right _ _, Nat.add_lt_add_left (Nat.not_le.mp inside) _⟩
    obtain ⟨j, rfl⟩ := Nat.exists_eq_add_of_le behind
    rw [← String.length_toList, List.getElem?_append_right (Nat.le_add_right _ _),
      Nat.add_sub_cancel_left] at found
    refine ih found fun t ht => ?_
    rw [Nat.add_assoc]
    exact rest t ht

lemma covers (cut : Cut 0 text tokens) : Covers text tokens where
  inside t ht := by
    obtain ⟨-, nonempty, high⟩ := cut.inside t ht
    exact ⟨nonempty, Nat.zero_add text.length ▸ high⟩
  ordered := cut.ordered
  written t ht := by
    have here : t.span.chars ([] ++ text) = t.kind.text.toList := cut.written rfl t ht
    exact here
  others i c found free := by
    refine cut.others found fun t ht => ?_
    rw [Nat.zero_add]
    exact free t ht

end Cut

/-- A text is scanned exactly when it is split into words and blanks, which can be done in one way
at most, and the tokens are the words. They cover the text but for its blanks. Every other text is
rejected with an error that carries it and has a nonempty span in it, and the characters before the
span are scanned. -/
theorem scan_exact (text : String) :
    (∀ tokens, scan text = .ok tokens
      ↔ ∃ pieces, Piece.Splits text.toList pieces ∧ tokens = Piece.tokens 0 pieces)
    ∧ (∀ pieces pieces', Piece.Splits text.toList pieces → Piece.Splits text.toList pieces' →
      pieces = pieces')
    ∧ (∀ tokens, scan text = .ok tokens → Covers text.toList tokens)
    ∧ ∀ e, scan text = .error e → ∃ cause span, e = .parse text cause span
      ∧ span.start < span.stop ∧ span.stop ≤ text.length
      ∧ ∃ tokens, scan (String.ofList (text.toList.take span.start)) = .ok tokens := by
  refine ⟨fun tokens => ⟨fun scanned => ?_, ?_⟩, fun _ _ => Piece.Splits.unique,
    fun tokens scanned => (scanFrom_eq_ok.mp scanned).covers, fun e failed => ?_⟩
  · exact Piece.exists_splits (scanFrom_eq_ok.mp scanned)
  · rintro ⟨pieces, splits, rfl⟩
    exact scanFrom_eq_ok.mpr (splits.cut 0)
  · obtain ⟨before, c, rest, tokens, cause, width, whole, cut, fault, rfl⟩ := exists_fault failed
    obtain ⟨positive, bounded⟩ := Lexeme.width_of_fault fault
    refine ⟨cause, _, rfl, Nat.lt_add_of_pos_right positive, ?_, tokens, ?_⟩
    · rw [← String.length_toList, whole, List.length_append, Nat.zero_add]
      exact Nat.add_le_add_left bounded _
    · rw [scan, String.toList_ofList, scanFrom_eq_ok, whole, Span.ofWidth, Nat.zero_add,
        List.take_left]
      exact cut

/-- Words are told apart without blanks between them. Four dots in a row are rejected, and what
stands before them is scanned. -/
theorem scan_exact_tight :
    (∃ tokens, scan "(a1...)1->_b" = .ok tokens ∧ Covers "(a1...)1->_b".toList tokens
      ∧ ∃ pieces, Piece.Splits "(a1...)1->_b".toList pieces ∧ tokens = Piece.tokens 0 pieces)
    ∧ ∃ cause span, scan "a ....b" = .error (.parse "a ....b" cause span) ∧ span.stop ≤ 7
      ∧ ∃ tokens, scan (String.ofList ("a ....b".toList.take span.start)) = .ok tokens := by
  have accepted : (scan "(a1...)1->_b").map (·.map Token.span)
      = .ok [⟨0, 1⟩, ⟨1, 3⟩, ⟨3, 6⟩, ⟨6, 7⟩, ⟨7, 8⟩, ⟨8, 10⟩, ⟨10, 12⟩] := by decide +kernel
  have rejected : scan "a ....b" = .error (.parse "a ....b" (.dots 4) ⟨2, 6⟩) := by decide +kernel
  obtain ⟨tokens, scanned, -⟩ := map_eq_ok.mp accepted
  obtain ⟨splits, -, covers, -⟩ := scan_exact "(a1...)1->_b"
  obtain ⟨cause, span, same, -, inside, before⟩ := (scan_exact "a ....b").2.2.2 _ rejected
  exact ⟨⟨tokens, scanned, covers tokens scanned, (splits tokens).mp scanned⟩, cause, span,
    rejected.trans (congrArg _ same), inside, before⟩

end Token

end AxisNotation
