import AxisNotation.Proofs.Outcome
import AxisNotation.Token.Lexer

/-!
# Words and blanks

A text is scanned exactly when it can be cut into words and blanks such that every word ends where
the text does not go on with a character that would belong to it (`Token.Cut`,
`Token.scanFrom_eq_ok`). The cut says what a scanned pattern consists of: its tokens are proper
words (`Cut.proper`), they stand inside the text (`Cut.inside`) one after the other (`Cut.ordered`).
It is put together from cuts of parts (`Cut.append`). Where the text is not scanned, it is cut up to
the fault (`Token.exists_fault`).
-/

namespace AxisNotation

/-! ## Characters of names -/

namespace Name

/-- The characters of names lie between the digit zero and the letter z. -/
lemma toNat_of_isPart {c : Char} (h : isPart c = true) : 0x30 ≤ c.toNat ∧ c.toNat ≤ 0x7a := by
  simp only [isPart, Char.isAlphanum, Char.isAlpha, Char.isUpper, Char.isLower, Char.isDigit,
    Bool.or_eq_true, Bool.and_eq_true, decide_eq_true_eq, beq_iff_eq, ge_iff_le,
    UInt32.le_iff_toNat_le] at h
  have digits : '0'.val.toNat = 0x30 ∧ '9'.val.toNat = 0x39 := by decide
  have upper : 'A'.val.toNat = 0x41 ∧ 'Z'.val.toNat = 0x5a := by decide
  have lower : 'a'.val.toNat = 0x61 ∧ 'z'.val.toNat = 0x7a := by decide
  rw [Char.toNat]
  rcases h with ((h | h) | h) | rfl
  · omega
  · omega
  · omega
  · decide

lemma isBlank_of_isPart {c : Char} (h : isPart c = true) : Text.isBlank c = false := by
  obtain ⟨low, high⟩ := toNat_of_isPart h
  simp only [Text.isBlank, Text.blankRanges, List.any_cons, List.any_nil, Bool.or_false,
    Bool.or_eq_false_iff, Bool.and_eq_false_iff, decide_eq_false_iff_not]
  omega

lemma isPart_of_isDigit {c : Char} (h : c.isDigit = true) : isPart c = true := by
  simp [isPart, Char.isAlphanum, h]

lemma isDigit_of_isStart {c : Char} (h : isStart c = true) : c.isDigit = false := by
  simp only [isStart, Char.isAlpha, Char.isUpper, Char.isLower, Bool.or_eq_true,
    Bool.and_eq_true, decide_eq_true_eq, beq_iff_eq, ge_iff_le, UInt32.le_iff_toNat_le] at h
  have upper : 'A'.val.toNat = 0x41 := by decide
  have lower : 'a'.val.toNat = 0x61 := by decide
  have digit : '9'.val.toNat = 0x39 := by decide
  simp only [Char.isDigit, Bool.and_eq_false_iff, decide_eq_false_iff_not, UInt32.le_iff_toNat_le]
  rcases h with (h | h) | rfl
  · omega
  · omega
  · exact .inr (by decide)

/-- A legal name is a first character and characters that go on with it. -/
lemma isLegal_iff {s : String} : isLegal s = true ↔
    ∃ c cs, s.toList = c :: cs ∧ isStart c = true ∧ ∀ a ∈ s.toList, isPart a = true := by
  cases chars : s.toList with
  | nil =>
    rw [isLegal, chars]
    exact ⟨nofun, nofun⟩
  | cons c cs =>
    rw [isLegal, chars, Bool.and_eq_true, List.all_eq_true]
    constructor
    · rintro ⟨start, parts⟩
      exact ⟨c, cs, rfl, start, List.forall_mem_cons.mpr ⟨isPart_of_isStart start, parts⟩⟩
    · rintro ⟨c', cs', e, start, parts⟩
      cases e
      exact ⟨start, (List.forall_mem_cons.mp parts).2⟩

end Name

/-! ## Where words end -/

namespace TokenKind

/-- A name has to be legal; the other words are fixed. -/
def Proper : TokenKind → Prop
  | name n => Name.isLegal n = true
  | _ => True

/-- A word ends where the text does not go on with a character that would belong to it. -/
def EndsBefore : TokenKind → List Char → Prop
  | name _, rest => ∀ c ∈ rest.head?, Name.isPart c = false
  | unit, rest => ∀ c ∈ rest.head?, Name.isPart c = false
  | ellipsis, rest => ∀ c ∈ rest.head?, c ≠ '.'
  | _, _ => True

/-- A word has a first character. -/
lemma Proper.exists_cons {kind : TokenKind} (proper : kind.Proper) :
    ∃ c cs, kind.text.toList = c :: cs := by
  cases kind with
  | name n =>
    obtain ⟨c, cs, chars, -, -⟩ := Name.isLegal_iff.mp proper
    exact ⟨c, cs, chars⟩
  | unit => exact ⟨_, _, rfl⟩
  | ellipsis => exact ⟨_, _, rfl⟩
  | opening => exact ⟨_, _, rfl⟩
  | closing => exact ⟨_, _, rfl⟩
  | arrow => exact ⟨_, _, rfl⟩

/-- A text that does not start with a character before which some word cannot end. -/
def Separates (text : List Char) : Prop :=
  ∀ c ∈ text.head?, Name.isPart c = false ∧ c ≠ '.'

/-- A word ends before what separates. -/
lemma EndsBefore.append {kind : TokenKind} {text more : List Char} (ends : kind.EndsBefore text)
    (separates : Separates more) : kind.EndsBefore (text ++ more) := by
  cases text with
  | cons c cs => cases kind <;> exact ends
  | nil =>
    cases kind with
    | name n => exact fun c hc => (separates c hc).1
    | unit => exact fun c hc => (separates c hc).1
    | ellipsis => exact fun c hc => (separates c hc).2
    | opening => trivial
    | closing => trivial
    | arrow => trivial

/-- At the end of a text every word ends. -/
lemma endsBefore_nil (kind : TokenKind) : kind.EndsBefore [] := by
  cases kind with
  | name n => exact nofun
  | unit => exact nofun
  | ellipsis => exact nofun
  | opening => trivial
  | closing => trivial
  | arrow => trivial

/-- A word that ends before a text ends before every part that the text starts with. -/
lemma EndsBefore.of_append {kind : TokenKind} {text more : List Char}
    (ends : kind.EndsBefore (text ++ more)) : kind.EndsBefore text := by
  cases text with
  | cons c cs => cases kind <;> exact ends
  | nil => exact kind.endsBefore_nil

end TokenKind

/-! ## The word at the start of a text -/

lemma stop_of_dropWhile {α : Type} (p : α → Bool) (l : List α) :
    ∀ a ∈ (l.dropWhile p).head?, p a = false := by
  have h := List.head?_dropWhile_not p l
  intro a ha
  rw [Option.mem_def] at ha
  rw [ha] at h
  exact h

/-- What is taken while a property holds is all there is of it. -/
lemma takeWhile_append_of_stop {α : Type} {p : α → Bool} {l rest : List α}
    (all : ∀ a ∈ l, p a = true) (stop : ∀ a ∈ rest.head?, p a = false) :
    (l ++ rest).takeWhile p = l := by
  rw [List.takeWhile_append_of_pos all]
  cases rest with
  | nil => exact List.append_nil l
  | cons a as => rw [List.takeWhile_cons_of_neg (by rw [stop a rfl]; exact nofun), List.append_nil]

namespace Lexeme

variable {c : Char} {rest after : List Char} {kind : TokenKind} {width : Nat}

lemma word_append (text : List Char) :
    (word text).toList ++ text.dropWhile Name.isPart = text := by
  rw [word, String.toList_ofList, List.takeWhile_append_dropWhile]

lemma word_eq {name : String} (all : ∀ a ∈ name.toList, Name.isPart a = true)
    (stop : ∀ a ∈ after.head?, Name.isPart a = false) : word (name.toList ++ after) = name := by
  rw [word, takeWhile_append_of_stop all stop, String.ofList_toList]

/-- A text that starts with a word which ends there is read as this word. -/
lemma read_of_text (proper : kind.Proper) (ends : kind.EndsBefore after)
    (text : c :: rest = kind.text.toList ++ after) :
    read c rest = .token kind kind.text.length := by
  cases kind with
  | name n =>
    obtain ⟨c', cs, chars, start, all⟩ := Name.isLegal_iff.mp proper
    have whole : word (c :: rest) = n := text ▸ word_eq all ends
    obtain rfl : c = c' := by
      rw [TokenKind.text, chars] at text
      exact (List.cons.inj text).1
    have part := Name.isPart_of_isStart start
    have other (d : Char) (h : Name.isPart d = false) : c ≠ d := by
      rintro rfl
      exact Bool.false_ne_true (h.symm.trans part)
    have solid := Bool.eq_false_iff.mp (Name.isBlank_of_isPart part)
    have letter := Bool.eq_false_iff.mp (Name.isDigit_of_isStart start)
    rw [read, if_neg solid, if_neg (other _ (by decide)), if_neg (other _ (by decide)),
      if_neg (other _ (by decide)), if_neg (other _ (by decide)), if_neg letter, if_pos start,
      whole]
    rfl
  | unit =>
    have whole : word (c :: rest) = "1" := by
      rw [text]
      exact word_eq (List.forall_mem_singleton.mpr (by decide)) ends
    obtain ⟨rfl, rfl⟩ : c = '1' ∧ rest = after := List.cons.inj text
    rw [read, whole]
    rfl
  | ellipsis =>
    obtain ⟨rfl, rfl⟩ : c = '.' ∧ rest = ['.', '.'] ++ after := List.cons.inj text
    have run : (['.', '.'] ++ after).takeWhile (· = '.') = ['.', '.'] :=
      takeWhile_append_of_stop (by simp) fun a ha => decide_eq_false (ends a ha)
    rw [read, run]
    rfl
  | opening =>
    obtain ⟨rfl, rfl⟩ : c = '(' ∧ rest = after := List.cons.inj text
    rfl
  | closing =>
    obtain ⟨rfl, rfl⟩ : c = ')' ∧ rest = after := List.cons.inj text
    rfl
  | arrow =>
    obtain ⟨rfl, rfl⟩ : c = '-' ∧ rest = ['>'] ++ after := List.cons.inj text
    rfl

/-- What is read as a word starts with its characters, and the word ends there. -/
lemma of_read (h : read c rest = .token kind width) : kind.Proper ∧ width = kind.text.length
    ∧ ∃ after, c :: rest = kind.text.toList ++ after ∧ kind.EndsBefore after := by
  dsimp only [read] at h
  split_ifs at h with blank opening closing dot run hyphen arrow digit literal start
  · cases h
    subst opening
    exact ⟨trivial, rfl, rest, rfl, trivial⟩
  · cases h
    subst closing
    exact ⟨trivial, rfl, rest, rfl, trivial⟩
  · cases h
    subst dot
    have length : (rest.takeWhile (· = '.')).length = 2 := by omega
    have two : rest.takeWhile (· = '.') = ['.', '.'] :=
      List.eq_replicate_iff.mpr ⟨length, fun a ha =>
        of_decide_eq_true (List.mem_takeWhile_imp (p := (· = '.')) ha)⟩
    refine ⟨trivial, rfl, rest.dropWhile (· = '.'), ?_, fun a ha =>
      of_decide_eq_false (stop_of_dropWhile _ rest a ha)⟩
    calc '.' :: rest = '.' :: (rest.takeWhile (· = '.') ++ rest.dropWhile (· = '.')) := by
          rw [List.takeWhile_append_dropWhile]
      _ = ['.', '.', '.'] ++ rest.dropWhile (· = '.') := by rw [two]; rfl
  · cases h
    subst hyphen
    obtain ⟨after, rfl⟩ := List.head?_eq_some_iff.mp arrow
    exact ⟨trivial, rfl, after, rfl, trivial⟩
  · cases h
    refine ⟨trivial, rfl, (c :: rest).dropWhile Name.isPart, ?_, stop_of_dropWhile _ _⟩
    rw [TokenKind.text, ← literal, word_append]
  · cases h
    have part := Name.isPart_of_isStart start
    refine ⟨Name.isLegal_iff.mpr ⟨c, rest.takeWhile Name.isPart, ?_, start, ?_⟩, rfl,
      (c :: rest).dropWhile Name.isPart, (word_append _).symm, stop_of_dropWhile _ _⟩
    · rw [word, String.toList_ofList, List.takeWhile_cons_of_pos part]
    · intro a ha
      rw [word, String.toList_ofList] at ha
      exact List.mem_takeWhile_imp ha

/-- What is read as a blank is one. -/
lemma of_read_blank (h : read c rest = .blank) : Text.isBlank c = true := by
  by_contra blank
  dsimp only [read] at h
  rw [if_neg blank] at h
  split_ifs at h

/-- A fault takes at least one character of the text and none beyond it. -/
lemma width_of_fault {cause : SyntaxCause} (h : read c rest = .fault cause width) :
    0 < width ∧ width ≤ (c :: rest).length := by
  dsimp only [read] at h
  split_ifs at h with blank opening closing dot run hyphen arrow digit literal start
  · cases h
    have := (List.takeWhile_sublist (· = '.') (l := rest)).length_le
    rw [List.length_cons]
    omega
  · cases h
    exact ⟨Nat.one_pos, Nat.succ_pos _⟩
  · cases h
    rw [word, String.length_ofList, List.takeWhile_cons_of_pos (Name.isPart_of_isDigit digit)]
    exact ⟨Nat.succ_pos _, Nat.succ_le_succ (List.takeWhile_sublist _).length_le⟩
  · cases h
    exact ⟨Nat.one_pos, Nat.succ_pos _⟩

end Lexeme

/-! ## Cuts of a whole text -/

namespace Token

variable {pattern : String} {position : Nat} {text more : List Char} {tokens others : List Token}

/-- The tokens of a text whose first character stands at `position`: the text is words, each of
which ends where it stops, and blanks around them. -/
inductive Cut : Nat → List Char → List Token → Prop where
  | nil {position : Nat} : Cut position [] []
  | blank {position : Nat} {c : Char} {text : List Char} {tokens : List Token} :
      Text.isBlank c = true → Cut (position + 1) text tokens → Cut position (c :: text) tokens
  | word {position : Nat} {kind : TokenKind} {text : List Char} {tokens : List Token} :
      kind.Proper → kind.EndsBefore text → Cut (position + kind.text.length) text tokens →
      Cut position (kind.text.toList ++ text)
        (⟨kind, .ofWidth position kind.text.length⟩ :: tokens)

/-- What is left of a text after its first word. -/
lemma drop_of_word {kind : TokenKind} {c : Char} {rest : List Char} (proper : kind.Proper)
    (whole : c :: rest = kind.text.toList ++ text) : rest.drop (kind.text.length - 1) = text := by
  obtain ⟨c', cs, chars⟩ := proper.exists_cons
  rw [chars] at whole
  obtain ⟨-, rfl⟩ := List.cons.inj whole
  rw [← String.length_toList, chars, List.length_cons, Nat.add_sub_cancel]
  exact List.drop_left

lemma scanFrom_word {kind : TokenKind} (proper : kind.Proper) (ends : kind.EndsBefore text) :
    scanFrom pattern position (kind.text.toList ++ text)
      = (scanFrom pattern (position + kind.text.length) text).map
        (⟨kind, .ofWidth position kind.text.length⟩ :: ·) := by
  obtain ⟨c, cs, chars⟩ := proper.exists_cons
  have whole : c :: (cs ++ text) = kind.text.toList ++ text := by rw [chars, List.cons_append]
  rw [← whole, scanFrom, Lexeme.read_of_text proper ends whole]
  dsimp only
  rw [drop_of_word proper whole]
  rfl

/-- A text is scanned exactly when it is words and blanks. -/
theorem scanFrom_eq_ok :
    scanFrom pattern position text = .ok tokens ↔ Cut position text tokens := by
  constructor
  · intro h
    induction position, text using scanFrom.induct generalizing tokens with
    | case1 position =>
      rw [scanFrom] at h
      cases h
      exact .nil
    | case2 position c rest blank ih =>
      rw [scanFrom, blank] at h
      exact .blank (Lexeme.of_read_blank blank) (ih h)
    | case3 position c rest kind width word ih =>
      obtain ⟨proper, rfl, after, whole, ends⟩ := Lexeme.of_read word
      rw [whole, scanFrom_word proper ends] at h
      obtain ⟨others, scanned, rfl⟩ := map_eq_ok.mp h
      rw [drop_of_word proper whole] at ih
      rw [whole]
      exact .word proper ends (ih scanned)
    | case4 position c rest cause width fault =>
      rw [scanFrom, fault] at h
      cases h
  · intro cut
    induction cut with
    | nil => rw [scanFrom]
    | blank blank cut ih => rw [scanFrom, Lexeme.read, if_pos blank]; exact ih
    | word proper ends cut ih => rw [scanFrom_word proper ends, ih]; rfl

namespace Cut

/-- Texts are cut one after the other where the second does not go on with the first. -/
lemma append (first : Cut position text tokens)
    (second : Cut (position + text.length) more others) (separates : TokenKind.Separates more) :
    Cut position (text ++ more) (tokens ++ others) := by
  induction first with
  | nil => exact second
  | @blank position c text tokens blank first ih =>
    refine .blank blank (ih ?_)
    rwa [Nat.add_assoc, Nat.add_comm 1, ← List.length_cons (a := c)]
  | @word position kind text tokens proper ends first ih =>
    rw [List.append_assoc]
    refine .word proper (ends.append separates) (ih ?_)
    rwa [List.length_append, String.length_toList, ← Nat.add_assoc] at second

/-- The tokens stand inside the text. -/
lemma inside (cut : Cut position text tokens) : ∀ t ∈ tokens, position ≤ t.span.start
    ∧ t.span.start < t.span.stop ∧ t.span.stop ≤ position + text.length := by
  induction cut with
  | nil => exact List.forall_mem_nil _
  | blank blank cut ih =>
    intro t ht
    obtain ⟨low, nonempty, high⟩ := ih t ht
    rw [List.length_cons]
    exact ⟨by omega, nonempty, by omega⟩
  | @word position kind text tokens proper ends cut ih =>
    have width : 0 < kind.text.length := by
      obtain ⟨c, cs, chars⟩ := proper.exists_cons
      rw [← String.length_toList, chars]
      exact Nat.succ_pos _
    rw [List.length_append, String.length_toList]
    refine List.forall_mem_cons.mpr ⟨⟨Nat.le_refl _, ?_, ?_⟩, ?_⟩
    · exact Nat.lt_add_of_pos_right width
    · exact Nat.add_le_add_left (Nat.le_add_right _ _) position
    · intro t ht
      obtain ⟨low, nonempty, high⟩ := ih t ht
      exact ⟨by omega, nonempty, by omega⟩

/-- The tokens stand one after the other. -/
lemma ordered (cut : Cut position text tokens) :
    tokens.Pairwise fun a b => a.span.stop ≤ b.span.start := by
  induction cut with
  | nil => exact .nil
  | blank blank cut ih => exact ih
  | word proper ends cut ih => exact .cons (fun t ht => (cut.inside t ht).1) ih

lemma proper (cut : Cut position text tokens) : ∀ t ∈ tokens, t.kind.Proper := by
  induction cut with
  | nil => exact List.forall_mem_nil _
  | blank blank cut ih => exact ih
  | word proper ends cut ih => exact List.forall_mem_cons.mpr ⟨proper, ih⟩

end Cut

/-- Where a text is not scanned, it starts with words and blanks, and what follows them is at
fault. -/
theorem exists_fault {e : PatternError} (h : scanFrom pattern position text = .error e) :
    ∃ before c rest tokens cause width, text = before ++ c :: rest ∧ Cut position before tokens
      ∧ Lexeme.read c rest = .fault cause width
      ∧ e = .parse pattern cause (.ofWidth (position + before.length) width) := by
  induction position, text using scanFrom.induct with
  | case1 position =>
    rw [scanFrom] at h
    cases h
  | case2 position d after blank ih =>
    rw [scanFrom, blank] at h
    obtain ⟨before, c, rest, tokens, cause, width, rfl, cut, fault, rfl⟩ := ih h
    refine ⟨d :: before, c, rest, tokens, cause, width, rfl,
      .blank (Lexeme.of_read_blank blank) cut, fault, ?_⟩
    rw [List.length_cons, Nat.add_right_comm, Nat.add_assoc]
  | case3 position d after kind width word ih =>
    obtain ⟨proper, rfl, text, whole, ends⟩ := Lexeme.of_read word
    rw [whole, scanFrom_word proper ends] at h
    rw [drop_of_word proper whole] at ih
    obtain ⟨before, c, rest, tokens, cause, width, rfl, cut, fault, rfl⟩ := ih (map_eq_error.mp h)
    refine ⟨kind.text.toList ++ before, c, rest, _, cause, width, ?_,
      .word proper ends.of_append cut, fault, ?_⟩
    · rw [whole, List.append_assoc]
    · rw [List.length_append, String.length_toList, Nat.add_assoc]
  | case4 position c rest cause width fault =>
    rw [scanFrom, fault] at h
    exact ⟨[], c, rest, [], cause, width, rfl, .nil, fault, (Except.error.inj h).symm⟩

/-- Where a text is not scanned, the fault is a part of it. -/
theorem scanFrom_eq_error {e : PatternError} (h : scanFrom pattern position text = .error e) :
    ∃ cause span, e = .parse pattern cause span ∧ position ≤ span.start ∧ span.start < span.stop
      ∧ span.stop ≤ position + text.length := by
  obtain ⟨before, c, rest, tokens, cause, width, rfl, -, fault, rfl⟩ := exists_fault h
  obtain ⟨positive, bounded⟩ := Lexeme.width_of_fault fault
  refine ⟨cause, _, rfl, Nat.le_add_right _ _, Nat.lt_add_of_pos_right positive, ?_⟩
  rw [List.length_append, ← Nat.add_assoc]
  exact Nat.add_le_add_left bounded _

end Token

end AxisNotation
