/-
**Words and numbers side by side.**

A number ends only where neither a digit nor a word character follows, or else the scanner stops; so
nothing that could be a word or a number ever touches a number from behind. A word ends where no word
character follows, and the digits of other scripts are none: a number in such digits can start where
a word ends. That is the only way in which two of these tokens touch, and otherwise blanks or
comments stand between them.

* `Token.Lexes.at_token`: a text around one of its tokens;
* `Token.Apart`: two tokens with blanks or comments between them;
* `Token.RunsIntoDigit`: a word that a digit of another script follows;
* `Token.atoms_apart_iff`, `Token.atoms_touch_at_foreign_digit`: which words and numbers touch.
-/

import EtaLong.Proofs.Token

namespace EtaLong.Token

/-! ### Digits of other scripts -/

/-- A decimal digit that is none of the ten of ASCII. -/
def IsForeignDigit (c : Char) : Prop := Text.isDigit c = true ∧ c.isDigit = false

theorem toNat_lt_of_isWordChar {c : Char} (isWord : isWordChar c = true) : c.toNat < 128 := by
  rcases (Bool.or_eq_true _ _).mp isWord with alphanumeric | mark
  · rcases (Bool.or_eq_true _ _).mp alphanumeric with letter | digit
    · rcases (Bool.or_eq_true _ _).mp letter with upper | lower
      · have bounds : 'A'.val ≤ c.val ∧ c.val ≤ 'Z'.val := of_decide_eq_true upper
        exact Nat.lt_of_le_of_lt bounds.2 (by decide)
      · have last : c.val ≤ 'z'.val := of_decide_eq_true ((Bool.and_eq_true _ _).mp lower).2
        exact Nat.lt_of_le_of_lt last (by decide)
    · exact Nat.lt_of_le_of_lt (Char.isDigit_iff_toNat.mp digit).2 (by decide)
  · have marks : wordMarks.all (·.toNat < 128) = true := by decide
    exact of_decide_eq_true (List.all_eq_true.mp marks c (List.contains_iff_mem.mp mark))

/-- Of all digits, those of ASCII are the characters of words. -/
theorem isWordChar_of_digit {c : Char} (digit : Text.isDigit c = true) :
    isWordChar c = c.isDigit := by
  cases ascii : c.isDigit with
  | true =>
    have letterOrDigit : c.isAlphanum = true := (Bool.or_eq_true _ _).mpr (.inr ascii)
    rw [isWordChar, letterOrDigit, Bool.true_or]
  | false =>
    refine Bool.eq_false_iff.mpr fun isWord => ?_
    obtain ⟨value, found⟩ := Option.isSome_iff_exists.mp digit
    obtain ⟨first, search, _⟩ := Option.map_eq_some_iff.mp found
    have inBlock := List.find?_some search
    simp only [Bool.and_eq_true, decide_eq_true_eq] at inBlock
    -- Only one block of digits begins that low.
    have blocks : ∀ first ∈ Text.digitZeros, first = 48 ∨ 128 ≤ first := by decide
    have block := blocks first (List.mem_of_find?_eq_some search)
    have low := toNat_lt_of_isWordChar isWord
    have inAscii : 48 ≤ c.toNat ∧ c.toNat ≤ 57 := by omega
    rw [Char.isDigit_iff_toNat.mpr inAscii] at ascii
    cases ascii

theorem isForeignDigit_iff {c : Char} :
    IsForeignDigit c ↔ Text.isDigit c = true ∧ isWordChar c = false :=
  and_congr_right fun digit => by rw [isWordChar_of_digit digit]

/-! ### A text around a token -/

namespace Lexes

variable {follow text : List Char} {offset : Nat} {before after : List Token} {token : Token}

/-- **The first token of a text**: blanks and comments stand before it, it is spelled out, and what
follows ends it. -/
theorem first_token (lexes : Lexes follow offset text (token :: after)) :
    ∃ gap piece rest, text = gap ++ (piece ++ rest) ∧
      Lexes (piece ++ rest ++ follow) offset gap [] ∧
      token.span.start = (offset + gap.length : Nat) ∧
      token.span.stop = (offset + gap.length + piece.length : Nat) ∧
      Spells token.kind piece ∧ Ends token.kind (rest ++ follow) ∧
      Lexes follow (offset + gap.length + piece.length) rest after := by
  generalize all : token :: after = tokens at lexes
  induction lexes with
  | done => cases all
  | @blank offset c text tokens separator _ ih =>
    obtain ⟨gap, piece, rest, rfl, empty, starts, stops, spells, ends, later⟩ := ih all
    have place : offset + 1 + gap.length = offset + (c :: gap).length := by
      rw [List.length_cons]
      omega
    rw [place] at starts stops later
    exact ⟨c :: gap, piece, rest, rfl, .blank separator empty, starts, stops, spells, ends, later⟩
  | @comment offset body text tokens sameLine line _ ih =>
    obtain ⟨gap, piece, rest, rfl, empty, starts, stops, spells, ends, later⟩ := ih all
    have place : offset + 1 + body.length + gap.length =
        offset + (';' :: (body ++ gap)).length := by
      rw [List.length_cons, List.length_append]
      omega
    rw [place] at starts stops later
    rw [List.append_assoc] at line
    refine ⟨';' :: (body ++ gap), piece, rest, ?_, .comment sameLine line empty, starts, stops, spells,
      ends, later⟩
    rw [List.cons_append, List.append_assoc]
  | token spells ends later _ =>
    cases all
    exact ⟨[], _, _, rfl, .done, rfl, rfl, spells, ends, later⟩

/-- **A text around one of its tokens.** -/
theorem at_token (lexes : Lexes follow offset text (before ++ token :: after)) :
    ∃ front piece rest, text = front ++ (piece ++ rest) ∧
      token.span.stop = (offset + (front ++ piece).length : Nat) ∧
      Spells token.kind piece ∧ Ends token.kind (rest ++ follow) ∧
      Lexes follow (offset + (front ++ piece).length) rest after := by
  obtain ⟨skipped, text, rfl, _, lexes⟩ := lexes.from_token
  obtain ⟨gap, piece, rest, rfl, _, _, stops, spells, ends, later⟩ := lexes.first_token
  have place : offset + skipped.length + gap.length + piece.length =
      offset + (skipped ++ gap ++ piece).length := by
    rw [List.length_append, List.length_append]
    omega
  rw [place] at stops later
  exact ⟨skipped ++ gap, piece, rest, by rw [List.append_assoc], stops, spells, ends, later⟩

/-- A text without tokens begins with a blank or with a comment. -/
theorem head_of_empty {c : Char} {gap : List Char} (empty : Lexes follow offset (c :: gap) []) :
    isSeparator c = true ∨ c = ';' := by
  generalize same : c :: gap = text at empty
  generalize none : ([] : List Token) = tokens at empty
  cases empty with
  | done => cases same
  | blank separator _ =>
    cases same
    exact .inl separator
  | comment _ _ _ =>
    cases same
    exact .inr rfl
  | token _ _ _ => cases none

end Lexes

/-! ### Words and numbers -/

/-- A word or a number. -/
def Kind.IsAtom : Kind → Prop
  | .word _ | .number _ => True
  | _ => False

/-- **Two tokens are apart**: between the end of the first and the start of the second there is text,
and it has no tokens, so it is made of blanks and comments. -/
def Apart (source : String) (first second : Token) : Prop :=
  ∃ front gap rest, source.toList = front ++ (gap ++ rest) ∧
    first.span.stop = front.length ∧ second.span.start = (front ++ gap).length ∧
    gap ≠ [] ∧ Lexes rest front.length gap []

theorem Apart.stop_lt_start {source : String} {first second : Token}
    (apart : Apart source first second) : first.span.stop < second.span.start := by
  obtain ⟨front, gap, _, _, stops, starts, nonempty, _⟩ := apart
  have some := List.length_pos_iff.mpr nonempty
  rw [stops, starts, List.length_append]
  omega

/-- **A word that a digit of another script follows** directly. -/
def RunsIntoDigit (source : String) (token : Token) : Prop :=
  ∃ name c, token.kind = .word name ∧ source.toList[token.span.stop.toNat]? = some c ∧
    IsForeignDigit c

/-- The character in front of a word or a number. -/
theorem Spells.head_of_isAtom {kind : Kind} {piece : List Char} (spells : Spells kind piece)
    (atom : kind.IsAtom) : ∃ c more, piece = c :: more ∧
      (isWordChar c = true ∨ Text.isDigit c = true ∧ ∃ value, kind = .number value) := by
  cases spells with
  | number nonempty all =>
    obtain ⟨c, more, rfl⟩ := List.exists_cons_of_ne_nil nonempty
    exact ⟨c, more, rfl, .inr ⟨all c List.mem_cons_self, _, rfl⟩⟩
  | word all other =>
    obtain ⟨_, among, _⟩ := other
    obtain ⟨c, more, rfl⟩ := List.exists_cons_of_ne_nil (List.ne_nil_of_mem among)
    exact ⟨c, more, rfl, .inl (all c List.mem_cons_self)⟩
  | mark mark =>
    unfold single? at mark
    split at mark <;> cases mark <;> exact atom.elim

/-- **What touches a word or a number from behind** is a number, and what it touches is a word: its
first digit is one of another script. -/
theorem Ends.touched {kind next : Kind} {piece rest : List Char} (ends : Ends kind (piece ++ rest))
    (atom : kind.IsAtom) (spells : Spells next piece) (nextAtom : next.IsAtom) :
    ∃ name value c more, kind = .word name ∧ next = .number value ∧ piece = c :: more ∧
      IsForeignDigit c := by
  obtain ⟨c, more, rfl, starts⟩ := spells.head_of_isAtom nextAtom
  cases kind with
  | word name =>
    have notWord : isWordChar c = false := ends c rfl
    rcases starts with isWord | ⟨digit, value, number⟩
    · rw [isWord] at notWord
      cases notWord
    · exact ⟨name, value, c, more, rfl, number, rfl, isForeignDigit_iff.mpr ⟨digit, notWord⟩⟩
  | number value =>
    obtain ⟨notWord, notDigit⟩ : isWordChar c = false ∧ Text.isDigit c = false := ends c rfl
    rcases starts with isWord | ⟨digit, _⟩
    · rw [isWord] at notWord
      cases notWord
    · rw [digit] at notDigit
      cases notDigit
  | _ => exact atom.elim

/-- Blanks and comments begin with no digit. -/
theorem Lexes.not_digit_of_empty {follow gap : List Char} {offset : Nat} {c : Char}
    (empty : Lexes follow offset (c :: gap) []) : Text.isDigit c = false := by
  rcases empty.head_of_empty with separator | rfl
  · exact (class_of_isSeparator separator).1
  · decide

/-- **Words and numbers that follow each other** in a source without unknown characters. Blanks or
comments stand between them, unless the first is a word that runs into a digit of another script.
Then the second is a number that starts where the word ends. -/
theorem atoms_apart_iff {source : String} {before after : List Token} {first second : Token}
    (scanned : scan source = (before ++ first :: second :: after, none))
    (firstAtom : first.kind.IsAtom) (secondAtom : second.kind.IsAtom) :
    (Apart source first second ↔ ¬ RunsIntoDigit source first) ∧
    (RunsIntoDigit source first →
      second.span.start = first.span.stop ∧ ∃ value, second.kind = .number value) := by
  obtain ⟨front, piece, behind, text, stops, _, ends, later⟩ :=
    (lexes_of_scanFrom scanned).at_token
  obtain ⟨gap, next, rest, rfl, empty, starts, _, spells, _, _⟩ := later.first_token
  rw [Nat.zero_add] at stops starts empty
  rw [List.append_nil] at ends empty
  have cut : source.toList = (front ++ piece) ++ (gap ++ (next ++ rest)) := by
    rw [text, List.append_assoc]
  have behindWord : source.toList[first.span.stop.toNat]? = (gap ++ (next ++ rest)).head? := by
    rw [cut, stops, Int.toNat_natCast, List.getElem?_append_right (Nat.le_refl _), Nat.sub_self,
      List.head?_eq_getElem?]
  by_cases touching : gap = []
  · -- The second token starts where the first one ends, so it is a number behind a word.
    subst touching
    rw [List.nil_append] at ends
    obtain ⟨name, value, c, more, word, number, rfl, foreign⟩ :=
      ends.touched firstAtom spells secondAtom
    have runs : RunsIntoDigit source first := ⟨name, c, word, behindWord, foreign⟩
    have together : second.span.start = first.span.stop := by
      rw [starts, stops, List.length_nil, Nat.add_zero]
    have touch : ¬ Apart source first second := fun apart => by
      have less := apart.stop_lt_start
      rw [together] at less
      exact Int.lt_irrefl _ less
    exact ⟨⟨fun apart => absurd apart touch, fun stays => absurd runs stays⟩,
      fun _ => ⟨together, value, number⟩⟩
  · obtain ⟨c, more, rfl⟩ := List.exists_cons_of_ne_nil touching
    have stays : ¬ RunsIntoDigit source first := by
      rintro ⟨name, d, _, found, digit, _⟩
      rw [behindWord] at found
      cases found
      rw [empty.not_digit_of_empty] at digit
      cases digit
    refine ⟨⟨fun _ => stays, fun _ => ?_⟩, fun runs => absurd runs stays⟩
    exact ⟨front ++ piece, c :: more, next ++ rest, cut, stops,
      by rw [starts, ← List.length_append], touching, empty⟩

/-- A number, a comment and then a word, which runs into a digit of another script. -/
theorem atoms_apart_iff_at_comment :
    let number : Token := ⟨.number 12, ⟨0, 2⟩⟩
    let word : Token := ⟨.word "-", ⟨5, 6⟩⟩
    let digit : Token := ⟨.number 3, ⟨6, 7⟩⟩
    scan "12;x\n-\u0663" = ([number, word, digit], none) ∧ Apart "12;x\n-\u0663" number word ∧
      ¬ Apart "12;x\n-\u0663" word digit := by
  intro number word digit
  have scanned : scan "12;x\n-\u0663" = ([number, word, digit], none) := by decide +kernel
  have delimited := (@atoms_apart_iff _ [] [digit] number word scanned trivial trivial).1
  have touching := (@atoms_apart_iff _ [number] [] word digit scanned trivial trivial).1
  refine ⟨scanned, delimited.mpr ?_, fun apart => touching.mp apart ?_⟩
  · rintro ⟨name, c, isWord, _⟩
    cases isWord
  · exact ⟨"-", '\u0663', rfl, by decide, by decide, by decide⟩

/-- A word and a number that are written as one: nothing stands between the two tokens. -/
theorem atoms_touch_at_foreign_digit :
    let word : Token := ⟨.word "a", ⟨0, 1⟩⟩
    let number : Token := ⟨.number 3, ⟨1, 2⟩⟩
    scan "a\u0663" = ([word, number], none) ∧ word.kind.IsAtom ∧ number.kind.IsAtom ∧
      number.span.start = word.span.stop ∧ ¬ Apart "a\u0663" word number := by
  intro word number
  refine ⟨by decide +kernel, trivial, trivial, rfl, fun apart => ?_⟩
  have less : (1 : Int) < 1 := apart.stop_lt_start
  exact absurd less (by decide)

end EtaLong.Token
