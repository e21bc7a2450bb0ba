/-
**The lexical grammar.**

A text is a row of blanks, comments and lexemes. What spells a token is said here without a
scanner: digits, word characters that are not all digits, or a mark. A number or a word ends where
the text goes on with a character that could not extend it, and a comment ends with its line. The
rules look at what follows the text, so a text can be cut between two tokens, and joined to
another one, without a second look at its inside.

* `Token.Spells`, `Token.Lexes`: the rules;
* `Token.scanFrom_of_lexes`, `Token.lexes_of_scanFrom`: the scanner finds exactly the tokens of
  the rules;
* `Token.Lexes.from_token`, `Token.Lexes.up_to_token`: a text that is cut before or after a token;
* `Token.scanFrom_shift`, `Token.scan_join`: a text at another offset, and after another one;
* `Token.exact_of_scanFrom`, `Token.inside_of_scanFrom`, `Token.scanFrom_unknown`: how wide tokens are,
  where they stand, and where the scanner stops.
-/

import EtaLong.Token

namespace EtaLong

namespace Span

/-- A span at another place of a larger text. -/
def shift (distance : Int) (span : Span) : Span :=
  ⟨span.start + distance, span.stop + distance⟩

/-- A span that is not empty and lies between two offsets. -/
def Inside (low high : Int) (span : Span) : Prop :=
  low ≤ span.start ∧ span.start < span.stop ∧ span.stop ≤ high

theorem Inside.mono {low high low' high' : Int} {span : Span} (inside : span.Inside low high)
    (lower : low' ≤ low) (higher : high ≤ high') : span.Inside low' high' :=
  ⟨Int.le_trans lower inside.1, inside.2.1, Int.le_trans inside.2.2 higher⟩

/-- Spans that stand one after another between two offsets. -/
def InOrder (low high : Int) (spans : List Span) : Prop :=
  (∀ span ∈ spans, span.Inside low high) ∧
    spans.Pairwise fun earlier later => earlier.stop ≤ later.start

namespace InOrder

variable {low high : Int} {spans : List Span}

theorem nil : InOrder low high [] := ⟨List.forall_mem_nil _, List.Pairwise.nil⟩

theorem mono {low' high' : Int} (ordered : InOrder low high spans) (lower : low' ≤ low)
    (higher : high ≤ high') : InOrder low' high' spans :=
  ⟨fun span among => (ordered.1 span among).mono lower higher, ordered.2⟩

/-- Some of the spans of a row. -/
theorem sublist {some : List Span} (ordered : InOrder low high spans) (among : some.Sublist spans) :
    InOrder low high some :=
  ⟨fun span found => ordered.1 span (among.mem found), ordered.2.sublist among⟩

/-- One more span in front of those that start where it stops. -/
theorem cons {span : Span} (starts : low ≤ span.start) (nonempty : span.start < span.stop)
    (stops : span.stop ≤ high) (ordered : InOrder span.stop high spans) :
    InOrder low high (span :: spans) := by
  refine ⟨List.forall_mem_cons.mpr ⟨⟨starts, nonempty, stops⟩, ?_⟩, ?_⟩
  · exact (ordered.mono (Int.le_trans starts (Int.le_of_lt nonempty)) (Int.le_refl high)).1
  · exact List.pairwise_cons.mpr ⟨fun later among => (ordered.1 later among).1, ordered.2⟩

/-- The spans after the first one start where it stops. -/
theorem uncons {span : Span} (ordered : InOrder low high (span :: spans)) :
    span.Inside low high ∧ InOrder span.stop high spans := by
  obtain ⟨bounds, disjoint⟩ := ordered
  obtain ⟨first, others⟩ := List.forall_mem_cons.mp bounds
  obtain ⟨after, rest⟩ := List.pairwise_cons.mp disjoint
  exact ⟨first, fun later among => ⟨after later among, (others later among).2⟩, rest⟩

/-- The parts of a row are in order, and the first stands before the second. -/
theorem append {back : List Span} (ordered : InOrder low high (spans ++ back)) :
    InOrder low high spans ∧ InOrder low high back ∧
      ∀ earlier ∈ spans, ∀ later ∈ back, earlier.stop ≤ later.start := by
  obtain ⟨bounds, disjoint⟩ := ordered
  obtain ⟨frontBounds, backBounds⟩ := List.forall_mem_append.mp bounds
  obtain ⟨front, back, across⟩ := List.pairwise_append.mp disjoint
  exact ⟨⟨frontBounds, front⟩, ⟨backBounds, back⟩, across⟩

/-- What stands between two spans of a row starts after the first and stops before the last. -/
theorem between {first last : Span} (ordered : InOrder low high (first :: (spans ++ [last]))) :
    InOrder first.stop last.start spans := by
  obtain ⟨bounds, disjoint⟩ := ordered
  obtain ⟨afterFirst, rest⟩ := List.pairwise_cons.mp disjoint
  obtain ⟨middle, _, beforeLast⟩ := List.pairwise_append.mp rest
  refine ⟨fun span among => ?_, middle⟩
  have inside : span ∈ spans ++ [last] := List.mem_append_left [last] among
  exact ⟨afterFirst span inside, (bounds span (.tail first inside)).2.1,
    beforeLast span among last (List.mem_singleton_self last)⟩

/-- A row reaches from the start of its first span to the stop of its last. -/
theorem reach {first last : Span} (ordered : InOrder low high spans)
    (starts : spans.head? = some first) (stops : spans.getLast? = some last) :
    Inside low high ⟨first.start, last.stop⟩ := by
  obtain ⟨bounds, disjoint⟩ := ordered
  have firstBounds := bounds first (List.mem_of_head? starts)
  have lastBounds := bounds last (List.mem_of_getLast? stops)
  refine ⟨firstBounds.1, ?_, lastBounds.2.2⟩
  obtain ⟨others, rfl⟩ := List.head?_eq_some_iff.mp starts
  rcases List.mem_cons.mp (List.mem_of_getLast? stops) with rfl | later
  · exact firstBounds.2.1
  · have apart := (List.pairwise_cons.mp disjoint).1 last later
    exact Int.lt_trans firstBounds.2.1 (Int.lt_of_le_of_lt apart lastBounds.2.1)

/-- A row at another place. -/
theorem shift (ordered : InOrder low high spans) (distance : Int) :
    InOrder (low + distance) (high + distance) (spans.map (Span.shift distance)) := by
  refine ⟨fun span among => ?_, List.pairwise_map.mpr (ordered.2.imp fun apart => ?_)⟩
  · obtain ⟨before, beforeAmong, rfl⟩ := List.mem_map.mp among
    obtain ⟨starts, nonempty, stops⟩ := ordered.1 before beforeAmong
    exact ⟨Int.add_le_add_right starts distance, Int.add_lt_add_right nonempty distance,
      Int.add_le_add_right stops distance⟩
  · exact Int.add_le_add_right apart distance

end InOrder

end Span

namespace Token

/-- A token at another place of a larger text. -/
def shift (distance : Int) (token : Token) : Token :=
  { token with span := token.span.shift distance }

/-- A token that is moved and moved back. -/
theorem shift_neg_shift (distance : Int) (token : Token) :
    (token.shift distance).shift (-distance) = token := by
  simp only [shift, Span.shift, Int.add_neg_cancel_right]

/-! ### Classes of characters -/

/-- The characters that are tokens of their own. -/
theorem mark_cases {c : Char} {kind : Kind} (mark : single? c = some kind) :
    c ∈ ['\'', ',', '(', ')', '[', ']'] := by
  unfold single? at mark
  split at mark <;> first | decide | cases mark

/-- A separator is neither a digit nor a word character. -/
theorem class_of_isSeparator {c : Char} (separator : isSeparator c = true) :
    Text.isDigit c = false ∧ isWordChar c = false := by
  simp only [isSeparator, Bool.or_eq_true, beq_iff_eq] at separator
  rcases separator with ((rfl | rfl) | rfl) | rfl <;> decide

/-- A mark is no other token and separates nothing. -/
theorem class_of_mark {c : Char} {kind : Kind} (mark : single? c = some kind) :
    isSeparator c = false ∧ Text.isDigit c = false ∧ isWordChar c = false ∧ c ≠ ';' := by
  have marks := mark_cases mark
  simp only [List.mem_cons, List.not_mem_nil, or_false] at marks
  rcases marks with rfl | rfl | rfl | rfl | rfl | rfl <;> decide

theorem isSeparator_of_isDigit {c : Char} (digit : Text.isDigit c = true) :
    isSeparator c = false := by
  cases separates : isSeparator c with
  | false => rfl
  | true =>
    rw [(class_of_isSeparator separates).1] at digit
    cases digit

theorem isSeparator_of_isWordChar {c : Char} (isWord : isWordChar c = true) :
    isSeparator c = false := by
  cases separates : isSeparator c with
  | false => rfl
  | true =>
    rw [(class_of_isSeparator separates).2] at isWord
    cases isWord

/-- A digit that is no word character starts nothing but a number. -/
theorem front_of_digit {c : Char} {rest : List Char} (digit : Text.isDigit c = true)
    (other : isWordChar c = false) (noNumber : numberFront? (c :: rest) = none) :
    front c rest = .unknown := by
  have separator := isSeparator_of_isDigit digit
  have comment : c ≠ ';' := by
    rintro rfl
    exact absurd digit (by decide)
  have mark : single? c = none := by
    cases marked : single? c with
    | none => rfl
    | some kind =>
      rw [(class_of_mark marked).2.1] at digit
      cases digit
  unfold front
  simp only [separator, noNumber, other, comment, mark, Bool.false_eq_true, if_false]

/-! ### Numbers -/

theorem startsWord_eq_false_iff {text : List Char} :
    startsWord text = false ↔ ∀ c ∈ text.head?, isWordChar c = false := by
  cases text <;> simp [startsWord]

/-- Digits that no digit and no word character follows are a number. -/
theorem numberFront?_append {digits after : List Char} (nonempty : digits ≠ [])
    (all : ∀ c ∈ digits, Text.isDigit c = true)
    (ends : ∀ c ∈ after.head?, isWordChar c = false ∧ Text.isDigit c = false) :
    numberFront? (digits ++ after) = some digits := by
  induction digits with
  | nil => exact absurd rfl nonempty
  | cons c digits ih =>
    rw [List.cons_append, numberFront?, if_pos (all c List.mem_cons_self)]
    cases digits with
    | nil =>
      have noNumber : numberFront? after = none := by
        cases after with
        | nil => rfl
        | cons next rest =>
          rw [numberFront?, (ends next rfl).2]
          rfl
      have stops : startsWord after = false :=
        startsWord_eq_false_iff.mpr fun next found => (ends next found).1
      rw [List.nil_append, noNumber, stops]
      rfl
    | cons second digits =>
      rw [ih (List.cons_ne_nil _ _) fun d among => all d (.tail c among)]

/-- A number in front of a text is a run of digits, as long as can be. -/
theorem numberFront?_eq_some {text digits : List Char} (found : numberFront? text = some digits) :
    ∃ after, text = digits ++ after ∧ digits ≠ [] ∧ (∀ c ∈ digits, Text.isDigit c = true) ∧
      startsWord after = false ∧ numberFront? after = none := by
  induction text generalizing digits with
  | nil => cases found
  | cons c rest ih =>
    rw [numberFront?] at found
    by_cases digit : Text.isDigit c = true
    · rw [if_pos digit] at found
      cases more : numberFront? rest with
      | some others =>
        rw [more] at found
        cases found
        obtain ⟨after, rfl, _, all, stops, noNumber⟩ := ih more
        refine ⟨after, rfl, List.cons_ne_nil c others, ?_, stops, noNumber⟩
        exact List.forall_mem_cons.mpr ⟨digit, all⟩
      | none =>
        rw [more] at found
        dsimp only at found
        by_cases stops : startsWord rest = true
        · rw [if_pos stops] at found
          cases found
        · rw [if_neg stops] at found
          cases found
          refine ⟨rest, rfl, List.cons_ne_nil c [], ?_, Bool.not_eq_true _ ▸ stops, more⟩
          exact List.forall_mem_singleton.mpr digit
    · rw [if_neg digit] at found
      cases found

/-- Digits that no word character follows start a number, though perhaps a longer one. -/
theorem numberFront?_isSome {digits after : List Char} (nonempty : digits ≠ [])
    (all : ∀ c ∈ digits, Text.isDigit c = true) (stops : startsWord after = false) :
    (numberFront? (digits ++ after)).isSome := by
  induction digits with
  | nil => exact absurd rfl nonempty
  | cons c digits ih =>
    rw [List.cons_append, numberFront?, if_pos (all c List.mem_cons_self)]
    cases digits with
    | nil =>
      rw [List.nil_append, stops]
      cases numberFront? after <;> rfl
    | cons second digits =>
      have more := ih (List.cons_ne_nil _ _) fun d among => all d (.tail c among)
      obtain ⟨others, found⟩ := Option.isSome_iff_exists.mp more
      rw [found]
      rfl

/-- A word that is not all digits does not start with a number. -/
theorem numberFront?_of_word {characters after : List Char}
    (all : ∀ c ∈ characters, isWordChar c = true)
    (other : ∃ c ∈ characters, Text.isDigit c = false) :
    numberFront? (characters ++ after) = none := by
  induction characters with
  | nil =>
    obtain ⟨_, among, _⟩ := other
    cases among
  | cons c characters ih =>
    rw [List.cons_append, numberFront?]
    by_cases digit : Text.isDigit c = true
    · rw [if_pos digit]
      have otherLater : ∃ d ∈ characters, Text.isDigit d = false := by
        obtain ⟨d, among, notDigit⟩ := other
        rcases List.mem_cons.mp among with rfl | later
        · rw [digit] at notDigit
          cases notDigit
        · exact ⟨d, later, notDigit⟩
      rw [ih (fun d among => all d (.tail c among)) otherLater]
      -- A word character follows the digit: the rest of the word has a character that is none.
      have goes : startsWord (characters ++ after) = true := by
        cases characters with
        | nil =>
          obtain ⟨_, among, _⟩ := otherLater
          cases among
        | cons second characters => exact all second (.tail c List.mem_cons_self)
      rw [goes]
      rfl
    · rw [if_neg digit]

/-! ### The rules -/

/-- **What spells a token.** -/
inductive Spells : Kind → List Char → Prop where
  | number {digits : List Char} : digits ≠ [] → (∀ c ∈ digits, Text.isDigit c = true) →
      Spells (.number (Text.numberOf digits)) digits
  | word {characters : List Char} : (∀ c ∈ characters, isWordChar c = true) →
      (∃ c ∈ characters, Text.isDigit c = false) →
      Spells (.word (String.ofList characters)) characters
  | mark {c : Char} {kind : Kind} : single? c = some kind → Spells kind [c]

/-- A token is as wide as it is written, if what it is says how; a comma is no word. -/
def Exact (token : Token) : Prop :=
  match token.kind with
  | .word name => token.span.stop = token.span.start + name.length ∧ name ≠ ","
  | .number _ => True
  | _ => token.span.stop = token.span.start + 1

theorem Spells.length_pos {kind : Kind} {piece : List Char} (spells : Spells kind piece) :
    0 < piece.length := by
  cases spells with
  | number nonempty _ => exact List.length_pos_iff.mpr nonempty
  | word _ other =>
    obtain ⟨c, among, _⟩ := other
    exact List.length_pos_of_mem among
  | mark _ => exact Nat.one_pos

/-- The token of a lexeme is as wide as the lexeme. -/
theorem Spells.exact {kind : Kind} {piece : List Char} (spells : Spells kind piece) (offset : Int) :
    Exact ⟨kind, ⟨offset, offset + piece.length⟩⟩ := by
  cases spells with
  | number _ _ => trivial
  | word all _ =>
    refine ⟨by rw [String.length_ofList], fun comma => ?_⟩
    have isComma : piece = [','] := by
      rw [← String.toList_ofList (l := piece), comma]
      rfl
    have isWord := all ',' (by rw [isComma]; exact List.mem_singleton_self _)
    exact absurd isWord (by decide)
  | @mark c _ mark =>
    unfold single? at mark
    split at mark <;> cases mark <;> rfl

/-- **What may follow a token**: a word does not go on, and neither does a number. -/
def Ends : Kind → List Char → Prop
  | .word _, after => ∀ c ∈ after.head?, isWordChar c = false
  | .number _, after => ∀ c ∈ after.head?, isWordChar c = false ∧ Text.isDigit c = false
  | _, _ => True

/-- Anything may follow a mark. -/
theorem ends_of_mark {c : Char} {kind : Kind} (after : List Char) (mark : single? c = some kind) :
    Ends kind after := by
  unfold single? at mark
  split at mark <;> cases mark <;> trivial

/-- What may follow a comment: the end of its line. -/
def EndsLine (after : List Char) : Prop := ∀ c ∈ after.head?, c = '\n'

/-- **A text at an offset has tokens**, where something follows the text. -/
inductive Lexes (follow : List Char) : Nat → List Char → List Token → Prop where
  | done {offset : Nat} : Lexes follow offset [] []
  | blank {offset : Nat} {c : Char} {text : List Char} {tokens : List Token} :
      isSeparator c = true → Lexes follow (offset + 1) text tokens →
      Lexes follow offset (c :: text) tokens
  | comment {offset : Nat} {body text : List Char} {tokens : List Token} :
      '\n' ∉ body → EndsLine (text ++ follow) → Lexes follow (offset + 1 + body.length) text tokens →
      Lexes follow offset (';' :: (body ++ text)) tokens
  | token {offset : Nat} {kind : Kind} {piece text : List Char} {tokens : List Token} :
      Spells kind piece → Ends kind (text ++ follow) →
      Lexes follow (offset + piece.length) text tokens →
      Lexes follow offset (piece ++ text) (⟨kind, ⟨offset, offset + piece.length⟩⟩ :: tokens)

/-! ### What stands in front -/

/-- A run of characters that what follows does not go on with. -/
theorem takeWhile_append_of_stops {test : Char → Bool} {run after : List Char}
    (all : ∀ c ∈ run, test c = true) (stops : ∀ c ∈ after.head?, test c = false) :
    (run ++ after).takeWhile test = run := by
  rw [List.takeWhile_append_of_pos all]
  cases after with
  | nil => exact List.append_nil run
  | cons c rest => rw [List.takeWhile_cons_of_neg (by rw [stops c rfl]; decide), List.append_nil]

theorem front_of_separator {c : Char} (rest : List Char) (separator : isSeparator c = true) :
    front c rest = .skipped 0 :=
  if_pos separator

/-- A comment is skipped up to the end of its line. -/
theorem front_of_comment {body after : List Char} (sameLine : '\n' ∉ body) (ends : EndsLine after) :
    front ';' (body ++ after) = .skipped body.length := by
  have noNumber : numberFront? (';' :: (body ++ after)) = none := rfl
  have run : (body ++ after).takeWhile (· != '\n') = body := by
    refine takeWhile_append_of_stops (fun c among => ?_) fun c found => ?_
    · rw [bne_iff_ne]
      rintro rfl
      exact sameLine among
    · rw [ends c found]
      rfl
  unfold front
  simp only [noNumber, run, show isSeparator ';' = false from rfl,
    show isWordChar ';' = false from rfl, Bool.false_eq_true, if_false, if_true]

/-- **A lexeme is the token in front**, whatever stands after it, if that ends it. -/
theorem front_of_spells {kind : Kind} {piece after : List Char} (spells : Spells kind piece)
    (ends : Ends kind after) :
    ∃ c more, piece = c :: more ∧ front c (more ++ after) = .token kind more.length := by
  cases spells with
  | number nonempty all =>
    cases piece with
    | nil => exact absurd rfl nonempty
    | cons c more =>
      have separator := isSeparator_of_isDigit (all c List.mem_cons_self)
      have found := numberFront?_append nonempty all ends
      rw [List.cons_append] at found
      refine ⟨c, more, rfl, ?_⟩
      unfold front
      simp only [separator, found, Bool.false_eq_true, if_false, List.length_cons,
        Nat.add_sub_cancel]
  | word all other =>
    cases piece with
    | nil =>
      obtain ⟨_, among, _⟩ := other
      cases among
    | cons c more =>
      have isWord := all c List.mem_cons_self
      have separator := isSeparator_of_isWordChar isWord
      have noNumber : numberFront? (c :: (more ++ after)) = none := numberFront?_of_word all other
      have run : (more ++ after).takeWhile isWordChar = more :=
        takeWhile_append_of_stops (fun d among => all d (.tail c among)) ends
      refine ⟨c, more, rfl, ?_⟩
      unfold front
      simp only [separator, noNumber, isWord, run, Bool.false_eq_true, if_false, if_true]
  | @mark c kind mark =>
    obtain ⟨separator, digit, isWord, comment⟩ := class_of_mark mark
    have noNumber : numberFront? (c :: ([] ++ after)) = none := by
      rw [numberFront?, digit]
      rfl
    refine ⟨c, [], rfl, ?_⟩
    unfold front
    simp only [separator, noNumber, isWord, comment, mark, Bool.false_eq_true, if_false,
      List.length_nil]

/-- A text on which the scanner stops at once. -/
def Stuck (text : List Char) : Prop := ∃ c rest, text = c :: rest ∧ front c rest = .unknown

/-- **What can stand in front of a text.** A number that a digit follows is the one lexeme that may
not end as the rules say, and then nothing that is known follows it. -/
inductive Fronts (c : Char) (rest : List Char) : Front → Prop where
  | blank : isSeparator c = true → Fronts c rest (.skipped 0)
  | comment {body after : List Char} : c = ';' → rest = body ++ after → '\n' ∉ body →
      EndsLine after → Fronts c rest (.skipped body.length)
  | token {kind : Kind} {more after : List Char} : rest = more ++ after →
      Spells kind (c :: more) → Ends kind after ∨ Stuck after → Fronts c rest (.token kind more.length)
  | unknown : Fronts c rest .unknown

theorem head?_dropWhile_eq_false (test : Char → Bool) (text : List Char) :
    ∀ c ∈ (text.dropWhile test).head?, test c = false := by
  intro c found
  have stops := List.head?_dropWhile_not test text
  rw [Option.mem_def.mp found] at stops
  exact stops

/-- A number ends as the rules say, or the scanner stops after it. -/
theorem ends_or_stuck_of_number {value : Nat} {after : List Char}
    (stops : startsWord after = false) (noNumber : numberFront? after = none) :
    Ends (.number value) after ∨ Stuck after := by
  have notWord := startsWord_eq_false_iff.mp stops
  cases after with
  | nil => exact .inl fun _ impossible => nomatch impossible
  | cons next later =>
    cases digit : Text.isDigit next with
    | false =>
      refine .inl fun c same => ?_
      cases same
      exact ⟨notWord next rfl, digit⟩
    | true => exact .inr ⟨next, later, rfl, front_of_digit digit (notWord next rfl) noNumber⟩

/-- Characters that start no number, and that no word character follows, are not all digits. -/
theorem exists_not_digit {characters after : List Char} (nonempty : characters ≠ [])
    (stops : startsWord after = false) (noNumber : numberFront? (characters ++ after) = none) :
    ∃ c ∈ characters, Text.isDigit c = false := by
  refine Classical.byContradiction fun noOther => ?_
  have digits : ∀ c ∈ characters, Text.isDigit c = true := by
    intro c among
    cases digit : Text.isDigit c with
    | true => rfl
    | false => exact absurd ⟨c, among, digit⟩ noOther
  have number := numberFront?_isSome nonempty digits stops
  rw [noNumber] at number
  cases number

theorem fronts_front (c : Char) (rest : List Char) : Fronts c rest (front c rest) := by
  unfold front
  by_cases separator : isSeparator c = true
  · rw [if_pos separator]
    exact .blank separator
  rw [if_neg separator]
  cases found : numberFront? (c :: rest) with
  | some digits =>
    obtain ⟨after, cut, nonempty, all, stops, noNumber⟩ := numberFront?_eq_some found
    cases digits with
    | nil => exact absurd rfl nonempty
    | cons d more =>
      obtain ⟨rfl, rfl⟩ := List.cons.inj cut
      exact .token rfl (.number nonempty all) (ends_or_stuck_of_number stops noNumber)
  | none =>
    dsimp only
    by_cases isWord : isWordChar c = true
    · rw [if_pos isWord]
      have all : ∀ d ∈ c :: rest.takeWhile isWordChar, isWordChar d = true :=
        List.forall_mem_cons.mpr ⟨isWord, fun d among =>
          List.all_eq_true.mp List.all_takeWhile d among⟩
      have stops := head?_dropWhile_eq_false isWordChar rest
      have cut := (List.takeWhile_append_dropWhile (p := isWordChar) (l := rest)).symm
      -- Were all of them digits, there would be a number in front.
      have noNumber : numberFront?
          (c :: rest.takeWhile isWordChar ++ rest.dropWhile isWordChar) = none := by
        rw [List.cons_append, ← cut, found]
      have other := exists_not_digit (List.cons_ne_nil _ _) (startsWord_eq_false_iff.mpr stops)
        noNumber
      exact .token cut (.word all other) (.inl stops)
    rw [if_neg isWord]
    by_cases comment : c = ';'
    · rw [if_pos comment]
      have cut := (List.takeWhile_append_dropWhile (p := (· != '\n')) (l := rest)).symm
      refine .comment comment cut (fun among => ?_) fun d found => ?_
      · have other := List.all_eq_true.mp List.all_takeWhile '\n' among
        cases other
      · have same := head?_dropWhile_eq_false (· != '\n') rest d found
        exact bne_eq_false_iff_eq.mp same
    rw [if_neg comment]
    cases mark : single? c with
    | some kind => exact .token rfl (.mark mark) (.inl (ends_of_mark rest mark))
    | none => exact .unknown

/-! ### The scanner and the rules -/

/-- Taken characters are passed over. -/
theorem scanFrom_taken (offset : Nat) (taken after : List Char) :
    scanFrom offset taken.length (taken ++ after) = scanFrom (offset + taken.length) 0 after := by
  rw [scanFrom_eq_drop _ _ _ (by simp), List.drop_left]

section Step

variable {c : Char} {more after : List Char}

/-- What is skipped is passed over as a whole. -/
theorem scanFrom_of_skipped (offset : Nat) (stands : front c (more ++ after) = .skipped more.length) :
    scanFrom offset 0 (c :: (more ++ after)) = scanFrom (offset + (c :: more).length) 0 after := by
  have passed : offset + 1 + more.length = offset + (c :: more).length := by
    rw [List.length_cons]
    omega
  rw [scanFrom, stands]
  dsimp only
  rw [scanFrom_taken, passed]

/-- A token in front is found, and then the tokens of what follows it. -/
theorem scanFrom_of_token (offset : Nat) {kind : Kind}
    (stands : front c (more ++ after) = .token kind more.length) :
    scanFrom offset 0 (c :: (more ++ after)) =
      (⟨kind, ⟨offset, offset + (c :: more).length⟩⟩ ::
          (scanFrom (offset + (c :: more).length) 0 after).1,
        (scanFrom (offset + (c :: more).length) 0 after).2) := by
  have passed : offset + 1 + more.length = offset + (c :: more).length := by
    rw [List.length_cons]
    omega
  have stop : (offset : Int) + more.length + 1 = offset + (c :: more).length := by
    rw [List.length_cons]
    omega
  rw [scanFrom, stands]
  dsimp only
  rw [scanFrom_taken, passed, stop]

end Step

/-- **The scanner finds the tokens of a text, and then those of what follows it.** -/
theorem scanFrom_of_lexes {follow text : List Char} {offset : Nat} {tokens : List Token}
    (lexes : Lexes follow offset text tokens) :
    scanFrom offset 0 (text ++ follow) =
      (tokens ++ (scanFrom (offset + text.length) 0 follow).1,
        (scanFrom (offset + text.length) 0 follow).2) := by
  induction lexes with
  | done => rfl
  | @blank offset c text tokens separator _ ih =>
    have place : offset + 1 + text.length = offset + (c :: text).length := by
      rw [List.length_cons]
      omega
    rw [List.cons_append, scanFrom, front_of_separator _ separator]
    dsimp only
    rw [ih, place]
  | @comment offset body text tokens sameLine ends _ ih =>
    have place : offset + 1 + body.length + text.length =
        offset + (';' :: (body ++ text)).length := by
      rw [List.length_cons, List.length_append]
      omega
    have passed : offset + (';' :: body).length = offset + 1 + body.length := by
      rw [List.length_cons]
      omega
    rw [List.cons_append, List.append_assoc,
      scanFrom_of_skipped offset (front_of_comment sameLine ends), passed, ih, place]
  | @token offset kind piece text tokens spells ends _ ih =>
    obtain ⟨c, more, rfl, found⟩ := front_of_spells spells ends
    have place : offset + (c :: more).length + text.length =
        offset + (c :: more ++ text).length := by
      rw [List.length_append]
      omega
    rw [List.append_assoc, List.cons_append, scanFrom_of_token offset found, ih, place]
    rfl

/-- **A text that is scanned to its end has its tokens by the rules.** -/
theorem lexes_of_scanFrom {text : List Char} {offset : Nat} {tokens : List Token}
    (scanned : scanFrom offset 0 text = (tokens, none)) : Lexes [] offset text tokens := by
  -- The induction is on the length: what stands in front may be longer than one character.
  induction size : text.length using Nat.strongRecOn generalizing text offset tokens with
  | ind count ih =>
    cases text with
    | nil =>
      cases scanned
      exact .done
    | cons c rest =>
      have fronts := fronts_front c rest
      generalize stands : front c rest = found at fronts
      cases fronts with
      | blank separator =>
        rw [scanFrom, stands] at scanned
        have shorter : rest.length < count := by
          rw [← size, List.length_cons]
          omega
        exact .blank separator (ih rest.length shorter scanned rfl)
      | @comment body after same cut sameLine ends =>
        subst same cut
        have passed : offset + (';' :: body).length = offset + 1 + body.length := by
          rw [List.length_cons]
          omega
        rw [scanFrom_of_skipped offset stands, passed] at scanned
        have shorter : after.length < count := by
          rw [← size, List.length_cons, List.length_append]
          omega
        have line : EndsLine (after ++ []) := by rwa [List.append_nil]
        exact .comment sameLine line (ih after.length shorter scanned rfl)
      | @token kind more after cut spells ends =>
        subst cut
        rw [scanFrom_of_token offset stands] at scanned
        generalize later : scanFrom (offset + (c :: more).length) 0 after = outcome at scanned
        obtain ⟨others, unknown⟩ := outcome
        cases scanned
        have shorter : after.length < count := by
          rw [← size, List.length_cons, List.length_append]
          omega
        rcases ends with ends | ⟨next, rest, rfl, stuck⟩
        · rw [← List.cons_append]
          have ended : Ends kind (after ++ []) := by rwa [List.append_nil]
          exact .token spells ended (ih after.length shorter later rfl)
        · rw [scanFrom, stuck] at later
          cases later
      | unknown =>
        rw [scanFrom, stands] at scanned
        cases scanned

/-- **The scanner decides the rules.** -/
theorem scanFrom_eq_iff {text : List Char} {offset : Nat} {tokens : List Token} :
    scanFrom offset 0 text = (tokens, none) ↔ Lexes [] offset text tokens := by
  refine ⟨lexes_of_scanFrom, fun lexes => ?_⟩
  have scanned := scanFrom_of_lexes lexes
  rwa [List.append_nil, scanFrom, List.append_nil] at scanned

/-! ### Texts cut and joined -/

namespace Lexes

variable {follow text : List Char} {offset : Nat} {tokens before after : List Token} {token : Token}

/-- **The end of a line, or of the source, may follow any text that has tokens.** -/
theorem followed {next : List Char} (lexes : Lexes follow offset text tokens)
    (line : EndsLine next) : Lexes next offset text tokens := by
  have same : ∀ {text : List Char} {test : Char → Prop}, test '\n' →
      (∀ c ∈ (text ++ follow).head?, test c) → ∀ c ∈ (text ++ next).head?, test c := by
    intro text test newline ends c found
    cases text with
    | nil =>
      rw [line c found]
      exact newline
    | cons first text => exact ends c found
  induction lexes with
  | done => exact .done
  | blank separator _ ih => exact .blank separator ih
  | comment sameLine ends _ ih => exact .comment sameLine (same rfl ends) ih
  | @token offset kind piece text tokens spells ends _ ih =>
    refine .token spells ?_ ih
    cases kind with
    | word name => exact same (by decide) ends
    | number value => exact same (by decide) ends
    | _ => trivial

/-- **A text cut before a token**: what is left has that token and those after it. -/
theorem from_token (lexes : Lexes follow offset text (before ++ token :: after)) :
    ∃ skipped rest, text = skipped ++ rest ∧ token.span.start = offset + skipped.length ∧
      Lexes follow (offset + skipped.length) rest (token :: after) := by
  generalize all : before ++ token :: after = tokens at lexes
  induction lexes generalizing before with
  | done => cases List.append_ne_nil_of_right_ne_nil before (List.cons_ne_nil token after) all
  | @blank offset c text tokens _ _ ih =>
    obtain ⟨skipped, rest, rfl, start, lexes⟩ := ih all
    have place : offset + 1 + skipped.length = offset + (c :: skipped).length := by
      rw [List.length_cons]
      omega
    rw [place] at lexes
    exact ⟨c :: skipped, rest, rfl, by rw [start, ← Int.natCast_add, ← Int.natCast_add, place], lexes⟩
  | @comment offset body text tokens _ _ _ ih =>
    obtain ⟨skipped, rest, rfl, start, lexes⟩ := ih all
    have place : offset + 1 + body.length + skipped.length =
        offset + (';' :: (body ++ skipped)).length := by
      rw [List.length_cons, List.length_append]
      omega
    rw [place] at lexes
    refine ⟨';' :: (body ++ skipped), rest, by rw [List.cons_append, List.append_assoc], ?_, lexes⟩
    rw [start, ← Int.natCast_add, ← Int.natCast_add, place]
  | @token offset kind piece text tokens spells ends later ih =>
    cases before with
    | nil =>
      cases all
      exact ⟨[], piece ++ text, rfl, by simp, .token spells ends later⟩
    | cons first before =>
      obtain ⟨_, others⟩ := List.cons.inj all
      obtain ⟨skipped, rest, rfl, start, lexes⟩ := ih others
      have place : offset + piece.length + skipped.length = offset + (piece ++ skipped).length := by
        rw [List.length_append]
        omega
      rw [place] at lexes
      refine ⟨piece ++ skipped, rest, by rw [List.append_assoc], ?_, lexes⟩
      rw [start, ← Int.natCast_add, ← Int.natCast_add, place]

/-- **A text cut after a token**: what was taken has the tokens up to that one. -/
theorem up_to_token (lexes : Lexes follow offset text (before ++ token :: after)) :
    ∃ taken rest, text = taken ++ rest ∧ token.span.stop = offset + taken.length ∧
      Lexes (rest ++ follow) offset taken (before ++ [token]) := by
  generalize all : before ++ token :: after = tokens at lexes
  induction lexes generalizing before with
  | done => cases List.append_ne_nil_of_right_ne_nil before (List.cons_ne_nil token after) all
  | @blank offset c text tokens separator _ ih =>
    obtain ⟨taken, rest, rfl, stop, lexes⟩ := ih all
    refine ⟨c :: taken, rest, rfl, ?_, .blank separator lexes⟩
    rw [stop, List.length_cons]
    omega
  | @comment offset body text tokens sameLine ends _ ih =>
    obtain ⟨taken, rest, rfl, stop, lexes⟩ := ih all
    rw [List.append_assoc] at ends
    refine ⟨';' :: (body ++ taken), rest, ?_, ?_, .comment sameLine ends lexes⟩
    · rw [List.cons_append, List.append_assoc]
    · rw [stop, List.length_cons, List.length_append]
      omega
  | @token offset kind piece text tokens spells ends later ih =>
    cases before with
    | nil =>
      cases all
      have alone : Lexes (text ++ follow) offset (piece ++ []) _ := .token spells ends .done
      rw [List.append_nil] at alone
      exact ⟨piece, text, rfl, rfl, alone⟩
    | cons first before =>
      obtain ⟨rfl, others⟩ := List.cons.inj all
      obtain ⟨taken, rest, rfl, stop, lexes⟩ := ih others
      rw [List.append_assoc] at ends
      refine ⟨piece ++ taken, rest, by rw [List.append_assoc], ?_, .token spells ends lexes⟩
      rw [stop, List.length_append]
      omega

/-- **A stretch of a text**, from the start of a token to the end of a token, has the tokens that
stand in it. -/
theorem stretch {among : List Token} {first last : Token}
    (lexes : Lexes follow offset text (before ++ (among ++ after)))
    (starts : among.head? = some first) (stops : among.getLast? = some last) :
    ∃ skipped piece rest, text = skipped ++ (piece ++ rest) ∧
      first.span.start = offset + skipped.length ∧
      last.span.stop = offset + skipped.length + piece.length ∧
      Lexes [] (offset + skipped.length) piece among := by
  obtain ⟨others, rfl⟩ := List.head?_eq_some_iff.mp starts
  obtain ⟨skipped, text, rfl, start, lexes⟩ := lexes.from_token
  obtain ⟨front, cut⟩ := List.getLast?_eq_some_iff.mp stops
  change Lexes follow _ text (first :: others ++ after) at lexes
  rw [cut, List.append_assoc] at lexes
  obtain ⟨piece, rest, rfl, stop, lexes⟩ := lexes.up_to_token
  rw [← cut] at lexes
  refine ⟨skipped, piece, rest, rfl, start, ?_, lexes.followed fun _ found => nomatch found⟩
  rw [stop, Int.natCast_add]

/-! ### Where tokens stand -/

/-- **The tokens of a text stand in it one after another.** -/
theorem inOrder (lexes : Lexes follow offset text tokens) :
    Span.InOrder offset (offset + text.length) (tokens.map Token.span) := by
  induction lexes with
  | done => exact Span.InOrder.nil
  | @blank offset c text tokens _ _ ih =>
    refine ih.mono (by omega) ?_
    rw [List.length_cons]
    omega
  | @comment offset body text tokens _ _ _ ih =>
    refine ih.mono (by omega) ?_
    rw [List.length_cons, List.length_append]
    omega
  | @token offset kind piece text tokens spells _ _ ih =>
    have width := spells.length_pos
    have inside : (piece ++ text).length = piece.length + text.length := List.length_append
    have nonempty : (offset : Int) < offset + piece.length := by omega
    have stops : (offset : Int) + piece.length ≤ offset + (piece ++ text).length := by omega
    have later : Span.InOrder (offset + piece.length) (offset + (piece ++ text).length)
        (tokens.map Token.span) := ih.mono (by omega) (by omega)
    exact Span.InOrder.cons (Int.le_refl _) nonempty stops later

end Lexes

/-! ### A text at another offset -/

/-- A character that starts no token, at another place of a larger text. -/
def Unknown.shift (distance : Nat) (unknown : Unknown) : Unknown :=
  { unknown with offset := unknown.offset + distance }

/-- **The scanner finds the same tokens at another offset.** -/
theorem scanFrom_shift (offset distance taken : Nat) (text : List Char) :
    scanFrom (offset + distance) taken text =
      ((scanFrom offset taken text).1.map (Token.shift distance),
        (scanFrom offset taken text).2.map (Unknown.shift distance)) := by
  induction text generalizing offset taken with
  | nil => cases taken <;> rfl
  | cons c rest ih =>
    have next : offset + distance + 1 = offset + 1 + distance := Nat.add_right_comm ..
    cases taken with
    | succ taken => rw [scanFrom, scanFrom, next, ih]
    | zero =>
      rw [scanFrom, scanFrom, next]
      cases front c rest with
      | skipped more => exact ih (offset + 1) more
      | unknown => rfl
      | token kind more =>
        dsimp only
        rw [ih, List.map_cons]
        congr 2
        simp only [Token.shift, Span.shift, Int.natCast_add]
        congr 2
        omega

/-- **Sources on two lines**: the tokens of the second follow those of the first, from the next
line on. -/
theorem scan_join {first : String} (second : String) {tokens : List Token}
    (scanned : scan first = (tokens, none)) :
    scan (first ++ "\n" ++ second) =
      (tokens ++ (scan second).1.map (Token.shift (first.length + 1 : Nat)),
        (scan second).2.map (Unknown.shift (first.length + 1))) := by
  have text : (first ++ "\n" ++ second).toList = first.toList ++ '\n' :: second.toList := by
    rw [String.toList_append, String.toList_append, List.append_assoc]
    rfl
  have line : EndsLine ('\n' :: second.toList) := fun c found => (Option.some.inj found).symm
  have lexes := (lexes_of_scanFrom scanned).followed line
  have next : scanFrom first.length 0 ('\n' :: second.toList) =
      scanFrom (0 + (first.length + 1)) 0 second.toList := by
    rw [scanFrom, front_of_separator _ rfl, Nat.zero_add]
  rw [scan, text, scanFrom_of_lexes lexes, String.length_toList, Nat.zero_add, next, scanFrom_shift]
  rfl

/-! ### What the scanner has found -/

/-- **Every token is as wide as it is written**, also where the scanner stops. -/
theorem exact_of_scanFrom (offset taken : Nat) (text : List Char) :
    ∀ token ∈ (scanFrom offset taken text).1, token.Exact := by
  induction text generalizing offset taken with
  | nil => cases taken <;> exact List.forall_mem_nil _
  | cons c rest ih =>
    cases taken with
    | succ taken => exact ih (offset + 1) taken
    | zero =>
      have fronts := fronts_front c rest
      rw [scanFrom]
      generalize front c rest = found at fronts
      cases fronts with
      | blank _ => exact ih (offset + 1) 0
      | @comment body _ _ _ _ _ => exact ih (offset + 1) body.length
      | unknown => exact List.forall_mem_nil _
      | @token kind more after _ spells _ =>
        have stop : (offset : Int) + more.length + 1 = offset + (c :: more).length := by
          rw [List.length_cons]
          omega
        have own : Exact ⟨kind, ⟨offset, offset + more.length + 1⟩⟩ := by
          rw [stop]
          exact spells.exact offset
        exact List.forall_mem_cons.mpr ⟨own, ih (offset + 1) more.length⟩

/-- **Every token stands in the text**, also where the scanner stops. -/
theorem inside_of_scanFrom (offset taken : Nat) (text : List Char) :
    ∀ token ∈ (scanFrom offset taken text).1, token.span.Inside offset (offset + text.length) := by
  induction text generalizing offset taken with
  | nil => cases taken <;> exact List.forall_mem_nil _
  | cons c rest ih =>
    have later : ∀ taken, ∀ token ∈ (scanFrom (offset + 1) taken rest).1,
        token.span.Inside offset (offset + (c :: rest).length) := by
      intro taken token among
      refine (ih (offset + 1) taken token among).mono (by omega) ?_
      rw [List.length_cons]
      omega
    cases taken with
    | succ taken => exact later taken
    | zero =>
      have fronts := fronts_front c rest
      rw [scanFrom]
      generalize front c rest = found at fronts
      cases fronts with
      | blank _ => exact later 0
      | @comment body _ _ _ _ _ => exact later body.length
      | unknown => exact List.forall_mem_nil _
      | @token kind more after cut _ _ =>
        have width : rest.length = more.length + after.length := by rw [cut, List.length_append]
        refine List.forall_mem_cons.mpr ⟨⟨Int.le_refl _, ?_, ?_⟩, later more.length⟩
        · dsimp only
          omega
        · rw [List.length_cons]
          dsimp only
          omega

/-- **The scanner stops at a character of the text**, after every token it has found. -/
theorem scanFrom_unknown {text : List Char} {offset taken : Nat} {tokens : List Token}
    {unknown : Unknown} (scanned : scanFrom offset taken text = (tokens, some unknown)) :
    (∃ place, unknown.offset = offset + taken + place ∧
        text[taken + place]? = some unknown.character) ∧
      ∀ token ∈ tokens, token.span.stop ≤ unknown.offset := by
  induction text generalizing offset taken tokens with
  | nil => cases taken <;> cases scanned
  | cons c rest ih =>
    cases taken with
    | succ taken =>
      obtain ⟨⟨place, far, found⟩, before⟩ := ih scanned
      refine ⟨⟨place, by omega, ?_⟩, before⟩
      rw [Nat.succ_add, List.getElem?_cons_succ]
      exact found
    | zero =>
      rw [scanFrom] at scanned
      cases stands : front c rest with
      | unknown =>
        rw [stands] at scanned
        cases scanned
        exact ⟨⟨0, rfl, rfl⟩, List.forall_mem_nil _⟩
      | skipped more =>
        rw [stands] at scanned
        obtain ⟨⟨place, far, found⟩, before⟩ := ih scanned
        refine ⟨⟨more + place + 1, by omega, ?_⟩, before⟩
        rw [Nat.zero_add, List.getElem?_cons_succ]
        exact found
      | token kind more =>
        rw [stands] at scanned
        dsimp only at scanned
        generalize later : scanFrom (offset + 1) more rest = outcome at scanned
        obtain ⟨others, stopped⟩ := outcome
        cases scanned
        obtain ⟨⟨place, far, found⟩, before⟩ := ih later
        refine ⟨⟨more + place + 1, by omega, ?_⟩, List.forall_mem_cons.mpr ⟨?_, before⟩⟩
        · rw [Nat.zero_add, List.getElem?_cons_succ]
          exact found
        · dsimp only
          omega

end Token

end EtaLong
