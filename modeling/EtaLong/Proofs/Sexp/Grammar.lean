/-
**The reader decides its grammar.**

The grammar is about kinds of tokens only: a row of data, each of them a symbol, a comma, a number,
a quote with its symbol, or a row of data in a pair of brackets. Some kinds can be the front of a
sentence and some cannot. The reader takes a row of tokens exactly as long as it can still become a
sentence, so the token it refuses is the first after which nothing could be completed, and a source
is too short exactly when it could have gone on.

* `Sexp.Data`, `Sexp.Datum`: the grammar;
* `Sexp.Viable`: the fronts of sentences;
* `Sexp.viable_tokens`: whatever the reader has taken can be completed;
* `Sexp.data_iff`, `Sexp.viable_iff`: sentences and their fronts are what the reader takes;
* `Sexp.readAll_decides_grammar`: which outcome each source has.
-/

import EtaLong.Proofs.Sexp

namespace EtaLong

namespace Sexp

open Token (Kind)

/-! ### The grammar -/

mutual

/-- **One datum.** -/
inductive Datum : List Kind → Prop where
  | symbol (name : String) : Datum [.word name]
  | comma : Datum [.comma]
  | number (value : Nat) : Datum [.number value]
  | quoted (name : String) : Datum [.quote, .word name]
  | group (bracket : Bracket) {inner : List Kind} : Data inner →
      Datum (.opening bracket :: (inner ++ [.closing bracket]))

/-- **A row of data**: the sentences. -/
inductive Data : List Kind → Prop where
  | nil : Data []
  | cons {first rest : List Kind} : Datum first → Data rest → Data (first ++ rest)

end

/-- **The fronts of sentences.** -/
def Viable (kinds : List Kind) : Prop := ∃ rest, Data (kinds ++ rest)

/-- **The first token that no sentence allows**: what stands before it can be completed, but not
with this token next. -/
def FirstBad (tokens : List Token) (token : Token) : Prop :=
  ∃ before after, tokens = before ++ token :: after ∧ Viable (before.map Token.kind) ∧
    ¬ Viable (before.map Token.kind ++ [token.kind])

theorem Datum.data {kinds : List Kind} (datum : Datum kinds) : Data kinds := by
  have single := Data.cons datum .nil
  rwa [List.append_nil] at single

/-- Two sentences in a row are a sentence. -/
theorem Data.append {front back : List Kind} : Data front → Data back → Data (front ++ back)
  | .nil, second => second
  | .cons datum data, second => by
    rw [List.append_assoc]
    exact .cons datum (data.append second)

/-! ### What was taken can be completed -/

mutual

/-- The tokens of an expression are a datum. -/
theorem datum_tokens : (item : Sexp) → Datum (item.tokens.map Token.kind)
  | symbol span name => by
    rw [tokens]
    by_cases comma : name = ","
    · rw [if_pos comma]
      exact .comma
    · rw [if_neg comma]
      exact .symbol name
  | number _ value => .number value
  | quoted _ name => .quoted name
  | group bracket _ items => by
    rw [tokens, List.map_cons, List.map_append]
    exact .group bracket (data_tokensAll items)

/-- The tokens of a row of expressions are a sentence. -/
theorem data_tokensAll : (items : List Sexp) → Data ((tokensAll items).map Token.kind)
  | [] => .nil
  | item :: items => by
    rw [tokensAll, List.map_append]
    exact .cons (datum_tokens item) (data_tokensAll items)

end

/-- The brackets that close the open groups, the innermost first. -/
def closers (groups : List OpenGroup) : List Kind :=
  groups.map fun innermost => .closing innermost.bracket

/-- **Open groups can be closed** around any sentence. -/
theorem data_closed (groups : List OpenGroup) {inner : List Kind} (data : Data inner) :
    Data ((Reader.outerTokens groups).map Token.kind ++ (inner ++ closers groups)) := by
  induction groups generalizing inner with
  | nil =>
    rw [closers, List.map_nil, List.append_nil]
    exact data
  | cons innermost groups ih =>
    have closed : Data (.opening innermost.bracket :: (inner ++ [.closing innermost.bracket])) :=
      (Datum.group innermost.bracket data).data
    have level := (data_tokensAll innermost.before.reverse).append closed
    have whole := ih level
    simp only [Reader.outerTokens, closers, List.map_append, List.map_cons, List.map_nil,
      List.append_assoc, List.cons_append, List.nil_append] at whole ⊢
    exact whole

/-- **Whatever a reader has taken can be completed**: by a symbol, if a quote waits for it, and the
brackets that are missing. -/
theorem viable_tokens (reader : Reader) : Viable (reader.tokens.map Token.kind) := by
  obtain ⟨items, groups, quote⟩ := reader
  have level := data_tokensAll items.reverse
  cases quote with
  | none =>
    refine ⟨closers groups, ?_⟩
    have whole := data_closed groups level
    simp only [Reader.tokens, Reader.quoteTokens, List.map_append, List.append_nil,
      List.append_assoc] at whole ⊢
    exact whole
  | some start =>
    refine ⟨.word "" :: closers groups, ?_⟩
    have whole := data_closed groups (level.append (Datum.quoted "").data)
    simp only [Reader.tokens, Reader.quoteTokens, List.map_append, List.map_cons, List.map_nil,
      List.append_assoc, List.cons_append, List.nil_append] at whole ⊢
    exact whole

/-! ### Sentences are taken -/

mutual

/-- **A datum is taken** wherever no quote waits, whatever its tokens say beside their kinds. -/
theorem Datum.fed {kinds : List Kind} : Datum kinds → ∀ {row : List Token},
    row.map Token.kind = kinds → ∀ (items : List Sexp) (groups : List OpenGroup),
    ∃ items', Reader.feedAll ⟨items, groups, none⟩ row = .ok ⟨items', groups, none⟩
  | .symbol name, row, same, items, groups => by
    obtain ⟨⟨_, span⟩, rfl, rfl⟩ := List.map_eq_singleton_iff.mp same
    exact ⟨_, rfl⟩
  | .comma, row, same, items, groups => by
    obtain ⟨⟨_, span⟩, rfl, rfl⟩ := List.map_eq_singleton_iff.mp same
    exact ⟨_, rfl⟩
  | .number value, row, same, items, groups => by
    obtain ⟨⟨_, span⟩, rfl, rfl⟩ := List.map_eq_singleton_iff.mp same
    exact ⟨_, rfl⟩
  | .quoted name, row, same, items, groups => by
    obtain ⟨⟨_, mark⟩, rest, rfl, rfl, sameRest⟩ := List.map_eq_cons_iff.mp same
    obtain ⟨⟨_, span⟩, rfl, rfl⟩ := List.map_eq_singleton_iff.mp sameRest
    exact ⟨_, rfl⟩
  | .group bracket data, row, same, items, groups => by
    obtain ⟨⟨_, first⟩, rest, rfl, rfl, sameRest⟩ := List.map_eq_cons_iff.mp same
    obtain ⟨content, last, rfl, sameContent, sameLast⟩ := List.map_eq_append_iff.mp sameRest
    obtain ⟨⟨_, last⟩, rfl, rfl⟩ := List.map_eq_singleton_iff.mp sameLast
    obtain ⟨inside, fed⟩ := data.fed sameContent [] (⟨bracket, first.start, items⟩ :: groups)
    refine ⟨.group bracket ⟨first.start, last.stop⟩ inside.reverse :: items, ?_⟩
    rw [Reader.feedAll]
    dsimp only [Reader.feed]
    rw [Reader.feedAll_append _ fed, Reader.feedAll]
    dsimp only [Reader.feed]
    rw [if_pos rfl]
    rfl

/-- **A sentence is taken** wherever no quote waits. -/
theorem Data.fed {kinds : List Kind} : Data kinds → ∀ {row : List Token},
    row.map Token.kind = kinds → ∀ (items : List Sexp) (groups : List OpenGroup),
    ∃ items', Reader.feedAll ⟨items, groups, none⟩ row = .ok ⟨items', groups, none⟩
  | .nil, row, same, items, groups => by
    obtain rfl := List.map_eq_nil_iff.mp same
    exact ⟨items, rfl⟩
  | .cons datum data, row, same, items, groups => by
    obtain ⟨front, back, rfl, sameFront, sameBack⟩ := List.map_eq_append_iff.mp same
    obtain ⟨between, fedFront⟩ := datum.fed sameFront items groups
    obtain ⟨last, fedBack⟩ := data.fed sameBack between groups
    exact ⟨last, (Reader.feedAll_append back fedFront).trans fedBack⟩

end

/-! ### The reader and the grammar -/

section Rows

variable {row : List Token} {token : Token}

/-- **A row is a sentence** when it is the tokens of expressions. -/
theorem data_iff (widths : ∀ token ∈ row, token.Exact) :
    Data (row.map Token.kind) ↔ ∃ items, row = tokensAll items := by
  constructor
  · intro data
    obtain ⟨items, fed⟩ := data.fed rfl [] []
    have taken := Reader.tokens_feedAll widths fed
    simp only [Reader.tokens, Reader.outerTokens, Reader.quoteTokens, List.append_nil,
      List.nil_append, List.reverse_nil, tokensAll] at taken
    exact ⟨items.reverse, taken.symm⟩
  · rintro ⟨items, rfl⟩
    exact data_tokensAll items

/-- **A row is the front of a sentence** when the reader takes it. -/
theorem viable_iff (widths : ∀ token ∈ row, token.Exact) :
    Viable (row.map Token.kind) ↔ ∃ reader, Reader.feedAll {} row = .ok reader := by
  constructor
  · rintro ⟨rest, data⟩
    -- What is missing is given to the reader at any place.
    have same : (row ++ rest.map fun kind => (⟨kind, ⟨0, 0⟩⟩ : Token)).map Token.kind =
        row.map Token.kind ++ rest := by
      rw [List.map_append, List.map_map]
      exact congrArg _ (List.map_id rest)
    obtain ⟨items, fed⟩ := data.fed same [] []
    cases taken : Reader.feedAll {} row with
    | ok reader => exact ⟨reader, rfl⟩
    | error error =>
      rw [Reader.feedAll_append_error _ taken] at fed
      cases fed
  · rintro ⟨reader, fed⟩
    have taken := Reader.tokens_feedAll widths fed
    have viable := viable_tokens reader
    rw [taken] at viable
    exact viable

/-- A reader that has taken a row is done exactly if the row is a sentence. -/
theorem finish?_eq_none_iff {reader : Reader} (widths : ∀ token ∈ row, token.Exact)
    (fed : Reader.feedAll {} row = .ok reader) :
    reader.finish? = none ↔ ¬ Data (row.map Token.kind) := by
  rw [data_iff widths]
  constructor
  · rintro unfinished ⟨items, rfl⟩
    rw [Reader.feedAll_tokensAll items [] []] at fed
    cases fed
    cases unfinished
  · intro noSentence
    cases finished : reader.finish? with
    | none => rfl
    | some items =>
      have taken := Reader.tokens_feedAll widths fed
      rw [(Reader.tokens_of_finish? finished).2] at taken
      exact absurd ⟨items, taken.symm⟩ noSentence

/-- **The first bad token is the one that is refused.** -/
theorem firstBad_iff (widths : ∀ token ∈ row, token.Exact) {span : Span} :
    Reader.feedAll {} row = .error (.unexpectedToken span) ↔
      ∃ token, FirstBad row token ∧ token.span = span := by
  constructor
  · intro failed
    obtain ⟨before, token, after, reader, rfl, fed, refused, same⟩ :=
      Reader.exists_of_feedAll_eq_error failed
    obtain ⟨widthsBefore, widthsAfter⟩ := List.forall_mem_append.mp widths
    have width := (List.forall_mem_cons.mp widthsAfter).1
    have widthsNext : ∀ other ∈ before ++ [token], other.Exact :=
      List.forall_mem_append.mpr ⟨widthsBefore, List.forall_mem_singleton.mpr width⟩
    refine ⟨token, ⟨before, after, rfl, (viable_iff widthsBefore).mpr ⟨reader, fed⟩, ?_⟩, ?_⟩
    · intro viable
      have both : (before ++ [token]).map Token.kind = before.map Token.kind ++ [token.kind] :=
        List.map_append
      rw [← both] at viable
      obtain ⟨next, fedNext⟩ := (viable_iff widthsNext).mp viable
      rw [Reader.feedAll_append _ fed, Reader.feedAll, refused] at fedNext
      cases fedNext
    · exact (ReadError.unexpectedToken.inj same).symm
  · rintro ⟨token, ⟨before, after, rfl, viable, bad⟩, rfl⟩
    obtain ⟨widthsBefore, widthsAfter⟩ := List.forall_mem_append.mp widths
    have width := (List.forall_mem_cons.mp widthsAfter).1
    obtain ⟨reader, fed⟩ := (viable_iff widthsBefore).mp viable
    rw [Reader.feedAll_append _ fed, Reader.feedAll]
    cases next : reader.feed token with
    | none => rfl
    | some further =>
      refine absurd ?_ bad
      have taken := Reader.tokens_feedAll widthsBefore fed
      have viableNext := viable_tokens further
      rw [Reader.tokens_feed width next, taken, List.map_append] at viableNext
      exact viableNext

/-- A row that is no front of a sentence has a first bad token. -/
theorem exists_firstBad_iff (widths : ∀ token ∈ row, token.Exact) :
    (∃ token, FirstBad row token) ↔ ¬ Viable (row.map Token.kind) := by
  rw [viable_iff widths]
  constructor
  · rintro ⟨token, bad⟩ ⟨reader, fed⟩
    have failed := (firstBad_iff widths).mpr ⟨token, bad, rfl⟩
    rw [fed] at failed
    cases failed
  · intro refused
    cases failed : Reader.feedAll {} row with
    | ok reader => exact absurd ⟨reader, failed⟩ refused
    | error error =>
      obtain ⟨_, token, _, _, _, _, _, rfl⟩ := Reader.exists_of_feedAll_eq_error failed
      obtain ⟨token, bad, _⟩ := (firstBad_iff widths).mp failed
      exact ⟨token, bad⟩

end Rows

/-! ### Outcomes of sources -/

/-- **A source fails to be read**, and this is reported. -/
def Fails (source message : String) (span : Span) : Prop :=
  ∃ error, readAll source = .error error ∧
    error.report source = { kind := .malformed, message, span := some span, source := some source }

theorem fails_iff {source message : String} {span : Span} :
    Fails source message span ↔
      ∃ error, readAll source = .error error ∧ error.message = message ∧ error.span = span := by
  simp only [Fails, ReadError.report, Diagnostic.mk.injEq, Option.some.injEq, true_and, and_true]

/-- A text that starts with other words than a message is not the message. -/
theorem append_ne {front message : String} (place : Nat) {letter : Char}
    (own : front.toList[place]? = some letter) (other : message.toList[place]? ≠ some letter)
    (words : String) : front ++ words ≠ message := by
  rintro rfl
  have bound := (List.getElem?_eq_some_iff.mp own).1
  rw [String.toList_append, List.getElem?_append_left bound] at other
  exact other own

/-- A character that starts no token is reported in words of its own. -/
theorem unexpectedCharacter_ne {message : String} (other : message.toList[11]? ≠ some 'c')
    (words : String) : "Unexpected character " ++ words ≠ message :=
  append_ne 11 (by decide +kernel) other words

section Sources

variable {source : String} {tokens : List Token} {unknown : Option Token.Unknown}

/-- **Why a source fails**: a token is refused, or all are taken and a character starts no token, or
all are taken and something is still open. -/
theorem readAll_eq_error_iff (scanned : Token.scan source = (tokens, unknown)) {error : ReadError} :
    readAll source = .error error ↔
      Reader.feedAll {} tokens = .error error ∨
        ∃ reader, Reader.feedAll {} tokens = .ok reader ∧
          ((∃ found, unknown = some found ∧
              error = .unknownCharacter found.offset found.character) ∨
            unknown = none ∧ reader.finish? = none ∧ error = .unexpectedEnd source.length) := by
  rw [readAll_eq scanned]
  cases fed : Reader.feedAll {} tokens with
  | error refused => simp [Except.bind]
  | ok reader =>
    cases unknown with
    | some found => simp [Except.bind, eq_comm]
    | none => cases finished : reader.finish? <;> simp [Except.bind, finished, eq_comm]

theorem known_iff_lexes (scanned : Token.scan source = (tokens, unknown)) :
    unknown = none ↔ Token.Lexes [] 0 source.toList tokens := by
  rw [← Token.scanFrom_eq_iff, ← Token.scan, scanned, Prod.mk.injEq]
  exact ⟨fun known => ⟨rfl, known⟩, fun both => both.2⟩

/-- A token is reported when the reader refuses it. -/
theorem fails_unexpectedToken_iff (scanned : Token.scan source = (tokens, unknown)) {span : Span} :
    Fails source "Unexpected token" span ↔
      Reader.feedAll {} tokens = .error (.unexpectedToken span) := by
  rw [fails_iff]
  constructor
  · rintro ⟨error, failed, message, rfl⟩
    rcases (readAll_eq_error_iff scanned).mp failed with
      refused | ⟨_, _, ⟨found, _, rfl⟩ | ⟨_, _, rfl⟩⟩
    · obtain ⟨_, token, _, _, _, _, _, rfl⟩ := Reader.exists_of_feedAll_eq_error refused
      exact refused
    · exact absurd message (unexpectedCharacter_ne (by decide +kernel) _)
    · have differ : "Unexpected end of input" ≠ "Unexpected token" := by decide +kernel
      exact absurd message differ
  · intro refused
    exact ⟨_, (readAll_eq_error_iff scanned).mpr (.inl refused), rfl, rfl⟩

/-- The end of a source is reported when the reader has taken all of it and something is open. -/
theorem fails_unexpectedEnd_iff (scanned : Token.scan source = (tokens, unknown)) {span : Span} :
    Fails source "Unexpected end of input" span ↔
      unknown = none ∧ ∃ reader, Reader.feedAll {} tokens = .ok reader ∧ reader.finish? = none ∧
        span = ⟨source.length, source.length⟩ := by
  rw [fails_iff]
  constructor
  · rintro ⟨error, failed, message, rfl⟩
    rcases (readAll_eq_error_iff scanned).mp failed with
      refused | ⟨reader, fed, ⟨found, _, rfl⟩ | ⟨known, unfinished, rfl⟩⟩
    · obtain ⟨_, token, _, _, _, _, _, rfl⟩ := Reader.exists_of_feedAll_eq_error refused
      have differ : "Unexpected token" ≠ "Unexpected end of input" := by decide +kernel
      exact absurd message differ
    · exact absurd message (unexpectedCharacter_ne (by decide +kernel) _)
    · exact ⟨known, reader, fed, unfinished, rfl⟩
  · rintro ⟨known, reader, fed, unfinished, rfl⟩
    refine ⟨.unexpectedEnd source.length, ?_, rfl, rfl⟩
    exact (readAll_eq_error_iff scanned).mpr (.inr ⟨reader, fed, .inr ⟨known, unfinished, rfl⟩⟩)

/-- **The reader decides its grammar and reports the first bad token.** It reads the sources of
which all characters belong to tokens, if those are a sentence, and what it returns has exactly these
tokens. A row that no sentence starts with is refused at the first token from which on this is so.
One that could go on is refused at the end of the source, if it is read so far. A character that
starts no token is reported if the tokens before it could go on; a token that is refused instead
stands before it. -/
theorem readAll_decides_grammar (scanned : Token.scan source = (tokens, unknown)) :
    (unknown = none ↔ Token.Lexes [] 0 source.toList tokens) ∧
      ((∃ row, readAll source = .ok row) ↔ unknown = none ∧ Data (tokens.map Token.kind)) ∧
      (∀ row, readAll source = .ok row → tokensAll row = tokens) ∧
      ((∃ token, FirstBad tokens token) ↔ ¬ Viable (tokens.map Token.kind)) ∧
      (∀ span, Fails source "Unexpected token" span ↔
        ∃ token, FirstBad tokens token ∧ token.span = span) ∧
      (∀ span, Fails source "Unexpected end of input" span ↔
        unknown = none ∧ Viable (tokens.map Token.kind) ∧ ¬ Data (tokens.map Token.kind) ∧
          span = ⟨source.length, source.length⟩) ∧
      ∀ found, unknown = some found →
        source.toList[found.offset]? = some found.character ∧
          (Viable (tokens.map Token.kind) → Fails source
            ("Unexpected character " ++ Text.quoted (toString found.character))
            ⟨found.offset, found.offset + 1⟩) ∧
          ∀ token, FirstBad tokens token → token.span.stop ≤ found.offset := by
  have widths := exact_of_scan scanned
  refine ⟨known_iff_lexes scanned, ?_, ?_, exists_firstBad_iff widths, ?_, ?_, ?_⟩
  · simp only [readAll_eq_ok_iff, scanned, Prod.mk.injEq, exists_and_right, data_iff widths]
    exact and_comm
  · intro row read
    rw [readAll_eq_ok_iff, scanned] at read
    exact (Prod.mk.inj read).1.symm
  · intro span
    rw [fails_unexpectedToken_iff scanned, firstBad_iff widths]
  · intro span
    rw [fails_unexpectedEnd_iff scanned, viable_iff widths]
    constructor
    · rintro ⟨known, reader, fed, unfinished, place⟩
      exact ⟨known, ⟨reader, fed⟩, (finish?_eq_none_iff widths fed).mp unfinished, place⟩
    · rintro ⟨known, ⟨reader, fed⟩, noSentence, place⟩
      exact ⟨known, reader, fed, (finish?_eq_none_iff widths fed).mpr noSentence, place⟩
  · rintro found rfl
    obtain ⟨⟨place, far, stands⟩, before⟩ := Token.scanFrom_unknown scanned
    simp only [Nat.zero_add] at far stands
    rw [← far] at stands
    refine ⟨stands, fun viable => ?_, fun token bad => ?_⟩
    · obtain ⟨reader, fed⟩ := (viable_iff widths).mp viable
      refine fails_iff.mpr ⟨.unknownCharacter found.offset found.character, ?_, rfl, rfl⟩
      exact (readAll_eq_error_iff scanned).mpr (.inr ⟨reader, fed, .inl ⟨found, rfl, rfl⟩⟩)
    · obtain ⟨_, _, rfl, _, _⟩ := bad
      exact before token (List.mem_append_right _ List.mem_cons_self)

end Sources

/-- A bracket after a quote is refused before the character that starts no token. -/
theorem readAll_decides_grammar_at_bracket_after_quote :
    ∃ tokens, Token.scan "(a '[ #" = (tokens, some ⟨6, '#'⟩) ∧
      ∃ token, FirstBad tokens token ∧ token.span = ⟨4, 5⟩ ∧ token.span.stop ≤ 6 := by
  have scanned : Token.scan "(a '[ #" =
      ([⟨.opening .round, ⟨0, 1⟩⟩, ⟨.word "a", ⟨1, 2⟩⟩, ⟨.quote, ⟨3, 4⟩⟩,
        ⟨.opening .square, ⟨4, 5⟩⟩], some ⟨6, '#'⟩) := by decide +kernel
  obtain ⟨_, _, _, _, refused, _, stopped⟩ := readAll_decides_grammar scanned
  have fails : Fails "(a '[ #" "Unexpected token" ⟨4, 5⟩ := ⟨.unexpectedToken ⟨4, 5⟩, rfl, rfl⟩
  obtain ⟨token, bad, place⟩ := (refused ⟨4, 5⟩).mp fails
  exact ⟨_, scanned, token, bad, place, (stopped _ rfl).2.2 token bad⟩

end Sexp

end EtaLong
