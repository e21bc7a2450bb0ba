/-
**The reader undoes the writing out of tokens.**

A symbolic expression knows the tokens it was written with: their kinds, their values and, as every
token but a number is as wide as what it says, their places. So does a reader that has come
halfway. Each token that the reader takes is the next one of those it stands for, and from the
tokens of an expression it gets that expression back.

* `Sexp.tokens`, `Sexp.Reader.tokens`: the tokens of an expression, and those taken so far;
* `Sexp.Reader.tokens_feed`, `Sexp.Reader.tokens_feedAll`: nothing is lost, doubled or moved;
* `Sexp.Reader.feedAll_tokens`: an expression is read from its tokens, wherever one may stand;
* `Sexp.readAll_eq_ok_iff`: a source is read as the expressions whose tokens it has;
* `Sexp.Reader.feedAll_alike`: what is refused depends on the brackets that are open and on the
  kinds of the tokens alone.
-/

import EtaLong.Sexp
import EtaLong.Proofs.Outcome
import EtaLong.Proofs.Token

namespace EtaLong

namespace Sexp

/-! ### Tokens of expressions -/

mutual

/-- **The tokens an expression was written with.** -/
def tokens : Sexp → List Token
  | symbol span name => [⟨if name = "," then .comma else .word name, span⟩]
  | number span value => [⟨.number value, span⟩]
  | quoted span name =>
    [⟨.quote, ⟨span.start, span.start + 1⟩⟩, ⟨.word name, ⟨span.stop - name.length, span.stop⟩⟩]
  | group bracket span items =>
    ⟨.opening bracket, ⟨span.start, span.start + 1⟩⟩ ::
      (tokensAll items ++ [⟨.closing bracket, ⟨span.stop - 1, span.stop⟩⟩])

/-- The tokens of a row of expressions. -/
def tokensAll : List Sexp → List Token
  | [] => []
  | item :: items => item.tokens ++ tokensAll items

end

@[simp] theorem tokensAll_append (front back : List Sexp) :
    tokensAll (front ++ back) = tokensAll front ++ tokensAll back := by
  induction front with
  | nil => rfl
  | cons item front ih => rw [List.cons_append, tokensAll, tokensAll, ih, List.append_assoc]

@[simp] theorem tokensAll_singleton (item : Sexp) : tokensAll [item] = item.tokens :=
  List.append_nil _

mutual

/-- An expression at another place of a larger text. -/
def shift (distance : Int) : Sexp → Sexp
  | symbol span name => symbol (span.shift distance) name
  | number span value => number (span.shift distance) value
  | quoted span name => quoted (span.shift distance) name
  | group bracket span items => group bracket (span.shift distance) (shiftAll distance items)

/-- A row of expressions at another place of a larger text. -/
def shiftAll (distance : Int) : List Sexp → List Sexp
  | [] => []
  | item :: items => item.shift distance :: shiftAll distance items

end

mutual

/-- An expression at another place has its tokens there. -/
theorem tokens_shift (distance : Int) :
    (item : Sexp) → (item.shift distance).tokens = item.tokens.map (Token.shift distance)
  | symbol _ _ => rfl
  | number _ _ => rfl
  | quoted span name => by
    have first : span.start + distance + 1 = span.start + 1 + distance := by omega
    have last : span.stop + distance - name.length = span.stop - name.length + distance := by omega
    simp only [shift, tokens, List.map_cons, List.map_nil, Token.shift, Span.shift, first, last]
  | group bracket span items => by
    have first : span.start + distance + 1 = span.start + 1 + distance := by omega
    have last : span.stop + distance - 1 = span.stop - 1 + distance := by omega
    simp only [shift, tokens, List.map_cons, List.map_append, List.map_nil, Token.shift, Span.shift,
      tokensAll_shift distance items, first, last]

theorem tokensAll_shift (distance : Int) :
    (items : List Sexp) → tokensAll (shiftAll distance items) =
      (tokensAll items).map (Token.shift distance)
  | [] => rfl
  | item :: items => by
    rw [shiftAll, tokensAll, tokensAll, List.map_append, tokens_shift distance item,
      tokensAll_shift distance items]

end

namespace Reader

/-! ### Tokens taken so far -/

/-- The tokens before the innermost open group's content. -/
def outerTokens : List OpenGroup → List Token
  | [] => []
  | innermost :: groups =>
    outerTokens groups ++ (tokensAll innermost.before.reverse ++
      [⟨.opening innermost.bracket, ⟨innermost.start, innermost.start + 1⟩⟩])

/-- The quote that waits for its symbol. -/
def quoteTokens : Option Int → List Token
  | none => []
  | some start => [⟨.quote, ⟨start, start + 1⟩⟩]

/-- **The tokens that a reader has taken.** -/
def tokens (reader : Reader) : List Token :=
  outerTokens reader.groups ++ (tokensAll reader.items.reverse ++ quoteTokens reader.quote)

/-- **One more token** is the next of those that were taken. -/
theorem tokens_feed {reader next : Reader} {token : Token} (width : token.Exact)
    (fed : reader.feed token = some next) : next.tokens = reader.tokens ++ [token] := by
  obtain ⟨items, groups, quote⟩ := reader
  obtain ⟨kind, start, stop⟩ := token
  cases quote with
  | some place =>
    cases kind with
    | word name =>
      cases fed
      obtain rfl : stop = start + name.length := width.1
      simp [tokens, push, quoteTokens, Sexp.tokens]
    | _ => cases fed
  | none =>
    cases kind with
    | word name =>
      cases fed
      simp [tokens, push, quoteTokens, Sexp.tokens, width.2]
    | number value =>
      cases fed
      simp [tokens, push, quoteTokens, Sexp.tokens]
    | comma =>
      cases fed
      simp [tokens, push, quoteTokens, Sexp.tokens]
    | quote =>
      cases fed
      obtain rfl : stop = start + 1 := width
      simp [tokens, quoteTokens]
    | opening bracket =>
      cases fed
      obtain rfl : stop = start + 1 := width
      simp [tokens, outerTokens, quoteTokens, tokensAll]
    | closing bracket =>
      obtain rfl : stop = start + 1 := width
      cases groups with
      | nil => cases fed
      | cons innermost groups =>
        by_cases same : innermost.bracket = bracket
        · rw [feed] at fed
          dsimp only at fed
          rw [if_pos same] at fed
          cases fed
          simp [tokens, outerTokens, quoteTokens, Sexp.tokens, same]
        · rw [feed] at fed
          dsimp only at fed
          rw [if_neg same] at fed
          cases fed

/-- **A row of tokens** is taken as it is. -/
theorem tokens_feedAll {reader last : Reader} {row : List Token}
    (widths : ∀ token ∈ row, token.Exact) (fed : reader.feedAll row = .ok last) :
    last.tokens = reader.tokens ++ row := by
  induction row generalizing reader with
  | nil =>
    cases fed
    exact (List.append_nil _).symm
  | cons token row ih =>
    obtain ⟨width, widths⟩ := List.forall_mem_cons.mp widths
    rw [feedAll] at fed
    cases step : reader.feed token with
    | none =>
      rw [step] at fed
      cases fed
    | some next =>
      rw [step] at fed
      rw [ih widths fed, tokens_feed width step, List.append_assoc, List.singleton_append]

/-! ### Reading from the tokens of expressions -/

theorem feedAll_append {reader next : Reader} {front : List Token} (back : List Token)
    (fed : reader.feedAll front = .ok next) : reader.feedAll (front ++ back) = next.feedAll back := by
  induction front generalizing reader with
  | nil =>
    cases fed
    rfl
  | cons token front ih =>
    rw [feedAll] at fed
    rw [List.cons_append, feedAll]
    cases step : reader.feed token with
    | none =>
      rw [step] at fed
      cases fed
    | some later =>
      rw [step] at fed
      exact ih fed

/-- A row fails at its first token that is refused. -/
theorem exists_of_feedAll_eq_error {reader : Reader} {row : List Token} {error : ReadError}
    (failed : reader.feedAll row = .error error) :
    ∃ before token after next, row = before ++ token :: after ∧ reader.feedAll before = .ok next ∧
      next.feed token = none ∧ error = .unexpectedToken token.span := by
  induction row generalizing reader with
  | nil => cases failed
  | cons token row ih =>
    rw [feedAll] at failed
    cases step : reader.feed token with
    | none =>
      rw [step] at failed
      cases failed
      exact ⟨[], token, row, reader, rfl, rfl, step, rfl⟩
    | some later =>
      rw [step] at failed
      obtain ⟨before, bad, after, next, rfl, fed, refused, same⟩ := ih failed
      refine ⟨token :: before, bad, after, next, rfl, ?_, refused, same⟩
      rw [feedAll, step]
      exact fed

theorem feedAll_append_error {reader : Reader} {front : List Token} {error : ReadError}
    (back : List Token) (failed : reader.feedAll front = .error error) :
    reader.feedAll (front ++ back) = .error error := by
  obtain ⟨before, token, after, next, rfl, fed, refused, rfl⟩ := exists_of_feedAll_eq_error failed
  rw [List.append_assoc, feedAll_append _ fed, List.cons_append, feedAll, refused]

mutual

/-- **An expression is read from its tokens** wherever no quote waits. -/
theorem feedAll_tokens : (item : Sexp) → (items : List Sexp) → (groups : List OpenGroup) →
    feedAll ⟨items, groups, none⟩ item.tokens = .ok ⟨item :: items, groups, none⟩
  | symbol span name, items, groups => by
    rw [Sexp.tokens]
    by_cases comma : name = ","
    · subst comma
      rfl
    · rw [if_neg comma]
      rfl
  | number _ _, _, _ => rfl
  | quoted _ _, _, _ => rfl
  | group bracket span content, items, groups => by
    rw [Sexp.tokens, feedAll]
    dsimp only [feed]
    rw [feedAll_append _ (feedAll_tokensAll content [] _), feedAll]
    dsimp only [feed]
    rw [if_pos rfl, List.append_nil, List.reverse_reverse]
    rfl

/-- A row of expressions is read from its tokens. -/
theorem feedAll_tokensAll : (content items : List Sexp) → (groups : List OpenGroup) →
    feedAll ⟨items, groups, none⟩ (tokensAll content) =
      .ok ⟨content.reverse ++ items, groups, none⟩
  | [], _, _ => rfl
  | item :: content, items, groups => by
    rw [tokensAll, feedAll_append _ (feedAll_tokens item items groups),
      feedAll_tokensAll content (item :: items) groups, List.reverse_cons, List.append_assoc,
      List.singleton_append]

end

/-- What was read, if nothing is open, accounts for all the tokens. -/
theorem tokens_of_finish? {reader : Reader} {items : List Sexp}
    (finished : reader.finish? = some items) :
    reader = ⟨items.reverse, [], none⟩ ∧ reader.tokens = tokensAll items := by
  obtain ⟨reversed, groups, quote⟩ := reader
  cases groups with
  | cons innermost groups => cases finished
  | nil =>
    cases quote with
    | some start => cases finished
    | none =>
      cases finished
      refine ⟨by rw [List.reverse_reverse], ?_⟩
      exact List.append_nil _

/-! ### What is refused -/

/-- **Two readers are alike** when the same brackets are open and both or none wait for the symbol
of a quote. -/
def Alike (first second : Reader) : Prop :=
  first.groups.map OpenGroup.bracket = second.groups.map OpenGroup.bracket ∧
    first.quote.isSome = second.quote.isSome

/-- **Readers that are alike take the same kinds of token**, and stay alike. -/
theorem feed_alike {first second : Reader} {one other : Token} (alike : Alike first second)
    (same : one.kind = other.kind) :
    (first.feed one = none ∧ second.feed other = none) ∨
      ∃ first' second', first.feed one = some first' ∧ second.feed other = some second' ∧
        Alike first' second' := by
  obtain ⟨items, groups, quote⟩ := first
  obtain ⟨items', groups', quote'⟩ := second
  obtain ⟨kind, span⟩ := one
  obtain ⟨kind', span'⟩ := other
  obtain ⟨brackets, waiting⟩ := alike
  obtain rfl : kind = kind' := same
  dsimp only at brackets waiting
  cases quote with
  | some start =>
    obtain ⟨start', rfl⟩ := Option.isSome_iff_exists.mp waiting.symm
    cases kind with
    | word name => exact .inr ⟨_, _, rfl, rfl, brackets, rfl⟩
    | _ => exact .inl ⟨rfl, rfl⟩
  | none =>
    obtain rfl : quote' = none := Option.not_isSome_iff_eq_none.mp (by rw [← waiting]; exact Bool.false_ne_true)
    cases kind with
    | closing bracket =>
      cases groups with
      | nil =>
        obtain rfl : groups' = [] := List.map_eq_nil_iff.mp brackets.symm
        exact .inl ⟨rfl, rfl⟩
      | cons innermost groups =>
        obtain ⟨innermost', groups', rfl, same, rest⟩ := List.map_eq_cons_iff.mp brackets.symm
        dsimp only [feed]
        rw [same]
        by_cases closes : innermost.bracket = bracket
        · rw [if_pos closes, if_pos closes]
          exact .inr ⟨_, _, rfl, rfl, rest.symm, rfl⟩
        · rw [if_neg closes, if_neg closes]
          exact .inl ⟨rfl, rfl⟩
    | opening bracket => exact .inr ⟨_, _, rfl, rfl, congrArg (bracket :: ·) brackets, rfl⟩
    | _ => exact .inr ⟨_, _, rfl, rfl, brackets, rfl⟩

/-- Two readers that were given the same row at two places: both refuse the same token, or both end
alike. -/
def EndAlike (distance : Int) (first second : Except ReadError Reader) : Prop :=
  (∃ span, first = .error (.unexpectedToken span) ∧
      second = .error (.unexpectedToken (span.shift distance))) ∨
    ∃ last last', first = .ok last ∧ second = .ok last' ∧ Alike last last'

/-- **Readers that are alike refuse the same token of a row**, wherever the row stands. -/
theorem feedAll_alike (distance : Int) {first second : Reader} (alike : Alike first second)
    (row : List Token) :
    EndAlike distance (first.feedAll row) (second.feedAll (row.map (Token.shift distance))) := by
  induction row generalizing first second with
  | nil => exact .inr ⟨first, second, rfl, rfl, alike⟩
  | cons token row ih =>
    have same : token.kind = (token.shift distance).kind := rfl
    rw [List.map_cons, feedAll, feedAll]
    rcases feed_alike alike same with ⟨refused, refused'⟩ | ⟨next, next', fed, fed', alike⟩
    · rw [refused, refused']
      exact .inl ⟨token.span, rfl, rfl⟩
    · rw [fed, fed']
      exact ih alike

/-- Readers that are alike are both done, or both not. -/
theorem finish?_alike {first second : Reader} (alike : Alike first second)
    (unfinished : first.finish? = none) : second.finish? = none := by
  obtain ⟨items, groups, quote⟩ := first
  obtain ⟨items', groups', quote'⟩ := second
  obtain ⟨brackets, waiting⟩ := alike
  cases groups' with
  | cons innermost groups' => rfl
  | nil =>
    cases quote' with
    | some start => rfl
    | none =>
      obtain rfl : groups = [] := List.map_eq_nil_iff.mp brackets
      obtain rfl : quote = none := Option.not_isSome_iff_eq_none.mp (by rw [waiting]; exact Bool.false_ne_true)
      cases unfinished

end Reader

/-! ### Sources -/

section Sources

variable {source : String} {tokens : List Token} {unknown : Option Token.Unknown}

/-- The tokens of a source are as wide as they are written. -/
theorem exact_of_scan (scanned : Token.scan source = (tokens, unknown)) :
    ∀ token ∈ tokens, token.Exact := by
  have widths := Token.exact_of_scanFrom 0 0 source.toList
  rw [← Token.scan, scanned] at widths
  exact widths

/-- The outcome of reading, by what the scanner and the reader found. -/
theorem readAll_eq (scanned : Token.scan source = (tokens, unknown)) :
    readAll source = (Reader.feedAll {} tokens).bind fun reader =>
      match unknown with
      | some found => .error (.unknownCharacter found.offset found.character)
      | none =>
        match reader.finish? with
        | some items => .ok items
        | none => .error (.unexpectedEnd source.length) := by
  rw [readAll, scanned]
  rfl

/-- **A source is read as the expressions whose tokens it has.** -/
theorem readAll_eq_ok_iff {items : List Sexp} :
    readAll source = .ok items ↔ Token.scan source = (tokensAll items, none) := by
  generalize scanned : Token.scan source = found
  obtain ⟨tokens, unknown⟩ := found
  rw [readAll_eq scanned]
  constructor
  · intro read
    obtain ⟨reader, fed, rest⟩ := bind_eq_ok.mp read
    cases unknown with
    | some unknown => cases rest
    | none =>
      cases finished : reader.finish? with
      | none =>
        rw [finished] at rest
        cases rest
      | some all =>
        rw [finished] at rest
        cases rest
        have taken := Reader.tokens_feedAll (exact_of_scan scanned) fed
        rw [(Reader.tokens_of_finish? finished).2] at taken
        rw [taken]
        rfl
  · intro same
    cases same
    rw [Reader.feedAll_tokensAll items [] [], List.append_nil]
    dsimp only [Except.bind, Reader.finish?]
    rw [List.reverse_reverse]

end Sources

end Sexp

end EtaLong
