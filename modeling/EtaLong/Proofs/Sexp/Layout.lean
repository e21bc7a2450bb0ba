/-
**Reading does not look at places.**

Where a token stands is copied into what is read and decides nothing. So a reader that is given
tokens without their places reads the same without its places, and sources whose tokens have the
same kinds, one by one, are read alike: blanks, comments and line breaks between them only move
them.

What has lost its place stands where a first character would stand. That is wide enough for a
closing bracket, so that nothing that is computed from places can tell it from a true one.

* `Token.unplaced`, `Sexp.unplaced`, `Sexp.Reader.unplaced`: places forgotten;
* `Sexp.Reader.feed_unplaced`, `Sexp.Reader.feedAll_unplaced`: one token, and a row of them;
* `Sexp.readAll_layout`: sources whose tokens have the same kinds.
-/

import EtaLong.Proofs.Sexp

namespace EtaLong

/-- The span of everything that has lost its place: one character, at the front. -/
def Span.nowhere : Span := ⟨0, 1⟩

/-- A token without its place. -/
def Token.unplaced (token : Token) : Token := { token with span := .nowhere }

/-- Tokens of the same kinds differ in their places only. -/
theorem Token.unplaced_of_kinds {first second : List Token}
    (same : first.map Token.kind = second.map Token.kind) :
    first.map Token.unplaced = second.map Token.unplaced := by
  have factor : Token.unplaced = (⟨·, Span.nowhere⟩) ∘ Token.kind := rfl
  rw [factor, ← List.map_map, ← List.map_map, same]

namespace Sexp

mutual

/-- **An expression without its places.** -/
def unplaced : Sexp → Sexp
  | symbol _ name => symbol .nowhere name
  | number _ value => number .nowhere value
  | quoted _ name => quoted .nowhere name
  | group bracket _ items => group bracket .nowhere (unplacedAll items)

/-- A row of expressions without their places. -/
def unplacedAll : List Sexp → List Sexp
  | [] => []
  | item :: items => item.unplaced :: unplacedAll items

end

theorem unplacedAll_eq_map (items : List Sexp) : unplacedAll items = items.map unplaced := by
  induction items with
  | nil => rfl
  | cons item items ih => rw [unplacedAll, ih, List.map_cons]

@[simp] theorem span_unplaced (item : Sexp) : item.unplaced.span = .nowhere := by
  cases item <;> rfl

/-- A reading error without its place. -/
def ReadError.unplaced : ReadError → ReadError
  | .unknownCharacter _ character => .unknownCharacter 0 character
  | .unexpectedToken _ => .unexpectedToken .nowhere
  | .unexpectedEnd _ => .unexpectedEnd 0
  | .notSingle count _ => .notSingle count 0

/-- The wording of a reading error does not mention its place. -/
theorem ReadError.message_unplaced (error : ReadError) : error.unplaced.message = error.message := by
  cases error <;> rfl

/-- An open group without its place. -/
def OpenGroup.unplaced (group : OpenGroup) : OpenGroup :=
  ⟨group.bracket, 0, unplacedAll group.before⟩

namespace Reader

/-- **A reader that has forgotten where it was.** -/
def unplaced (reader : Reader) : Reader where
  items := unplacedAll reader.items
  groups := reader.groups.map OpenGroup.unplaced
  quote := reader.quote.map fun _ => 0

/-- **One token more** is taken or refused without a look at places. -/
theorem feed_unplaced (reader : Reader) (token : Token) :
    reader.unplaced.feed token.unplaced = (reader.feed token).map unplaced := by
  obtain ⟨items, groups, quote⟩ := reader
  obtain ⟨kind, span⟩ := token
  cases quote with
  | some start => cases kind <;> rfl
  | none =>
    cases kind with
    | closing bracket =>
      cases groups with
      | nil => rfl
      | cons innermost groups =>
        have row : (unplacedAll items).reverse = unplacedAll items.reverse := by
          rw [unplacedAll_eq_map, unplacedAll_eq_map, List.map_reverse]
        by_cases closes : innermost.bracket = bracket
        · simp [feed, unplaced, OpenGroup.unplaced, Token.unplaced, closes, row, unplacedAll,
            Sexp.unplaced, Span.nowhere]
        · simp [feed, unplaced, OpenGroup.unplaced, Token.unplaced, closes]
    | _ => rfl

/-- **A row of tokens** is taken, or refused at one of them, without a look at places. -/
theorem feedAll_unplaced (reader : Reader) (row : List Token) :
    reader.unplaced.feedAll (row.map Token.unplaced) =
      bimap ReadError.unplaced unplaced (reader.feedAll row) := by
  induction row generalizing reader with
  | nil => rfl
  | cons token row ih =>
    rw [List.map_cons, feedAll, feedAll, feed_unplaced]
    cases reader.feed token with
    | none => rfl
    | some next => exact ih next

theorem finish?_unplaced (reader : Reader) :
    reader.unplaced.finish? = reader.finish?.map unplacedAll := by
  obtain ⟨items, groups, quote⟩ := reader
  cases groups with
  | cons innermost groups => rfl
  | nil =>
    cases quote with
    | some start => rfl
    | none =>
      have row : (unplacedAll items).reverse = unplacedAll items.reverse := by
        rw [unplacedAll_eq_map, unplacedAll_eq_map, List.map_reverse]
      exact congrArg some row

end Reader

/-! ### Sources -/

section Sources

variable {source first second : String} {tokens tokens' : List Token}

/-- What is read from a source, without places, is read from its tokens without theirs. -/
theorem readAll_unplaced (scanned : Token.scan source = (tokens, none)) :
    bimap ReadError.unplaced unplacedAll (readAll source) =
      (Reader.feedAll {} (tokens.map Token.unplaced) >>= fun reader =>
        match reader.finish? with
        | some items => .ok items
        | none => .error (.unexpectedEnd 0)) := by
  have start : (⟨[], [], none⟩ : Reader) = Reader.unplaced {} := rfl
  rw [readAll_eq scanned, start, Reader.feedAll_unplaced]
  refine (bimap_bind fun reader => ?_).symm
  rw [Reader.finish?_unplaced]
  cases reader.finish? <;> rfl

/-- **Sources whose tokens have the same kinds are read alike.** -/
theorem readAll_layout (scanned : Token.scan first = (tokens, none))
    (scanned' : Token.scan second = (tokens', none))
    (same : tokens.map Token.kind = tokens'.map Token.kind) :
    bimap ReadError.unplaced unplacedAll (readAll first) =
      bimap ReadError.unplaced unplacedAll (readAll second) := by
  rw [readAll_unplaced scanned, readAll_unplaced scanned', Token.unplaced_of_kinds same]

/-- **A source whose tokens have the kinds of a row of expressions** is read as these. -/
theorem exists_readAll_of_kinds {items : List Sexp} (scanned : Token.scan source = (tokens, none))
    (same : tokens.map Token.kind = (tokensAll items).map Token.kind) :
    ∃ row, readAll source = .ok row ∧ unplacedAll row = unplacedAll items := by
  have fed : bimap ReadError.unplaced Reader.unplaced (Reader.feedAll {} tokens) =
      .ok (Reader.unplaced ⟨items.reverse, [], none⟩) := by
    rw [← Reader.feedAll_unplaced, Token.unplaced_of_kinds same, Reader.feedAll_unplaced,
      Reader.feedAll_tokensAll items [] [], List.append_nil]
    rfl
  cases taken : Reader.feedAll {} tokens with
  | error error =>
    rw [taken] at fed
    cases fed
  | ok reader =>
    rw [taken] at fed
    have finished : reader.finish?.map unplacedAll = some (unplacedAll items) := by
      rw [← Reader.finish?_unplaced, Except.ok.inj fed, Reader.finish?_unplaced]
      exact congrArg (some ∘ unplacedAll) items.reverse_reverse
    obtain ⟨row, done, sameRow⟩ := Option.map_eq_some_iff.mp finished
    refine ⟨row, ?_, sameRow⟩
    rw [readAll_eq scanned, taken]
    dsimp only [Except.bind]
    rw [done]

end Sources

end Sexp

end EtaLong
