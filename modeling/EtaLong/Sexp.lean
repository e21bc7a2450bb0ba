/-
**Symbolic expressions.**

Tokens are read into symbols, numbers, quoted symbols and bracketed groups, each with the stretch
of source it was written in. The reader keeps the groups that are open on a stack and takes one
token at a time, so the first token that cannot continue any program is the one it refuses.

* `Sexp.readAll`: all expressions of a source;
* `Sexp.readOne`: the only expression of a source.
-/

import EtaLong.Diagnostic
import EtaLong.Token

namespace EtaLong

/-- A symbolic expression and where it stands. -/
inductive Sexp where
  | symbol (span : Span) (name : String)
  | number (span : Span) (value : Nat)
  | quoted (span : Span) (name : String)
  | group (bracket : Bracket) (span : Span) (items : List Sexp)

namespace Sexp

/-- Where an expression stands. -/
def span : Sexp → Span
  | symbol span _ => span
  | number span _ => span
  | quoted span _ => span
  | group _ span _ => span

/-- Why a source was not read. -/
inductive ReadError where
  | unknownCharacter (offset : Nat) (character : Char)
  | unexpectedToken (span : Span)
  | unexpectedEnd (length : Nat)
  | notSingle (count length : Nat)
deriving DecidableEq

/-- The wording of a reading error. -/
def ReadError.message : ReadError → String
  | .unknownCharacter _ character => "Unexpected character " ++ Text.quoted (toString character)
  | .unexpectedToken _ => "Unexpected token"
  | .unexpectedEnd _ => "Unexpected end of input"
  | .notSingle count _ => s!"Expected a single expression, found {count}"

/-- Where a reading error stands. -/
def ReadError.span : ReadError → Span
  | .unknownCharacter offset _ => ⟨offset, offset + 1⟩
  | .unexpectedToken span => span
  | .unexpectedEnd length => ⟨length, length⟩
  | .notSingle _ length => ⟨0, length⟩

/-- The report of a reading error in a source. -/
def ReadError.report (error : ReadError) (source : String) : Diagnostic where
  kind := .malformed
  message := error.message
  span := some error.span
  source := some source

/-- A group that is still open: its bracket, where it starts, and what stands before it on the same
level, the last first. -/
structure OpenGroup where
  bracket : Bracket
  start : Int
  before : List Sexp

/-- How far the reader has come: the expressions on the current level, the last first; the open
groups, the innermost first; and the start of a quote that waits for its symbol. -/
structure Reader where
  items : List Sexp := []
  groups : List OpenGroup := []
  quote : Option Int := none

namespace Reader

/-- The reader after one more expression. -/
def push (reader : Reader) (item : Sexp) : Reader :=
  { reader with items := item :: reader.items }

/-- The reader after one more token, if the token may stand here. -/
def feed (reader : Reader) (token : Token) : Option Reader :=
  match reader.quote with
  | some start =>
    match token.kind with
    | .word name =>
      some { reader.push (.quoted ⟨start, token.span.stop⟩ name) with quote := none }
    | _ => none
  | none =>
    match token.kind with
    | .word name => some (reader.push (.symbol token.span name))
    | .number value => some (reader.push (.number token.span value))
    | .comma => some (reader.push (.symbol token.span ","))
    | .quote => some { reader with quote := some token.span.start }
    | .opening bracket =>
      some { items := [], groups := ⟨bracket, token.span.start, reader.items⟩ :: reader.groups }
    | .closing bracket =>
      match reader.groups with
      | [] => none
      | innermost :: groups =>
        if innermost.bracket = bracket then
          let closed := .group bracket ⟨innermost.start, token.span.stop⟩ reader.items.reverse
          some { items := closed :: innermost.before, groups := groups }
        else none

/-- The reader after a row of tokens, or the first token that it refuses. -/
def feedAll (reader : Reader) : List Token → Except ReadError Reader
  | [] => .ok reader
  | token :: tokens =>
    match reader.feed token with
    | some next => next.feedAll tokens
    | none => .error (.unexpectedToken token.span)

/-- All that was read, if nothing is left open. -/
def finish? (reader : Reader) : Option (List Sexp) :=
  match reader.groups, reader.quote with
  | [], none => some reader.items.reverse
  | _, _ => none

end Reader

/-- All expressions of a source. -/
def readAll (source : String) : Except ReadError (List Sexp) := do
  let (tokens, unknown) := Token.scan source
  let reader ← Reader.feedAll {} tokens
  match unknown with
  | some found => throw (.unknownCharacter found.offset found.character)
  | none =>
    match reader.finish? with
    | some items => return items
    | none => throw (.unexpectedEnd source.length)

/-- The only expression of a source. -/
def readOne (source : String) : Except ReadError Sexp := do
  match ← readAll source with
  | [item] => return item
  | items => throw (.notSingle items.length source.length)

end Sexp

end EtaLong
