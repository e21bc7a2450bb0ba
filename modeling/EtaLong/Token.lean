/-
**Tokens.**

A source is cut into words, numbers, quotes, commas and brackets. Blanks and comments stand
between tokens and are dropped. A word is a run of word characters; a number is the longest run of
digits, of any script, that no word character follows. Numbers may be of any length here: how many
digits can be converted is a limit of the machine, and what it does to a run is said where the command
is (`Sexp.meetsLongNumber`).

* `Token.scan`: the tokens of a source up to its end or to a character that starts no token.
-/

import EtaLong.Span
import EtaLong.Text.Digit

namespace EtaLong

/-- Round brackets group, square brackets list. -/
inductive Bracket where
  | round
  | square
deriving DecidableEq

namespace Token

/-- What a token is. -/
inductive Kind where
  | word (name : String)
  | number (value : Nat)
  | quote
  | comma
  | opening (bracket : Bracket)
  | closing (bracket : Bracket)
deriving DecidableEq

end Token

/-- A token and where it stands. -/
structure Token where
  kind : Token.Kind
  span : Span
deriving DecidableEq

namespace Token

/-- The marks that may occur in a word beside letters and digits. -/
def wordMarks : List Char := ['_', '-', '+', '*', '/', '<', '>', '=', '!', '?', ':']

/-- A character of words. -/
def isWordChar (c : Char) : Bool := c.isAlphanum || wordMarks.contains c

/-- Whether a text starts with a character of words. -/
def startsWord : List Char → Bool
  | [] => false
  | c :: _ => isWordChar c

/-- The digits of the number at the front of a text: as many as can be taken, at least one, such
that no word character follows them. -/
def numberFront? : List Char → Option (List Char)
  | [] => none
  | c :: rest =>
    if Text.isDigit c then
      match numberFront? rest with
      | some digits => some (c :: digits)
      | none => if startsWord rest then none else some [c]
    else none

/-- A token of one character. -/
def single? : Char → Option Kind
  | '\'' => some .quote
  | ',' => some .comma
  | '(' => some (.opening .round)
  | ')' => some (.closing .round)
  | '[' => some (.opening .square)
  | ']' => some (.closing .square)
  | _ => none

/-- A character that separates tokens. -/
def isSeparator (c : Char) : Bool := c == ' ' || c == '\t' || c == '\r' || c == '\n'

/-- What stands at the front of a text, without its first character. -/
inductive Front where
  | skipped (more : Nat)
  | token (kind : Kind) (more : Nat)
  | unknown

/-- What stands at the front of the text that starts with a character; a blank, a number, a word, a
comment and a single mark are tried in this order. -/
def front (c : Char) (rest : List Char) : Front :=
  if isSeparator c then .skipped 0
  else match numberFront? (c :: rest) with
    | some digits => .token (.number (Text.numberOf digits)) (digits.length - 1)
    | none =>
      if isWordChar c then
        let more := rest.takeWhile isWordChar
        .token (.word (String.ofList (c :: more))) more.length
      else if c = ';' then .skipped (rest.takeWhile (· != '\n')).length
      else match single? c with
        | some kind => .token kind 0
        | none => .unknown

/-- A character that starts no token, and its offset. -/
structure Unknown where
  offset : Nat
  character : Char
deriving DecidableEq

/-- The tokens of a text that starts at an offset of the source, of which so many characters are
already taken. -/
def scanFrom (offset : Nat) : Nat → List Char → List Token × Option Unknown
  | _, [] => ([], none)
  | taken + 1, _ :: rest => scanFrom (offset + 1) taken rest
  | 0, c :: rest => match front c rest with
    | .skipped more => scanFrom (offset + 1) more rest
    | .token kind more =>
      let (tokens, unknown) := scanFrom (offset + 1) more rest
      (⟨kind, ⟨offset, offset + more + 1⟩⟩ :: tokens, unknown)
    | .unknown => ([], some ⟨offset, c⟩)

/-- The tokens of a source up to its end or to a character that starts no token. -/
def scan (source : String) : List Token × Option Unknown := scanFrom 0 0 source.toList

/-- Taken characters are passed over. -/
theorem scanFrom_eq_drop (offset taken : Nat) (text : List Char) (inside : taken ≤ text.length) :
    scanFrom offset taken text = scanFrom (offset + taken) 0 (text.drop taken) := by
  induction taken generalizing offset text with
  | zero => rfl
  | succ taken ih =>
    cases text with
    | nil => simp at inside
    | cons c rest =>
      rw [scanFrom, ih (offset + 1) rest (by simpa using inside), List.drop_succ_cons]
      congr 1
      omega

end Token

end EtaLong
