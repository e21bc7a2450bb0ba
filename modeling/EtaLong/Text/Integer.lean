/-
**Integers written by hand.**

An integer is an optional sign and digits of any script, where single underscores may stand
between digits and blanks may surround the whole. Texts with very many digits are refused.
-/

import EtaLong.Text.Digit

namespace EtaLong.Text

/-- Code points of the characters that may surround a written integer. -/
def blankCodes : List Nat := [
  0x09, 0x0a, 0x0b, 0x0c, 0x0d, 0x20, 0x85, 0xa0, 0x1680, 0x2000, 0x2001, 0x2002, 0x2003, 0x2004,
  0x2005, 0x2006, 0x2007, 0x2008, 0x2009, 0x200a, 0x2028, 0x2029, 0x202f, 0x205f, 0x3000]

/-- A character that may surround a written integer. -/
def isBlank (c : Char) : Bool := blankCodes.contains c.toNat

/-- A text without the blanks around it. -/
def trim (text : List Char) : List Char :=
  ((text.dropWhile isBlank).reverse.dropWhile isBlank).reverse

/-- Digits with single underscores between them, the underscores dropped. -/
def groupedDigits? : List Char → Option (List Char)
  | [] => none
  | [c] => if isDigit c then some [c] else none
  | c :: '_' :: rest => if isDigit c then (groupedDigits? rest).map (c :: ·) else none
  | c :: rest => if isDigit c then (groupedDigits? rest).map (c :: ·) else none

/-- How many digits an integer may have. -/
def digitBound : Nat := 4300

/-- The number that grouped digits denote, unless they are too many. -/
def natural? (text : List Char) : Option Nat :=
  ((groupedDigits? text).filter (·.length ≤ digitBound)).map numberOf

/-- The integer that a text denotes. -/
def integer? (text : String) : Option Int :=
  match trim text.toList with
  | '-' :: digits => (natural? digits).map fun value => -(value : Int)
  | '+' :: digits => (natural? digits).map Int.ofNat
  | digits => (natural? digits).map Int.ofNat

end EtaLong.Text
