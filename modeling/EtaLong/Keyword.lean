/-
**Keywords.**

The names that have a meaning of their own in a program, and so name no variable.

* `Keyword.ofName?_name`: each keyword is known by its name.
-/

namespace EtaLong

/-- The names that have a meaning of their own. -/
inductive Keyword where
  | lambda
  | the
  | zero
  | add1
  | recNat
  | cons
  | car
  | cdr
  | nil
  | cell
  | recList
  | comma
  | claim
  | define
  | nat
  | atom
  | arrow
  | pair
  | list
deriving DecidableEq

namespace Keyword

/-- How a keyword is written. -/
def name : Keyword → String
  | lambda => "lambda"
  | the => "the"
  | zero => "zero"
  | add1 => "add1"
  | recNat => "rec-nat"
  | cons => "cons"
  | car => "car"
  | cdr => "cdr"
  | nil => "nil"
  | cell => "::"
  | recList => "rec-list"
  | comma => ","
  | claim => "claim"
  | define => "define"
  | nat => "Nat"
  | atom => "Atom"
  | arrow => "->"
  | pair => "Pair"
  | list => "List"

/-- All keywords. -/
def all : List Keyword :=
  [lambda, the, zero, add1, recNat, cons, car, cdr, nil, cell, recList, comma, claim, define, nat,
    atom, arrow, pair, list]

/-- The keyword that a name is. -/
def ofName? (text : String) : Option Keyword := all.find? fun keyword => keyword.name = text

/-- Each keyword is known by its name. -/
theorem ofName?_name (keyword : Keyword) : ofName? keyword.name = some keyword := by
  cases keyword <;> decide

end Keyword

end EtaLong
