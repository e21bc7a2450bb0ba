/-
**Arguments that an operation refuses.**

The constructors of the library check what their types cannot say: that an index or an offset is
not negative, that a sequence is not empty, that a position exists.
-/

import EtaLong.Text.Slice

namespace EtaLong

/-- Why an operation refused its argument. -/
inductive InvalidArgument where
  /-- A function type needs at least its result. -/
  | emptyArrow
  /-- A variable is a non-negative index. -/
  | negativeIndex
  /-- A numeral is non-negative. -/
  | negativeNumeral
  /-- A weakening inserts a non-negative number of entries at a non-negative place. -/
  | negativeWeakening
  /-- A weakening takes exactly as many types as it inserts entries. -/
  | insertedCount (expected actual : Nat)
  /-- A weakening inserts inside the context or at its end. -/
  | cutoffBeyondContext
  /-- A position lies outside its sequence. -/
  | outOfRange
  /-- A number does not fit a machine word. -/
  | beyondWord
deriving DecidableEq

/-- The wording of a refusal. -/
def InvalidArgument.message : InvalidArgument → String
  | .emptyArrow => "arrow needs at least one type"
  | .negativeIndex => "De Bruijn indices must be non-negative"
  | .negativeNumeral => "Natural number literals must be non-negative"
  | .negativeWeakening => "Weakening offsets must be non-negative"
  | .insertedCount expected actual => s!"Expected {expected} inserted types, got {actual}"
  | .cutoffBeyondContext => "Weakening cutoff exceeds context length"
  | .outOfRange => "tuple index out of range"
  | .beyondWord => "cannot fit 'int' into an index-sized integer"

/-- Why no item stands at a position. -/
def InvalidArgument.ofPosition (position : Int) : InvalidArgument :=
  if Text.fitsWord position then .outOfRange else .beyondWord

end EtaLong
