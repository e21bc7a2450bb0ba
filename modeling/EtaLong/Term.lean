/-
**Terms.**

Terms of the calculus, with variables as de Bruijn indices: index zero is the innermost binder.
A term carries the types that make its own type unique: the domain of a function, the result type
of a recursion, the element type of the empty list.

* `Term.numeral`: the numeral of a number;
* `Term.numeralValue?_numeral`: a numeral has the value it was built from.
-/

import EtaLong.Text.Quoted
import EtaLong.Ty

namespace EtaLong

/-- Terms of the calculus. -/
inductive Term where
  | var (index : Nat)
  | lam (dom : Ty) (body : Term)
  | app (fn arg : Term)
  | atom (name : String)
  | zero
  | succ (pred : Term)
  | recNat (motive : Ty) (target base step : Term)
  | pair (fst snd : Term)
  | car (operand : Term)
  | cdr (operand : Term)
  | nil (elem : Ty)
  | cons (head tail : Term)
  | recList (motive : Ty) (target base step : Term)
  | ann (ty : Ty) (body : Term)
deriving DecidableEq

namespace Term

/-- The variable with a signed index, which must not be negative. -/
def ofIndex (index : Int) : Except InvalidArgument Term :=
  if index < 0 then .error .negativeIndex else .ok (var index.toNat)

/-- So many successors of a term. -/
def succs (count : Nat) (inner : Term) : Term := Nat.repeat succ count inner

/-- The numeral of a number. -/
def numeral (value : Nat) : Term := succs value zero

/-- The numeral of a signed number, which must not be negative. -/
def numeral? (value : Int) : Except InvalidArgument Term :=
  if value < 0 then .error .negativeNumeral else .ok (numeral value.toNat)

/-- A function applied to arguments one after another. -/
def apps (fn : Term) (args : List Term) : Term := args.foldl app fn

/-- The list of the given elements. -/
def listLiteral (elem : Ty) (items : List Term) : Term := items.foldr cons (nil elem)

/-- The value of a numeral, and nothing for any other term. -/
def numeralValue? : Term → Option Nat
  | zero => some 0
  | succ pred => pred.numeralValue?.map (· + 1)
  | _ => none

/-- The full description of a term. -/
def describe : Term → String
  | var index => Text.record "Var" [("k", toString index)]
  | lam dom body => Text.record "Lam" [("ty", dom.describe), ("body", body.describe)]
  | app fn arg => Text.record "App" [("fn", fn.describe), ("arg", arg.describe)]
  | atom name => Text.record "Quote" [("name", Text.quoted name)]
  | zero => Text.record "Zero" []
  | succ pred => Text.record "Succ" [("n", pred.describe)]
  | recNat motive target base step => Text.record "RecNat" [("ty", motive.describe),
      ("target", target.describe), ("base", base.describe), ("step", step.describe)]
  | pair fst snd => Text.record "Cons" [("fst", fst.describe), ("snd", snd.describe)]
  | car operand => Text.record "Car" [("pair", operand.describe)]
  | cdr operand => Text.record "Cdr" [("pair", operand.describe)]
  | nil elem => Text.record "Nil" [("elem", elem.describe)]
  | cons head tail => Text.record "ConsList" [("head", head.describe), ("tail", tail.describe)]
  | recList motive target base step => Text.record "RecList" [("ty", motive.describe),
      ("target", target.describe), ("base", base.describe), ("step", step.describe)]
  | ann ty body => Text.record "Ann" [("ty", ty.describe), ("term", body.describe)]

/-- One more successor on the outside. -/
theorem succs_succ (count : Nat) (inner : Term) :
    succs (count + 1) inner = succ (succs count inner) := rfl

/-- A numeral has the value it was built from. -/
theorem numeralValue?_numeral (value : Nat) : (numeral value).numeralValue? = some value := by
  induction value with
  | zero => rfl
  | succ value ih =>
    have unfolded : numeral (value + 1) = succ (numeral value) := rfl
    rw [unfolded, numeralValue?, ih, Option.map_some]

end Term

end EtaLong
