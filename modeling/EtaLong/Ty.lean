/-
**Types.**

Numbers, atoms, functions, pairs and lists. Functions of several arguments are curried, so a
function type has as many arguments as arrows in a row.

* `Ty.arrow`: a function type from its arguments and its result;
* `Ty.text`: the printed type, with arrows in a row written as one;
* `arity_arrow`: a function type from arguments has at least that many of them.
-/

import EtaLong.InvalidArgument
import EtaLong.Text.Record
import EtaLong.Text.Tree

namespace EtaLong

/-- Simple types over numbers and atoms. -/
inductive Ty where
  | nat
  | atom
  | fn (dom cod : Ty)
  | pair (fst snd : Ty)
  | list (elem : Ty)
deriving DecidableEq

namespace Ty

/-- The curried function type from arguments to a result. -/
def arrow (args : List Ty) (result : Ty) : Ty := args.foldr fn result

/-- The curried function type whose last entry is the result. -/
def curry : Ty → List Ty → Ty
  | first, [] => first
  | first, second :: rest => fn first (curry second rest)

/-- The function type that a row of types spells, which must not be empty. -/
def ofList : List Ty → Except InvalidArgument Ty
  | [] => .error .emptyArrow
  | first :: rest => .ok (curry first rest)

/-- The number of arguments that a value of the type takes in a row. -/
def arity : Ty → Nat
  | fn _ cod => cod.arity + 1
  | _ => 0

/-- The type of the step of a recursion over numbers: predecessor, then result so far. -/
def natStep (motive : Ty) : Ty := arrow [nat, motive] motive

/-- The type of the step of a recursion over lists: head, tail, then result so far. -/
def listStep (elem motive : Ty) : Ty := arrow [elem, list elem, motive] motive

/-- The printed form of a type. -/
def tree : Ty → Text.Tree
  | nat => .word "Nat"
  | atom => .word "Atom"
  | fn dom cod =>
    match cod, cod.tree with
    | fn _ _, .group (keyword :: parts) => .group (keyword :: dom.tree :: parts)
    | _, result => .form "->" [dom.tree, result]
  | pair fst snd => .form "Pair" [fst.tree, snd.tree]
  | list elem => .form "List" [elem.tree]

/-- The text of a type. -/
def text (ty : Ty) : String := ty.tree.text

/-- The full description of a type. -/
def describe : Ty → String
  | nat => Text.record "NatType" []
  | atom => Text.record "AtomType" []
  | fn dom cod => Text.record "FunType" [("dom", dom.describe), ("cod", cod.describe)]
  | pair fst snd => Text.record "PairType" [("fst", fst.describe), ("snd", snd.describe)]
  | list elem => Text.record "ListType" [("elem", elem.describe)]

/-- Each argument adds one to the arity. -/
theorem arity_arrow (args : List Ty) (result : Ty) :
    (arrow args result).arity = args.length + result.arity := by
  induction args with
  | nil => simp [arrow]
  | cons first rest ih =>
    simp only [arrow, List.foldr_cons, arity, List.length_cons] at ih ⊢
    omega

/-- A row that ends in a result spells the arrow to it. -/
theorem curry_append_singleton (first : Ty) (rest : List Ty) (result : Ty) :
    curry first (rest ++ [result]) = arrow (first :: rest) result := by
  induction rest generalizing first with
  | nil => rfl
  | cons second rest ih => simpa [curry, arrow] using ih second

end Ty

end EtaLong
