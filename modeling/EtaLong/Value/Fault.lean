/-
**Faults of evaluation and reading back.**

A term that has a type evaluates and reads back without fault. Any other term may apply what is
no function, project what is no pair, or reach outside its environment; a fault says which.
Evaluation also stops when the fuel that bounds its nested calls is used up.
-/

import EtaLong.Diagnostic
import EtaLong.Value

namespace EtaLong

/-- Why evaluation or reading back stopped. -/
inductive Fault where
  | notFunction (value : Value)
  | carOfNonPair (value : Value)
  | cdrOfNonPair (value : Value)
  | recNatOfNonNumber (value : Value)
  | recListOfNonList (value : Value)
  | missingVariable (index : Nat)
  | notInhabitant (value : Value) (ty : Ty)
  | stuckAppOfNonFunction (ty : Ty)
  | stuckCarOfNonPair (ty : Ty)
  | stuckCdrOfNonPair (ty : Ty)
  | stuckRecListOfNonList (ty : Ty)
  | negativeVariable
  | unboundVariable (index : Int) (length : Nat)
  | outOfFuel

/-- The wording of a fault. -/
def Fault.message : Fault → String
  | .notFunction value => "Cannot apply non-function value " ++ value.describe
  | .carOfNonPair value => "car of non-pair value " ++ value.describe
  | .cdrOfNonPair value => "cdr of non-pair value " ++ value.describe
  | .recNatOfNonNumber value => "rec-nat on non-number value " ++ value.describe
  | .recListOfNonList value => "rec-list on non-list value " ++ value.describe
  | .missingVariable index => (InvalidArgument.ofPosition index).message
  | .notInhabitant value ty => "Value " ++ value.describe ++ " does not inhabit " ++ ty.describe
  | .stuckAppOfNonFunction ty => "Neutral application of non-function " ++ ty.describe
  | .stuckCarOfNonPair ty => "Neutral car of non-pair " ++ ty.describe
  | .stuckCdrOfNonPair ty => "Neutral cdr of non-pair " ++ ty.describe
  | .stuckRecListOfNonList ty => "Neutral rec-list on non-list " ++ ty.describe
  | .negativeVariable => InvalidArgument.negativeIndex.message
  | .unboundVariable index length => (Diagnostic.unboundIndex index length).text
  | .outOfFuel => "evaluation ran out of fuel"

end EtaLong
