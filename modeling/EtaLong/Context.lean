/-
**Contexts and weakenings.**

A context lists the types of the variables in scope, innermost first. A weakening inserts entries
into a context at one place; each variable then moves to the index at which its entry stands.

* `Weakening.embed_natCast`: signed and unsigned indices move alike;
* `Weakening.getElem?_insert`: a moved index finds the entry it had before.
-/

import EtaLong.Term
import EtaLong.Text.Slice

namespace EtaLong

/-- The types of the variables in scope, innermost first. -/
abbrev Context := List Ty

namespace Context

/-- The type of the variable with a signed index. -/
def find? (ctx : Context) (index : Int) : Option Ty :=
  if index < 0 then none else ctx[index.toNat]?

/-- The text of a context: each index with its type. -/
def text (ctx : Context) : String :=
  let entries := ctx.mapIdx fun index ty => "#" ++ toString index ++ ": " ++ ty.text
  "Ctx(" ++ String.intercalate ", " entries ++ ")"

end Context

/-- The insertion of `count` entries behind the `cutoff` innermost ones. -/
structure Weakening where
  count : Nat
  cutoff : Nat
deriving DecidableEq

namespace Weakening

/-- A weakening with signed offsets, which must not be negative. -/
def make (count cutoff : Int) : Except InvalidArgument Weakening :=
  if count < 0 ∨ cutoff < 0 then .error .negativeWeakening
  else .ok ⟨count.toNat, cutoff.toNat⟩

/-- Nothing is inserted. -/
def identity : Weakening := ⟨0, 0⟩

/-- One entry is inserted as the innermost. -/
def fresh : Weakening := ⟨1, 0⟩

/-- One more entry is inserted. -/
def skip (w : Weakening) : Weakening := ⟨w.count + 1, w.cutoff⟩

/-- The same weakening below one more binder. -/
def lift (w : Weakening) : Weakening := ⟨w.count, w.cutoff + 1⟩

/-- Whether every variable keeps its index. -/
def isIdentity (w : Weakening) : Bool := w.count == 0

/-- Where a signed index moves. -/
def embed (w : Weakening) (index : Int) : Int :=
  if w.cutoff ≤ index then index + w.count else index

/-- Where an index moves. -/
def shift (w : Weakening) (index : Nat) : Nat :=
  if w.cutoff ≤ index then index + w.count else index

/-- A context with the inserted entries in their place. -/
def insert (w : Weakening) (inserted : List Ty) (ctx : Context) : Context :=
  ctx.take w.cutoff ++ inserted ++ ctx.drop w.cutoff

/-- A context with the inserted entries, which must be as many as the weakening says. -/
def insert? (w : Weakening) (inserted : List Ty) (ctx : Context) :
    Except InvalidArgument Context :=
  if inserted.length ≠ w.count then .error (.insertedCount w.count inserted.length)
  else if ctx.length < w.cutoff then .error .cutoffBeyondContext
  else .ok (w.insert inserted ctx)

/-- Signed and unsigned indices move alike. -/
theorem embed_natCast (w : Weakening) (index : Nat) : w.embed index = w.shift index := by
  unfold embed shift
  split <;> split <;> omega

/-- A negative index stays. -/
theorem embed_of_neg (w : Weakening) {index : Int} (negative : index < 0) :
    w.embed index = index := by
  unfold embed
  split <;> omega

/-- A moved index finds the entry it had before. -/
theorem getElem?_insert (w : Weakening) (inserted : List Ty) (ctx : Context)
    (counted : inserted.length = w.count) (inside : w.cutoff ≤ ctx.length) (index : Nat) :
    (w.insert inserted ctx)[w.shift index]? = ctx[index]? := by
  have front : (ctx.take w.cutoff).length = w.cutoff := by simp; omega
  unfold shift insert
  split
  case isTrue moved =>
    rw [List.append_assoc, List.getElem?_append_right (by omega),
      List.getElem?_append_right (by omega), List.getElem?_drop]
    congr 1
    omega
  case isFalse stays =>
    rw [List.append_assoc, List.getElem?_append_left (by omega),
      List.getElem?_take_of_lt (by omega)]

end Weakening

/-- A term moved into a larger context; bound variables stay. -/
def Term.weaken (w : Weakening) : Term → Term
  | .var index => .var (w.shift index)
  | .lam dom body => .lam dom (body.weaken w.lift)
  | .app fn arg => .app (fn.weaken w) (arg.weaken w)
  | .atom name => .atom name
  | .zero => .zero
  | .succ pred => .succ (pred.weaken w)
  | .recNat motive target base step =>
    .recNat motive (target.weaken w) (base.weaken w) (step.weaken w)
  | .pair fst snd => .pair (fst.weaken w) (snd.weaken w)
  | .car operand => .car (operand.weaken w)
  | .cdr operand => .cdr (operand.weaken w)
  | .nil elem => .nil elem
  | .cons head tail => .cons (head.weaken w) (tail.weaken w)
  | .recList motive target base step =>
    .recList motive (target.weaken w) (base.weaken w) (step.weaken w)
  | .ann ty body => .ann ty (body.weaken w)

end EtaLong
