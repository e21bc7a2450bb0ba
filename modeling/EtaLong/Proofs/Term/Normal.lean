/-
**Normal terms.**

A normal term of a function type is a function with a normal body. A normal term of another type
is an introduction form of normal terms, or a neutral term: a variable that is eliminated, with
normal terms for its arguments and for the cases of its recursions.

Another way to say it goes by the places in a term. A place is settled when nothing computes there
at once and when a function that stands there, without being applied, is written as one. The normal
terms of a type are the terms of the type in which every place is settled.

* `Term.IsNormal`, `Term.IsNeutral`: the grammar;
* `Term.Place.Settled`, `Term.Settled`: nothing to compute and nothing to expand;
* `Term.isNormal_iff`: the two agree.
-/

import EtaLong.Proofs.Typing

namespace EtaLong

namespace Term

/-! ### The grammar -/

mutual

/-- **A normal term of a type** in a context. -/
inductive IsNormal : Context → Term → Ty → Prop where
  | lam {ctx : Context} {dom cod : Ty} {body : Term} :
      IsNormal (dom :: ctx) body cod → IsNormal ctx (.lam dom body) (.fn dom cod)
  | atom {ctx : Context} {name : String} : IsNormal ctx (.atom name) .atom
  | zero {ctx : Context} : IsNormal ctx .zero .nat
  | succ {ctx : Context} {pred : Term} : IsNormal ctx pred .nat → IsNormal ctx (.succ pred) .nat
  | pair {ctx : Context} {fstTy sndTy : Ty} {fst snd : Term} :
      IsNormal ctx fst fstTy → IsNormal ctx snd sndTy →
      IsNormal ctx (.pair fst snd) (.pair fstTy sndTy)
  | nil {ctx : Context} {elem : Ty} : IsNormal ctx (.nil elem) (.list elem)
  | cons {ctx : Context} {elem : Ty} {head tail : Term} :
      IsNormal ctx head elem → IsNormal ctx tail (.list elem) →
      IsNormal ctx (.cons head tail) (.list elem)
  | neutral {ctx : Context} {ty : Ty} {term : Term} :
      ty.arity = 0 → IsNeutral ctx term ty → IsNormal ctx term ty

/-- **A neutral term of a type** in a context. -/
inductive IsNeutral : Context → Term → Ty → Prop where
  | var {ctx : Context} {index : Nat} {ty : Ty} :
      ctx[index]? = some ty → IsNeutral ctx (.var index) ty
  | app {ctx : Context} {dom cod : Ty} {fn arg : Term} :
      IsNeutral ctx fn (.fn dom cod) → IsNormal ctx arg dom → IsNeutral ctx (.app fn arg) cod
  | recNat {ctx : Context} {motive : Ty} {target base step : Term} :
      IsNeutral ctx target .nat → IsNormal ctx base motive →
      IsNormal ctx step (Ty.natStep motive) →
      IsNeutral ctx (.recNat motive target base step) motive
  | car {ctx : Context} {fstTy sndTy : Ty} {operand : Term} :
      IsNeutral ctx operand (.pair fstTy sndTy) → IsNeutral ctx (.car operand) fstTy
  | cdr {ctx : Context} {fstTy sndTy : Ty} {operand : Term} :
      IsNeutral ctx operand (.pair fstTy sndTy) → IsNeutral ctx (.cdr operand) sndTy
  | recList {ctx : Context} {elem motive : Ty} {target base step : Term} :
      IsNeutral ctx target (.list elem) → IsNormal ctx base motive →
      IsNormal ctx step (Ty.listStep elem motive) →
      IsNeutral ctx (.recList motive target base step) motive

end

mutual

/-- A normal term has its type. -/
theorem IsNormal.typed : ∀ {ctx : Context} {term : Term} {ty : Ty}, term.IsNormal ctx ty →
    term.HasType ctx ty
  | _, _, _, .lam body => .lam body.typed
  | _, _, _, .atom => .atom
  | _, _, _, .zero => .zero
  | _, _, _, .succ pred => .succ pred.typed
  | _, _, _, .pair fst snd => .pair fst.typed snd.typed
  | _, _, _, .nil => .nil
  | _, _, _, .cons head tail => .cons head.typed tail.typed
  | _, _, _, .neutral _ neutral => neutral.typed

/-- A neutral term has its type. -/
theorem IsNeutral.typed : ∀ {ctx : Context} {term : Term} {ty : Ty}, term.IsNeutral ctx ty →
    term.HasType ctx ty
  | _, _, _, .var found => .var found
  | _, _, _, .app fn arg => .app fn.typed arg.typed
  | _, _, _, .recNat target base step => .recNat target.typed base.typed step.typed
  | _, _, _, .car operand => .car operand.typed
  | _, _, _, .cdr operand => .cdr operand.typed
  | _, _, _, .recList target base step => .recList target.typed base.typed step.typed

end

/-! ### Places in a term -/

/-- **A place in a term**: what stands there, the context it stands in, and whether it is the
function of an application. -/
structure Place where
  ctx : Context
  term : Term
  applied : Bool

/-- The places right below a term in a context. -/
def operands (ctx : Context) : Term → List Place
  | var _ => []
  | lam dom body => [⟨dom :: ctx, body, false⟩]
  | app fn arg => [⟨ctx, fn, true⟩, ⟨ctx, arg, false⟩]
  | atom _ => []
  | zero => []
  | succ pred => [⟨ctx, pred, false⟩]
  | recNat _ target base step => [⟨ctx, target, false⟩, ⟨ctx, base, false⟩, ⟨ctx, step, false⟩]
  | pair fst snd => [⟨ctx, fst, false⟩, ⟨ctx, snd, false⟩]
  | car operand => [⟨ctx, operand, false⟩]
  | cdr operand => [⟨ctx, operand, false⟩]
  | nil _ => []
  | cons head tail => [⟨ctx, head, false⟩, ⟨ctx, tail, false⟩]
  | recList _ target base step => [⟨ctx, target, false⟩, ⟨ctx, base, false⟩, ⟨ctx, step, false⟩]
  | ann _ body => [⟨ctx, body, false⟩]

/-- **The places in a place**: itself, and those below it at any depth. -/
inductive Place.Holds (root : Place) : Place → Prop where
  | here : Place.Holds root root
  | deeper {outer inner : Place} :
      Place.Holds root outer → inner ∈ operands outer.ctx outer.term → Place.Holds root inner

/-- **A term that computes at once**: an elimination of an introduction form, or an annotation. -/
inductive IsRedex : Term → Prop where
  | beta {dom : Ty} {body arg : Term} : IsRedex (.app (.lam dom body) arg)
  | carPair {fst snd : Term} : IsRedex (.car (.pair fst snd))
  | cdrPair {fst snd : Term} : IsRedex (.cdr (.pair fst snd))
  | recNatZero {motive : Ty} {base step : Term} : IsRedex (.recNat motive .zero base step)
  | recNatSucc {motive : Ty} {pred base step : Term} :
      IsRedex (.recNat motive (.succ pred) base step)
  | recListNil {motive elem : Ty} {base step : Term} :
      IsRedex (.recList motive (.nil elem) base step)
  | recListCons {motive : Ty} {head tail base step : Term} :
      IsRedex (.recList motive (.cons head tail) base step)
  | annErase {ty : Ty} {body : Term} : IsRedex (.ann ty body)

/-- **Nothing to compute and nothing to expand**: a place without redex, where a term of function
type is a function unless it is applied. -/
structure Place.Settled (place : Place) : Prop where
  irreducible : ¬ place.term.IsRedex
  expanded : place.applied = false → ∀ dom cod, place.term.HasType place.ctx (.fn dom cod) →
    ∃ body, place.term = .lam dom body

/-- Every place in a place is settled. -/
def Place.AllSettled (root : Place) : Prop := ∀ place, root.Holds place → place.Settled

/-- **An eta-long term without redex**, at any depth. -/
def Settled (ctx : Context) (term : Term) : Prop := Place.AllSettled ⟨ctx, term, false⟩

/-! ### Normal terms are settled everywhere -/

/-- What a place in a normal term has: a normal term, or a neutral one that is applied. -/
def Place.Fits (place : Place) : Prop :=
  ∃ ty, if place.applied then place.term.IsNeutral place.ctx ty
    else place.term.IsNormal place.ctx ty

variable {ctx : Context} {term : Term} {ty : Ty}

theorem IsNormal.fits (normal : term.IsNormal ctx ty) : Place.Fits ⟨ctx, term, false⟩ :=
  ⟨ty, normal⟩

/-- The places right below a neutral term. What is taken apart by a projection or a recursion is
no function, hence normal as well. -/
theorem IsNeutral.operands_fit (neutral : term.IsNeutral ctx ty) :
    ∀ place ∈ operands ctx term, place.Fits := by
  cases neutral with
  | var _ => simp [operands]
  | app fn arg =>
    simp only [operands, List.forall_mem_cons]
    exact ⟨⟨_, fn⟩, arg.fits, by simp⟩
  | recNat target base step =>
    simp only [operands, List.forall_mem_cons]
    exact ⟨(IsNormal.neutral rfl target).fits, base.fits, step.fits, by simp⟩
  | car operand =>
    simp only [operands, List.forall_mem_cons]
    exact ⟨(IsNormal.neutral rfl operand).fits, by simp⟩
  | cdr operand =>
    simp only [operands, List.forall_mem_cons]
    exact ⟨(IsNormal.neutral rfl operand).fits, by simp⟩
  | recList target base step =>
    simp only [operands, List.forall_mem_cons]
    exact ⟨(IsNormal.neutral rfl target).fits, base.fits, step.fits, by simp⟩

/-- The places right below a normal term. -/
theorem IsNormal.operands_fit (normal : term.IsNormal ctx ty) :
    ∀ place ∈ operands ctx term, place.Fits := by
  cases normal with
  | lam body =>
    simp only [operands, List.forall_mem_cons]
    exact ⟨body.fits, by simp⟩
  | atom => simp [operands]
  | zero => simp [operands]
  | succ pred =>
    simp only [operands, List.forall_mem_cons]
    exact ⟨pred.fits, by simp⟩
  | pair fst snd =>
    simp only [operands, List.forall_mem_cons]
    exact ⟨fst.fits, snd.fits, by simp⟩
  | nil => simp [operands]
  | cons head tail =>
    simp only [operands, List.forall_mem_cons]
    exact ⟨head.fits, tail.fits, by simp⟩
  | neutral _ neutral => exact neutral.operands_fit

theorem IsNeutral.irreducible (neutral : term.IsNeutral ctx ty) : ¬ term.IsRedex := by
  -- Each elimination in a neutral term is of a neutral term, which is no introduction form.
  intro redex
  cases redex with
  | beta =>
    cases neutral with
    | app fn _ => cases fn
  | carPair =>
    cases neutral with
    | car operand => cases operand
  | cdrPair =>
    cases neutral with
    | cdr operand => cases operand
  | recNatZero =>
    cases neutral with
    | recNat target _ _ => cases target
  | recNatSucc =>
    cases neutral with
    | recNat target _ _ => cases target
  | recListNil =>
    cases neutral with
    | recList target _ _ => cases target
  | recListCons =>
    cases neutral with
    | recList target _ _ => cases target
  | annErase => cases neutral

theorem IsNormal.irreducible (normal : term.IsNormal ctx ty) : ¬ term.IsRedex := by
  intro redex
  cases normal with
  | neutral _ neutral => exact neutral.irreducible redex
  | _ => cases redex

/-- A normal term of function type is a function. -/
theorem IsNormal.eq_lam {dom cod : Ty} (normal : term.IsNormal ctx (.fn dom cod)) :
    ∃ body, term = .lam dom body := by
  cases normal with
  | lam _ => exact ⟨_, rfl⟩
  | neutral plain _ => exact absurd plain (Nat.succ_ne_zero cod.arity)

namespace Place

/-- What stands right below fits as well. -/
theorem Fits.operand {outer inner : Place} (fits : outer.Fits)
    (below : inner ∈ operands outer.ctx outer.term) : inner.Fits := by
  obtain ⟨outerCtx, outerTerm, applied⟩ := outer
  obtain ⟨outerTy, held⟩ := fits
  cases applied with
  | true => exact IsNeutral.operands_fit held inner below
  | false => exact IsNormal.operands_fit held inner below

theorem Fits.settled {place : Place} (fits : place.Fits) : place.Settled := by
  obtain ⟨placeCtx, placeTerm, applied⟩ := place
  obtain ⟨placeTy, held⟩ := fits
  cases applied with
  | true => exact ⟨IsNeutral.irreducible held, fun bare => nomatch bare⟩
  | false =>
    have normal : placeTerm.IsNormal placeCtx placeTy := held
    refine ⟨normal.irreducible, fun _ dom cod typed => ?_⟩
    obtain rfl := normal.typed.unique typed
    exact normal.eq_lam

/-- Places in a place that fits fit, by induction on their depth. -/
theorem Holds.fits {root place : Place} (holds : root.Holds place) (fits : root.Fits) :
    place.Fits := by
  induction holds with
  | here => exact fits
  | deeper _ below ih => exact ih.operand below

/-- Places in what stands right below a place are places in it. -/
theorem Holds.of_operand {root inner place : Place} (below : inner ∈ operands root.ctx root.term)
    (holds : inner.Holds place) : root.Holds place := by
  induction holds with
  | here => exact .deeper .here below
  | deeper _ next ih => exact .deeper ih next

end Place

/-- **A normal term is eta-long and has nothing to compute**, at any depth. -/
theorem IsNormal.settled (normal : term.IsNormal ctx ty) : term.Settled ctx :=
  fun _ holds => (holds.fits normal.fits).settled

/-! ### Terms that are settled everywhere are normal -/

theorem Place.AllSettled.here {root : Place} (all : root.AllSettled) : root.Settled := all root .here

theorem Place.AllSettled.operand {root inner : Place} (all : root.AllSettled)
    (below : inner ∈ operands root.ctx root.term) : inner.AllSettled :=
  fun place holds => all place (.of_operand below holds)

/-- A neutral term at a settled place that is not applied is no function. -/
theorem IsNeutral.isNormal (neutral : term.IsNeutral ctx ty)
    (settled : Place.Settled ⟨ctx, term, false⟩) : term.IsNormal ctx ty := by
  cases ty with
  | fn dom cod =>
    obtain ⟨body, rfl⟩ := settled.expanded rfl dom cod neutral.typed
    cases neutral
  | _ => exact .neutral rfl neutral

/-- Where a term is not applied, being neutral makes it normal. -/
theorem Place.AllSettled.isNormal (all : Place.AllSettled ⟨ctx, term, false⟩)
    (shaped : term.IsNormal ctx ty ∨ term.IsNeutral ctx ty) : term.IsNormal ctx ty := by
  rcases shaped with normal | neutral
  · exact normal
  · exact neutral.isNormal all.here

/-- A typed term whose places are settled is normal, or neutral where it is applied. What is
eliminated is neutral, since otherwise there would be a redex. -/
theorem HasType.isNormal_or_isNeutral {applied : Bool} (typed : term.HasType ctx ty)
    (all : Place.AllSettled ⟨ctx, term, applied⟩) :
    term.IsNormal ctx ty ∨ term.IsNeutral ctx ty := by
  induction typed generalizing applied with
  | var found => exact .inr (.var found)
  | @lam ctx dom cod body _ ih =>
    have below : Place.AllSettled ⟨dom :: ctx, body, false⟩ := all.operand (by simp [operands])
    exact .inl (.lam (below.isNormal (ih below)))
  | @app ctx dom cod fn arg _ _ fnIH argIH =>
    have fnBelow : Place.AllSettled ⟨ctx, fn, true⟩ := all.operand (by simp [operands])
    have argBelow : Place.AllSettled ⟨ctx, arg, false⟩ := all.operand (by simp [operands])
    rcases fnIH fnBelow with normal | neutral
    · obtain ⟨body, rfl⟩ := normal.eq_lam
      exact absurd .beta all.here.irreducible
    · exact .inr (.app neutral (argBelow.isNormal (argIH argBelow)))
  | atom => exact .inl .atom
  | zero => exact .inl .zero
  | @succ ctx pred _ ih =>
    have below : Place.AllSettled ⟨ctx, pred, false⟩ := all.operand (by simp [operands])
    exact .inl (.succ (below.isNormal (ih below)))
  | @recNat ctx motive target base step _ _ _ targetIH baseIH stepIH =>
    have targetBelow : Place.AllSettled ⟨ctx, target, false⟩ := all.operand (by simp [operands])
    have baseBelow : Place.AllSettled ⟨ctx, base, false⟩ := all.operand (by simp [operands])
    have stepBelow : Place.AllSettled ⟨ctx, step, false⟩ := all.operand (by simp [operands])
    cases targetBelow.isNormal (targetIH targetBelow) with
    | zero => exact absurd .recNatZero all.here.irreducible
    | succ _ => exact absurd .recNatSucc all.here.irreducible
    | neutral _ neutral =>
      exact .inr (.recNat neutral (baseBelow.isNormal (baseIH baseBelow))
        (stepBelow.isNormal (stepIH stepBelow)))
  | @pair ctx fstTy sndTy fst snd _ _ fstIH sndIH =>
    have fstBelow : Place.AllSettled ⟨ctx, fst, false⟩ := all.operand (by simp [operands])
    have sndBelow : Place.AllSettled ⟨ctx, snd, false⟩ := all.operand (by simp [operands])
    exact .inl (.pair (fstBelow.isNormal (fstIH fstBelow)) (sndBelow.isNormal (sndIH sndBelow)))
  | @car ctx fstTy sndTy operand _ ih =>
    have below : Place.AllSettled ⟨ctx, operand, false⟩ := all.operand (by simp [operands])
    cases below.isNormal (ih below) with
    | pair _ _ => exact absurd .carPair all.here.irreducible
    | neutral _ neutral => exact .inr (.car neutral)
  | @cdr ctx fstTy sndTy operand _ ih =>
    have below : Place.AllSettled ⟨ctx, operand, false⟩ := all.operand (by simp [operands])
    cases below.isNormal (ih below) with
    | pair _ _ => exact absurd .cdrPair all.here.irreducible
    | neutral _ neutral => exact .inr (.cdr neutral)
  | nil => exact .inl .nil
  | @cons ctx elem head tail _ _ headIH tailIH =>
    have headBelow : Place.AllSettled ⟨ctx, head, false⟩ := all.operand (by simp [operands])
    have tailBelow : Place.AllSettled ⟨ctx, tail, false⟩ := all.operand (by simp [operands])
    exact .inl (.cons (headBelow.isNormal (headIH headBelow))
      (tailBelow.isNormal (tailIH tailBelow)))
  | @recList ctx elem motive target base step _ _ _ targetIH baseIH stepIH =>
    have targetBelow : Place.AllSettled ⟨ctx, target, false⟩ := all.operand (by simp [operands])
    have baseBelow : Place.AllSettled ⟨ctx, base, false⟩ := all.operand (by simp [operands])
    have stepBelow : Place.AllSettled ⟨ctx, step, false⟩ := all.operand (by simp [operands])
    cases targetBelow.isNormal (targetIH targetBelow) with
    | nil => exact absurd .recListNil all.here.irreducible
    | cons _ _ => exact absurd .recListCons all.here.irreducible
    | neutral _ neutral =>
      exact .inr (.recList neutral (baseBelow.isNormal (baseIH baseBelow))
        (stepBelow.isNormal (stepIH stepBelow)))
  | ann _ _ => exact absurd .annErase all.here.irreducible

/-- **The grammar has exactly the typed terms that are eta-long and have nothing to compute.** -/
theorem isNormal_iff : term.IsNormal ctx ty ↔ term.HasType ctx ty ∧ term.Settled ctx := by
  constructor
  · intro normal
    exact ⟨normal.typed, normal.settled⟩
  · rintro ⟨typed, settled⟩
    exact Place.AllSettled.isNormal settled (typed.isNormal_or_isNeutral settled)

end Term

end EtaLong
