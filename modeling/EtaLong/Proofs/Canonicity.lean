/-
**Canonicity.**

Computation is stuck on variables only, so a closed term leaves nothing stuck: not in its value, and
not in what the closures of its value captured. A type without functions has then only data for normal
forms: numerals, atoms, pairs of data, and lists of data to the end.

* `Value.Unstuck`, `Env.Unstuck`: nothing is stuck in a value or in an environment;
* `Value.HasType.unstuck`: what has a type in the empty context;
* `Ty.isData`, `Term.Literal`: types without functions, and their literals;
* `Term.IsNormal.literal`: closed normal terms of such types;
* `closed_computation_canonical`: closed terms, and the entries and results of programs.
-/

import EtaLong.Proofs.Program.Printed

namespace EtaLong

/-! ### Nothing is stuck -/

mutual

/-- **No computation is stuck in a value**, nor in anything that it captured. -/
def Value.Unstuck : Value → Prop
  | .closure env _ => Env.Unstuck env
  | .zero => True
  | .succ pred => pred.Unstuck
  | .pair fst snd => fst.Unstuck ∧ snd.Unstuck
  | .nil => True
  | .cons head tail => head.Unstuck ∧ tail.Unstuck
  | .atom _ => True
  | .stuck _ => False

/-- No computation is stuck in any value of an environment. -/
def Env.Unstuck : List Value → Prop
  | [] => True
  | value :: env => value.Unstuck ∧ Env.Unstuck env

end

/-- **A neutral has a type only where there are variables**: its head is one. -/
theorem Neutral.HasType.not_closed : ∀ {neutral : Neutral} {ty : Ty}, ¬ neutral.HasType [] ty
  | _, _, .var found => by simp at found
  | _, _, .app fn _ => fn.not_closed
  | _, _, .recNat target _ _ => target.not_closed
  | _, _, .car operand => operand.not_closed
  | _, _, .cdr operand => operand.not_closed
  | _, _, .recList target _ _ => target.not_closed

mutual

/-- **Nothing is stuck in a closed value.** -/
theorem Value.HasType.unstuck : ∀ {value : Value} {ty : Ty}, value.HasType [] ty → value.Unstuck
  | _, _, .closure envTyped _ => envTyped.unstuck
  | _, _, .zero => trivial
  | _, _, .succ pred => pred.unstuck
  | _, _, .pair fst snd => ⟨fst.unstuck, snd.unstuck⟩
  | _, _, .nil => trivial
  | _, _, .cons head tail => ⟨head.unstuck, tail.unstuck⟩
  | _, _, .atom => trivial
  | _, _, .stuck neutral => neutral.not_closed

theorem Env.HasType.unstuck : ∀ {env : Env} {entries : Context}, Env.HasType [] env entries →
    Env.Unstuck env
  | _, _, .nil => trivial
  | _, _, .cons first rest => ⟨first.unstuck, rest.unstuck⟩

end

/-! ### Data -/

/-- Whether no part of a type is a function type. -/
def Ty.isData : Ty → Bool
  | .nat => true
  | .atom => true
  | .fn _ _ => false
  | .pair fst snd => fst.isData && snd.isData
  | .list elem => elem.isData

namespace Term

/-- **The literals of a type**: numerals, atoms, pairs of literals, and lists of literals that are
written out to the end. -/
inductive Literal : Ty → Term → Prop where
  | number (value : Nat) : Literal .nat (numeral value)
  | atom (name : String) : Literal .atom (.atom name)
  | pair {fstTy sndTy : Ty} {fst snd : Term} :
      Literal fstTy fst → Literal sndTy snd → Literal (.pair fstTy sndTy) (.pair fst snd)
  | list {elem : Ty} (items : List Term) :
      (∀ item ∈ items, Literal elem item) → Literal (.list elem) (listLiteral elem items)

/-- A neutral term has a variable for its head. -/
theorem IsNeutral.not_closed : ∀ {term : Term} {ty : Ty}, ¬ term.IsNeutral [] ty
  | _, _, .var found => by simp at found
  | _, _, .app fn _ => fn.not_closed
  | _, _, .recNat target _ _ => target.not_closed
  | _, _, .car operand => operand.not_closed
  | _, _, .cdr operand => operand.not_closed
  | _, _, .recList target _ _ => target.not_closed

/-- One more successor of a numeral. -/
theorem Literal.succ {pred : Term} (literal : Literal .nat pred) : Literal .nat (.succ pred) := by
  cases literal with
  | number value => exact .number (value + 1)

/-- One more literal in front of a list of them. -/
theorem Literal.cons {elem : Ty} {head tail : Term} (first : Literal elem head)
    (rest : Literal (.list elem) tail) : Literal (.list elem) (.cons head tail) := by
  cases rest with
  | list items each => exact .list (head :: items) (List.forall_mem_cons.mpr ⟨first, each⟩)

/-- **Closed normal terms of a type without functions are its literals.** -/
theorem IsNormal.literal : ∀ {term : Term} {ty : Ty}, term.IsNormal [] ty → ty.isData →
    term.Literal ty
  | _, _, .lam _, data => by simp [Ty.isData] at data
  | _, _, .atom, _ => .atom _
  | _, _, .zero, _ => .number 0
  | _, _, .succ pred, _ => (pred.literal rfl).succ
  | _, _, .pair fst snd, data => by
    rw [Ty.isData, Bool.and_eq_true] at data
    exact .pair (fst.literal data.1) (snd.literal data.2)
  | _, _, .nil, _ => .list [] (List.forall_mem_nil _)
  | _, _, .cons head tail, data => (head.literal data).cons (tail.literal data)
  | _, _, .neutral _ stuck, _ => stuck.not_closed.elim

end Term

namespace Program

/-- **Nothing is stuck where an entry is evaluated**, nor in its value. -/
theorem TypedFrom.unstuck {entries : List Entry} {entry : Entry} {index : Nat}
    (typed : TypedFrom [] entries) (found : entries[index]? = some entry) :
    ∃ env value, Yields (fun fuel => environment fuel [] (entries.take index)) env ∧
      Env.Unstuck env ∧ entry.term.Evaluates env value ∧ value.Unstuck := by
  obtain ⟨_, env, run, envTyped, _⟩ := (typed.take index).exists_run .nil
  obtain ⟨value, _, evaluates, valueTyped, _⟩ := (typed.getElem? found).total envTyped
  exact ⟨env, value, run.environment, envTyped.unstuck, evaluates, valueTyped.unstuck⟩

end Program

/-! ### Closed computation -/

open Program in
/-- **Closed computation is canonical.** A closed term of a type evaluates to a value in which nothing
is stuck, and its normal form is a literal if its type has no functions in it. So it is with programs:
each entry is evaluated where nothing is stuck, to a value in which nothing is; and each result of a
type without functions is a literal of that type. -/
theorem closed_computation_canonical :
    (∀ (term : Term) (ty : Ty), term.infer [] = .ok ty →
      ∃ value normal, term.Evaluates [] value ∧ value.Unstuck ∧ term.NormalizesTo [] normal ty ∧
        (ty.isData → normal.Literal ty)) ∧
    (∀ (decls : List Decl) (entries : List Entry), elaborate decls = .ok entries →
      ∀ (index : Nat) (entry : Entry), entries[index]? = some entry →
        ∃ env value, Yields (fun fuel => environment fuel [] (entries.take index)) env ∧
          Env.Unstuck env ∧ entry.term.Evaluates env value ∧ value.Unstuck) ∧
    (∀ (source : String) (results : List Result), Yields (fun fuel => run fuel source) results →
      ∀ result ∈ results, result.ty.isData → result.normal.Literal result.ty) := by
  refine ⟨?_, ?_, ?_⟩
  · intro term ty inferred
    have typed := Term.HasType.of_infer_eq inferred
    obtain ⟨value, normal, evaluates, valueTyped, reads, _⟩ := typed.total .nil
    have normalizes := Term.NormalizesTo.of_reads typed evaluates reads
    exact ⟨value, normal, evaluates, valueTyped.unstuck, normalizes, normalizes.isNormal.literal⟩
  · intro decls entries elaborated index entry found
    obtain ⟨_, follows, rfl⟩ := follows_of_elaborate elaborated
    exact follows.typed.entries.unstuck found
  · intro source results ran result among
    exact (normal_of_yields ran among).1.literal

open Program in
/-- A sum by a recursion whose results are functions, in a pair with a list: as a closed term, and as
the source of a program. Beside it an entry that is evaluated where a function is defined. -/
theorem closed_computation_canonical_at_recursion_over_functions :
    let ty : Ty := .pair .nat (.list .atom)
    let sum : Term := .app (.ann (.fn .nat .nat) (.recNat (.fn .nat .nat) (.numeral 2)
      (.lam .nat (.var 0)) (.lam .nat (.lam (.fn .nat .nat) (.lam .nat
        (.succ (.app (.var 1) (.var 0)))))))) (.numeral 3)
    let term : Term := .ann ty (.pair sum (.cons (.atom "red") (.nil .atom)))
    let normal : Term := .pair (.numeral 5) (.cons (.atom "red") (.nil .atom))
    let source := "(the (Pair Nat (List Atom)) (cons ((the (-> Nat Nat) (rec-nat 2 (lambda (x) x) " ++
      "(lambda (x x1 x2) (add1 (x1 x2))))) 3) (:: 'red nil)))"
    let next : Entry :=
      ⟨some "next", .fn .nat .nat, .ann (.fn .nat .nat) (.lam .nat (.succ (.var 0))), ⟨0, 0⟩⟩
    (∃ value, term.Evaluates [] value ∧ value.Unstuck ∧ term.NormalizesTo [] normal ty) ∧
    (∃ env value, Yields (fun fuel => environment fuel [] [next]) env ∧ Env.Unstuck env ∧
      (Term.var 0).Evaluates env value ∧ value.Unstuck) ∧
    Yields (fun fuel => run fuel source) [⟨none, ty, normal⟩] ∧ normal.Literal ty := by
  intro ty sum term normal source next
  let value : Value := .pair (.succs 5 .zero) (.cons (.atom "red") .nil)
  have typed : term.HasType [] ty := .of_infer_eq rfl
  have words : term.AtomsIn Token.IsWord := by decide
  have evaluates : term.Evaluates [] value := by
    refine ⟨7, fun fuel enough => ?_⟩
    obtain ⟨less, rfl⟩ := Nat.exists_eq_add_of_le' enough
    rfl
  have reads : value.ReadsBack [] ty normal := by
    refine ⟨7, fun fuel enough => ?_⟩
    obtain ⟨less, rfl⟩ := Nat.exists_eq_add_of_le' enough
    rfl
  have written : source = term.text [] := by decide +kernel
  have ran : Yields (fun fuel => run fuel source) [⟨none, ty, normal⟩] := by
    rw [written]
    exact yields_text typed words rfl evaluates reads
  obtain ⟨closed, entries, results⟩ := closed_computation_canonical
  have literal := results source _ ran ⟨none, ty, normal⟩ (List.mem_singleton_self _) rfl
  obtain ⟨found, foundNormal, foundEval, unstuck, _⟩ := closed term ty rfl
  let span : Span := ⟨0, 0⟩
  let arrow : TypeExpr := .arrow span [.nat span] (.nat span)
  let body : Expr := .the span arrow (.lam span [⟨"n", span⟩] (.add1 span (.var span "n")))
  have elaborated : elaborate [.define span "next" body, .eval span (.var span "next")] =
      .ok [next, ⟨none, .fn .nat .nat, .var 0, span⟩] := rfl
  exact ⟨⟨found, foundEval, unstuck, .of_reads typed evaluates reads⟩,
    entries _ _ elaborated 1 _ rfl, ran, literal⟩

end EtaLong
