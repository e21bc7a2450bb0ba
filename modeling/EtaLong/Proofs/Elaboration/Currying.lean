/-
**Several arguments at once.**

A function is applied to several arguments, or takes several parameters, by going along the arrows
of its type: the arrows are counted first, and then each argument or parameter uses up one of them.
Cut at any place, a row of arguments or parameters uses up the same arrows in two goes, since what
is left of the type after the first go has exactly the arrows that the second needs.

* `Expr.elaborateArgs_append`, `Expr.arity_of_elaborateArgs`: arguments in two rows;
* `Scope.enter?_append`, `Scope.arity_of_enter?`: parameters in two rows;
* `Expr.elaborate_app_eq_ok_iff`, `Expr.elaborate_lam_eq_ok_iff`: the counts are met by themselves;
* `elaboration_curries`: an application or a function, at once and in two goes.
-/

import EtaLong.Proofs.Elaboration

namespace EtaLong

open Elaboration

/-! ### Arguments in two rows -/

namespace Expr

variable {scope : Scope}

/-- Arguments in two rows. -/
theorem elaborateArgs_append (scope : Scope) (function : Term) (ty : Ty) (args more : List Expr) :
    elaborateArgs scope function ty (args ++ more) =
      elaborateArgs scope function ty args >>= fun applied =>
        elaborateArgs scope applied.1 applied.2 more := by
  induction args generalizing function ty with
  | nil =>
    rw [List.nil_append, elaborateArgs]
    rfl
  | cons arg args ih =>
    cases ty with
    | fn dom cod =>
      rw [List.cons_append, elaborateArgs, elaborateArgs]
      cases arg.elaborate scope (.exactly dom "app") with
      | error error => rfl
      | ok found => exact ih _ cod
    | _ => rfl

/-- **Each argument uses up one arrow.** -/
theorem arity_of_elaborateArgs {function : Term} {ty : Ty} {args : List Expr}
    {applied : Term × Ty} (run : elaborateArgs scope function ty args = .ok applied) :
    ty.arity = args.length + applied.2.arity := by
  induction args generalizing function ty with
  | nil =>
    rw [elaborateArgs] at run
    cases run
    simp
  | cons arg args ih =>
    cases ty with
    | fn dom cod =>
      rw [elaborateArgs] at run
      obtain ⟨argument, _, rest⟩ := bind_eq_ok.mp run
      have left := ih rest
      simp only [Ty.arity, List.length_cons]
      omega
    | _ => cases run

/-- **An application succeeds** when its arguments use up arrows one after another; that there are
enough of them need not be asked. -/
theorem elaborate_app_eq_ok_iff {span : Span} {fn : Expr} {args : List Expr} {found : Term × Ty}
    (nonempty : args ≠ []) :
    (app span fn args).elaborate scope .any = .ok found ↔
      (fn.elaborate scope .any >>= fun function =>
        elaborateArgs scope function.1 function.2 args) = .ok found := by
  rw [elaborate]
  cases fn.elaborate scope .any with
  | error error => rfl
  | ok function =>
    dsimp only [bind, Except.bind]
    have count := List.length_pos_iff.mpr nonempty
    cases applied : elaborateArgs scope function.1 function.2 args with
    | ok result =>
      have used := arity_of_elaborateArgs applied
      have takesSome : function.2.arity ≠ 0 := by omega
      have enough : ¬ function.2.arity < args.length := by omega
      rw [if_neg takesSome, if_neg enough]
      rfl
    | error error =>
      by_cases plain : function.2.arity = 0
      · simp [plain]
      by_cases tooMany : function.2.arity < args.length
      · simp [plain, tooMany]
      · simp [plain, tooMany]

end Expr

/-! ### Parameters in two rows -/

namespace Scope

variable {scope inner : Scope} {binders : List Binder} {expected result : Ty}

/-- Parameters in two rows. -/
theorem enter?_append (scope : Scope) (binders more : List Binder) (expected : Ty) :
    scope.enter? (binders ++ more) expected =
      (scope.enter? binders expected).bind fun entered => entered.1.enter? more entered.2 := by
  induction binders generalizing scope expected with
  | nil => rfl
  | cons binder binders ih =>
    cases expected with
    | fn dom cod => exact ih ((binder.name, dom) :: scope) cod
    | _ => rfl

/-- **Each parameter uses up one arrow.** -/
theorem arity_of_enter? (entered : scope.enter? binders expected = some (inner, result)) :
    expected.arity = binders.length + result.arity := by
  induction binders generalizing scope expected with
  | nil =>
    cases entered
    simp
  | cons binder binders ih =>
    cases expected with
    | fn dom cod =>
      have left := ih entered
      simp only [Ty.arity, List.length_cons]
      omega
    | _ => cases entered

/-- The function around the parameters of two rows is a function in a function. -/
theorem lams_of_enter? (entered : scope.enter? binders expected = some (inner, result))
    (count : Nat) (body : Term) :
    Term.lams (binders.length + count) expected body =
      Term.lams binders.length expected (Term.lams count result body) := by
  induction binders generalizing scope expected with
  | nil =>
    cases entered
    rw [List.length_nil, Nat.zero_add]
    cases result <;> rfl
  | cons binder binders ih =>
    cases expected with
    | fn dom cod =>
      rw [List.length_cons, Nat.add_right_comm, Term.lams, Term.lams, ih entered]
    | _ => cases entered

end Scope

/-- **A function succeeds** when its parameters use up arrows one after another and its body does;
that there are enough of them need not be asked. -/
theorem Expr.elaborate_lam_eq_ok_iff {scope : Scope} {span : Span} {binders : List Binder}
    {body : Expr} {expected : Ty} {rule : String} {found : Term × Ty} (nonempty : binders ≠ []) :
    (lam span binders body).elaborate scope (.exactly expected rule) = .ok found ↔
      ∃ inner result read, scope.enter? binders expected = some (inner, result) ∧
        body.elaborate inner (.exactly result "lambda") = .ok read ∧
        found = (Term.lams binders.length expected read.1, expected) := by
  have count := List.length_pos_iff.mpr nonempty
  rw [elaborate]
  cases entered : scope.enter? binders expected with
  | none =>
    by_cases plain : expected.arity = 0
    · simp [plain]
    by_cases tooMany : expected.arity < binders.length
    · simp [plain, tooMany]
    · simp [plain, tooMany]
  | some entry =>
    obtain ⟨inner, result⟩ := entry
    have used := Scope.arity_of_enter? entered
    have takesSome : expected.arity ≠ 0 := by omega
    have enough : ¬ expected.arity < binders.length := by omega
    rw [if_neg takesSome, if_neg enough]
    dsimp only
    rw [bind_eq_ok]
    constructor
    · rintro ⟨read, bodyRun, done⟩
      cases done
      exact ⟨inner, result, read, rfl, bodyRun, rfl⟩
    · rintro ⟨_, _, read, same, bodyRun, rfl⟩
      cases same
      exact ⟨read, bodyRun, rfl⟩

/-! ### Currying -/

/-- An application in two goes. -/
theorem Expr.elaborate_app_append {scope : Scope} (whole outer inner : Span) {fn : Expr}
    {args more : List Expr} {found : Term × Ty} (nonempty : args ≠ []) (further : more ≠ []) :
    (app whole fn (args ++ more)).elaborate scope .any = .ok found ↔
      (app outer (app inner fn args) more).elaborate scope .any = .ok found := by
  have together : args ++ more ≠ [] := List.append_ne_nil_of_left_ne_nil nonempty more
  simp only [elaborate_app_eq_ok_iff together, elaborate_app_eq_ok_iff further,
    elaborateArgs_append, ← bind_assoc]
  rw [bind_eq_ok, bind_eq_ok]
  simp only [elaborate_app_eq_ok_iff nonempty]

/-- A function in two goes. -/
theorem Expr.elaborate_lam_append {scope : Scope} (whole outer inner : Span)
    {binders more : List Binder} {body : Expr} {expected : Ty} {rule : String} {found : Term × Ty}
    (nonempty : binders ≠ []) (further : more ≠ []) :
    (lam whole (binders ++ more) body).elaborate scope (.exactly expected rule) = .ok found ↔
      (lam outer binders (lam inner more body)).elaborate scope (.exactly expected rule) =
        .ok found := by
  have together : binders ++ more ≠ [] := List.append_ne_nil_of_left_ne_nil nonempty more
  rw [elaborate_lam_eq_ok_iff together, elaborate_lam_eq_ok_iff nonempty]
  constructor
  · rintro ⟨innermost, result, read, entered, bodyRun, rfl⟩
    rw [Scope.enter?_append] at entered
    obtain ⟨⟨middle, middleTy⟩, first, second⟩ := Option.bind_eq_some_iff.mp entered
    refine ⟨middle, middleTy, (Term.lams more.length middleTy read.1, middleTy), first, ?_, ?_⟩
    · exact (elaborate_lam_eq_ok_iff further).mpr ⟨innermost, result, read, second, bodyRun, rfl⟩
    · rw [List.length_append, Scope.lams_of_enter? first]
  · rintro ⟨middle, middleTy, function, first, functionRun, rfl⟩
    obtain ⟨innermost, result, read, second, bodyRun, rfl⟩ :=
      (elaborate_lam_eq_ok_iff further).mp functionRun
    refine ⟨innermost, result, read, ?_, bodyRun, ?_⟩
    · rw [Scope.enter?_append, first]
      exact second
    · rw [List.length_append, Scope.lams_of_enter? first]

/-- **Elaboration curries.** In every scope, a function applied to the arguments of two rows at once
is inferred to be what it is when it is applied to one row and the result to the other; and a
function of the parameters of two rows is checked at every type as the function of one row around
the function of the other is. Where each was written does not matter. -/
theorem elaboration_curries (scope : Scope) :
    (∀ (whole outer inner : Span) (fn : Expr) (args more : List Expr), args ≠ [] → more ≠ [] →
      ∀ term ty, (Expr.app whole fn (args ++ more)).infer scope = .ok (term, ty) ↔
        (Expr.app outer (.app inner fn args) more).infer scope = .ok (term, ty)) ∧
    (∀ (whole outer inner : Span) (binders more : List Binder) (body : Expr) (expected : Ty)
      (rule : String), binders ≠ [] → more ≠ [] →
      ∀ term, (Expr.lam whole (binders ++ more) body).check scope expected rule = .ok term ↔
        (Expr.lam outer binders (.lam inner more body)).check scope expected rule = .ok term) := by
  constructor
  · intro whole outer inner fn args more nonempty further term ty
    exact Expr.elaborate_app_append whole outer inner nonempty further
  · intro whole outer inner binders more body expected rule nonempty further term
    rw [Expr.check_eq_ok_iff, Expr.check_eq_ok_iff]
    exact Expr.elaborate_lam_append whole outer inner nonempty further

/-- A function of three arguments applied to two of them, and a function of two parameters of one
name, the inner of which hides the outer, whose result is a function. -/
theorem elaboration_curries_at_repeated_name :
    ∃ (atOnce inTwo : Expr) (applied : Term) (together apart : Expr) (function : Term),
      atOnce.infer [("f", .fn .nat (.fn .nat (.fn .nat .nat)))] = .ok (applied, .fn .nat .nat) ∧
      inTwo.infer [("f", .fn .nat (.fn .nat (.fn .nat .nat)))] = .ok (applied, .fn .nat .nat) ∧
      together.check [] (.fn .nat (.fn (.fn .nat .nat) (.fn .nat .nat))) "the" = .ok function ∧
      apart.check [] (.fn .nat (.fn (.fn .nat .nat) (.fn .nat .nat))) "the" = .ok function := by
  let whole : Span := ⟨0, 9⟩
  let part : Span := ⟨1, 8⟩
  let row (value : Nat) : List Expr := [.number part value]
  let binders : List Binder := [⟨"x", part⟩]
  obtain ⟨apps, _⟩ := elaboration_curries [("f", .fn .nat (.fn .nat (.fn .nat .nat)))]
  obtain ⟨_, lams⟩ := elaboration_curries []
  have applied := apps whole whole part (.var part "f") (row 1) (row 2) (by simp [row])
    (by simp [row]) (.app (.app (.var 0) (.numeral 1)) (.numeral 2)) (.fn .nat .nat)
  have function := lams whole whole part binders binders (.var part "x")
    (.fn .nat (.fn (.fn .nat .nat) (.fn .nat .nat))) "the" (by simp [binders]) (by simp [binders])
    (.lam .nat (.lam (.fn .nat .nat) (.var 0)))
  exact ⟨.app whole (.var part "f") (row 1 ++ row 2),
    .app whole (.app part (.var part "f") (row 1)) (row 2), _,
    .lam whole (binders ++ binders) (.var part "x"),
    .lam whole binders (.lam part binders (.var part "x")), _,
    rfl, applied.mp rfl, rfl, function.mp rfl⟩

end EtaLong
