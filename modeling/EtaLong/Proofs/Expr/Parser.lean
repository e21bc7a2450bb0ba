/-
**What symbolic expressions are parsed to.**

An expression stands where the symbolic expression it was parsed from stands, and its parts were
parsed from items of that one, in their order. What is not parsed is reported at the symbolic
expression itself or at one inside it. Both follow from what one level of parsing can do.

* `Form.Error.PointsInto`: an error at an expression that occurs in a row;
* `Expr.Shaped`, `Expr.ofSexp_shaped`: what one level of parsing does;
* `Expr.ofSexp_pointsInto`, `Decl.ofSexp_pointsInto`: where errors are reported;
* `Expr.everywhere_of_ofSexp`: what holds of all nodes that are parsed;
* `Expr.laid_of_ofSexp`: where expressions stand.
-/

import EtaLong.Expr.Parser
import EtaLong.Proofs.Expr.Parts
import EtaLong.Proofs.Sexp.Locality

namespace EtaLong

/-- **Induction on the items.** -/
theorem Sexp.items_induction {motive : Sexp → Prop}
    (step : ∀ item, (∀ part ∈ item.items, motive part) → motive item) (item : Sexp) : motive item :=
  step item fun part among =>
    have : sizeOf part < sizeOf item := by
      cases item with
      | group bracket span items =>
        have smaller := List.sizeOf_lt_of_mem (show part ∈ items from among)
        simp only [Sexp.group.sizeOf_spec]
        omega
      | _ => cases among
    Sexp.items_induction step part
termination_by sizeOf item

/-- What occurs in an expression of a row occurs in the row. -/
theorem Sexp.Occurs.mono {part item : Sexp} {row : List Sexp} (occurs : Sexp.Occurs part [item])
    (among : item ∈ row) : Sexp.Occurs part row := by
  cases occurs with
  | here found =>
    rw [List.mem_singleton.mp found]
    exact .here among
  | inside found inner =>
    rw [List.mem_singleton.mp found] at inner
    exact .inside among inner

/-- What occurs in an expression of a row, at any depth, occurs in the row. -/
theorem Sexp.Occurs.trans {part item : Sexp} {row : List Sexp} (inner : Sexp.Occurs part [item])
    (outer : Sexp.Occurs item row) : Sexp.Occurs part row := by
  induction outer with
  | here among => exact inner.mono among
  | inside among _ ih => exact .inside among ih

/-! ### Where errors are reported -/

namespace Form

/-- **An error points into a row** when it is at an expression that occurs there. -/
def Error.PointsInto (row : List Sexp) (error : Error) : Prop :=
  ∃ part, Sexp.Occurs part row ∧ part.span = error.span

namespace Error.PointsInto

variable {row : List Sexp} {item part : Sexp} {error : Error}

theorem here (same : item.span = error.span) : error.PointsInto [item] :=
  ⟨item, .here (List.mem_singleton_self item), same⟩

/-- An error at one of a row. -/
theorem mono (points : error.PointsInto [item]) (among : item ∈ row) : error.PointsInto row := by
  obtain ⟨inner, occurs, same⟩ := points
  exact ⟨inner, occurs.mono among, same⟩

/-- An error at an item of an expression. -/
theorem operand (points : error.PointsInto [part]) (among : part ∈ item.items) :
    error.PointsInto [item] := by
  obtain ⟨inner, occurs, same⟩ := points
  exact ⟨inner, .inside (List.mem_singleton_self item) (occurs.mono among), same⟩

end Error.PointsInto

end Form

theorem Sexp.toName_pointsInto (role : Form.Role) (item : Sexp) :
    FailsOnly (Form.Error.PointsInto [item]) (item.toName role) := by
  cases item with
  | symbol span name =>
    rw [Sexp.toName]
    cases Keyword.ofName? name with
    | some keyword => exact .error (.here rfl)
    | none => exact .ok name
  | _ => exact .error (.here rfl)

theorem TypeExpr.ofSexps_eq_mapM (items : List Sexp) :
    TypeExpr.ofSexps items = items.mapM TypeExpr.ofSexp := by
  induction items with
  | nil => rfl
  | cons item items ih => rw [TypeExpr.ofSexps, ih, List.mapM_cons]

/-- **What is no type is reported inside it.** -/
theorem TypeExpr.ofSexp_pointsInto (item : Sexp) :
    FailsOnly (Form.Error.PointsInto [item]) (TypeExpr.ofSexp item) := by
  induction item using Sexp.items_induction with
  | step item each =>
    unfold TypeExpr.ofSexp
    cases item with
    | symbol span name =>
      dsimp only
      split
      · exact .ok _
      · exact .ok _
      · exact .error (.here rfl)
    | number span value => exact .error (.here rfl)
    | quoted span name => exact .error (.here rfl)
    | group bracket span items =>
      rcases bracket with _ | _
      · rcases items with _ | ⟨head, operands⟩
        · exact .error (.here rfl)
        have operand : ∀ part ∈ operands,
            FailsOnly (Form.Error.PointsInto [.group .round span (head :: operands)])
              (TypeExpr.ofSexp part) :=
          fun part among => (each part (.tail head among)).mono fun _ points =>
            points.operand (.tail head among)
        dsimp only
        split
        · split
          · rename_i first second rest
            rw [TypeExpr.ofSexps_eq_mapM]
            exact .bind (operand first (.head _)) fun _ =>
              .bind (.mapM fun part among => operand part (.tail first among)) fun _ => .ok _
          · exact .error (.here rfl)
        · split
          · exact .bind (operand _ (.head _)) fun _ =>
              .bind (operand _ (.tail _ (.head _))) fun _ => .ok _
          · exact .error (.here rfl)
        · split
          · exact .bind (operand _ (.head _)) fun _ => .ok _
          · exact .error (.here rfl)
        · exact .error (.here rfl)
      · exact .error (.here rfl)

/-- **What are no parameters is reported inside them.** -/
theorem Binder.ofSexp_pointsInto (item : Sexp) :
    FailsOnly (Form.Error.PointsInto [item]) (Binder.ofSexp item) := by
  cases item with
  | symbol span name => exact .error (.here rfl)
  | number span value => exact .error (.here rfl)
  | quoted span name => exact .error (.here rfl)
  | group bracket span items =>
    rcases bracket with _ | _
    · rcases items with _ | ⟨first, rest⟩
      · exact .error (.here rfl)
      rw [Binder.ofSexp]
      refine .mapM fun part among => .bind ?_ fun _ => .ok _
      exact (part.toName_pointsInto .parameter).mono fun _ points => points.operand among
    · exact .error (.here rfl)

/-! ### One level of parsing -/

namespace Expr

/-- Why an item of an expression is refused. -/
def PartFails (part : Sexp) (error : Form.Error) : Prop :=
  Expr.ofSexp part = .error error ∨ TypeExpr.ofSexp part = .error error ∨
    Binder.ofSexp part = .error error

/-- **What one level of parsing does**: the parts of the result were parsed from items, in their
order, or an error is at the whole, or it comes from an item. -/
inductive Shaped (item : Sexp) : Except Form.Error Expr → Prop where
  | ok {expr : Expr} {origins : List Sexp} : expr.span = item.span →
      origins.Sublist item.items → Expr.ofSexps origins = .ok expr.parts → Shaped item (.ok expr)
  | here {error : Form.Error} : error.span = item.span → Shaped item (.error error)
  | inside {error : Form.Error} {part : Sexp} : part ∈ item.items → PartFails part error →
      Shaped item (.error error)

theorem ofSexps_eq_mapM (items : List Sexp) : Expr.ofSexps items = items.mapM Expr.ofSexp := by
  induction items with
  | nil => rfl
  | cons item items ih => rw [Expr.ofSexps, ih, List.mapM_cons]

theorem ofSexps_cons {item : Sexp} {items : List Sexp} {expr : Expr} {exprs : List Expr}
    (parsed : Expr.ofSexp item = .ok expr) (rest : Expr.ofSexps items = .ok exprs) :
    Expr.ofSexps (item :: items) = .ok (expr :: exprs) := by
  rw [Expr.ofSexps, parsed, rest]
  rfl

namespace Shaped

variable {item : Sexp}

theorem bind {α : Type} {run : Except Form.Error α} {rest : α → Except Form.Error Expr}
    (fails : ∀ error, run = .error error → ∃ part ∈ item.items, PartFails part error)
    (after : ∀ value, run = .ok value → Shaped item (rest value)) : Shaped item (run >>= rest) := by
  cases run with
  | ok value => exact after value rfl
  | error error =>
    obtain ⟨part, among, refused⟩ := fails error rfl
    exact .inside among refused

/-- An item that is parsed to an expression. -/
theorem operand {part : Sexp} {rest : Expr → Except Form.Error Expr} (among : part ∈ item.items)
    (after : ∀ expr, Expr.ofSexp part = .ok expr → Shaped item (rest expr)) :
    Shaped item (Expr.ofSexp part >>= rest) :=
  bind (fun _ failed => ⟨part, among, .inl failed⟩) after

/-- Items that are parsed to expressions. -/
theorem row {some : List Sexp} {rest : List Expr → Except Form.Error Expr}
    (subset : ∀ part ∈ some, part ∈ item.items)
    (after : ∀ exprs, Expr.ofSexps some = .ok exprs → Shaped item (rest exprs)) :
    Shaped item (Expr.ofSexps some >>= rest) := by
  refine bind (fun error failed => ?_) after
  rw [ofSexps_eq_mapM] at failed
  obtain ⟨part, among, refused⟩ := exists_of_mapM_eq_error failed
  exact ⟨part, subset part among, .inl refused⟩

variable {head first second third : Sexp}

/-- A form of one operand. -/
theorem one {make : Expr → Expr} (shape : item.items = [head, first])
    (span : ∀ expr, (make expr).span = item.span) (parts : ∀ expr, (make expr).parts = [expr]) :
    Shaped item (do return make (← Expr.ofSexp first)) := by
  refine .operand (by simp [shape]) fun expr parsed => ?_
  have inOrder : [first].Sublist item.items := by
    rw [shape]
    exact List.sublist_cons_self head [first]
  refine .ok (span expr) inOrder ?_
  rw [parts]
  exact ofSexps_cons parsed rfl

/-- A form of two operands. -/
theorem two {make : Expr → Expr → Expr} (shape : item.items = [head, first, second])
    (span : ∀ one other, (make one other).span = item.span)
    (parts : ∀ one other, (make one other).parts = [one, other]) :
    Shaped item (do return make (← Expr.ofSexp first) (← Expr.ofSexp second)) := by
  refine .operand (by simp [shape]) fun one parsedOne => ?_
  refine .operand (by simp [shape]) fun other parsedOther => ?_
  have inOrder : [first, second].Sublist item.items := by
    rw [shape]
    exact List.sublist_cons_self head [first, second]
  refine .ok (span one other) inOrder ?_
  rw [parts]
  exact ofSexps_cons parsedOne (ofSexps_cons parsedOther rfl)

/-- A form of three operands. -/
theorem three {make : Expr → Expr → Expr → Expr} (shape : item.items = [head, first, second, third])
    (span : ∀ target base step, (make target base step).span = item.span)
    (parts : ∀ target base step, (make target base step).parts = [target, base, step]) :
    Shaped item (do
      return make (← Expr.ofSexp first) (← Expr.ofSexp second) (← Expr.ofSexp third)) := by
  refine .operand (by simp [shape]) fun target parsedTarget => ?_
  refine .operand (by simp [shape]) fun base parsedBase => ?_
  refine .operand (by simp [shape]) fun step parsedStep => ?_
  have inOrder : [first, second, third].Sublist item.items := by
    rw [shape]
    exact List.sublist_cons_self head [first, second, third]
  refine .ok (span target base step) inOrder ?_
  rw [parts]
  exact ofSexps_cons parsedTarget (ofSexps_cons parsedBase (ofSexps_cons parsedStep rfl))

end Shaped

/-- **Every form is parsed one level at a time.** -/
theorem ofSexp_shaped (item : Sexp) : Shaped item (Expr.ofSexp item) := by
  unfold Expr.ofSexp
  cases item with
  | symbol span name =>
    dsimp only
    split
    · exact .ok rfl (.refl []) rfl
    · exact .ok rfl (.refl []) rfl
    · exact .ok rfl (.refl []) rfl
    · exact .here rfl
  | number span value => exact .ok rfl (.refl []) rfl
  | quoted span name => exact .ok rfl (.refl []) rfl
  | group bracket span items =>
    rcases bracket with _ | _
    · rcases items with _ | ⟨head, operands⟩
      · exact .here rfl
      dsimp only
      split
      -- Without a keyword in front it is an application, whose arguments are parsed first.
      · split
        · exact .here rfl
        · exact .row (fun _ among => .tail head among) fun _ args =>
            .operand (.head _) fun _ fn => .ok rfl (.refl _) (ofSexps_cons fn args)
      · split
        · rename_i params body
          refine .bind (fun _ failed => ⟨params, .tail _ (.head _), .inr (.inr failed)⟩) fun _ _ => ?_
          exact .operand (.tail _ (.tail _ (.head _))) fun _ parsed =>
            .ok rfl (.cons _ (.cons _ (.refl _))) (ofSexps_cons parsed rfl)
        · exact .here rfl
      · split
        · rename_i ty body
          refine .bind (fun _ failed => ⟨ty, .tail _ (.head _), .inr (.inl failed)⟩) fun _ _ => ?_
          exact .operand (.tail _ (.tail _ (.head _))) fun _ parsed =>
            .ok rfl (.cons _ (.cons _ (.refl _))) (ofSexps_cons parsed rfl)
        · exact .here rfl
      · split
        · exact .one rfl (fun _ => rfl) fun _ => rfl
        · exact .here rfl
      · split
        · exact .one rfl (fun _ => rfl) fun _ => rfl
        · exact .here rfl
      · split
        · exact .one rfl (fun _ => rfl) fun _ => rfl
        · exact .here rfl
      · split
        · exact .two rfl (fun _ _ => rfl) fun _ _ => rfl
        · exact .here rfl
      · split
        · exact .two rfl (fun _ _ => rfl) fun _ _ => rfl
        · exact .here rfl
      · split
        · exact .three rfl (fun _ _ _ => rfl) fun _ _ _ => rfl
        · exact .here rfl
      · split
        · exact .three rfl (fun _ _ _ => rfl) fun _ _ _ => rfl
        · exact .here rfl
      · split
        · rename_i first second rest
          refine .operand (.tail _ (.head _)) fun _ parsed => ?_
          exact .row (fun _ among => .tail _ (.tail _ among)) fun _ others =>
            .ok rfl (List.sublist_cons_self head _) (ofSexps_cons parsed others)
        · exact .here rfl
      · exact .here rfl
    · exact .row (fun _ among => among) fun _ parsed => .ok rfl (.refl _) parsed

/-- **What is no expression is reported inside it.** -/
theorem ofSexp_pointsInto (item : Sexp) :
    FailsOnly (Form.Error.PointsInto [item]) (Expr.ofSexp item) := by
  induction item using Sexp.items_induction with
  | step item each =>
    intro error failed
    have shaped := ofSexp_shaped item
    rw [failed] at shaped
    cases shaped with
    | here same => exact .here same.symm
    | inside among refused =>
      rcases refused with refused | refused | refused
      · exact (each _ among error refused).operand among
      · exact (TypeExpr.ofSexp_pointsInto _ error refused).operand among
      · exact (Binder.ofSexp_pointsInto _ error refused).operand among

/-- **What parsing gives at every level holds everywhere.** -/
theorem everywhere_of_ofSexp {property : Expr → Prop} {item : Sexp} {expr : Expr}
    (parsed : Expr.ofSexp item = .ok expr)
    (gives : ∀ origin, Sexp.Occurs origin [item] → EndsOnly property (Expr.ofSexp origin)) :
    expr.Everywhere property := by
  induction item using Sexp.items_induction generalizing expr with
  | step item each =>
    have own := gives item (.here (List.mem_singleton_self item)) expr parsed
    have shaped := ofSexp_shaped item
    rw [parsed] at shaped
    cases shaped with
    | @ok expr origins _ inOrder parsedParts =>
      refine everywhere_iff.mpr ⟨own, fun part among => ?_⟩
      rw [ofSexps_eq_mapM] at parsedParts
      obtain ⟨origin, originAmong, parsedPart⟩ := exists_of_mem_mapM parsedParts among
      have itemAmong := inOrder.mem originAmong
      refine each origin itemAmong parsedPart fun deeper occurs => gives deeper ?_
      exact .inside (List.mem_singleton_self item) (occurs.mono itemAmong)

/-! ### Where expressions stand -/

/-- An expression stands where it was parsed from. -/
theorem span_of_ofSexp {item : Sexp} {expr : Expr} (parsed : Expr.ofSexp item = .ok expr) :
    expr.span = item.span := by
  have shaped := ofSexp_shaped item
  rw [parsed] at shaped
  cases shaped with
  | ok same _ _ => exact same

theorem spans_of_ofSexps {items : List Sexp} {exprs : List Expr}
    (parsed : Expr.ofSexps items = .ok exprs) : exprs.map Expr.span = items.map Sexp.span := by
  rw [ofSexps_eq_mapM] at parsed
  induction items generalizing exprs with
  | nil =>
    cases parsed
    rfl
  | cons item items ih =>
    obtain ⟨expr, rest, rfl, first, others⟩ := mapM_cons_eq_ok.mp parsed
    rw [List.map_cons, List.map_cons, span_of_ofSexp first, ih others]

/-- **An expression is laid out as it was written.** -/
theorem laid_of_ofSexp {low high : Int} {item : Sexp} {expr : Expr}
    (ordered : Span.InOrder low high (item.tokens.map Token.span))
    (parsed : Expr.ofSexp item = .ok expr) : expr.Laid := by
  induction item using Sexp.items_induction generalizing expr with
  | step item each =>
    have shaped := ofSexp_shaped item
    rw [parsed] at shaped
    cases shaped with
    | @ok expr origins same inOrder parsedParts =>
      have reach := Sexp.reach_of_inOrder ordered
      have items := Sexp.inOrder_items ordered
      refine .mk ?_ ?_ fun part among => ?_
      · rw [same]
        exact reach.2.1
      · rw [same, spans_of_ofSexps parsedParts]
        exact items.sublist (inOrder.map Sexp.span)
      · rw [ofSexps_eq_mapM] at parsedParts
        obtain ⟨origin, originAmong, parsedPart⟩ := exists_of_mem_mapM parsedParts among
        have itemAmong := inOrder.mem originAmong
        have occurs : Sexp.Occurs origin [item] :=
          .inside (List.mem_singleton_self item) (.here itemAmong)
        rw [← Sexp.tokensAll_singleton] at ordered
        exact each origin itemAmong (occurs.inOrder ordered) parsedPart

end Expr

/-! ### Declarations -/

namespace Decl

/-- The expressions of a declaration. -/
def bodies : Decl → List Expr
  | claim _ _ _ => []
  | define _ _ body => [body]
  | eval _ body => [body]

/-- **What parsing a declaration does**: it stands where it was parsed from, and so does its body,
or an error points into it. -/
inductive Shaped (item : Sexp) : Except Form.Error Decl → Prop where
  | ok {decl : Decl} : decl.span = item.span →
      (∀ body ∈ decl.bodies, ∃ origin, Sexp.Occurs origin [item] ∧ Expr.ofSexp origin = .ok body) →
      Shaped item (.ok decl)
  | error {error : Form.Error} : error.PointsInto [item] → Shaped item (.error error)

namespace Shaped

variable {item : Sexp}

theorem bind {α : Type} {run : Except Form.Error α} {rest : α → Except Form.Error Decl}
    (only : FailsOnly (Form.Error.PointsInto [item]) run)
    (after : ∀ value, run = .ok value → Shaped item (rest value)) : Shaped item (run >>= rest) := by
  cases run with
  | ok value => exact after value rfl
  | error error => exact .error (only error rfl)

theorem operand {α : Type} {part : Sexp} {run : Except Form.Error α}
    {rest : α → Except Form.Error Decl} (only : FailsOnly (Form.Error.PointsInto [part]) run)
    (among : part ∈ item.items) (after : ∀ value, run = .ok value → Shaped item (rest value)) :
    Shaped item (run >>= rest) :=
  .bind (only.mono fun _ points => points.operand among) after

/-- A bare expression is its own body. -/
theorem bare (item : Sexp) : Shaped item (do return .eval item.span (← Expr.ofSexp item)) := by
  refine .bind (Expr.ofSexp_pointsInto item) fun body parsed => .ok rfl ?_
  exact List.forall_mem_singleton.mpr ⟨item, .here (List.mem_singleton_self item), parsed⟩

end Shaped

/-- **Declarations are parsed where they stand.** -/
theorem ofSexp_shaped (item : Sexp) : Shaped item (Decl.ofSexp item) := by
  unfold Decl.ofSexp
  split
  · rename_i span head operands
    split
    · rename_i name ty _
      refine .operand (name.toName_pointsInto .name) (.tail _ (.head _)) fun _ _ => ?_
      refine .operand (TypeExpr.ofSexp_pointsInto ty) (.tail _ (.tail _ (.head _))) fun _ _ => ?_
      exact .ok rfl (List.forall_mem_nil _)
    · exact .error (.here rfl)
    · rename_i name body _
      have among : body ∈ [head, name, body] := .tail _ (.tail _ (.head _))
      refine .operand (name.toName_pointsInto .name) (.tail _ (.head _)) fun _ _ => ?_
      refine .operand (Expr.ofSexp_pointsInto body) among fun _ parsed => .ok rfl ?_
      exact List.forall_mem_singleton.mpr
        ⟨body, .inside (List.mem_singleton_self _) (.here among), parsed⟩
    · exact .error (.here rfl)
    · exact .bare _
  · exact .bare item

/-- **What is no declaration is reported inside it.** -/
theorem ofSexp_pointsInto (item : Sexp) :
    FailsOnly (Form.Error.PointsInto [item]) (Decl.ofSexp item) := by
  intro error failed
  have shaped := ofSexp_shaped item
  rw [failed] at shaped
  cases shaped with
  | error points => exact points

/-- **A declaration stands where it was parsed from**, and its body is laid out inside it. -/
theorem laid_of_ofSexp {low high : Int} {item : Sexp} {decl : Decl}
    (ordered : Span.InOrder low high (item.tokens.map Token.span))
    (parsed : Decl.ofSexp item = .ok decl) :
    decl.span.Inside low high ∧
      ∀ body ∈ decl.bodies, body.Laid ∧ body.span.Inside low high := by
  have shaped := ofSexp_shaped item
  rw [parsed] at shaped
  cases shaped with
  | ok same origins =>
    refine ⟨same ▸ Sexp.reach_of_inOrder ordered, fun body among => ?_⟩
    obtain ⟨origin, occurs, parsedBody⟩ := origins body among
    rw [← Sexp.tokensAll_singleton] at ordered
    have own := occurs.inOrder ordered
    refine ⟨Expr.laid_of_ofSexp own parsedBody, ?_⟩
    rw [Expr.span_of_ofSexp parsedBody]
    exact Sexp.reach_of_inOrder own

end Decl

end EtaLong
