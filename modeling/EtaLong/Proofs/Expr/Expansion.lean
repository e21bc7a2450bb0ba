/-
**Expanded expressions keep their places.**

A written expression has its parameters and its types inside it, and so has every node of it.
Expanding shorthand makes pairs and cells, which have neither, and leaves the other nodes with the
parameters and types they had. So in the expansion of an expression that was parsed from a source
every node still has all that it is made of inside it; and the expansion is the expression itself
exactly if there was no shorthand.

* `Expr.plain_iff`, `Expr.expand_eq_self_iff`: shorthand at any depth;
* `Node`, `Node.Nested`: expressions with their parameters and types;
* `Expr.Labelled`: parameters and types in place, as parsing puts them and expanding leaves them;
* `Expr.WrittenIn`: the expressions of a source;
* `expansion_is_plain_and_nested`: what expanding them gives.
-/

import EtaLong.Proofs.Expr.Parser
import EtaLong.Proofs.Expr.Shorthand

namespace EtaLong

namespace Expr

/-! ### Shorthand at any depth -/

/-- The parts of a plain expression are plain. -/
theorem Plain.parts {expr : Expr} (plain : expr.Plain) : ∀ part ∈ expr.parts, part.Plain := by
  cases plain with
  | app fn args => exact List.forall_mem_cons.mpr ⟨fn, plainAll_iff.mp args⟩
  | lam body | add1 body | car body | cdr body | the body =>
    exact List.forall_mem_singleton.mpr body
  | pair fst snd | cons fst snd =>
    exact List.forall_mem_cons.mpr ⟨fst, List.forall_mem_singleton.mpr snd⟩
  | recNat target base step | recList target base step =>
    exact List.forall_mem_cons.mpr
      ⟨target, List.forall_mem_cons.mpr ⟨base, List.forall_mem_singleton.mpr step⟩⟩
  | _ => exact List.forall_mem_nil _

theorem Plain.not_isShorthand {expr : Expr} (plain : expr.Plain) : ¬ expr.IsShorthand := by
  cases plain <;> exact id

/-- **Plain expressions** are those in which no shorthand occurs. -/
theorem plain_iff {expr : Expr} : expr.Plain ↔ expr.Everywhere fun node => ¬ node.IsShorthand := by
  induction expr using parts_induction with
  | step expr ih =>
    rw [everywhere_iff]
    constructor
    · intro plain
      exact ⟨plain.not_isShorthand, fun part among => (ih part among).mp (plain.parts part among)⟩
    · rintro ⟨own, below⟩
      have plain : ∀ part ∈ expr.parts, part.Plain :=
        fun part among => (ih part among).mpr (below part among)
      cases expr with
      | tuple span first rest => exact absurd trivial own
      | listLiteral span items => exact absurd trivial own
      | app span fn args =>
        obtain ⟨first, others⟩ := List.forall_mem_cons.mp plain
        exact .app first (plainAll_iff.mpr others)
      | _ => constructor <;> exact plain _ (by simp [Expr.parts])

/-- **Expanding changes what has shorthand, and only that.** -/
theorem expand_eq_self_iff {expr : Expr} :
    expr.expand = expr ↔ expr.Everywhere fun node => ¬ node.IsShorthand := by
  rw [← plain_iff]
  constructor
  · intro same
    rw [← same]
    exact expr.expand_plain
  · exact Plain.expand

end Expr

/-! ### Parameters and types -/

/-- The types that a type is made of. -/
def TypeExpr.parts : TypeExpr → List TypeExpr
  | nat _ | atom _ => []
  | arrow _ args result => args ++ [result]
  | pair _ fst snd => [fst, snd]
  | list _ elem => [elem]

/-- **What stands in a source**: an expression, a parameter or a type. -/
inductive Node where
  | expr (expr : Expr)
  | binder (binder : Binder)
  | type (ty : TypeExpr)

/-- The parameters of a function, or the type that is written with an expression. -/
def Expr.labels : Expr → List Node
  | lam _ binders _ => binders.map .binder
  | the _ ty _ => [.type ty]
  | _ => []

namespace Node

/-- Where a node was written. -/
def span : Node → Span
  | expr written => written.span
  | binder param => param.span
  | type ty => ty.span

/-- All that a node is made of. -/
def children : Node → List Node
  | expr written => written.labels ++ written.parts.map .expr
  | binder _ => []
  | type ty => ty.parts.map .type

/-- **A node occurs in a node**: it is that node, or occurs in one of its children. -/
inductive Occurs (node : Node) : Node → Prop where
  | here : Occurs node node
  | inside {child outer : Node} : child ∈ outer.children → Occurs node child → Occurs node outer

/-- A node stands inside another. -/
def Within (node outer : Node) : Prop :=
  node.span.Inside outer.span.start outer.span.stop

/-- **Nested spans**: every node that occurs has its children inside it. -/
def Nested (root : Node) : Prop :=
  ∀ node, Occurs node root → ∀ child ∈ node.children, child.Within node

theorem nested_of_children {root : Node}
    (each : ∀ child ∈ root.children, child.Within root ∧ child.Nested) : root.Nested := by
  intro node occurs
  cases occurs with
  | here => exact fun child among => (each child among).1
  | inside among inner => exact (each _ among).2 node inner

end Node

/-- What occurs in an expression stands inside it. -/
theorem Sexp.Occurs.inside_item {low high : Int} {item part : Sexp}
    (occurs : Sexp.Occurs part item.items)
    (ordered : Span.InOrder low high (item.tokens.map Token.span)) :
    part.span.Inside item.span.start item.span.stop := by
  have reach := Sexp.reach_of_inOrder (occurs.inOrder (Sexp.inOrder_tokens_items ordered))
  exact reach.mono (by omega) (by omega)

/-- A row that is split at its last item. -/
theorem splitLast_append_eq {α : Type} (first : α) (rest : List α) :
    (splitLast first rest).1 ++ [(splitLast first rest).2] = first :: rest := by
  induction rest generalizing first with
  | nil => rfl
  | cons second rest ih => rw [splitLast, List.cons_append, ih]

namespace TypeExpr

/-- A type stands where an expression does, and its parts are what items of that one denote. -/
def ShapedAs (item : Sexp) (ty : TypeExpr) : Prop :=
  ty.span = item.span ∧
    ∀ part ∈ ty.parts, ∃ origin ∈ item.items, TypeExpr.ofSexp origin = .ok part

/-- **Types are parsed one level at a time.** -/
theorem ofSexp_shapedAs (item : Sexp) : EndsOnly (ShapedAs item) (TypeExpr.ofSexp item) := by
  unfold TypeExpr.ofSexp
  cases item with
  | symbol span name =>
    dsimp only
    split
    · exact .ok ⟨rfl, List.forall_mem_nil _⟩
    · exact .ok ⟨rfl, List.forall_mem_nil _⟩
    · exact .error _
  | number span value => exact .error _
  | quoted span name => exact .error _
  | group bracket span items =>
    rcases bracket with _ | _
    · rcases items with _ | ⟨head, operands⟩
      · exact .error _
      dsimp only
      split
      · split
        · rename_i first second rest
          refine .bind (fun _ made => made) fun firstTy madeFirst => ?_
          refine .bind (fun _ made => made) fun restTys madeRest => .ok ⟨rfl, ?_⟩
          rw [TypeExpr.ofSexps_eq_mapM] at madeRest
          rw [TypeExpr.parts, splitLast_append_eq]
          refine List.forall_mem_cons.mpr ⟨⟨first, .tail _ (.head _), madeFirst⟩, ?_⟩
          intro part among
          obtain ⟨origin, originAmong, made⟩ := exists_of_mem_mapM madeRest among
          exact ⟨origin, .tail _ (.tail _ originAmong), made⟩
        · exact .error _
      · split
        · rename_i fst snd
          refine .bind (fun _ made => made) fun fstTy madeFst => ?_
          refine .bind (fun _ made => made) fun sndTy madeSnd => .ok ⟨rfl, ?_⟩
          exact List.forall_mem_cons.mpr ⟨⟨fst, .tail _ (.head _), madeFst⟩,
            List.forall_mem_singleton.mpr ⟨snd, .tail _ (.tail _ (.head _)), madeSnd⟩⟩
        · exact .error _
      · split
        · rename_i elem
          refine .bind (fun _ made => made) fun elemTy madeElem => .ok ⟨rfl, ?_⟩
          exact List.forall_mem_singleton.mpr ⟨elem, .tail _ (.head _), madeElem⟩
        · exact .error _
      · exact .error _
    · exact .error _

/-- **A parsed type is nested.** -/
theorem nested_of_ofSexp {low high : Int} {item : Sexp} {ty : TypeExpr}
    (ordered : Span.InOrder low high (item.tokens.map Token.span))
    (parsed : TypeExpr.ofSexp item = .ok ty) : (Node.type ty).Nested := by
  induction item using Sexp.items_induction generalizing low high ty with
  | step item each =>
    obtain ⟨same, origins⟩ := ofSexp_shapedAs item ty parsed
    refine Node.nested_of_children (List.forall_mem_map.mpr fun part among => ?_)
    obtain ⟨origin, originAmong, made⟩ := origins part among
    have occurs : Sexp.Occurs origin item.items := .here originAmong
    have inside := occurs.inside_item ordered
    rw [← (ofSexp_shapedAs origin part made).1, ← same] at inside
    exact ⟨inside, each origin originAmong (occurs.inOrder (Sexp.inOrder_tokens_items ordered)) made⟩

end TypeExpr

/-- A parameter stands where its name was written. -/
theorem Binder.exists_origin {params : Sexp} {binders : List Binder} {binder : Binder}
    (parsed : Binder.ofSexp params = .ok binders) (among : binder ∈ binders) :
    ∃ origin ∈ params.items, binder.span = origin.span := by
  unfold Binder.ofSexp at parsed
  split at parsed
  · obtain ⟨origin, originAmong, made⟩ := exists_of_mem_mapM parsed among
    obtain ⟨name, _, built⟩ := bind_eq_ok.mp made
    cases built
    exact ⟨origin, originAmong, rfl⟩
  · cases parsed

namespace Expr

/-- **Parameters and types in place**: those of an expression stand inside it and are nested. -/
def Labelled (expr : Expr) : Prop :=
  ∀ label ∈ expr.labels, label.Within (.expr expr) ∧ label.Nested

/-- Parsing puts parameters and types in their place. -/
theorem ofSexp_labelled {low high : Int} {item : Sexp}
    (ordered : Span.InOrder low high (item.tokens.map Token.span)) :
    EndsOnly Labelled (Expr.ofSexp item) := by
  unfold Expr.ofSexp
  cases item with
  | symbol span name =>
    dsimp only
    split
    · exact .ok (List.forall_mem_nil _)
    · exact .ok (List.forall_mem_nil _)
    · exact .ok (List.forall_mem_nil _)
    · exact .error _
  | number span value => exact .ok (List.forall_mem_nil _)
  | quoted span name => exact .ok (List.forall_mem_nil _)
  | group bracket span items =>
    rcases bracket with _ | _
    · rcases items with _ | ⟨head, operands⟩
      · exact .error _
      dsimp only
      cases head.keyword? with
      | none =>
        dsimp only
        split
        · exact .error _
        · exact .after fun _ => .after fun _ => .ok (List.forall_mem_nil _)
      | some keyword =>
        cases keyword with
        | lambda =>
          dsimp only
          split
          · rename_i params body
            refine .bind (fun _ made => made) fun binders made => .after fun _ => .ok ?_
            refine List.forall_mem_map.mpr fun binder among => ?_
            obtain ⟨origin, originAmong, same⟩ := Binder.exists_origin made among
            have occurs : Sexp.Occurs origin [head, params, body] :=
              .inside (.tail _ (.head _)) (.here originAmong)
            have inside := occurs.inside_item ordered
            rw [← same] at inside
            exact ⟨inside, Node.nested_of_children (List.forall_mem_nil _)⟩
          · exact .error _
        | the =>
          dsimp only
          split
          · rename_i written body
            refine .bind (fun _ made => made) fun ty made => .after fun _ => .ok ?_
            have occurs : Sexp.Occurs written [head, written, body] := .here (.tail _ (.head _))
            have inside := occurs.inside_item ordered
            rw [← (TypeExpr.ofSexp_shapedAs written ty made).1] at inside
            have own := occurs.inOrder (Sexp.inOrder_tokens_items ordered)
            exact List.forall_mem_singleton.mpr ⟨inside, TypeExpr.nested_of_ofSexp own made⟩
          · exact .error _
        | _ =>
          -- No other form has parameters or a type.
          dsimp only
          repeat' first
            | exact .error _
            | exact .ok (List.forall_mem_nil _)
            | refine .after fun _ => ?_
            | split
    · exact .after fun _ => .ok (List.forall_mem_nil _)

/-- **Expanding leaves parameters and types in their place.** -/
theorem everywhere_labelled_expand {expr : Expr} (all : expr.Everywhere Labelled) :
    expr.expand.Everywhere Labelled := by
  refine all.expand (fun _ _ _ => List.forall_mem_nil _) (fun _ _ _ => List.forall_mem_nil _)
    (fun _ => List.forall_mem_nil _) fun node plain own => ?_
  cases node with
  | tuple => exact absurd trivial plain
  | listLiteral => exact absurd trivial plain
  | _ => exact own

/-- Nested expressions with their parameters and types in place. -/
theorem Nested.node {expr : Expr} (nested : expr.Nested) (all : expr.Everywhere Labelled) :
    (Node.expr expr).Nested := by
  induction nested with
  | @mk expr nonempty inside _ ih =>
    obtain ⟨own, below⟩ := everywhere_iff.mp all
    refine Node.nested_of_children fun child among => ?_
    rcases List.mem_append.mp among with label | part
    · exact own child label
    · obtain ⟨written, writtenAmong, rfl⟩ := List.mem_map.mp part
      exact ⟨inside written writtenAmong, ih written writtenAmong (below written writtenAmong)⟩

/-! ### The expressions of a source -/

/-- **An expression of a source**: the whole of it, or the body of one of its declarations. -/
inductive WrittenIn (source : String) (expr : Expr) : Prop where
  | whole : Expr.parse source = .ok expr → WrittenIn source expr
  | body {decls : List Decl} {decl : Decl} : Decl.parseAll source = .ok decls → decl ∈ decls →
      expr ∈ decl.bodies → WrittenIn source expr

/-- A source that is a single expression is a program that evaluates it. -/
theorem parse_eq_ok {source : String} {expr : Expr} (parsed : Expr.parse source = .ok expr) :
    ∃ span, Decl.parseAll source = .ok [.eval span expr] := by
  unfold Expr.parse at parsed
  obtain ⟨decls, all, single⟩ := bind_eq_ok.mp parsed
  split at single
  · cases single
    exact ⟨_, all⟩
  · cases single

/-- An expression of a source was parsed from what was read there. -/
theorem WrittenIn.exists_origin {source : String} {expr : Expr} (written : expr.WrittenIn source) :
    ∃ row origin, Sexp.readAll source = .ok row ∧ Sexp.Occurs origin row ∧
      Expr.ofSexp origin = .ok expr := by
  have inDecl : ∃ decls decl, Decl.parseAll source = .ok decls ∧ decl ∈ decls ∧
      expr ∈ decl.bodies := by
    cases written with
    | whole parsed =>
      obtain ⟨span, all⟩ := parse_eq_ok parsed
      exact ⟨_, _, all, List.mem_singleton_self _, List.mem_singleton_self _⟩
    | body all among inBodies => exact ⟨_, _, all, among, inBodies⟩
  obtain ⟨decls, decl, all, among, inBodies⟩ := inDecl
  obtain ⟨row, read, made⟩ := bind_eq_ok.mp all
  obtain ⟨item, itemAmong, madeDecl⟩ := exists_of_mem_mapM (mapError_eq_ok.mp made) among
  have shaped := Decl.ofSexp_shaped item
  rw [madeDecl] at shaped
  cases shaped with
  | ok _ origins =>
    obtain ⟨origin, occurs, parsed⟩ := origins expr inBodies
    exact ⟨row, origin, mapError_eq_ok.mp read, occurs.mono itemAmong, parsed⟩

end Expr

/-- **Expanding shorthand**, in an expression that was parsed from a source. No shorthand is left at
any depth, so a second time changes nothing, and the first time does only if there was some. The
result stands inside what was written, and every node of it has its children inside it. -/
theorem expansion_is_plain_and_nested {source : String} {expr : Expr}
    (written : expr.WrittenIn source) :
    (expr.expand.Everywhere fun node => ¬ node.IsShorthand) ∧
    expr.expand.expand = expr.expand ∧
    (expr.expand = expr ↔ expr.Everywhere fun node => ¬ node.IsShorthand) ∧
    expr.expand.span.Inside expr.span.start expr.span.stop ∧
    (Node.expr expr.expand).Nested := by
  obtain ⟨row, origin, read, occurs, parsed⟩ := written.exists_origin
  have ordered := occurs.inOrder (Sexp.inOrder_of_readAll read)
  obtain ⟨nested, inside⟩ := (Expr.laid_of_ofSexp ordered parsed).expand
  have labelled : expr.Everywhere Expr.Labelled :=
    Expr.everywhere_of_ofSexp parsed fun deeper inner =>
      Expr.ofSexp_labelled (inner.inOrder (by rwa [Sexp.tokensAll_singleton]))
  exact ⟨Expr.plain_iff.mp expr.expand_plain, expr.expand_plain.expand, Expr.expand_eq_self_iff,
    inside, nested.node (Expr.everywhere_labelled_expand labelled)⟩

/-- A tuple whose first component is a tuple with a bracketed list, beside a parameter and a type. -/
theorem expansion_is_plain_and_nested_at_tuple_in_tuple :
    ∃ expr : Expr, expr.WrittenIn "(lambda (x) (, (, x [x]) (the Nat x)))" ∧
      expr.expand = .lam ⟨0, 38⟩ [⟨"x", ⟨9, 10⟩⟩]
        (.pair ⟨18, 37⟩
          (.pair ⟨18, 24⟩ (.var ⟨18, 19⟩ "x")
            (.cons ⟨21, 23⟩ (.var ⟨21, 22⟩ "x") (.nil ⟨22, 23⟩)))
          (.the ⟨25, 36⟩ (.nat ⟨30, 33⟩) (.var ⟨34, 35⟩ "x"))) ∧
      expr.expand ≠ expr ∧ (expr.expand.Everywhere fun node => ¬ node.IsShorthand) ∧
      ¬ (expr.Everywhere fun node => ¬ node.IsShorthand) ∧ (Node.expr expr.expand).Nested := by
  let inner : Expr :=
    .tuple ⟨15, 24⟩ (.var ⟨18, 19⟩ "x") [.listLiteral ⟨20, 23⟩ [.var ⟨21, 22⟩ "x"]]
  let outer : Expr :=
    .tuple ⟨12, 37⟩ inner [.the ⟨25, 36⟩ (.nat ⟨30, 33⟩) (.var ⟨34, 35⟩ "x")]
  have read : Sexp.readAll "(lambda (x) (, (, x [x]) (the Nat x)))" =
      .ok [.group .round ⟨0, 38⟩ [.symbol ⟨1, 7⟩ "lambda",
        .group .round ⟨8, 11⟩ [.symbol ⟨9, 10⟩ "x"],
        .group .round ⟨12, 37⟩ [.symbol ⟨13, 14⟩ ",",
          .group .round ⟨15, 24⟩ [.symbol ⟨16, 17⟩ ",", .symbol ⟨18, 19⟩ "x",
            .group .square ⟨20, 23⟩ [.symbol ⟨21, 22⟩ "x"]],
          .group .round ⟨25, 36⟩ [.symbol ⟨26, 29⟩ "the", .symbol ⟨30, 33⟩ "Nat",
            .symbol ⟨34, 35⟩ "x"]]]] := by
    rw [Sexp.readAll_eq_ok_iff]
    decide +kernel
  have parsed : Expr.parse "(lambda (x) (, (, x [x]) (the Nat x)))" =
      .ok (.lam ⟨0, 38⟩ [⟨"x", ⟨9, 10⟩⟩] outer) := by
    unfold Expr.parse Decl.parseAll
    rw [read]
    rfl
  have written := Expr.WrittenIn.whole parsed
  obtain ⟨plain, _, same, _, nested⟩ := expansion_is_plain_and_nested written
  have shorthand : ¬ (Expr.lam ⟨0, 38⟩ [⟨"x", ⟨9, 10⟩⟩] outer).Everywhere
      fun node => ¬ node.IsShorthand :=
    fun all => all outer (.inside (List.mem_singleton_self _) .here) trivial
  exact ⟨_, written, rfl, mt same.mp shorthand, plain, shorthand, nested⟩

end EtaLong
