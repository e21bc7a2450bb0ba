/-
**Expressions inside expressions.**

What holds of an expression whenever it holds of its parts holds of all expressions. An expression
as it is written has its parts strictly inside its span, one after another. When its shorthand is
expanded, the new nodes reach from a component to the end of the shorthand, so every node still
stands inside the node it is a part of.

* `Expr.parts`, `Expr.Occurs`: the parts of an expression, and theirs;
* `Expr.parts_induction`: induction on the parts;
* `Expr.Everywhere`, `Expr.Everywhere.expand`: what holds of all nodes, and is kept by expanding;
* `Expr.Laid`: spans as they are written;
* `Expr.Nested`: every node inside the one it is a part of;
* `Expr.Laid.expand`: expanding shorthand keeps nodes nested.
-/

import EtaLong.Expr.Shorthand
import EtaLong.Proofs.Token

namespace EtaLong

namespace Expr

/-- The expressions that an expression is made of. -/
def parts : Expr → List Expr
  | lam _ _ body => [body]
  | app _ fn args => fn :: args
  | add1 _ pred => [pred]
  | recNat _ target base step => [target, base, step]
  | pair _ fst snd => [fst, snd]
  | car _ operand => [operand]
  | cdr _ operand => [operand]
  | cons _ head tail => [head, tail]
  | recList _ target base step => [target, base, step]
  | the _ _ body => [body]
  | tuple _ first rest => first :: rest
  | listLiteral _ items => items
  | var _ _ | atom _ _ | zero _ | number _ _ | nil _ => []

/-- **A node occurs in an expression**: it is the expression, or occurs in one of its parts. -/
inductive Occurs (node : Expr) : Expr → Prop where
  | here : Occurs node node
  | inside {part expr : Expr} : part ∈ expr.parts → Occurs node part → Occurs node expr

theorem sizeOf_part_lt {part expr : Expr} (among : part ∈ expr.parts) :
    sizeOf part < sizeOf expr := by
  cases expr with
  | app _ fn args =>
    rcases List.mem_cons.mp among with rfl | later
    · simp only [app.sizeOf_spec]
      omega
    · have smaller := List.sizeOf_lt_of_mem later
      simp only [app.sizeOf_spec]
      omega
  | tuple _ first rest =>
    rcases List.mem_cons.mp among with rfl | later
    · simp only [tuple.sizeOf_spec]
      omega
    · have smaller := List.sizeOf_lt_of_mem later
      simp only [tuple.sizeOf_spec]
      omega
  | listLiteral _ items =>
    have smaller := List.sizeOf_lt_of_mem (show part ∈ items from among)
    simp only [listLiteral.sizeOf_spec]
    omega
  | var _ _ | atom _ _ | zero _ | number _ _ | nil _ => cases among
  | lam _ _ body | add1 _ body | car _ body | cdr _ body | the _ _ body =>
    rw [List.mem_singleton.mp among]
    simp only [lam.sizeOf_spec, add1.sizeOf_spec, car.sizeOf_spec, cdr.sizeOf_spec,
      the.sizeOf_spec]
    omega
  | pair _ fst snd | cons _ fst snd =>
    simp only [parts, List.mem_cons, List.not_mem_nil, or_false] at among
    rcases among with rfl | rfl <;> simp only [pair.sizeOf_spec, cons.sizeOf_spec] <;> omega
  | recNat _ target base step | recList _ target base step =>
    simp only [parts, List.mem_cons, List.not_mem_nil, or_false] at among
    rcases among with rfl | rfl | rfl <;>
      simp only [recNat.sizeOf_spec, recList.sizeOf_spec] <;> omega

/-- **Induction on the parts.** -/
theorem parts_induction {motive : Expr → Prop}
    (step : ∀ expr, (∀ part ∈ expr.parts, motive part) → motive expr) (expr : Expr) :
    motive expr :=
  step expr fun part among =>
    have := sizeOf_part_lt among
    parts_induction step part
termination_by sizeOf expr

/-- **A property of all nodes** of an expression. -/
def Everywhere (property : Expr → Prop) (expr : Expr) : Prop :=
  ∀ node, Occurs node expr → property node

theorem everywhere_iff {property : Expr → Prop} {expr : Expr} :
    expr.Everywhere property ↔ property expr ∧ ∀ part ∈ expr.parts, part.Everywhere property := by
  constructor
  · intro all
    exact ⟨all expr .here, fun part among node occurs => all node (.inside among occurs)⟩
  · rintro ⟨own, below⟩ node occurs
    cases occurs with
    | here => exact own
    | inside among inner => exact below _ among node inner

/-! ### Spans -/

/-- **Spans as they are written**: the parts stand strictly inside, one after another. -/
inductive Laid : Expr → Prop where
  | mk {expr : Expr} : expr.span.start < expr.span.stop →
      Span.InOrder (expr.span.start + 1) (expr.span.stop - 1) (expr.parts.map Expr.span) →
      (∀ part ∈ expr.parts, Laid part) → Laid expr

/-- **Nested spans**: every node stands inside the node it is a part of. -/
inductive Nested : Expr → Prop where
  | mk {expr : Expr} : expr.span.start < expr.span.stop →
      (∀ part ∈ expr.parts, part.span.Inside expr.span.start expr.span.stop) →
      (∀ part ∈ expr.parts, Nested part) → Nested expr

/-- Whatever occurs in a nested expression stands inside it. -/
theorem Nested.inside {expr node : Expr} (nested : expr.Nested) (occurs : Occurs node expr) :
    node.span.Inside expr.span.start expr.span.stop := by
  induction occurs with
  | here =>
    obtain ⟨nonempty, _, _⟩ := nested
    exact ⟨Int.le_refl _, nonempty, Int.le_refl _⟩
  | inside among _ ih =>
    obtain ⟨_, inside, parts⟩ := nested
    obtain ⟨starts, _, stops⟩ := inside _ among
    exact (ih (parts _ among)).mono starts stops

/-! ### Shorthand -/

theorem expandAll_eq_map (exprs : List Expr) : expandAll exprs = exprs.map expand := by
  induction exprs with
  | nil => rfl
  | cons expr exprs ih => rw [expandAll, ih, List.map_cons]

/-- What is no shorthand keeps its span, and its parts are expanded. -/
theorem expand_cases (expr : Expr) :
    (expr.expand.span = expr.span ∧ expr.expand.parts = expr.parts.map expand) ∨
      (∃ span first rest, expr = tuple span first rest) ∨
      ∃ span items, expr = listLiteral span items := by
  cases expr with
  | tuple span first rest => exact .inr (.inl ⟨span, first, rest, rfl⟩)
  | listLiteral span items => exact .inr (.inr ⟨span, items, rfl⟩)
  | app span fn args =>
    refine .inl ⟨rfl, ?_⟩
    rw [expand, parts, parts, List.map_cons, expandAll_eq_map]
  | _ => exact .inl ⟨rfl, rfl⟩

/-- A tuple or a bracketed list. -/
def IsShorthand : Expr → Prop
  | tuple _ _ _ | listLiteral _ _ => True
  | _ => False

section Everywhere

variable {property : Expr → Prop}

theorem nestPairs_everywhere (pairs : ∀ span fst snd, property (.pair span fst snd)) (stop : Int)
    {first : Expr} {rest : List Expr} (all : ∀ item ∈ first :: rest, item.Everywhere property) :
    (nestPairs stop first rest).Everywhere property := by
  induction rest generalizing first with
  | nil => exact all first List.mem_cons_self
  | cons second rest ih =>
    obtain ⟨inFirst, inRest⟩ := List.forall_mem_cons.mp all
    rw [nestPairs]
    exact everywhere_iff.mpr ⟨pairs _ _ _,
      List.forall_mem_cons.mpr ⟨inFirst, List.forall_mem_singleton.mpr (ih inRest)⟩⟩

theorem expandCells_everywhere (cells : ∀ span head tail, property (.cons span head tail))
    (ends : ∀ span, property (.nil span)) (stop : Int) {items : List Expr}
    (all : ∀ item ∈ items.map expand, item.Everywhere property) :
    (expandCells stop items).Everywhere property := by
  induction items with
  | nil =>
    rw [expandCells]
    exact everywhere_iff.mpr ⟨ends _, List.forall_mem_nil _⟩
  | cons item items ih =>
    obtain ⟨inFirst, inRest⟩ := List.forall_mem_cons.mp all
    rw [expandCells]
    exact everywhere_iff.mpr ⟨cells _ _ _,
      List.forall_mem_cons.mpr ⟨inFirst, List.forall_mem_singleton.mpr (ih inRest)⟩⟩

/-- **What expanding keeps everywhere**: a property of all pairs, cells and empty lists that no other
node loses when its parts are expanded. -/
theorem Everywhere.expand (pairs : ∀ span fst snd, property (.pair span fst snd))
    (cells : ∀ span head tail, property (.cons span head tail))
    (ends : ∀ span, property (.nil span))
    (kept : ∀ node : Expr, ¬ node.IsShorthand → property node → property node.expand) {expr : Expr}
    (all : expr.Everywhere property) : expr.expand.Everywhere property := by
  induction expr using parts_induction with
  | step expr ih =>
    obtain ⟨own, below⟩ := everywhere_iff.mp all
    have expanded : ∀ part ∈ expr.parts.map Expr.expand, part.Everywhere property :=
      List.forall_mem_map.mpr fun part among => ih part among (below part among)
    cases expr with
    | tuple span first rest =>
      rw [Expr.expand, expandAll_eq_map]
      exact nestPairs_everywhere pairs span.stop expanded
    | listLiteral span items =>
      rw [Expr.expand]
      exact expandCells_everywhere cells ends span.stop expanded
    | app span fn args =>
      refine everywhere_iff.mpr ⟨kept _ id own, ?_⟩
      rw [Expr.expand, expandAll_eq_map]
      exact expanded
    | _ => exact everywhere_iff.mpr ⟨kept _ id own, expanded⟩

end Everywhere

/-- An expression whose expansion is nested and stands inside it. -/
def ExpandsInside (expr : Expr) : Prop :=
  expr.expand.Nested ∧ expr.expand.span.Inside expr.span.start expr.span.stop

/-- **Nested pairs of components that stand in order** reach from the first to the end. -/
theorem nestPairs_nested {stop low : Int} {first : Expr} {rest : List Expr}
    (ordered : Span.InOrder low stop ((first :: rest).map Expr.span))
    (expanded : ∀ item ∈ first :: rest, ExpandsInside item) :
    (nestPairs stop first.expand (rest.map expand)).Nested ∧
      (nestPairs stop first.expand (rest.map expand)).span.Inside first.span.start stop := by
  induction rest generalizing first low with
  | nil =>
    obtain ⟨⟨_, _, stops⟩, _⟩ := ordered.uncons
    obtain ⟨nested, inside⟩ := expanded first List.mem_cons_self
    exact ⟨nested, inside.mono (Int.le_refl _) stops⟩
  | cons second rest ih =>
    obtain ⟨⟨_, nonempty, stops⟩, later⟩ := ordered.uncons
    obtain ⟨nested, starts, inner, ends⟩ := expanded first List.mem_cons_self
    obtain ⟨others, behind⟩ := ih later fun item among => expanded item (.tail first among)
    have apart := later.uncons.1.1
    rw [List.map_cons, nestPairs]
    have firstInside : first.expand.span.Inside first.expand.span.start stop :=
      ⟨Int.le_refl _, inner, Int.le_trans ends stops⟩
    have below : first.expand.span.start ≤ second.span.start := by omega
    have restInside := behind.mono below (Int.le_refl stop)
    refine ⟨.mk ?_ ?_ ?_, starts, ?_, Int.le_refl stop⟩
    · exact Int.lt_of_lt_of_le inner firstInside.2.2
    · exact List.forall_mem_cons.mpr ⟨firstInside, List.forall_mem_singleton.mpr restInside⟩
    · exact List.forall_mem_cons.mpr ⟨nested, List.forall_mem_singleton.mpr others⟩
    · exact Int.lt_of_lt_of_le inner firstInside.2.2

/-- **Cells of items that stand in order** end at the closing bracket. -/
theorem expandCells_nested {stop low : Int} {items : List Expr} (room : low < stop)
    (ordered : Span.InOrder low (stop - 1) (items.map Expr.span))
    (expanded : ∀ item ∈ items, ExpandsInside item) :
    (expandCells stop items).Nested ∧ (expandCells stop items).span.Inside low stop := by
  induction items generalizing low with
  | nil =>
    rw [expandCells]
    have last : stop - 1 < stop := Int.sub_one_lt_of_le (Int.le_refl stop)
    exact ⟨.mk last (List.forall_mem_nil _) (List.forall_mem_nil _), Int.le_sub_one_of_lt room, last,
      Int.le_refl stop⟩
  | cons item items ih =>
    obtain ⟨⟨starts, nonempty, stops⟩, later⟩ := ordered.uncons
    obtain ⟨nested, inside⟩ := expanded item List.mem_cons_self
    obtain ⟨others, behind⟩ := ih (by omega) later fun other among => expanded other (.tail item among)
    have itemInside : item.expand.span.Inside item.span.start stop :=
      inside.mono (Int.le_refl _) (by omega)
    have restInside : (expandCells stop items).span.Inside item.span.start stop :=
      behind.mono (Int.le_of_lt nonempty) (Int.le_refl stop)
    have reaches : item.span.start < stop := by omega
    rw [expandCells]
    refine ⟨.mk reaches ?_ ?_, starts, reaches, Int.le_refl stop⟩
    · exact List.forall_mem_cons.mpr ⟨itemInside, List.forall_mem_singleton.mpr restInside⟩
    · exact List.forall_mem_cons.mpr ⟨nested, List.forall_mem_singleton.mpr others⟩

/-- **Expanding shorthand keeps nodes nested**, inside what was written. -/
theorem Laid.expand {expr : Expr} (laid : expr.Laid) : ExpandsInside expr := by
  induction laid with
  | @mk expr nonempty ordered _ ih =>
    rcases expr.expand_cases with
      ⟨sameSpan, sameParts⟩ | ⟨span, first, rest, rfl⟩ | ⟨span, items, rfl⟩
    · have inside : ∀ part ∈ expr.expand.parts,
          part.Nested ∧ part.span.Inside expr.span.start expr.span.stop := by
        rw [sameParts]
        intro part among
        obtain ⟨written, writtenAmong, rfl⟩ := List.mem_map.mp among
        obtain ⟨nested, within⟩ := ih written writtenAmong
        obtain ⟨starts, _, stops⟩ := ordered.1 _ (List.mem_map_of_mem writtenAmong)
        exact ⟨nested, within.mono (by omega) (by omega)⟩
      refine ⟨.mk (by rwa [sameSpan]) ?_ fun part among => (inside part among).1, ?_⟩
      · rw [sameSpan]
        exact fun part among => (inside part among).2
      · rw [sameSpan]
        exact ⟨Int.le_refl _, nonempty, Int.le_refl _⟩
    · have room : Span.InOrder (span.start + 1) span.stop ((first :: rest).map Expr.span) :=
        ordered.mono (Int.le_refl _) (Int.sub_le_self _ (by decide))
      have starts : span.start ≤ first.span.start :=
        Int.le_trans (Int.le_add_of_nonneg_right (by decide)) room.uncons.1.1
      obtain ⟨nested, inside⟩ := nestPairs_nested room ih
      rw [ExpandsInside, Expr.expand, expandAll_eq_map]
      exact ⟨nested, inside.mono starts (Int.le_refl _)⟩
    · have room : Span.InOrder span.start (span.stop - 1) (items.map Expr.span) :=
        ordered.mono (Int.le_add_of_nonneg_right (by decide)) (Int.le_refl _)
      rw [ExpandsInside, Expr.expand]
      exact expandCells_nested nonempty room ih

end Expr

end EtaLong
