/-
**Where the cells of shorthand start.**

Each component of a tuple but the last gets a pair of its own, and each item of a bracketed list gets
a cell. All of them reach to the end of the shorthand. A cell of a bracketed list starts where its item
was written. A pair starts where its component starts once that is expanded, and shorthand moves its
start inwards when it is expanded: a tuple to its first component, and so on along first components; a
bracketed list to its first item, or to its closing bracket if it has none. So a pair starts where its
component was written exactly if that component is no shorthand itself.

* `Expr.following`: what stands so many pairs or cells along;
* `Expr.lead`, `Expr.expand_start`: where an expression starts once it is expanded;
* `Expr.Laid.lead_eq_start_iff`: shorthand moves its start;
* `Expr.Occurs.expand`: whatever occurs in an expression occurs in the expansion, expanded;
* `pairs_start_as_written_iff`, `pair_starts_late_at_nested_tuple`: the cells of a parsed expression.
-/

import EtaLong.Proofs.Expr.Expansion

namespace EtaLong

namespace Expr

/-! ### Along pairs and cells -/

/-- **What follows so many pairs or cells**, each the second part of the one before. -/
def following : Nat → Expr → Option Expr
  | 0, expr => some expr
  | count + 1, pair _ _ snd => snd.following count
  | count + 1, cons _ _ tail => tail.following count
  | _ + 1, _ => none

/-- What follows occurs. -/
theorem occurs_of_following {count : Nat} {expr node : Expr}
    (found : expr.following count = some node) : Occurs node expr := by
  induction count generalizing expr with
  | zero =>
    cases found
    exact .here
  | succ count ih =>
    cases expr with
    | pair span fst snd => exact .inside (.tail _ (.head _)) (ih found)
    | cons span head tail => exact .inside (.tail _ (.head _)) (ih found)
    | _ => cases found

/-- Nested pairs from a component on are those of the components from there on. -/
theorem nestPairs_following (stop : Int) {first item : Expr} {rest front later : List Expr}
    (cut : first :: rest = front ++ item :: later) :
    (nestPairs stop first rest).following front.length = some (nestPairs stop item later) := by
  induction front generalizing first rest with
  | nil =>
    cases cut
    rfl
  | cons head front ih =>
    obtain ⟨rfl, others⟩ := List.cons.inj cut
    cases rest with
    | nil => cases List.append_ne_nil_of_right_ne_nil front (List.cons_ne_nil item later) others.symm
    | cons second rest => exact ih others

/-- Cells from an item on are those of the items from there on. -/
theorem expandCells_following (stop : Int) {items front later : List Expr} {item : Expr}
    (cut : items = front ++ item :: later) :
    (expandCells stop items).following front.length = some (expandCells stop (item :: later)) := by
  subst cut
  induction front with
  | nil => rfl
  | cons head front ih => exact ih

variable {span : Span} {first item : Expr} {rest items front later : List Expr}

/-- **What an expanded tuple has for a component**, after the pairs of those before it. -/
theorem expand_tuple_following (span : Span) (cut : first :: rest = front ++ item :: later) :
    (tuple span first rest).expand.following front.length =
      some (nestPairs span.stop item.expand (later.map expand)) := by
  have mapped : first.expand :: rest.map expand =
      front.map expand ++ item.expand :: later.map expand := by
    rw [← List.map_cons, cut, List.map_append, List.map_cons]
  rw [expand, expandAll_eq_map, ← nestPairs_following span.stop mapped, List.length_map]

/-- **What an expanded list has for an item**, after the cells of those before it. -/
theorem expand_listLiteral_following (span : Span) (cut : items = front ++ item :: later) :
    (listLiteral span items).expand.following front.length =
      some (cons ⟨item.span.start, span.stop⟩ item.expand (expandCells span.stop later)) := by
  rw [expand, expandCells_following span.stop cut, expandCells]

/-! ### Whatever is expanded -/

theorem Occurs.trans {node middle expr : Expr} (inner : Occurs node middle)
    (outer : Occurs middle expr) : Occurs node expr := by
  induction outer with
  | here => exact inner
  | inside among _ ih => exact .inside among ih

/-- The parts of an expression occur in its expansion, expanded. -/
theorem occurs_expand_of_mem_parts {part expr : Expr} (among : part ∈ expr.parts) :
    Occurs part.expand expr.expand := by
  rcases expr.expand_cases with ⟨_, sameParts⟩ | ⟨span, first, rest, rfl⟩ | ⟨span, items, rfl⟩
  · refine .inside ?_ .here
    rw [sameParts]
    exact List.mem_map_of_mem among
  · obtain ⟨front, later, cut⟩ := List.append_of_mem among
    refine Occurs.trans ?_ (occurs_of_following (expand_tuple_following span cut))
    cases later with
    | nil => exact .here
    | cons next later => exact .inside (.head _) .here
  · obtain ⟨front, later, cut⟩ := List.append_of_mem among
    have cell := occurs_of_following (expand_listLiteral_following span cut)
    exact Occurs.trans (.inside (.head _) .here) cell

/-- **Whatever occurs in an expression** occurs in the expansion, expanded. -/
theorem Occurs.expand {node expr : Expr} (occurs : Occurs node expr) :
    Occurs node.expand expr.expand := by
  induction occurs with
  | here => exact .here
  | inside among _ ih => exact ih.trans (occurs_expand_of_mem_parts among)

/-! ### Starts -/

/-- **Where an expression starts once it is expanded.** -/
def lead : Expr → Int
  | tuple _ first _ => first.lead
  | listLiteral _ (item :: _) => item.span.start
  | listLiteral span [] => span.stop - 1
  | expr => expr.span.start

theorem lead_of_not_isShorthand {expr : Expr} (plain : ¬ expr.IsShorthand) :
    expr.lead = expr.span.start := by
  cases expr with
  | tuple span first rest => exact absurd trivial plain
  | listLiteral span items => exact absurd trivial plain
  | _ => rfl

theorem nestPairs_start (stop : Int) (first : Expr) (rest : List Expr) :
    (nestPairs stop first rest).span.start = first.span.start := by
  cases rest <;> rfl

theorem expand_start (expr : Expr) : expr.expand.span.start = expr.lead := by
  induction expr using parts_induction with
  | step expr ih =>
    cases expr with
    | tuple span first rest =>
      rw [expand, nestPairs_start, lead]
      exact ih first List.mem_cons_self
    | listLiteral span items => cases items <;> rfl
    | _ => rfl

/-- The pair of a component that is not the last. -/
theorem expand_tuple_pair (span : Span) {next : Expr}
    (cut : first :: rest = front ++ item :: next :: later) :
    (tuple span first rest).expand.following front.length =
      some (pair ⟨item.lead, span.stop⟩ item.expand
        (nestPairs span.stop next.expand (later.map expand))) := by
  rw [expand_tuple_following span cut, List.map_cons, nestPairs, expand_start]

/-- **Shorthand has two brackets**, so it is at least two characters wide. -/
def Bracketed (expr : Expr) : Prop := expr.IsShorthand → expr.span.start + 1 < expr.span.stop

/-- What is parsed as shorthand has two brackets. -/
theorem ofSexp_bracketed {low high : Int} {origin : Sexp}
    (ordered : Span.InOrder low high (origin.tokens.map Token.span)) :
    EndsOnly Bracketed (Expr.ofSexp origin) := by
  intro expr parsed shorthand
  rw [span_of_ofSexp parsed]
  cases origin with
  | group bracket span items =>
    rw [Sexp.tokens, List.map_cons, List.map_append] at ordered
    obtain ⟨_, inner⟩ := ordered.uncons
    have closing := (inner.append.2.1.1 _ (List.mem_singleton_self _)).1
    change span.start + 1 ≤ span.stop - 1 at closing
    exact Int.lt_of_le_sub_one closing
  | symbol span name =>
    unfold Expr.ofSexp at parsed
    split at parsed <;> cases parsed <;> exact shorthand.elim
  | number span value =>
    cases parsed
    exact shorthand.elim
  | quoted span name =>
    cases parsed
    exact shorthand.elim

/-- **Shorthand moves its start inwards** when it is expanded. -/
theorem Laid.start_lt_lead {expr : Expr} (laid : expr.Laid) (bracketed : expr.Bracketed)
    (shorthand : expr.IsShorthand) : expr.span.start < expr.lead := by
  obtain ⟨_, ordered, parts⟩ := laid
  cases expr with
  | tuple span first rest =>
    -- The first component stands behind the bracket, and expanding it moves nothing outwards.
    have starts : span.start + 1 ≤ first.span.start := ordered.uncons.1.1
    have inwards : first.span.start ≤ first.lead := by
      rw [← expand_start]
      exact (parts first List.mem_cons_self).expand.2.1
    exact Int.lt_of_lt_of_le (Int.lt_of_add_one_le starts) inwards
  | listLiteral span items =>
    cases items with
    | nil => exact Int.lt_sub_right_of_add_lt (bracketed trivial)
    | cons item items => exact Int.lt_of_add_one_le ordered.uncons.1.1
  | _ => exact shorthand.elim

/-- **Shorthand, and nothing else, moves its start.** -/
theorem Laid.lead_eq_start_iff {expr : Expr} (laid : expr.Laid) (bracketed : expr.Bracketed) :
    expr.lead = expr.span.start ↔ ¬ expr.IsShorthand := by
  refine ⟨fun same shorthand => ?_, lead_of_not_isShorthand⟩
  have moves := laid.start_lt_lead bracketed shorthand
  rw [same] at moves
  exact Int.lt_irrefl _ moves

/-- What occurs in an expression as it is written is written so itself. -/
theorem Laid.of_occurs {node expr : Expr} (laid : expr.Laid) (occurs : Occurs node expr) :
    node.Laid := by
  induction occurs with
  | here => exact laid
  | inside among _ ih =>
    obtain ⟨_, _, parts⟩ := laid
    exact ih (parts _ among)

/-- An expression of a source is laid out as it is written, with its brackets. -/
theorem WrittenIn.laid {source : String} {expr : Expr} (written : expr.WrittenIn source) :
    expr.Laid ∧ expr.Everywhere Bracketed := by
  obtain ⟨row, origin, read, occurs, parsed⟩ := written.exists_origin
  have ordered := occurs.inOrder (Sexp.inOrder_of_readAll read)
  refine ⟨laid_of_ofSexp ordered parsed, everywhere_of_ofSexp parsed fun deeper inner => ?_⟩
  exact ofSexp_bracketed (inner.inOrder (by rwa [Sexp.tokensAll_singleton]))

/-- What is read as one item, and parsed as an expression to evaluate, is an expression of its source. -/
theorem WrittenIn.of_readAll {source : String} {item : Sexp} {span : Span} {expr : Expr}
    (read : Sexp.readAll source = .ok [item]) (parsed : Decl.ofSexp item = .ok (.eval span expr)) :
    expr.WrittenIn source := by
  have single : [item].mapM Decl.ofSexp = .ok [.eval span expr] :=
    mapM_cons_eq_ok.mpr ⟨_, [], rfl, parsed, rfl⟩
  have all : Decl.parseAll source = .ok [.eval span expr] :=
    bind_eq_ok.mpr ⟨[item], mapError_eq_ok.mpr read, mapError_eq_ok.mpr single⟩
  exact .body all (List.mem_singleton_self _) (List.mem_singleton_self _)

end Expr

/-- **Where the cells of shorthand start**, in an expression that was parsed from a source. In the
expansion every component of a tuple but the last has a pair, and every item of a bracketed list has a
cell, as many steps along as there are components before it; both reach to the end of the shorthand.
A cell starts where its item was written. A pair does so exactly if its component is no shorthand, and
otherwise it starts later, where the component starts once it is expanded. -/
theorem pairs_start_as_written_iff {source : String} {expr : Expr} (written : expr.WrittenIn source) :
    (∀ span first rest, Expr.Occurs (.tuple span first rest) expr →
      ∀ front item next later, first :: rest = front ++ item :: next :: later →
      ∃ cell snd, (Expr.tuple span first rest).expand.following front.length = some cell ∧
        Expr.Occurs cell expr.expand ∧ cell = .pair ⟨item.lead, span.stop⟩ item.expand snd ∧
        (cell.span = ⟨item.span.start, span.stop⟩ ↔ ¬ item.IsShorthand) ∧
        (item.IsShorthand → item.span.start < item.lead)) ∧
    (∀ span items, Expr.Occurs (.listLiteral span items) expr →
      ∀ front item later, items = front ++ item :: later →
      ∃ cell tail, (Expr.listLiteral span items).expand.following front.length = some cell ∧
        Expr.Occurs cell expr.expand ∧ cell = .cons ⟨item.span.start, span.stop⟩ item.expand tail) := by
  obtain ⟨laid, bracketed⟩ := written.laid
  refine ⟨?_, ?_⟩
  · intro span first rest occurs front item next later cut
    have along := Expr.expand_tuple_pair span cut
    have among : item ∈ first :: rest := by
      rw [cut]
      exact List.mem_append_right front List.mem_cons_self
    have inner : Expr.Occurs item expr := .trans (.inside among .here) occurs
    have itemLaid := laid.of_occurs inner
    have itemBracketed := bracketed item inner
    refine ⟨_, _, along, (Expr.occurs_of_following along).trans occurs.expand, rfl, ?_,
      itemLaid.start_lt_lead itemBracketed⟩
    rw [← itemLaid.lead_eq_start_iff itemBracketed]
    exact ⟨fun same => congrArg Span.start same, fun same => by rw [Expr.span, same]⟩
  · intro span items occurs front item later cut
    have along := Expr.expand_listLiteral_following span cut
    exact ⟨_, _, along, (Expr.occurs_of_following along).trans occurs.expand, rfl⟩

/-- A tuple with a name and a bracketed list: the pair of the name starts where the name was written,
and that of the list starts at its first item. -/
theorem pairs_start_as_written_iff_at_list_in_tuple :
    let name : Expr := .var ⟨3, 4⟩ "a"
    let list : Expr := .listLiteral ⟨5, 8⟩ [.var ⟨6, 7⟩ "b"]
    let expr : Expr := .tuple ⟨0, 11⟩ name [list, .var ⟨9, 10⟩ "c"]
    expr.WrittenIn "(, a [b] c)" ∧
    (∃ cell, expr.expand.following 0 = some cell ∧ cell.span = ⟨name.span.start, 11⟩) ∧
    (∃ cell, expr.expand.following 1 = some cell ∧ cell.span = ⟨6, 11⟩ ∧
      cell.span ≠ ⟨list.span.start, 11⟩) := by
  intro name list expr
  have read : Sexp.readAll "(, a [b] c)" =
      .ok [.group .round ⟨0, 11⟩ [.symbol ⟨1, 2⟩ ",", .symbol ⟨3, 4⟩ "a",
        .group .square ⟨5, 8⟩ [.symbol ⟨6, 7⟩ "b"], .symbol ⟨9, 10⟩ "c"]] := by
    rw [Sexp.readAll_eq_ok_iff]
    decide +kernel
  have written : expr.WrittenIn "(, a [b] c)" := .of_readAll read rfl
  have pairs := (pairs_start_as_written_iff written).1 _ _ _ .here
  obtain ⟨ofName, _, nameAlong, _, _, nameStarts, _⟩ := pairs [] name list _ rfl
  obtain ⟨ofList, _, listAlong, _, rfl, listStarts, _⟩ := pairs [name] list _ [] rfl
  exact ⟨written, ⟨ofName, nameAlong, nameStarts.mpr id⟩, _, listAlong, rfl,
    mt listStarts.mp fun plain => plain trivial⟩

/-- A tuple whose first component is a tuple: its pair starts three characters after the component. -/
theorem pair_starts_late_at_nested_tuple :
    let inner : Expr := .tuple ⟨3, 10⟩ (.var ⟨6, 7⟩ "a") [.var ⟨8, 9⟩ "b"]
    let expr : Expr := .tuple ⟨0, 13⟩ inner [.var ⟨11, 12⟩ "c"]
    expr.WrittenIn "(, (, a b) c)" ∧
    ∃ snd, expr.expand.following 0 = some (.pair ⟨6, 13⟩ inner.expand snd) ∧
      (⟨6, 13⟩ : Span) ≠ ⟨inner.span.start, expr.span.stop⟩ := by
  intro inner expr
  have read : Sexp.readAll "(, (, a b) c)" =
      .ok [.group .round ⟨0, 13⟩ [.symbol ⟨1, 2⟩ ",",
        .group .round ⟨3, 10⟩ [.symbol ⟨4, 5⟩ ",", .symbol ⟨6, 7⟩ "a", .symbol ⟨8, 9⟩ "b"],
        .symbol ⟨11, 12⟩ "c"]] := by
    rw [Sexp.readAll_eq_ok_iff]
    decide +kernel
  exact ⟨.of_readAll read rfl, _, rfl, by decide⟩

end EtaLong
