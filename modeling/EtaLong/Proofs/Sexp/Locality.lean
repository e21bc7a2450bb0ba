/-
**Spans are exact and local.**

An expression that was read, at any depth, stands where its span says, and its parts stand inside
it one after another. What the span covers is all there is to it: that stretch of the source, read
on its own, gives the same expression at offset zero. The tokens of the expression are a stretch of
the tokens of the source, and a text may be cut at both ends of such a stretch.

* `Sexp.Occurs`: an expression occurs in a row, at any depth;
* `Sexp.inOrder_spans`: expressions stand in the order of their tokens;
* `Sexp.readOne_stretch`: the text of a stretch of tokens is read on its own;
* `Sexp.spans_exact_and_local`: both, for all that was read.
-/

import EtaLong.Proofs.Sexp

namespace EtaLong

/-- A stretch of a source is what the span between its ends covers. -/
theorem Span.extract_stretch {source : String} {skipped piece rest : List Char}
    (whole : source.toList = skipped ++ (piece ++ rest)) :
    Span.extract ⟨skipped.length, skipped.length + piece.length⟩ source = String.ofList piece := by
  have length : source.toList.length = skipped.length + (piece.length + rest.length) := by
    rw [whole, List.length_append, List.length_append]
  rw [Span.extract, ← Int.natCast_add,
    Text.slice_eq_take_drop _ (by omega) (by omega), whole, ← List.append_assoc,
    ← List.length_append, List.take_left, List.drop_left]

namespace Sexp

/-- The parts of an expression. -/
def items : Sexp → List Sexp
  | group _ _ items => items
  | _ => []

/-- **An expression occurs in a row**, on its own or inside one of the groups. -/
inductive Occurs (item : Sexp) : List Sexp → Prop where
  | here {row : List Sexp} : item ∈ row → Occurs item row
  | inside {row : List Sexp} {outer : Sexp} : outer ∈ row → Occurs item outer.items →
      Occurs item row

/-! ### Tokens of what occurs -/

theorem stretch_of_mem {item : Sexp} {row : List Sexp} (among : item ∈ row) :
    item.tokens <:+: tokensAll row := by
  obtain ⟨before, after, rfl⟩ := List.append_of_mem among
  refine ⟨tokensAll before, tokensAll after, ?_⟩
  rw [tokensAll_append, tokensAll, List.append_assoc]

theorem stretch_items (item : Sexp) : tokensAll item.items <:+: item.tokens := by
  cases item with
  | group bracket span items => exact ⟨[_], [_], rfl⟩
  | _ => exact List.nil_infix

/-- **What occurs in a row has a stretch of its tokens.** -/
theorem Occurs.stretch {item : Sexp} {row : List Sexp} (occurs : Occurs item row) :
    item.tokens <:+: tokensAll row := by
  induction occurs with
  | here among => exact stretch_of_mem among
  | @inside row outer among _ ih =>
    exact (ih.trans (stretch_items outer)).trans (stretch_of_mem among)

/-- An expression starts where its first token does. -/
theorem exists_head?_tokens (item : Sexp) :
    ∃ first, item.tokens.head? = some first ∧ first.span.start = item.span.start := by
  cases item <;> exact ⟨_, rfl, rfl⟩

/-- An expression stops where its last token does. -/
theorem exists_getLast?_tokens (item : Sexp) :
    ∃ last, item.tokens.getLast? = some last ∧ last.span.stop = item.span.stop := by
  cases item with
  | group bracket span items =>
    refine ⟨⟨.closing bracket, ⟨span.stop - 1, span.stop⟩⟩, ?_, rfl⟩
    rw [tokens, ← List.cons_append]
    exact List.getLast?_concat
  | _ => exact ⟨_, rfl, rfl⟩

/-! ### Order -/

/-- An expression reaches from the first of its tokens to the last. -/
theorem reach_of_inOrder {low high : Int} {item : Sexp}
    (ordered : Span.InOrder low high (item.tokens.map Token.span)) : item.span.Inside low high := by
  obtain ⟨first, starts, start⟩ := item.exists_head?_tokens
  obtain ⟨last, stops, stop⟩ := item.exists_getLast?_tokens
  have spanStarts : (item.tokens.map Token.span).head? = some first.span := by
    rw [List.head?_map, starts, Option.map_some]
  have spanStops : (item.tokens.map Token.span).getLast? = some last.span := by
    rw [List.getLast?_map, stops, Option.map_some]
  have reach := ordered.reach spanStarts spanStops
  rwa [start, stop] at reach

/-- **Expressions stand in the order of their tokens.** -/
theorem inOrder_spans {low high : Int} {row : List Sexp}
    (ordered : Span.InOrder low high ((tokensAll row).map Token.span)) :
    Span.InOrder low high (row.map Sexp.span) := by
  induction row with
  | nil => exact Span.InOrder.nil
  | cons item row ih =>
    rw [tokensAll, List.map_append] at ordered
    obtain ⟨own, others, across⟩ := ordered.append
    have reach := reach_of_inOrder own
    have later := ih others
    refine ⟨List.forall_mem_cons.mpr ⟨reach, later.1⟩, List.pairwise_cons.mpr ⟨?_, later.2⟩⟩
    -- The last token of the one stands before the first token of the other.
    intro span among
    obtain ⟨other, otherAmong, rfl⟩ := List.mem_map.mp among
    obtain ⟨last, stops, stop⟩ := item.exists_getLast?_tokens
    obtain ⟨first, starts, start⟩ := other.exists_head?_tokens
    have firstAmong : first ∈ tokensAll row :=
      (stretch_of_mem otherAmong).mem (List.mem_of_head? starts)
    rw [← stop, ← start]
    exact across last.span (List.mem_map_of_mem (List.mem_of_getLast? stops)) first.span
      (List.mem_map_of_mem firstAmong)

/-- **The tokens of what was read stand in the source in order.** -/
theorem inOrder_of_readAll {source : String} {row : List Sexp} (read : readAll source = .ok row) :
    Span.InOrder 0 source.length ((tokensAll row).map Token.span) := by
  have ordered := (Token.lexes_of_scanFrom (readAll_eq_ok_iff.mp read)).inOrder
  rw [String.length_toList, Int.natCast_zero, Int.zero_add] at ordered
  exact ordered

/-- What occurs in a row has its tokens in the order of the row. -/
theorem Occurs.inOrder {low high : Int} {item : Sexp} {row : List Sexp} (occurs : Occurs item row)
    (ordered : Span.InOrder low high ((tokensAll row).map Token.span)) :
    Span.InOrder low high (item.tokens.map Token.span) :=
  ordered.sublist (occurs.stretch.sublist.map Token.span)

/-- The tokens of the parts of an expression stand between its brackets. -/
theorem inOrder_tokens_items {low high : Int} {item : Sexp}
    (ordered : Span.InOrder low high (item.tokens.map Token.span)) :
    Span.InOrder (item.span.start + 1) (item.span.stop - 1)
      ((tokensAll item.items).map Token.span) := by
  cases item with
  | group bracket span items =>
    rw [tokens, List.map_cons, List.map_append] at ordered
    exact ordered.between
  | _ => exact Span.InOrder.nil

/-- **The parts of an expression stand inside it**, one after another. -/
theorem inOrder_items {low high : Int} {item : Sexp}
    (ordered : Span.InOrder low high (item.tokens.map Token.span)) :
    Span.InOrder (item.span.start + 1) (item.span.stop - 1) (item.items.map Sexp.span) :=
  inOrder_spans (inOrder_tokens_items ordered)

/-! ### Stretches of the source -/

/-- **A stretch of tokens is read from its stretch of the text**, as it is there. -/
theorem readOne_stretch {text : List Char} {offset : Nat} {item : Sexp}
    (lexes : Token.Lexes [] offset text item.tokens) :
    readOne (String.ofList text) = .ok (item.shift (-offset)) := by
  have scanned := Token.scanFrom_eq_iff.mpr lexes
  have moved := Token.scanFrom_shift 0 offset 0 text
  rw [Nat.zero_add, scanned] at moved
  generalize found : Token.scanFrom 0 0 text = outcome at moved
  obtain ⟨tokens, unknown⟩ := outcome
  obtain ⟨sameTokens, sameUnknown⟩ := Prod.mk.inj moved
  have known : unknown = none := Option.map_eq_none_iff.mp sameUnknown.symm
  have back : (item.shift (-offset)).tokens = tokens := by
    rw [tokens_shift, sameTokens, List.map_map]
    refine (List.map_congr_left fun token _ => ?_).trans (List.map_id tokens)
    exact Token.shift_neg_shift offset token
  have read : readAll (String.ofList text) = .ok [item.shift (-offset)] := by
    rw [readAll_eq_ok_iff, tokensAll_singleton, back, ← known, Token.scan, String.toList_ofList]
    exact found
  rw [readOne, read]
  rfl

/-- **Spans are exact and local.** What was read, at any depth, is not empty and lies in the source;
its parts lie strictly inside it, in order and apart from each other; and the text it covers, read
on its own, is the same expression moved to the front. -/
theorem spans_exact_and_local {source : String} {row : List Sexp} {item : Sexp}
    (read : readAll source = .ok row) (occurs : Occurs item row) :
    (0 ≤ item.span.start ∧ item.span.start < item.span.stop ∧ item.span.stop ≤ source.length) ∧
      ((∀ part ∈ item.items,
          item.span.start < part.span.start ∧ part.span.stop < item.span.stop) ∧
        item.items.Pairwise fun earlier later => earlier.span.stop ≤ later.span.start) ∧
      readOne (item.span.extract source) = .ok (item.shift (-item.span.start)) := by
  have ordered := occurs.inOrder (inOrder_of_readAll read)
  refine ⟨reach_of_inOrder ordered, ?_, ?_⟩
  · obtain ⟨bounds, apart⟩ := inOrder_items ordered
    refine ⟨fun part among => ?_, List.pairwise_map.mp apart⟩
    obtain ⟨after, _, before⟩ := bounds part.span (List.mem_map_of_mem among)
    omega
  · have lexes := Token.lexes_of_scanFrom (readAll_eq_ok_iff.mp read)
    obtain ⟨before, after, cut⟩ := occurs.stretch
    rw [← cut, List.append_assoc] at lexes
    obtain ⟨first, starts, start⟩ := item.exists_head?_tokens
    obtain ⟨last, stops, stop⟩ := item.exists_getLast?_tokens
    obtain ⟨skipped, piece, rest, whole, place, reach, own⟩ := lexes.stretch starts stops
    rw [start, Int.natCast_zero, Int.zero_add] at place
    rw [stop, Int.natCast_zero, Int.zero_add] at reach
    rw [Nat.zero_add] at own
    have covered : item.span.extract source = String.ofList piece := by
      rw [← Span.extract_stretch whole, ← reach, ← place]
    rw [covered, place]
    exact readOne_stretch own

/-- A list inside a group after a quoted symbol, on a line that ends in a comment. -/
theorem spans_exact_and_local_at_nested_list :
    ∃ row item, readAll "a ('cd [1 ,]) ;]" = .ok row ∧ Occurs item row ∧
      item.span = ⟨7, 12⟩ ∧ item.items.map Sexp.span = [⟨8, 9⟩, ⟨10, 11⟩] ∧
      readOne (item.span.extract "a ('cd [1 ,]) ;]") = .ok (item.shift (-7)) := by
  let item : Sexp := .group .square ⟨7, 12⟩ [.number ⟨8, 9⟩ 1, .symbol ⟨10, 11⟩ ","]
  let outer : Sexp := .group .round ⟨2, 13⟩ [.quoted ⟨3, 6⟩ "cd", item]
  have read : readAll "a ('cd [1 ,]) ;]" = .ok [.symbol ⟨0, 1⟩ "a", outer] := rfl
  have occurs : Occurs item [.symbol ⟨0, 1⟩ "a", outer] :=
    .inside (.tail _ (.head _)) (.here (.tail _ (.head _)))
  exact ⟨_, item, read, occurs, rfl, rfl, (spans_exact_and_local read occurs).2.2⟩

end Sexp

end EtaLong
