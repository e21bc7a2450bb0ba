/-
**Reports underline what they are about.**

A text is the row of its lines, with a line break between each and the next. An offset of the text
stands on one of them, at a column; the line and the column that are reported for a span are those of
its start. The report shows that line whole. The carets below it stand under the columns that the span
covers, as far as they lie on the line, and under the column of its start if there are none: for an
empty span, at the end of the text, or where the span starts with the line break.

* `OnLine`, `exists_onLine`: an offset on its line;
* `Report.Covers`, `Report.Underlines`: which columns are underlined;
* `Report.underlines_offending_text`: what a report without colours shows.
-/

import EtaLong.Report

namespace EtaLong

/-! ### Lines -/

/-- How many characters lines have, each with its line break. -/
def extent : List (List Char) → Nat
  | [] => 0
  | line :: lines => line.length + 1 + extent lines

theorem extent_append (above below : List (List Char)) :
    extent (above ++ below) = extent above + extent below := by
  induction above with
  | nil => rw [List.nil_append, extent, Nat.zero_add]
  | cons line above ih => rw [List.cons_append, extent, extent, ih, ← Nat.add_assoc]

/-- **An offset of a text stands on a line**: behind the lines above, each with its line break, and
behind so many characters of the line itself. -/
structure OnLine (text : List Char) (offset : Nat) (above : List (List Char)) (line : List Char)
    (column : Nat) : Prop where
  lines : ∃ below, text.splitOn '\n' = above ++ line :: below
  offset_eq : offset = extent above + column
  column_le : column ≤ line.length

/-- A text has one line more than line breaks. -/
theorem length_lines (text : List Char) : (text.splitOn '\n').length = text.count '\n' + 1 := by
  induction text with
  | nil => rfl
  | cons c text ih =>
    rw [List.splitOn_cons_eq_if_modifyHead, List.count_cons]
    split <;> simp_all

/-- The lines of a text, each with a line break, are one line break longer than the text. -/
theorem extent_lines (text : List Char) : extent (text.splitOn '\n') = text.length + 1 := by
  induction text with
  | nil => rfl
  | cons c text ih =>
    rw [List.splitOn_cons_eq_if_modifyHead, List.length_cons]
    split
    · rw [extent, ih, List.length_nil]
      omega
    · obtain ⟨line, lines, split⟩ := List.exists_cons_of_ne_nil (List.splitOn_ne_nil '\n' text)
      rw [split, extent] at ih
      rw [split, List.modifyHead_cons, extent, List.length_cons]
      omega

/-- A line ends within its text. -/
theorem OnLine.extent_le {text line : List Char} {offset column : Nat} {above : List (List Char)}
    (onLine : OnLine text offset above line column) : extent above + line.length ≤ text.length := by
  obtain ⟨below, lines⟩ := onLine.lines
  have whole := extent_lines text
  rw [lines, extent_append, extent] at whole
  omega

/-- **A text cut at its first line break**, if it has one. -/
theorem cut_at_line_break (text : List Char) :
    ∃ run rest, text = run ++ rest ∧ text.takeWhile (· != '\n') = run ∧ '\n' ∉ run ∧
      (rest = [] ∨ ∃ more, rest = '\n' :: more) := by
  refine ⟨_, text.dropWhile (· != '\n'), List.takeWhile_append_dropWhile.symm, rfl, ?_, ?_⟩
  · intro among
    have other := List.all_eq_true.mp List.all_takeWhile '\n' among
    cases other
  · cases found : text.dropWhile (· != '\n') with
    | nil => exact .inl rfl
    | cons c more =>
      have stops := List.head?_dropWhile_not (· != '\n') text
      rw [found] at stops
      exact .inr ⟨more, by rw [bne_eq_false_iff_eq.mp stops]⟩

/-- **A line between others.** What stands above it is empty or ends with a line break, and what stands
below is empty or begins with one. -/
theorem exists_lines {upper line lower : List Char} (sameLine : '\n' ∉ line)
    (ends : upper = [] ∨ ∃ more, upper = more ++ ['\n'])
    (begins : lower = [] ∨ ∃ more, lower = '\n' :: more) :
    ∃ above below, (upper ++ (line ++ lower)).splitOn '\n' = above ++ line :: below ∧
      above.length = upper.count '\n' ∧ extent above = upper.length := by
  obtain ⟨below, fromLine⟩ : ∃ below, (line ++ lower).splitOn '\n' = line :: below := by
    rcases begins with rfl | ⟨more, rfl⟩
    · exact ⟨[], by rw [List.append_nil, List.splitOn_eq_singleton sameLine]⟩
    · exact ⟨more.splitOn '\n', List.splitOn_append_cons_self_of_not_mem sameLine more⟩
  rcases ends with rfl | ⟨more, rfl⟩
  · exact ⟨[], below, fromLine, rfl, rfl⟩
  · refine ⟨more.splitOn '\n', below, ?_, ?_, ?_⟩
    · rw [List.append_assoc, List.singleton_append, List.splitOn_append_cons_self, fromLine]
    · rw [length_lines, List.count_append, List.count_singleton_self]
    · rw [extent_lines, List.length_append, List.length_singleton]

/-- **Every offset of a text stands on a line.** Above it there are as many lines as line breaks before
the offset, and the line reaches from its first offset to its last. -/
theorem exists_onLine {text : List Char} {offset : Nat} (inside : offset ≤ text.length) :
    ∃ above line column, OnLine text offset above line column ∧
      above.length = (text.take offset).count '\n' ∧
      lineStart (text.take offset) = extent above ∧
      lineEnd text offset = extent above + line.length ∧
      (text.take (extent above + line.length)).drop (extent above) = line := by
  -- The last line break before the offset is the first one backwards.
  obtain ⟨run, before, cutBefore, taken, inRun, ends⟩ :=
    cut_at_line_break (text.take offset).reverse
  obtain ⟨tail, lower, cutAfter, takenAfter, inTail, begins⟩ := cut_at_line_break (text.drop offset)
  have front : text.take offset = before.reverse ++ run.reverse := by
    rw [← List.reverse_append, ← cutBefore, List.reverse_reverse]
  have whole : text = before.reverse ++ (run.reverse ++ tail ++ lower) := by
    rw [List.append_assoc, ← List.append_assoc, ← front, ← cutAfter, List.take_append_drop]
  have place : offset = before.length + run.length := by
    have width := congrArg List.length front
    rwa [List.length_take, Nat.min_eq_left inside, List.length_append, List.length_reverse,
      List.length_reverse] at width
  have sameLine : '\n' ∉ run.reverse ++ tail := by
    rw [List.mem_append, List.mem_reverse]
    exact not_or_intro inRun inTail
  have upperEnds : before.reverse = [] ∨ ∃ more, before.reverse = more ++ ['\n'] := by
    rcases ends with rfl | ⟨more, rfl⟩
    · exact .inl rfl
    · exact .inr ⟨more.reverse, List.reverse_cons⟩
  obtain ⟨above, below, lines, count, sum⟩ := exists_lines sameLine upperEnds begins
  rw [← whole] at lines
  rw [List.length_reverse] at sum
  have starts : lineStart (text.take offset) = before.length := by
    rw [lineStart, taken, List.length_take, Nat.min_eq_left inside, place, Nat.add_sub_cancel]
  have stops : lineEnd text offset = before.length + (run.reverse ++ tail).length := by
    rw [lineEnd, takenAfter, place, List.length_append, List.length_reverse, Nat.add_assoc]
  refine ⟨above, run.reverse ++ tail, run.length, ⟨⟨below, lines⟩, ?_, ?_⟩, ?_, ?_, ?_, ?_⟩
  · rw [sum, place]
  · rw [List.length_append, List.length_reverse]
    exact Nat.le_add_right _ _
  · rw [count, front, List.count_append, List.count_eq_zero.mpr (mt List.mem_reverse.mp inRun),
      Nat.add_zero]
  · rw [starts, sum]
  · rw [stops, sum]
  · rw [sum, whole, ← List.append_assoc, ← List.length_reverse, ← List.length_append,
      List.take_left, List.drop_left]

/-- The pieces of a sequence between two cuts and on both sides of them. -/
theorem Text.slice_append_slice {α : Type} {items : List α} {start stop : Int}
    (ordered : cut items.length start ≤ cut items.length stop) :
    slice items none (some start) ++ slice items (some start) (some stop) ++
      slice items (some stop) none = items := by
  have front : items.take (cut items.length start) =
      (items.take (cut items.length stop)).take (cut items.length start) := by
    rw [List.take_take, Nat.min_eq_left ordered]
  simp only [slice, Option.map_none, Option.map_some, Option.getD_none, Option.getD_some,
    List.drop_zero, List.take_length]
  rw [front, List.take_append_drop, List.take_append_drop]

namespace Report

/-! ### The line that is shown -/

/-- **A span covers a column of a line** that starts at an offset. -/
def Covers (span : Span) (first : Nat) (line : List Char) (column : Nat) : Prop :=
  column < line.length ∧ span.start ≤ (first + column : Nat) ∧ (first + column : Nat) < span.stop

/-- **Carets under a line**: under the columns that a span covers, or under one column if it covers
none. Blanks stand before them, and nothing behind. -/
structure Underlines (span : Span) (first : Nat) (line : List Char) (column : Nat)
    (carets : List Char) : Prop where
  caret_iff : ∀ index, carets[index]? = some '^' ↔
    Covers span first line index ∨ (∀ other, ¬ Covers span first line other) ∧ index = column
  blank_iff : ∀ index, carets[index]? = some ' ' ↔ index < column
  blank_or_caret : ∀ c ∈ carets, c = ' ' ∨ c = '^'

/-- Without colours nothing is added to the line. -/
theorem Marked.painted_plain {painter : Painter} {mark : Marked} (inside : 0 ≤ mark.start) :
    mark.painted painter false = String.ofList mark.line := by
  have ordered : Text.cut mark.line.length mark.start ≤ Text.cut mark.line.length mark.reach := by
    have further : mark.start + 1 ≤ mark.reach := Int.le_max_right _ _
    unfold Text.cut
    split <;> split <;> omega
  simp only [painted, paint, Bool.false_eq_true, if_false, ← String.ofList_append,
    Text.slice_append_slice ordered]

/-- The characters of a row of blanks and then of carets. -/
theorem getElem?_blanks_carets (blanks carets index : Nat) :
    (List.replicate blanks ' ' ++ List.replicate carets '^')[index]? =
      if index < blanks then some ' ' else if index < blanks + carets then some '^' else none := by
  rw [List.getElem?_append, List.length_replicate, List.getElem?_replicate,
    List.getElem?_replicate]
  split
  · rfl
  · have behind : index - blanks < carets ↔ index < blanks + carets := by omega
    simp only [behind]

section Carets

variable {span : Span} {first column width : Nat} {line : List Char}
  (starts : span.start = (first + column : Nat))

include starts

/-- A span that covers some column of its first line covers the one at which it starts. -/
theorem Covers.at_start {other : Nat} (covers : Covers span first line other) :
    Covers span first line column := by
  obtain ⟨inside, begun, ends⟩ := covers
  refine ⟨?_, Int.le_of_eq starts, ?_⟩ <;> omega

/-- **The columns of a span on its first line** follow each other, or there are none. -/
theorem covers_iff (wide : (width : Int) = max (min span.stop (first + line.length : Nat) - span.start) 1)
    (index : Nat) : Covers span first line index ∨
        (∀ other, ¬ Covers span first line other) ∧ index = column ↔
      column ≤ index ∧ index < column + width := by
  by_cases covered : Covers span first line column
  · have some : ¬ ∀ other, ¬ Covers span first line other := fun none => none column covered
    simp only [some, false_and, or_false]
    unfold Covers at covered ⊢
    omega
  · have none : ∀ other, ¬ Covers span first line other :=
      fun other covers => covered (covers.at_start starts)
    have single : width = 1 := by
      unfold Covers at covered
      omega
    simp only [none index, none, not_false_eq_true, implies_true, true_and, false_or, single]
    omega

/-- **Carets from the column of the start on**, as many as columns are covered, and at least one. -/
theorem underlines_blanks_carets
    (wide : (width : Int) = max (min span.stop (first + line.length : Nat) - span.start) 1) :
    Underlines span first line column (List.replicate column ' ' ++ List.replicate width '^') where
  caret_iff index := by
    rw [covers_iff starts wide, getElem?_blanks_carets]
    split
    · simp only [Option.some.injEq, Char.reduceEq, false_iff]
      omega
    · split <;> simp only [reduceCtorEq, false_iff, true_iff] <;> omega
  blank_iff index := by
    rw [getElem?_blanks_carets]
    split
    · simp only [*]
    · split <;> simp only [*, Option.some.injEq, Char.reduceEq, reduceCtorEq]
  blank_or_caret c among := by
    rcases List.mem_append.mp among with blank | caret
    · exact .inl (List.eq_of_mem_replicate blank)
    · exact .inr (List.eq_of_mem_replicate caret)

end Carets

/-! ### The report -/

variable {painter : Painter} {span : Span} {source : String} {report : Diagnostic}

/-- **What is marked in a source**: on the line of the span's start, from there to where the span or
the line ends. -/
theorem exists_marked (starts : 0 ≤ span.start) (inside : span.start ≤ source.length) :
    ∃ above line column, OnLine source.toList span.start.toNat above line column ∧
      span.lineCol source = (above.length + 1, (column : Int) + 1) ∧
      (marked span source).line = line ∧ (marked span source).start = column ∧
      (marked span source).stop - (marked span source).start =
        min span.stop (extent above + line.length : Nat) - span.start := by
  obtain ⟨offset, same⟩ := Int.eq_ofNat_of_zero_le starts
  rw [same, Int.ofNat_le] at inside
  have cut : Text.cut source.length span.start = offset := by rw [same, Text.cut_natCast inside]
  rw [← String.length_toList] at inside
  obtain ⟨above, line, column, onLine, count, first, last, shown⟩ := exists_onLine inside
  have before : span.before source = source.toList.take offset := by rw [Span.before, cut]
  have start : span.start - extent above = column := by
    have place := onLine.offset_eq
    omega
  refine ⟨above, line, column, by rwa [same, Int.toNat_natCast], ?_, ?_, ?_, ?_⟩
  · rw [Span.lineCol, before, count, first, start]
  · simp only [marked, before, String.length_toList, cut, first, last, shown]
  · simp only [marked, before, first, start]
  · simp only [marked, before, String.length_toList, cut, first, last]
    omega

/-- A run of characters that fits into memory can be written. -/
theorem writable_eq_ok {count : Int} (starts : 0 ≤ count) (small : count < memoryBound) :
    writable count = .ok () := by
  have fits : Text.fitsWord count = true := by
    simp only [Text.fitsWord, Bool.and_eq_true, decide_eq_true_eq]
    unfold memoryBound at small
    omega
  rw [writable, fits, Bool.not_true, if_neg Bool.false_ne_true, if_neg (Int.not_le.mpr small)]

/-- **A report about a source that fits into memory can be written.** -/
theorem ofDiagnostic?_eq_ok (color : Bool) (starts : 0 ≤ span.start)
    (inside : span.start ≤ source.length) (fits : source.length < memoryBound)
    (placed : report.span = some span) (known : report.source = some source) :
    ofDiagnostic? painter color report = .ok (ofDiagnostic painter color report) := by
  obtain ⟨above, line, column, onLine, _, _, start, width⟩ := exists_marked starts inside
  have reach := onLine.extent_le
  have inLine := onLine.column_le
  have room : 1 < memoryBound := by decide
  rw [String.length_toList] at reach
  have blanks : writable (marked span source).start = .ok () :=
    writable_eq_ok (by omega) (by omega)
  have carets : writable (max ((marked span source).stop - (marked span source).start) 1) =
      .ok () := writable_eq_ok (by omega) (by omega)
  simp only [ofDiagnostic?, placed, known, blanks, carets]
  rfl

/-- **Reports underline the offending text.** The line and the column that are shown are those on which
the span starts, and the line is shown whole. The carets below it stand under the columns of the line
that the span covers, or under the one at which it starts if it covers none. All of this can be written
if the source fits into memory. -/
theorem underlines_offending_text (starts : 0 ≤ span.start) (inside : span.start ≤ source.length)
    (placed : report.span = some span) (known : report.source = some source) :
    ∃ above line column carets, OnLine source.toList span.start.toNat above line column ∧
      span.lineCol source = (above.length + 1, (column : Int) + 1) ∧
      ofDiagnostic painter false report = String.intercalate "\n"
        ["error: " ++ headline report,
          s!"  at line {above.length + 1}, column {column + 1}:",
          "  " ++ String.ofList line,
          "  " ++ String.ofList carets] ∧
      Underlines span (extent above) line column carets ∧
      (source.length < memoryBound →
        ofDiagnostic? painter false report = .ok (ofDiagnostic painter false report)) := by
  obtain ⟨above, line, column, onLine, position, shown, start, width⟩ := exists_marked starts inside
  have offset : span.start = (extent above + column : Nat) := by
    rw [← onLine.offset_eq, Int.toNat_of_nonneg starts]
  have wide : ((max ((marked span source).stop - (marked span source).start) 1).toNat : Int) =
      max (min span.stop (extent above + line.length : Nat) - span.start) 1 := by
    rw [width, Int.toNat_of_nonneg]
    exact Int.le_trans (by decide) (Int.le_max_right _ _)
  have plain : (marked span source).painted painter false = String.ofList line := by
    rw [Marked.painted_plain (by rw [start]; exact Int.natCast_nonneg column), shown]
  refine ⟨above, line, column, _, onLine, position, ?_, underlines_blanks_carets offset wide,
    fun fits => ofDiagnostic?_eq_ok false starts inside fits placed known⟩
  simp only [ofDiagnostic, placed, known, place, position, plain, Marked.carets, paint,
    Bool.false_eq_true, if_false]
  rw [start, Int.toNat_natCast]
  rfl

/-- A span that starts with the line break and ends on the next line: one caret behind the line. -/
theorem underlines_offending_text_at_line_break :
    let report : Diagnostic :=
      { kind := .malformed, message := "Unexpected token", span := some ⟨2, 4⟩,
        source := some "ab\ncd" }
    ∃ carets, ofDiagnostic (fun _ text => text) false report = String.intercalate "\n"
        ["error: MalformedSyntax: Unexpected token", "  at line 1, column 3:", "  ab",
          "  " ++ String.ofList carets] ∧
      Underlines ⟨2, 4⟩ 0 ['a', 'b'] 2 carets := by
  intro report
  obtain ⟨above, line, column, carets, onLine, position, shown, underlined, _⟩ :=
    @underlines_offending_text (fun _ text => text) ⟨2, 4⟩ "ab\ncd" report (by decide) (by decide) rfl rfl
  have place : Span.lineCol ⟨2, 4⟩ "ab\ncd" = (1, 3) := by decide +kernel
  obtain ⟨count, behind⟩ := Prod.mk.inj (position.symm.trans place)
  obtain rfl := List.length_eq_zero_iff.mp (Nat.succ.inj count)
  obtain rfl : column = 2 := by omega
  obtain ⟨below, lines⟩ := onLine.lines
  have split : "ab\ncd".toList.splitOn '\n' = [['a', 'b'], ['c', 'd']] := by decide +kernel
  obtain ⟨rfl, _⟩ := List.cons.inj (lines.symm.trans split)
  exact ⟨carets, shown, underlined⟩

end Report

end EtaLong
