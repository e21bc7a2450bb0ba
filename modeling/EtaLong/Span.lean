/-
**Stretches of source text.**

A span gives the first offset of a stretch and the offset after its last character, both counted
in characters. Offsets outside the text are read as signed positions are: negative ones count from
the end, and all are clamped to the text.

* `Span.extract`: the text that a span covers;
* `Span.lineCol`: the line and column at which it starts, both counted from one;
* `lineStart_le`, `le_lineEnd`: a line encloses every offset on it.
-/

import EtaLong.Text.Slice

namespace EtaLong

/-- A stretch of source text: from `start` up to, not including, `stop`. -/
structure Span where
  start : Int
  stop : Int
deriving DecidableEq

namespace Span

/-- The text that a span covers. -/
def extract (span : Span) (source : String) : String :=
  String.ofList (Text.slice source.toList (some span.start) (some span.stop))

/-- The smallest span that covers both. -/
def join (first second : Span) : Span :=
  ⟨min first.start second.start, max first.stop second.stop⟩

end Span

/-- Where the line begins on which a text breaks off: after its last line break. -/
def lineStart (before : List Char) : Nat :=
  before.length - (before.reverse.takeWhile (· != '\n')).length

/-- Where the line ends on which an offset of a text lies: at the next line break. -/
def lineEnd (text : List Char) (offset : Nat) : Nat :=
  offset + ((text.drop offset).takeWhile (· != '\n')).length

/-- The part of a source before the start of a span. -/
def Span.before (span : Span) (source : String) : List Char :=
  source.toList.take (Text.cut source.length span.start)

/-- The line and the column of the start of a span, both counted from one. -/
def Span.lineCol (span : Span) (source : String) : Nat × Int :=
  let before := span.before source
  (before.count '\n' + 1, span.start - lineStart before + 1)

/-- A line begins at or before each of its offsets. -/
theorem lineStart_le (before : List Char) : lineStart before ≤ before.length :=
  Nat.sub_le _ _

/-- A line ends at or after each of its offsets. -/
theorem le_lineEnd (text : List Char) (offset : Nat) : offset ≤ lineEnd text offset :=
  Nat.le_add_right _ _

end EtaLong
