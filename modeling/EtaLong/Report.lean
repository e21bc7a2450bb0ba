/-
**Reports for the reader's eye.**

A mistake is shown with the line on which it starts, the offending text marked and underlined; a
result is shown in one or two lines. How text is made to stand out is up to the terminal, so
that reports take a painter that does it.

* `Report.paint`: text that stands out where there is colour;
* `Report.ofDiagnostic`: a mistake with its line;
* `Report.ofDiagnostic?`: the same, where the line may be too wide to be written;
* `Report.ofResult`: a result.
-/

import EtaLong.Program
import EtaLong.Term.Printer

namespace EtaLong.Report

/-- How text stands out. -/
inductive Paint where
  | red
  | boldRed

/-- A way to make text stand out; it may also leave the text as it is. -/
abbrev Painter := Paint → String → String

/-- Text in a paint, or plain text where there is no colour. -/
def paint (painter : Painter) (color : Bool) (style : Paint) (text : String) : String :=
  if color then painter style text else text

/-- The kind of a mistake, the rule that it breaks, and its description. -/
def headline (report : Diagnostic) : String :=
  match report.namedRule? with
  | some rule => report.kind.name ++ " in " ++ rule ++ ": " ++ report.message
  | none => report.kind.name ++ ": " ++ report.message

/-- A stretch of a line, by the columns at which it starts and stops. -/
structure Marked where
  line : List Char
  start : Int
  stop : Int

/-- The line on which a span starts, with the columns of the span that lie on it. -/
def marked (span : Span) (source : String) : Marked :=
  let text := source.toList
  let first := lineStart (span.before source)
  let last := lineEnd text (Text.cut text.length span.start)
  { line := (text.take last).drop first
    start := span.start - first
    stop := min span.stop last - first }

namespace Marked

/-- The column after the marked text, of which there is at least one character. -/
def reach (mark : Marked) : Int := max mark.stop (mark.start + 1)

/-- The line with the marked text painted. -/
def painted (painter : Painter) (color : Bool) (mark : Marked) : String :=
  let cut (start stop : Option Int) : String := String.ofList (Text.slice mark.line start stop)
  cut none (some mark.start) ++
    paint painter color .boldRed (cut (some mark.start) (some mark.reach)) ++
    cut (some mark.reach) none

/-- The carets under the marked text, of which there is at least one. -/
def carets (mark : Marked) : String :=
  String.ofList (List.replicate mark.start.toNat ' ' ++
    List.replicate (max (mark.stop - mark.start) 1).toNat '^')

end Marked

/-- The place of a mistake: line and column, the line itself, and carets below it. -/
def place (painter : Painter) (color : Bool) (span : Span) (source : String) : List String :=
  let (line, column) := span.lineCol source
  let mark := marked span source
  [s!"  at line {line}, column {column}:", "  " ++ mark.painted painter color,
    "  " ++ mark.carets]

/-- A mistake with the line on which it starts. -/
def ofDiagnostic (painter : Painter) (color : Bool) (report : Diagnostic) : String :=
  let opening := paint painter color .boldRed "error: " ++ headline report
  match report.span, report.source with
  | some span, some source =>
    String.intercalate "\n" (opening :: place painter color span source)
  | _, _ => opening

/-- Why a mistake cannot be shown: the line of carets is wider than a machine word can say, or than
a machine can hold. -/
inductive TooWide where
  | forWord
  | forMemory
deriving DecidableEq

/-- The width from which on no machine holds a line. -/
def memoryBound : Int := 1099511627776

/-- Whether a run of so many equal characters can be written. -/
def writable (count : Int) : Except TooWide Unit :=
  if !Text.fitsWord count then .error .forWord
  else if memoryBound ≤ count then .error .forMemory
  else .ok ()

/-- A mistake with the line on which it starts, if the carets below it can be written. -/
def ofDiagnostic? (painter : Painter) (color : Bool) (report : Diagnostic) :
    Except TooWide String := do
  match report.span, report.source with
  | some span, some source =>
    let mark := marked span source
    writable mark.start
    writable (max (mark.stop - mark.start) 1)
  | _, _ => pure ()
  return ofDiagnostic painter color report

/-- A result: a bare expression with its type, or a name with its normal form. -/
def ofResult (showTypes : Bool) (result : Program.Result) : String :=
  let normal := result.normal.text []
  match result.name with
  | none => "(the " ++ result.ty.text ++ " " ++ normal ++ ")"
  | some name =>
    if showTypes then name ++ " : " ++ result.ty.text ++ "\n  = " ++ normal
    else name ++ " = " ++ normal

end EtaLong.Report
