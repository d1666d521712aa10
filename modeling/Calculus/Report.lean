import Calculus.Error

/-!
# Reports

A report is what a reader is shown about an error: a header, the place of its first span in a
named one-line text, a label for each span, and advice. An error without spans points nowhere,
so only its header is left.
-/

namespace Calculus

/-- The contents of a report. -/
structure Report where
  header : String
  location : Option String
  labels : List String
  help : Option String
  deriving DecidableEq

/-- The place of a span in the one-line text named `id`; columns count from one. -/
def Span.location (id : String) (span : Span) : String :=
  id ++ ":1:" ++ toString (span.start + 1)

/-- The report of an error in the text named `id`. Labels go to the spans in order, so there are
never more labels than spans. -/
def Error.report (id : String) (err : Error Float) : Report :=
  let header := "Error: " ++ err.cause.message
  match err.spans with
  | [] => { header, location := none, labels := [], help := none }
  | first :: _ =>
    { header
      location := some (first.location id)
      labels := err.cause.labels.take err.spans.length
      help := err.cause.help? }

end Calculus
