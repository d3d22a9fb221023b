/-!
# Lines of a report

A report is a list of lines. What is a warning goes to the error stream; everything else is
printed.
-/

namespace AppManifest.Report

/-- A line of a report. -/
inductive Line where
  | listItem (text : String)
  | warning (text : String)
  | preformatted (text : String)
  | newline
  deriving DecidableEq, Repr

/-- What a line prints, its line break included. -/
def Line.printed : Line → String
  | .listItem text => "  - " ++ text ++ "\n"
  | .warning _ => ""
  | .preformatted text => text ++ "\n"
  | .newline => "\n"

/-- What a line sends to the error stream. -/
def Line.warned : Line → String
  | .warning text => text ++ "\n"
  | _ => ""

end AppManifest.Report
