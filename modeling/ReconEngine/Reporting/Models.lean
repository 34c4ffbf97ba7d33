import Mathlib.Data.List.Basic

/-!
# Reports

Every report has one shape: a title, the parameters it was run with, a flat summary, tables, perhaps
a verdict and notes. One shape means one renderer of pages and one of CSV files for all of them.

**What it does not establish.** This module has definitions only; what the renderers make of a
report is `Reporting.Page` and `Reporting.Export`.
-/

set_option autoImplicit false

namespace Recon

/-- The value of a cell; a float is carried as the text that `str` gives of it. -/
inductive Cell where
  | str (value : String)
  | int (value : Int)
  | float (shown : String)
  | bool (value : Bool)
  | none
deriving DecidableEq, Repr

structure ReportTable where
  name : String
  columns : List String
  rows : List (List Cell)
deriving DecidableEq, Repr

/-- A report; the time it was generated at is carried in the notation of `isoformat`. -/
structure Report where
  kind : String
  title : String
  generatedAt : String
  parameters : List (String × Cell)
  summary : List (String × Cell)
  tables : List ReportTable := []
  verdict : Option String := none
  notes : List String := []
deriving DecidableEq, Repr

/-- The verdict, where there is one to show. -/
def Report.shownVerdict (report : Report) : Option String := report.verdict.filter (· ≠ "")

namespace Cell

/-- `_text`. -/
def text : Cell → String
  | .str value => value
  | .int value => toString value
  | .float shown => shown
  | .bool value => if value then "yes" else "no"
  | .none => ""

def numeric : Cell → Bool
  | .int _ => true
  | .float _ => true
  | _ => false

end Cell

end Recon
