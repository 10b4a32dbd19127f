import QueryCheck.Validation.Problem

/-!
# Reports of a validation

A context collects what is reported during one validation, up to a limit. The
report that reaches the limit aborts the validation, and those after it are
dropped. A limit of zero still lets one report through.
-/

namespace QueryCheck

structure Context where
  limit? : Option Nat
  reports : List Diagnostic
  aborted : Bool
deriving DecidableEq, Repr

namespace Context

def start (limit? : Option Nat) : Context := ⟨limit?, [], false⟩

/-- Adds a report, unless the validation was aborted. -/
def report (context : Context) (diagnostic : Diagnostic) : Context :=
  if context.aborted then context
  else
    let reports := context.reports ++ [diagnostic]
    { context with reports, aborted := context.limit?.any (· ≤ reports.length) }

/-- The error about a document that has the given reports, if there are any. -/
def errorOf? (reports : List Diagnostic) : Option Error :=
  if reports.isEmpty then none
  else some (.listing "Document failed validation" (reports.map Diagnostic.message))

end Context

end QueryCheck
