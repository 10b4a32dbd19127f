import QueryCheck.Traversal.Root
import QueryCheck.Validation.RuleSet
import QueryCheck.Validation.Tracked

/-!
# Validation

A document is valid for a schema if no rule reports a problem. Reports come in
the order in which the traversal finds them.
-/

namespace QueryCheck

/-- The reports of a validation, and whether it was aborted at its limit. -/
structure Outcome where
  reports : List Diagnostic
  aborted : Bool
deriving DecidableEq, Repr

namespace Outcome

def ofContext (context : Context) : Outcome :=
  ⟨context.reports, context.aborted⟩

def isValid (outcome : Outcome) : Bool :=
  outcome.reports.isEmpty

def error? (outcome : Outcome) : Option Error :=
  Context.errorOf? outcome.reports

end Outcome

namespace Validation

def absorb (context : Context) (finding : Finding) : Context :=
  context.report finding.diagnostic

def visitor : Visitor (Tracked (Composite RuleState)) Finding :=
  Tracked.step absorb fun types => Composite.step (RuleState.visitor types)

/-- Runs rules on a document. Gives the outcome and the rules with their states after it. -/
def run (schema : Schema) (limit? : Option Nat) (rules : Composite RuleState)
    (document : Document) : Outcome × Composite RuleState :=
  let reply := (Root.document document).visit visitor (.start schema limit? rules)
  (.ofContext reply.state.context, reply.state.inner)

def validate (schema : Schema) (limit? : Option Nat) (rules : RuleSet) (document : Document) :
    Outcome :=
  (run schema limit? rules.start document).1

end Validation

end QueryCheck
