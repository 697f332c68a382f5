/-
# Ordered and canonical plans

Cutting by position needs an order.  Two checks say so: a plan given by a user has a sort
somewhere below every skip and take, and a plan ready for SQL has it right below.
-/
import EntityQuery.Fault
import EntityQuery.Plan.Basic

namespace EntityQuery.Plan

/-- Refuses a skip or take without a sort below it, the outermost one first. -/
def checkOrdered : Plan → Except Fault Unit
  | source _ => .ok ()
  | filter _ p | project _ p | sort _ p | ofType _ p => p.checkOrdered
  | skip _ p => if p.orderSource.isNone then .error (.unordered .skip) else p.checkOrdered
  | take _ p => if p.orderSource.isNone then .error (.unordered .take) else p.checkOrdered

/-- Whether the outermost operator is a sort. -/
def isSort : Plan → Bool
  | sort _ _ => true
  | _ => false

/-- Refuses a skip that is not right over a sort, and a take that is not right over a sort or
over a skip right over a sort, the outermost one first. -/
def checkCanonical : Plan → Except Fault Unit
  | source _ => .ok ()
  | filter _ p | project _ p | sort _ p | ofType _ p => p.checkCanonical
  | skip _ p => if p.isSort then p.checkCanonical else .error (.shape (.skipInput p.kind))
  | take n p =>
    if (take n p).truncationKeys.isSome then p.checkCanonical
    else .error (.shape (.takeInput p.kind))

end EntityQuery.Plan
