import EntityQuery.Main
import EntityQuery.Proofs.Acceptance
import EntityQuery.Proofs.Ordering.Sweeps
import EntityQuery.Proofs.Select.Columns
import EntityQuery.Proofs.Select.Names
import EntityQuery.Proofs.Select.Order
import EntityQuery.Proofs.Select.Reads
import EntityQuery.Proofs.Select.Unambiguous
import EntityQuery.Proofs.Pipeline.Agreement
import EntityQuery.Proofs.Pipeline.Expressions
import EntityQuery.Proofs.Pipeline.Stages
import EntityQuery.Proofs.Pipeline.Composition
import EntityQuery.Proofs.Pipeline.ReadBack
import EntityQuery.Proofs.Hierarchy
import EntityQuery.Proofs.TypeFilter.Stacked
import EntityQuery.Proofs.Filled
import EntityQuery.Proofs.Pipeline.Filled
import EntityQuery.Proofs.Select.Filled
import EntityQuery.Proofs.NeverUnknown
import EntityQuery.Proofs.Drafts
import EntityQuery.Proofs.Coverage
import EntityQuery.Proofs.Acyclic
import EntityQuery.Proofs.Validity
import EntityQuery.Proofs.Subtrees
import EntityQuery.Proofs.Building
import EntityQuery.Proofs.Select.Aliases
import EntityQuery.Proofs.Pipeline.Faults
