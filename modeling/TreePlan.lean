import TreePlan.Main
import TreePlan.Table
import TreePlan.Disk.Edit
import TreePlan.Disk.Files
import TreePlan.Proofs.Recursion
import TreePlan.Proofs.Bookkeeping
import TreePlan.Proofs.Difference
import TreePlan.Proofs.Execution
import TreePlan.Proofs.Requests
import TreePlan.Proofs.Truncation
import TreePlan.Proofs.Course
import TreePlan.Proofs.Course.Place
import TreePlan.Proofs.Pending
import TreePlan.Proofs.Batches
import TreePlan.Proofs.Alone
import TreePlan.Proofs.Conflict
import TreePlan.Proofs.Script
import TreePlan.Proofs.Status
import TreePlan.Proofs.Disk.Walk
import TreePlan.Proofs.Refusal
import TreePlan.Proofs.Containment
import TreePlan.Proofs.Metadata
import TreePlan.Proofs.Shortcut
import TreePlan.Proofs.Convergence
import TreePlan.Proofs.Shell.Harmless
import TreePlan.Proofs.Cli.Modes
import TreePlan.Proofs.Relocation.Plan
import TreePlan.Proofs.Operands
import TreePlan.Proofs.Script.Room
import TreePlan.Proofs.Preorder
import TreePlan.Proofs.Termination
import TreePlan.Proofs.Disk.Depth
import TreePlan.Proofs.Disk.Cycles
import TreePlan.Proofs.Contents
import TreePlan.Proofs.Anchoring
import TreePlan.Proofs.Exchanges
import TreePlan.Proofs.Discipline
import TreePlan.Proofs.Mirror
