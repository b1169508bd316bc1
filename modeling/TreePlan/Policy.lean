import TreePlan.Kind

/-!
# The policy

What has to be done for a pair depends only on the kinds of its two sides. The policy lists,
for each of the nine combinations, the actions in the order in which they are taken:

| source    | destination | actions                                                     |
|-----------|-------------|-------------------------------------------------------------|
| missing   | missing     | none                                                        |
| missing   | file        | remove, queue delete                                        |
| missing   | directory   | recurse, remove, queue delete                               |
| file      | missing     | copy, queue add                                             |
| file      | file        | copy if different                                           |
| file      | directory   | recurse, remove, queue delete, copy, queue add, flag        |
| directory | missing     | make directory, queue add, recurse                          |
| directory | file        | remove, queue delete, make directory, queue add, recurse, flag |
| directory | directory   | recurse                                                     |

A directory is emptied before it is removed and made before it is filled, so the place of
`recurse` in a row carries the whole order of a plan.
-/

namespace TreePlan

/-- One step taken for a pair. -/
inductive Action where
  | remove
  | copy
  | copyIfDifferent  -- copy the source onto the destination if their contents differ
  | mkdir
  | recurse  -- go through every entry of either side
  | queueAdd  -- queue the destination to be put under version control
  | queueDelete  -- queue the destination to be taken out of version control
  | flagConflict  -- note that a file and a directory changed places
  deriving DecidableEq, Repr

/-- The word for an action. -/
def Action.name : Action → String
  | .remove => "remove"
  | .copy => "copy"
  | .copyIfDifferent => "copy-if-different"
  | .mkdir => "mkdir"
  | .recurse => "recurse"
  | .queueAdd => "vcs-add"
  | .queueDelete => "vcs-delete"
  | .flagConflict => "flag-conflict"

/-- The actions for a source and a destination of the given kinds, in order. -/
def policy : (source destination : Kind) → List Action
  | .missing, .missing => []
  | .missing, .file => [.remove, .queueDelete]
  | .missing, .directory => [.recurse, .remove, .queueDelete]
  | .file, .missing => [.copy, .queueAdd]
  | .file, .file => [.copyIfDifferent]
  | .file, .directory => [.recurse, .remove, .queueDelete, .copy, .queueAdd, .flagConflict]
  | .directory, .missing => [.mkdir, .queueAdd, .recurse]
  | .directory, .file => [.remove, .queueDelete, .mkdir, .queueAdd, .recurse, .flagConflict]
  | .directory, .directory => [.recurse]

/-- The walk goes below a pair exactly when one of its sides is a directory. -/
theorem recurse_mem_policy_iff (source destination : Kind) :
    Action.recurse ∈ policy source destination ↔
      source = .directory ∨ destination = .directory := by
  cases source <;> cases destination <;> decide

/-! ### What puts an action into a row -/

section
variable (source destination : Kind)

/-- Whatever is at the destination goes unless the source is of the same kind. -/
theorem remove_mem_policy_iff :
    Action.remove ∈ policy source destination ↔
      destination ≠ .missing ∧ source ≠ destination := by
  cases source <;> cases destination <;> decide

/-- The version control is told of every removal. -/
theorem queueDelete_mem_policy_iff :
    Action.queueDelete ∈ policy source destination ↔
      destination ≠ .missing ∧ source ≠ destination := by
  cases source <;> cases destination <;> decide

/-- The version control is told of whatever takes an empty or emptied place. -/
theorem queueAdd_mem_policy_iff :
    Action.queueAdd ∈ policy source destination ↔
      source ≠ .missing ∧ source ≠ destination := by
  cases source <;> cases destination <;> decide

theorem mkdir_mem_policy_iff :
    Action.mkdir ∈ policy source destination ↔
      source = .directory ∧ destination ≠ .directory := by
  cases source <;> cases destination <;> decide

theorem copy_mem_policy_iff :
    Action.copy ∈ policy source destination ↔ source = .file ∧ destination ≠ .file := by
  cases source <;> cases destination <;> decide

theorem copyIfDifferent_mem_policy_iff :
    Action.copyIfDifferent ∈ policy source destination ↔
      source = .file ∧ destination = .file := by
  cases source <;> cases destination <;> decide

theorem flagConflict_mem_policy_iff :
    Action.flagConflict ∈ policy source destination ↔
      (source = .file ∧ destination = .directory) ∨
        (source = .directory ∧ destination = .file) := by
  cases source <;> cases destination <;> decide

/-- A row with anything to do is about something that exists. -/
theorem exists_of_mem_policy {source destination : Kind} {action : Action}
    (h : action ∈ policy source destination) : source ≠ .missing ∨ destination ≠ .missing := by
  cases source with
  | missing =>
      cases destination with
      | missing => exact absurd h List.not_mem_nil
      | file | directory => exact .inr nofun
  | file | directory => exact .inl nofun

/-- No row says one thing twice. -/
theorem nodup_policy : (policy source destination).Nodup := by
  cases source <;> cases destination <;> decide

end

end TreePlan
