import TreePlan.Failure
import TreePlan.Kind

/-!
# Queries

A walk never changes a file system, it only asks: what is at a path, which entries a
directory has, whether two files hold the same bytes. `FileSystem σ` is anything that
answers these three questions. Its state `σ` may change with every answer, so two equal
queries need not get equal answers; a file system that stands still has the state `Unit`.
-/

namespace TreePlan

inductive Query where
  | classify (path : Path)
  | list (path : Path)  -- the names of the entries of the directory at `path`, in any order
  | same (a b : Path)  -- whether the files at `a` and `b` hold the same bytes
  deriving DecidableEq, Repr

/-- What a query is answered with. -/
abbrev Query.Answer : Query → Type
  | .classify _ => Kind
  | .list _ => List Name
  | .same .. => Bool

/-- The paths a query is about, in the order in which they are looked at. -/
def Query.paths : Query → List Path
  | .classify path | .list path => [path]
  | .same a b => [a, b]

/-- A file system: how it answers, and what it is like afterwards. -/
structure FileSystem (σ : Type) where
  answer : (q : Query) → σ → Except Failure q.Answer × σ

/-- A file system that stands still. -/
def FileSystem.ofAnswers (answers : (q : Query) → Except Failure q.Answer) : FileSystem Unit where
  answer q _ := (answers q, ())

end TreePlan
