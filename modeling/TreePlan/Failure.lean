import TreePlan.Path

/-!
# Failures

Everything that can end a run early, as causes. The wording is kept apart from the causes:
`message` says what failed, and `cause?` is what the message leaves to be told below it.
-/

namespace TreePlan

inductive OsError where
  | noEntry
  | entryExists  -- something is there that cannot be replaced
  | notDirectory
  | isDirectory
  | nameTooLong
  | linkLoop
  | nulByte  -- a path with a NUL byte cannot be handed to the file system
  | notText  -- a file that had to be text is not UTF-8
  | other (text : String)  -- any other refusal, in its own words
  deriving DecidableEq, Repr, Inhabited

/-- The text of a refusal. -/
def OsError.message : OsError → String
  | .noEntry => "No such file or directory (os error 2)"
  | .entryExists => "File exists (os error 17)"
  | .notDirectory => "Not a directory (os error 20)"
  | .isDirectory => "Is a directory (os error 21)"
  | .nameTooLong => "File name too long (os error 36)"
  | .linkLoop => "Too many levels of symbolic links (os error 40)"
  | .nulByte => "file name contained an unexpected NUL byte"
  | .notText => "stream did not contain valid UTF-8"
  | .other text => text

inductive EmitError where
  | sinkFull  -- the sink takes no further command
  | writerFull  -- the writer has no room for the next byte
  | nothingWritten  -- the writer took no byte of a rest that is not empty
  | flushFailed
  | other (text : String)  -- any other refusal, in its own words
  deriving DecidableEq, Repr, Inhabited

/-- The text of a sink's refusal. -/
def EmitError.message : EmitError → String
  | .sinkFull => "sink full"
  | .writerFull => "writer full"
  | .nothingWritten => "failed to write whole buffer"
  | .flushFailed => "flush failed"
  | .other text => text

/-- Why a run ended before its work was done. -/
inductive Failure where
  | io (path : Path) (cause : OsError)
  | brokenLink (path : Path)  -- the link at `path` leads nowhere
  | notText (path : Path)  -- the text of `path` is not UTF-8, so no command line can hold it
  | emit (cause : EmitError)
  | exhausted
  deriving DecidableEq, Repr, Inhabited

namespace Failure

/-- What failed, in one line. -/
def message : Failure → String
  | .io path cause => s!"I/O error at {path.shown}: {cause.message}"
  | .brokenLink path => s!"dangling symlink at {path.shown}"
  | .notText path => s!"path is not valid UTF-8: {path.shown}"
  | .emit cause => s!"failed to emit command: {cause.message}"
  | .exhausted => "the walk did not end within its budget of steps"

def cause? : Failure → Option String
  | .io _ cause => some cause.message
  | .emit cause => some cause.message
  | .brokenLink _ | .notText _ | .exhausted => none

end Failure

end TreePlan
