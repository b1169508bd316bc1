import TreePlan.Log
import TreePlan.Text.Utf8

/-!
# Filters for log records

Which log records are written. A filter is a list of rules, each with a level and, if it is
for a part of the program only, the start of that part's name. Of the rules for a part the
most specific one counts; without one nothing is written.
-/

namespace TreePlan.Cli

structure LogRule where
  part : List Char  -- what the name of a part starts with; empty for every part
  rank : Nat  -- how far down records are written, by rank; 0 for none
  deriving DecidableEq, Repr

/-- Which log records are written. -/
abbrev LogFilter := List LogRule

def lowestRank : Nat := 5

def rankOf? (word : List Char) : Option Nat :=
  let lower := String.ofList (word.map Char.toLower)
  [("off", 0), ("error", 1), ("warn", 2), ("info", 3), ("debug", 4), ("trace", 5),
    ("0", 0), ("1", 1), ("2", 2), ("3", 3), ("4", 4), ("5", 5)].lookup lower

def isPartChar (c : Char) : Bool := c.isAlphanum || c = '_' || c = ':' || c = '-'

/-- The rule that a text is: a level, or a part of the program with or without one. -/
def LogRule.ofText? (text : List Char) : Option LogRule :=
  match rankOf? text with
  | some rank => some ⟨[], rank⟩
  | none =>
    let part := text.takeWhile isPartChar
    if part = [] then none
    else
      match text.dropWhile isPartChar with
      | [] | ['='] => some ⟨part, lowestRank⟩
      | '=' :: level => (rankOf? level).map (⟨part, ·⟩)
      | _ => none

namespace LogFilter

def downTo (level : Level) : LogFilter := [⟨[], level.rank⟩]

/-- The filter that a text is: its rules, between commas. An empty text is for errors. -/
def ofText? (text : List Char) : Option LogFilter :=
  let parts := (text.splitOn ',').filter (· ≠ [])
  if parts = [] then some (downTo .error) else parts.mapM LogRule.ofText?

/-- Whether one rule is as specific as another, or more. -/
def moreSpecific (a b : LogRule) : Bool := b.part.length ≤ a.part.length

/-- The rule that counts for a part of the program: the most specific one, and of two rules
for the same parts the later one. -/
def ruleFor? (filter : LogFilter) (part : List Char) : Option LogRule :=
  ((filter.filter (·.part.isPrefixOf part)).reverse.mergeSort moreSpecific).head?

def allows (filter : LogFilter) (part : List Char) (level : Level) : Bool :=
  (ruleFor? filter part).any fun rule => level.rank ≤ rule.rank

/-- The filter for a run: the one asked for, if it is one, and the usual one if not. -/
def choose (wanted : Option Bytes) (verbose : Bool) : LogFilter :=
  (wanted.bind fun bytes => (Utf8.decode? bytes).bind ofText?).getD
    (downTo (if verbose then .debug else .warn))

end LogFilter

/-- The part of the program that writes the log. -/
def walkPart : List Char := "snapsync_reconcile::reconciler".toList

/-- How a character is written in a log line. Those that a terminal acts on are written as
their codes, so that no name can disguise a record. -/
def inert (c : Char) : List Char :=
  let code := Nat.toDigits 16 c.toNat
  if c = '\x1b' || c = '\x7f' then '\\' :: 'x' :: code
  else if c = '\x07' || c = '\x08' || c = '\x0c' then '\\' :: 'x' :: '0' :: code
  else if 0x80 ≤ c.toNat && c.toNat ≤ 0x9F then ['\\', 'u', '\x7b'] ++ code ++ ['\x7d']
  else [c]

/-- The line for a log record at the time `stamp`. -/
def logLine (stamp : String) (record : LogRecord) : String :=
  let level := record.level.name
  let padding := String.ofList (List.replicate (5 - level.length) ' ')
  s!"{stamp} {padding}{level} {String.ofList (record.text.toList.flatMap inert)}"

end TreePlan.Cli
