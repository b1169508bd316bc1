/-!
# Words of a shell

A plan is printed as lines for a POSIX shell. Every word is written so that the shell reads
back exactly the word: as it is when it holds safe characters only, and otherwise between
single quotes, where the one character that cannot stand there, the single quote itself, is
put between double quotes.
-/

namespace TreePlan.Shell

/-- The characters that mean themselves everywhere in a command line. -/
def isSafe (c : Char) : Bool :=
  ('A' ≤ c && c ≤ 'Z') || ('a' ≤ c && c ≤ 'z') || ('0' ≤ c && c ≤ '9') ||
    "@%+=:,./_-".toList.contains c

/-- The inside of a single-quoted word: a quote ends the quotation, stands between double
quotes, and opens the quotation again. -/
def escape : List Char → List Char
  | [] => []
  | c :: rest => if c = '\'' then "'\"'\"'".toList ++ escape rest else c :: escape rest

def quote (word : List Char) : List Char :=
  if word = [] then ['\'', '\'']
  else if word.all isSafe then word
  else '\'' :: (escape word ++ ['\''])

def join : List (List Char) → List Char
  | [] => []
  | [word] => quote word
  | word :: next :: rest => quote word ++ ' ' :: join (next :: rest)

def quoteString (word : String) : String := String.ofList (quote word.toList)

def line (words : List String) : String := String.ofList (join (words.map String.toList))

end TreePlan.Shell
