import TreePlan.Decimal.Shortest
import TreePlan.Yaml.Character

/-!
# What plain scalars mean

A plain scalar without a tag is a null, a truth value, a number, or else a text. Only the
spellings below are numbers; digits behind a leading zero are a text.
-/

namespace TreePlan.Yaml

inductive Meaning where
  | null
  | boolean (value : Bool)
  | integer (value : Int)
  | fraction (text : String)  -- a fraction, by its decimal text
  | text (value : List Char)
  deriving Repr

/-- The text behind the first characters of a text, if it starts with them. -/
def after? (start : List Char) (text : List Char) : Option (List Char) :=
  if start.isPrefixOf text then some (text.drop start.length) else none

def oneOf (words : List String) (text : List Char) : Bool := words.any (·.toList = text)

def isNull (text : List Char) : Bool := oneOf ["null", "Null", "NULL", "~"] text

def boolean? (text : List Char) : Option Bool :=
  if oneOf ["true", "True", "TRUE"] text then some true
  else if oneOf ["false", "False", "FALSE"] text then some false
  else none

/-! ### Integers -/

def natural? (base : Nat) (digits : List Char) : Option Nat :=
  if digits = [] then none
  else digits.foldl
    (fun seen c => do
      let digit ← hexValue? c
      if digit < base then return base * (← seen) + digit else none)
    (some 0)

/-- Whether a text is digits behind a leading zero, with or without a sign. -/
def isPadded (text : List Char) : Bool :=
  let digits := if text.head?.any (fun c => c = '+' || c = '-') then text.tail else text
  1 < digits.length && digits.head? = some '0' && digits.all isDigit

/-- The number a text means that is written with the start of a base, if it has one. -/
def based? (text : List Char) : Option Nat :=
  ((after? "0x".toList text).bind (natural? 16)).orElse fun _ =>
    ((after? "0o".toList text).bind (natural? 8)).orElse fun _ =>
      (after? "0b".toList text).bind (natural? 2)

/-- The integer a text means. Those that are not negative have less than 128 bits, the
others at most 127. -/
def integer? (text : List Char) : Option Int :=
  let decimal (digits : List Char) : Option Nat :=
    if isPadded text then none else natural? 10 digits
  match text with
  | '-' :: digits => do
    let n ← (based? digits).orElse fun _ => decimal digits
    if n ≤ Nat.pow 2 127 then some (-n) else none
  | _ => do
    let digits := (after? ['+'] text).getD text
    let n ← (based? digits).orElse fun _ => decimal digits
    if n < Nat.pow 2 128 then some n else none

/-! ### Fractions -/

def splitDigits (text : List Char) : List Char × List Char := text.span isDigit

/-- The exponent a text is, without the letter in front of it. -/
def exponent? (text : List Char) : Option Int :=
  match text with
  | '-' :: digits => (natural? 10 (checked digits)).map fun n => -(n : Int)
  | '+' :: digits => (natural? 10 (checked digits)).map Int.ofNat
  | digits => (natural? 10 (checked digits)).map Int.ofNat
where
  /-- The digits, if they are decimal; else nothing. -/
  checked (digits : List Char) : List Char := if digits.all isDigit then digits else []

/-- The decimal number a text is: its digits and the power of ten they count. -/
def decimal? (text : List Char) : Option (Nat × Int) := do
  let (whole, rest) := splitDigits text
  let (places, rest) := match rest with
    | '.' :: behind => splitDigits behind
    | _ => ([], rest)
  let digits ← natural? 10 (whole ++ places)
  let exponent ← match rest with
    | [] => some 0
    | e :: behind => if e = 'e' || e = 'E' then exponent? behind else none
  return (digits, exponent - places.length)

/-- The decimal text of the double nearest to the number a text is. -/
def finite? (text : List Char) : Option String := do
  let (digits, power) ← decimal? text
  let x ← Binary64.ofDecimal? digits power
  return x.shortest.text

def fraction? (text : List Char) : Option String :=
  if oneOf [".inf", ".Inf", ".INF", "+.inf", "+.Inf", "+.INF"] text then some "inf"
  else if oneOf ["-.inf", "-.Inf", "-.INF"] text then some "-inf"
  else if oneOf [".nan", ".NaN", ".NAN"] text then some "NaN"
  else
    match text with
    | '-' :: rest => (finite? rest).map ("-" ++ ·)
    | '+' :: rest => finite? rest
    | rest => finite? rest

def meaning (text : List Char) : Meaning :=
  if text = [] || isNull text then .null
  else
    match boolean? text, integer? text with
    | some value, _ => .boolean value
    | none, some value => .integer value
    | none, none =>
      -- Digits behind a zero are text and no fraction either.
      if isPadded text then .text text
      else
        match fraction? text with
        | some shown => .fraction shown
        | none => .text text

end TreePlan.Yaml
