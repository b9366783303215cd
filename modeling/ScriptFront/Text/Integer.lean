namespace ScriptFront.Text

-- The number that decimal digits stand for, most significant first.
def digitsValue (digits : List Char) : Nat :=
  digits.foldl (fun total c => 10 * total + (c.toNat - '0'.toNat)) 0

-- One or more ASCII digits.
def magnitude? (digits : List Char) : Option Nat :=
  if digits.isEmpty then none
  else if digits.all Char.isDigit then some (digitsValue digits)
  else none

-- An optional sign, then the magnitude.
def signed? : List Char → Option Int
  | '-' :: digits => (magnitude? digits).map fun n => -(n : Int)
  | '+' :: digits => (magnitude? digits).map fun n => (n : Int)
  | digits => (magnitude? digits).map fun n => (n : Int)

-- A 64-bit integer from its decimal spelling. Blanks, a second sign and values out of range
-- are refused; leading zeros are not.
def int64? (text : String) : Option Int64 :=
  match signed? text.toList with
  | none => none
  | some value =>
    if Int64.minValue.toInt ≤ value ∧ value ≤ Int64.maxValue.toInt then some (Int64.ofInt value)
    else none

-- The decimal spelling: a minus sign before negative values, no leading zeros.
def ofInt64 (value : Int64) : String :=
  toString value.toInt

end ScriptFront.Text
