namespace CronTasks.Text

inductive NumeralError
  | empty
  | invalidDigit
  | tooLarge
  deriving DecidableEq

def NumeralError.message : NumeralError → String
  | .empty => "cannot parse integer from empty string"
  | .invalidDigit => "invalid digit found in string"
  | .tooLarge => "number too large to fit in target type"

namespace Numeral

def max32 : Nat := 4294967295

def max64 : Nat := 18446744073709551615

def digit (c : Char) : Nat := c.toNat - 48

def readFrom (max : Nat) : Nat → List Char → Except NumeralError Nat
  | n, [] => .ok n
  | n, c :: cs =>
    if c.isDigit then
      if n * 10 + digit c ≤ max then readFrom max (n * 10 + digit c) cs
      else .error .tooLarge
    else .error .invalidDigit

/-- Reads a numeral, which may begin with one plus sign. -/
def read (max : Nat) : List Char → Except NumeralError Nat
  | [] => .error .empty
  | ['+'] => .error .invalidDigit
  | '+' :: ds => readFrom max 0 ds
  | ds => readFrom max 0 ds

def read? (max : Nat) (cs : List Char) : Option Nat := (read max cs).toOption

end Numeral

def padded (width n : Nat) : String :=
  let ds := Nat.toDigits 10 n
  String.ofList (List.replicate (width - ds.length) '0' ++ ds)

end CronTasks.Text
