import CronTasks.Text.Hexadecimal

namespace CronTasks.Document.Toml

open Text

def isDigits (digit : Char → Bool) (cs : List Char) : Bool :=
  (cs.splitOn '_').all fun ds => !ds.isEmpty && ds.all digit

def unsigned : List Char → List Char
  | '+' :: cs | '-' :: cs => cs
  | cs => cs

def isDecimal (cs : List Char) : Bool :=
  isDigits Char.isDigit cs && (cs.length == 1 || cs.head? != some '0')

def valueIn (base : Nat) (cs : List Char) : Nat :=
  (cs.filterMap hexDigit?).foldl (fun n d => n * base + d) 0

def signedValue (cs : List Char) : Int :=
  let n : Int := valueIn 10 (unsigned cs)
  if cs.head? == some '-' then -n else n

def integer? (cs : List Char) : Option Int :=
  match cs with
  | '0' :: 'x' :: ds => based 16 (fun c => (hexDigit? c).isSome) ds
  | '0' :: 'o' :: ds => based 8 (fun c => '0' ≤ c && c ≤ '7') ds
  | '0' :: 'b' :: ds => based 2 (fun c => c == '0' || c == '1') ds
  | cs =>
    let n := signedValue cs
    if isDecimal (unsigned cs) ∧ -9223372036854775808 ≤ n ∧ n ≤ 9223372036854775807 then some n
    else none
where
  based (base : Nat) (digit : Char → Bool) (ds : List Char) : Option Int :=
    if isDigits digit ds ∧ valueIn base ds ≤ 9223372036854775807 then some (valueIn base ds)
    else none

/-- The number `mantissa * 10 ^ power`. -/
structure Decimal where
  mantissa : Nat
  power : Int
  deriving DecidableEq

/-- The least number that no finite double is nearest to: half a step above the largest. -/
def hugeFrom : Nat := (Nat.pow 2 54 - 1) * Nat.pow 2 970

def Decimal.isHuge (d : Decimal) : Bool :=
  let size := (Nat.toDigits 10 d.mantissa).length + d.power
  if d.mantissa = 0 then false
  else if size = 309 then
    hugeFrom * Nat.pow 10 (-d.power).toNat ≤ d.mantissa * Nat.pow 10 d.power.toNat
  else 309 < size

def power? : List Char → Option Int
  | 'e' :: ds | 'E' :: ds =>
    if isDigits Char.isDigit (unsigned ds) then some (signedValue ds) else none
  | _ => none

def decimal? (cs : List Char) : Option Decimal :=
  let (whole, rest) := cs.span digitLike
  if isDecimal whole then
    match rest with
    | '.' :: rest =>
      let (fraction, rest) := rest.span digitLike
      if isDigits Char.isDigit fraction then
        (if rest.isEmpty then some 0 else power? rest).map fun power =>
          ⟨valueIn 10 (whole ++ fraction), power - (fraction.filter Char.isDigit).length⟩
      else none
    | rest => (power? rest).map (⟨valueIn 10 whole, ·⟩)
  else none
where
  digitLike (c : Char) : Bool := c.isDigit || c == '_'

def isFloat (cs : List Char) : Bool :=
  let ds := unsigned cs
  ds == ['i', 'n', 'f'] || ds == ['n', 'a', 'n'] ||
    (decimal? ds).any fun d => cs.head? == some '-' || !d.isHuge

end CronTasks.Document.Toml
