import CronTasks.Document.Node
import CronTasks.Text.Hexadecimal
import CronTasks.Text.Numeral
import CronTasks.Text.Reader

namespace CronTasks.Document.Json

open Text Text.Reader

def isSpace (c : Char) : Bool := c == ' ' || c == '\t' || c == '\n' || c == '\r'

def skip (cs : List Char) : List Char := cs.dropWhile isSpace

def escape? : Char → Option Char
  | '"' => some '"'
  | '\\' => some '\\'
  | '/' => some '/'
  | 'b' => some '\x08'
  | 'f' => some '\x0c'
  | 'n' => some '\n'
  | 'r' => some '\r'
  | 't' => some '\t'
  | _ => none

/-- What a string is written of: characters, and halves of surrogate pairs, which only
escapes can name. -/
inductive Unit
  | char (c : Char)
  | half (n : Nat)
  deriving DecidableEq

def Unit.ofCode (n : Nat) : Unit :=
  if 0xd800 ≤ n ∧ n < 0xe000 then .half n else .char (Char.ofNat n)

def units : Reader (List Unit)
  | '"' :: cs => some ([], cs)
  | '\\' :: 'u' :: a :: b :: c :: d :: cs => do
    let n ← hexadecimal? [a, b, c, d]
    let (us, cs) ← units cs
    some (.ofCode n :: us, cs)
  | '\\' :: c :: cs => do
    let e ← escape? c
    let (us, cs) ← units cs
    some (.char e :: us, cs)
  | c :: cs => do
    if c.toNat < 32 then none
    else
      let (us, cs) ← units cs
      some (.char c :: us, cs)
  | [] => none

def joined? : List Unit → Option (List Char)
  | [] => some []
  | .char c :: us => (joined? us).map (c :: ·)
  | .half m :: .half n :: us =>
    if m < 0xdc00 ∧ 0xdc00 ≤ n then
      (joined? us).map (Char.ofNat (0x10000 + (m - 0xd800) * 0x400 + (n - 0xdc00)) :: ·)
    else none
  | .half _ :: _ => none

def string : Reader (Option String) := fun cs => do
  let (us, cs) ← units (← char '"' cs).2
  some ((joined? us).map String.ofList, cs)

def fraction (cs : List Char) : Option (List Char) :=
  match cs with
  | '.' :: cs => (run Char.isDigit cs).map (·.2)
  | cs => some cs

def exponent (cs : List Char) : Option (List Char) :=
  match cs with
  | 'e' :: cs | 'E' :: cs =>
    let cs := match cs with
      | '+' :: cs | '-' :: cs => cs
      | cs => cs
    (run Char.isDigit cs).map (·.2)
  | cs => some cs

def integer : Reader (List Char)
  | '0' :: cs => some (['0'], cs)
  | cs => run Char.isDigit cs

/-- A number. Only whole numbers without a sign, a point and an exponent can be counts. -/
def number : Reader Scalar := fun cs => do
  let (negative, cs) := match cs with
    | '-' :: cs => (true, cs)
    | cs => (false, cs)
  let (ds, afterInteger) ← integer cs
  let cs ← exponent (← fraction afterInteger)
  let scalar :=
    if negative ∨ cs.length < afterInteger.length then .unreadable
    else { Scalar.unreadable with count := Numeral.read? Numeral.max64 ds }
  some (scalar, cs)

def bareScalar : Reader Scalar := fun cs =>
  (literal "null" cs).map (fun x => ({ Scalar.unreadable with absent := true }, x.2)) <|>
  (literal "true" cs).map (fun x => (.ofFlag true, x.2)) <|>
  (literal "false" cs).map (fun x => (.ofFlag false, x.2)) <|>
  number cs

mutual

def value (n : Nat) (cs : List Char) : Option (Node × List Char) :=
  match n with
  | 0 => none
  | n + 1 =>
    match skip cs with
    | '"' :: cs => (string ('"' :: cs)).map fun x =>
      (.scalar { Scalar.unreadable with text := x.1 }, x.2)
    | '[' :: cs =>
      match skip cs with
      | ']' :: cs => some (.list [], cs)
      | cs => (items n cs).map fun x => (.list x.1, x.2)
    | '{' :: cs =>
      match skip cs with
      | '}' :: cs => some (.table [], cs)
      | cs => (members n cs).map fun x => (.table x.1, x.2)
    | cs => (bareScalar cs).map fun x => (.scalar x.1, x.2)

def items (n : Nat) (cs : List Char) : Option (List Node × List Char) :=
  match n with
  | 0 => none
  | n + 1 => do
    let (v, cs) ← value n cs
    match skip cs with
    | ']' :: cs => some ([v], cs)
    | ',' :: cs =>
      let (vs, cs) ← items n cs
      some (v :: vs, cs)
    | _ => none

def members (n : Nat) (cs : List Char) : Option (List (Option String × Node) × List Char) :=
  match n with
  | 0 => none
  | n + 1 => do
    let (name, cs) ← string (skip cs)
    let (_, cs) ← char ':' (skip cs)
    let (v, cs) ← value n cs
    match skip cs with
    | '}' :: cs => some ([(name, v)], cs)
    | ',' :: cs =>
      let (ms, cs) ← members n cs
      some ((name, v) :: ms, cs)
    | _ => none

end

/-- Reads a text that holds one value. A step down or along takes a character, so that the
length of the text bounds the depth. -/
def read? (cs : List Char) : Option Node := do
  let (v, rest) ← value (cs.length + 1) cs
  if skip rest = [] then some v else none

def escaped : Char → List Char
  | '"' => ['\\', '"']
  | '\\' => ['\\', '\\']
  | '\x08' => ['\\', 'b']
  | '\x0c' => ['\\', 'f']
  | '\n' => ['\\', 'n']
  | '\r' => ['\\', 'r']
  | '\t' => ['\\', 't']
  | c =>
    if c.toNat < 32 then
      ['\\', 'u', '0', '0', Nat.digitChar (c.toNat / 16), Nat.digitChar (c.toNat % 16)]
    else [c]

def write (cs : List Char) : List Char := '"' :: cs.flatMap escaped ++ ['"']

def quoted (s : String) : String := String.ofList (write s.toList)

def writeTable (members : List (String × String)) : String :=
  "\x7b" ++ String.intercalate "," (members.map fun m => quoted m.1 ++ ":" ++ m.2) ++ "\x7d"

end CronTasks.Document.Json
