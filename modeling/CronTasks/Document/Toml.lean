import CronTasks.Document.Toml.Moment
import CronTasks.Document.Toml.Number
import CronTasks.Table
import CronTasks.Text.Reader

namespace CronTasks.Document.Toml

open Text Text.Reader

def isSpace (c : Char) : Bool := c == ' ' || c == '\t'

def isPlain (c : Char) : Bool := c == '\t' || 32 ≤ c.toNat && c.toNat != 127

def skip (cs : List Char) : List Char := cs.dropWhile isSpace

def spaced {α : Type} (r : Reader α) : Reader α := fun cs => do
  let (a, cs) ← r (skip cs)
  some (a, skip cs)

def newline : Reader Unit
  | '\n' :: cs => some ((), cs)
  | '\r' :: '\n' :: cs => some ((), cs)
  | _ => none

def lineEnd : Reader Unit := fun cs =>
  let cs := match skip cs with
    | '#' :: cs => cs.dropWhile isPlain
    | cs => cs
  match cs with
  | [] => some ((), [])
  | cs => newline cs

def skipLines (cs : List Char) : List Char :=
  skip (many (fun cs => if cs.isEmpty then none else lineEnd cs) cs).2

section Strings

def escape? : Char → Option Char
  | '"' => some '"'
  | '\\' => some '\\'
  | 'b' => some '\x08'
  | 'f' => some '\x0c'
  | 'n' => some '\n'
  | 'r' => some '\r'
  | 't' => some '\t'
  | _ => none

def cons (c : Char) (x : List Char × List Char) : List Char × List Char := (c :: x.1, x.2)

def basic : Reader (List Char)
  | '"' :: cs => some ([], cs)
  | '\\' :: 'u' :: a :: b :: c :: d :: cs => do
    let e ← character? [a, b, c, d]
    (basic cs).map (cons e)
  | '\\' :: 'U' :: a :: b :: c :: d :: e :: f :: g :: h :: cs => do
    let e ← character? [a, b, c, d, e, f, g, h]
    (basic cs).map (cons e)
  | '\\' :: c :: cs => do
    let e ← escape? c
    (basic cs).map (cons e)
  | c :: cs => if isPlain c then (basic cs).map (cons c) else none
  | [] => none

def verbatim : Reader (List Char)
  | '\'' :: cs => some ([], cs)
  | c :: cs => if isPlain c then (verbatim cs).map (cons c) else none
  | [] => none

def endsLine (cs : List Char) : Bool := (newline (skip cs)).isSome

/-- The rest of a string of several lines. Up to two quotes may stand before the closing
three. Behind a backslash at the end of a line everything blank is left out; `joining` says
that such blanks are being passed over. -/
def basicLines (joining : Bool) : Reader (List Char)
  | '"' :: '"' :: '"' :: '"' :: '"' :: cs => some (['"', '"'], cs)
  | '"' :: '"' :: '"' :: '"' :: cs => some (['"'], cs)
  | '"' :: '"' :: '"' :: cs => some ([], cs)
  | '\\' :: 'u' :: a :: b :: c :: d :: cs => do
    let e ← character? [a, b, c, d]
    (basicLines false cs).map (cons e)
  | '\\' :: 'U' :: a :: b :: c :: d :: e :: f :: g :: h :: cs => do
    let e ← character? [a, b, c, d, e, f, g, h]
    (basicLines false cs).map (cons e)
  | '\\' :: c :: cs =>
    if endsLine (c :: cs) then basicLines true cs
    else do
      let e ← escape? c
      (basicLines false cs).map (cons e)
  | '\r' :: '\n' :: cs =>
    if joining then basicLines true cs else (basicLines false cs).map (cons '\n')
  | '\n' :: cs =>
    if joining then basicLines true cs else (basicLines false cs).map (cons '\n')
  | c :: cs =>
    if joining && isSpace c then basicLines true cs
    else if isPlain c then (basicLines false cs).map (cons c)
    else none
  | [] => none

def verbatimLines : Reader (List Char)
  | '\'' :: '\'' :: '\'' :: '\'' :: '\'' :: cs => some (['\'', '\''], cs)
  | '\'' :: '\'' :: '\'' :: '\'' :: cs => some (['\''], cs)
  | '\'' :: '\'' :: '\'' :: cs => some ([], cs)
  | '\r' :: '\n' :: cs => (verbatimLines cs).map (cons '\n')
  | '\n' :: cs => (verbatimLines cs).map (cons '\n')
  | c :: cs => if isPlain c then (verbatimLines cs).map (cons c) else none
  | [] => none

def dropNewline (cs : List Char) : List Char :=
  match newline cs with
  | some (_, cs) => cs
  | none => cs

def string : Reader (List Char)
  | '"' :: '"' :: '"' :: cs => basicLines false (dropNewline cs)
  | '"' :: cs => basic cs
  | '\'' :: '\'' :: '\'' :: cs => verbatimLines (dropNewline cs)
  | '\'' :: cs => verbatim cs
  | _ => none

end Strings

section Keys

def isBare (c : Char) : Bool := c.isAlphanum || c == '-' || c == '_'

def simpleKey : Reader (List Char)
  | '"' :: cs => basic cs
  | '\'' :: cs => verbatim cs
  | cs => run isBare cs

def depthLimit : Nat := 80

def path : Reader (List String) := fun cs => do
  let (ks, cs) ← separated '.' (spaced simpleKey) cs
  if ks.length < depthLimit then some (ks.map String.ofList, cs) else none

end Keys

def isToken (c : Char) : Bool := isBare c || c == '+' || c == '.' || c == ':'

/-- A value that is not quoted. A blank may stand between a date and a time. -/
def token : Reader Node := fun cs => do
  let (t, rest) ← run isToken cs
  if t = "true".toList then some (.scalar (.ofFlag true), rest)
  else if t = "false".toList then some (.scalar (.ofFlag false), rest)
  else
    match integer? t with
    | some n => some (.scalar (if 0 ≤ n then .ofCount n.toNat else .unreadable), rest)
    | none =>
      if isFloat t then some (.scalar .unreadable, rest)
      else (spacedMoment t rest).map fun x => (momentNode x.1, x.2)
where
  spacedMoment (t rest : List Char) : Option (List Char × List Char) :=
    let whole := (moment? strictBounds t).map (·, rest)
    match rest with
    | ' ' :: cs =>
      let u := cs.takeWhile isToken
      ((moment? strictBounds (t ++ ' ' :: u)).map (·, cs.drop u.length)) <|> whole
    | _ => whole

section Tables

/-- How a table came about: by a header, on the way to one, or by a key with points. -/
inductive Origin
  | header
  | passed
  | dotted
  deriving DecidableEq

inductive Item
  | value (n : Node)
  | table (origin : Origin) (members : List (String × Item))
  | tables (elements : List (List (String × Item)))

abbrev Members := Table String Item

/-- Changes the table that a path leads to; tables that are missing are made, and a list of
tables stands for its last. A key with points cannot lead into a table that has its own
header. -/
def descend (dotted : Bool) (change : Origin → Members → Option Members) :
    List String → Origin → Members → Option Members
  | [], origin, ms => change origin ms
  | k :: ks, _, ms =>
    match ms.get? k with
    | none =>
      let origin := if dotted then .dotted else .passed
      (descend dotted change ks origin []).map fun sub => ms.put k (.table origin sub)
    | some (.value _) => none
    | some (.table origin sub) =>
      if dotted ∧ origin = .header then none
      else (descend dotted change ks origin sub).map fun sub => ms.put k (.table origin sub)
    | some (.tables elements) => do
      let sub ← descend dotted change ks .header (← elements.getLast?)
      some (ms.put k (.tables (elements.dropLast ++ [sub])))

/-- Gives a new key of a table its value. The tables that a key with points leads to belong
to such keys alone. -/
def assign (path : List String) (n : Node) (origin : Origin) (ms : Members) : Option Members :=
  match path.getLast? with
  | none => none
  | some k =>
    descend true (fun origin ms =>
      if (origin = .dotted) = (path.length = 1) ∨ ms.contains k then none
      else some (ms.put k (.value n))) path.dropLast origin ms

def openTable (path : List String) (ms : Members) : Option Members :=
  match path.getLast? with
  | none => none
  | some k =>
    descend false (fun _ ms =>
      match ms.get? k with
      | none => some (ms.put k (.table .header []))
      | some (.table .passed sub) => some ((ms.erase k).put k (.table .header sub))
      | some _ => none) path.dropLast .header ms

def openElement (path : List String) (ms : Members) : Option Members :=
  match path.getLast? with
  | none => none
  | some k =>
    descend false (fun _ ms =>
      match ms.get? k with
      | none => some (ms.put k (.tables [[]]))
      | some (.tables elements) => some (ms.put k (.tables (elements ++ [[]])))
      | some _ => none) path.dropLast .header ms

mutual

def Item.node : Item → Node
  | .value n => n
  | .table _ ms => .table (memberNodes ms)
  | .tables es => .list (elementNodes es)

def memberNodes : List (String × Item) → List (Option String × Node)
  | [] => []
  | (k, i) :: ms => (some k, i.node) :: memberNodes ms

def elementNodes : List (List (String × Item)) → List Node
  | [] => []
  | ms :: es => .table (memberNodes ms) :: elementNodes es

end

end Tables

def list (element : Reader Node) : Reader (List Node) := fun cs => do
  let (_, cs) ← char '[' cs
  let (ns, cs) := (separated ',' padded (skipLines cs)).getD ([], skipLines cs)
  let cs := match cs with
    | ',' :: rest => if ns.isEmpty then cs else skipLines rest
    | cs => cs
  let (_, cs) ← char ']' cs
  some (ns, cs)
where
  padded : Reader Node := fun cs =>
    (element (skipLines cs)).map fun x => (x.1, skipLines x.2)

def inlineTable (element : Reader Node) : Reader Members := fun cs => do
  let (_, cs) ← char '\x7b' cs
  let (as, cs) := (separated ',' assignment cs).getD ([], skip cs)
  let (_, cs) ← char '\x7d' cs
  let ms ← as.foldlM (fun ms (a : List String × Node) => assign a.1 a.2 .header ms) []
  some (ms, cs)
where
  assignment : Reader (List String × Node) := fun cs => do
    let (ks, cs) ← path cs
    let (n, cs) ← element (skip (← char '=' cs).2)
    some ((ks, n), skip cs)

def value : (depth : Nat) → Reader Node
  | 0, cs => simple cs
  | depth + 1, cs =>
    match cs with
    | '[' :: _ => (list (value depth) cs).map fun x => (.list x.1, x.2)
    | '\x7b' :: _ => (inlineTable (value depth) cs).map fun x => (.table (memberNodes x.1), x.2)
    | cs => simple cs
where
  simple : Reader Node
    | '"' :: cs => (string ('"' :: cs)).map fun x => (.scalar (.ofText (String.ofList x.1)), x.2)
    | '\'' :: cs => (string ('\'' :: cs)).map fun x => (.scalar (.ofText (String.ofList x.1)), x.2)
    | cs => token cs

inductive Statement
  | table (path : List String)
  | element (path : List String)
  | assign (path : List String) (n : Node)

def statement : Reader Statement
  | '[' :: '[' :: cs => do
    let (ks, cs) ← path cs
    let (_, cs) ← char ']' cs
    let (_, cs) ← char ']' cs
    some (.element ks, cs)
  | '[' :: cs => do
    let (ks, cs) ← path cs
    let (_, cs) ← char ']' cs
    some (.table ks, cs)
  | cs => do
    let (ks, cs) ← path cs
    let (_, cs) ← char '=' cs
    let (v, cs) ← value (depthLimit - 1) (skip cs)
    some (.assign ks v, cs)

def line : Reader (Option Statement) := fun cs =>
  if cs.isEmpty then none
  else
    match lineEnd cs with
    | some (_, cs) => some (none, cs)
    | none => do
      let (s, cs) ← statement (skip cs)
      let (_, cs) ← lineEnd cs
      some (some s, cs)

/-- Carries a statement out; `opened` is the path of the table that was opened last. -/
def apply (state : List String × Members) (s : Statement) : Option (List String × Members) :=
  let (opened, ms) := state
  match s with
  | .table ks => (openTable ks ms).map (ks, ·)
  | .element ks => (openElement ks ms).map (ks, ·)
  | .assign ks n => (descend false (assign ks n) opened .header ms).map (opened, ·)

def read? (cs : List Char) : Option Node := do
  let cs := match cs with
    | '\ufeff' :: cs => cs
    | cs => cs
  match many line cs with
  | (lines, []) =>
    let (_, ms) ← (lines.filterMap id).foldlM apply ([], [])
    some (.table (memberNodes ms))
  | _ => none

end CronTasks.Document.Toml
