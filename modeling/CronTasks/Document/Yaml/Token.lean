import CronTasks.Document.Yaml.Scalar

namespace CronTasks.Document.Yaml

inductive Token
  | documentStart
  | documentEnd
  | sequence
  | mapping
  | blockEnd
  | item
  | name
  | value
  | listStart
  | listEnd
  | tableStart
  | tableEnd
  | comma
  | scalar (s : Scalar)
  deriving DecidableEq

/-- The start of what may turn out to be a name, and how many tokens stand before it. It has
to turn out so where it alone can continue a block. -/
structure Candidate where
  start : Cell
  position : Nat
  required : Bool

def reach : Nat := 1024

def Candidate.isName (k : Candidate) (colon : Cell) : Bool :=
  k.start.line == colon.line && colon.offset ≤ k.start.offset + reach

structure Scan where
  rest : List Cell
  tokens : Array Token
  /-- The indentations of the blocks that are open, the innermost first. -/
  blocks : List Nat
  /-- The candidates outside of the brackets that are open, the innermost first. -/
  outer : List (Option Candidate)
  candidate : Option Candidate
  fresh : Bool

namespace Scan

def start (cs : List Char) : Scan := ⟨cells cs, #[], [], [], none, true⟩

def flow (s : Scan) : Bool := !s.outer.isEmpty

def indent (s : Scan) : Nat := (s.blocks.head?.map (· + 1)).getD 0

def put (s : Scan) (t : Token) (rest : List Cell) : Scan :=
  { s with tokens := s.tokens.push t, rest }

/-- Skips spaces, line ends and comments; a byte order mark may begin a line. Tabs are no
indentation. -/
def skipFrom (flow comment fresh : Bool) : List Cell → Bool × List Cell
  | [] => (fresh, [])
  | c :: cs =>
    if isBreak c.char then skipFrom flow false (fresh || !flow) cs
    else if comment || c.char == ' ' || (c.char == '\t' && (flow || !fresh)) ||
        (c.char == '\ufeff' && c.column == 0) then
      skipFrom flow comment fresh cs
    else if c.char == '#' then skipFrom flow true fresh cs
    else (fresh, c :: cs)

def skip (s : Scan) : Scan :=
  let (fresh, rest) := skipFrom s.flow false s.fresh s.rest
  { s with fresh, rest }

def closeTo (s : Scan) (column : Nat) : Scan :=
  if s.flow then s
  else
    let closed := s.blocks.takeWhile (column < ·)
    { s with
      blocks := s.blocks.drop closed.length
      tokens := s.tokens ++ Array.replicate closed.length Token.blockEnd }

def closeAll (s : Scan) : Scan :=
  if s.flow then s
  else
    { s with
      blocks := []
      tokens := s.tokens ++ Array.replicate s.blocks.length Token.blockEnd }

def openBlock (s : Scan) (t : Token) (column position : Nat) : Scan :=
  if s.flow || s.blocks.head?.any (column ≤ ·) then s
  else
    { s with
      blocks := column :: s.blocks
      tokens := s.tokens.extract 0 position ++ #[t] ++ s.tokens.extract position s.tokens.size }

def drop? (s : Scan) : Option Scan :=
  if s.candidate.any (·.required) then none else some { s with candidate := none }

def propose? (s : Scan) (c : Cell) : Option Scan :=
  if s.fresh then do
    let s ← s.drop?
    let required := !s.flow && s.blocks.head? == some c.column
    some { s with candidate := some ⟨c, s.tokens.size, required⟩ }
  else some s

def mark? (s : Scan) (t : Token) : Option Scan := do
  let s ← s.closeAll.drop?
  some ({ s with fresh := false }.put t (s.rest.drop 3))

def open? (s : Scan) (t : Token) (c : Cell) (rest : List Cell) : Option Scan := do
  let s ← s.propose? c
  some ({ s with outer := s.candidate :: s.outer, candidate := none, fresh := true }.put t rest)

def close? (s : Scan) (t : Token) (rest : List Cell) : Option Scan := do
  let s ← s.drop?
  match s.outer with
  | [] => none
  | k :: ks => some ({ s with candidate := k, outer := ks, fresh := false }.put t rest)

def comma? (s : Scan) (rest : List Cell) : Option Scan := do
  let s ← s.drop?
  some ({ s with fresh := true }.put .comma rest)

def item? (s : Scan) (c : Cell) (rest : List Cell) : Option Scan :=
  if s.flow || !s.fresh then none
  else do
    let s ← (s.openBlock .sequence c.column s.tokens.size).drop?
    some ({ s with fresh := true }.put .item rest)

def name? (s : Scan) (c : Cell) (rest : List Cell) : Option Scan :=
  if !s.flow && !s.fresh then none
  else do
    let s ← (s.openBlock .mapping c.column s.tokens.size).drop?
    some ({ s with fresh := !s.flow }.put .name rest)

/-- A value, with a colon in front. If there is a candidate it is the name. -/
def value? (s : Scan) (c : Cell) (rest : List Cell) : Option Scan :=
  match s.candidate.filter (·.isName c) with
  | some k =>
    let s := { s with
      tokens := s.tokens.extract 0 k.position ++ #[Token.name] ++
        s.tokens.extract k.position s.tokens.size }
    let s := s.openBlock .mapping k.start.column k.position
    some ({ s with candidate := none, fresh := false }.put .value rest)
  | none =>
    if !s.flow && !s.fresh then none
    else do
      let s ← (s.openBlock .mapping c.column s.tokens.size).drop?
      some ({ s with fresh := !s.flow }.put .value rest)

def quoted? (s : Scan) (c : Cell) (rest : List Cell) : Option Scan := do
  let s ← s.propose? c
  let (text, rest) ← quoted c.char rest
  some ({ s with fresh := false }.put (.scalar (.ofText (String.ofList text))) rest)

def plain? (s : Scan) (c : Cell) (rest : List Cell) : Option Scan := do
  let s ← s.propose? c
  let p ← plain s.flow s.indent (c :: rest)
  some ({ s with fresh := p.broken }.put (.scalar (plainScalar p.text)) p.rest)

/-- Takes the token that begins with a character. Directives, anchors, tags and literal blocks
are refused. -/
def take? (s : Scan) (c : Cell) (cs : List Cell) : Option Scan :=
  if c.column == 0 && c.char == '%' then none
  else if atMark '-' (c :: cs) then s.mark? .documentStart
  else if atMark '.' (c :: cs) then s.mark? .documentEnd
  else
    match c.char with
    | '[' => s.open? .listStart c cs
    | ']' => s.close? .listEnd cs
    | '\x7b' => s.open? .tableStart c cs
    | '\x7d' => s.close? .tableEnd cs
    | ',' => s.comma? cs
    | '"' | '\'' => s.quoted? c cs
    | '-' => if atGap cs then s.item? c cs else s.plain? c cs
    | '?' => if s.flow || atGap cs then s.name? c cs else s.plain? c cs
    | ':' => if s.flow || atGap cs then s.value? c cs else s.plain? c cs
    | d => if isGap d || isIndicator d then none else s.plain? c cs

def tokens? (s : Scan) : Option (List Token) :=
  let t := s.skip
  match t.rest with
  | [] => t.closeAll.drop?.map (·.tokens.toList)
  | c :: cs => do
    let u ← (t.closeTo c.column).take? c cs
    if u.rest.length < s.rest.length then u.tokens? else none
termination_by s.rest.length

end Scan

end CronTasks.Document.Yaml
