import CronTasks.Document.Node
import CronTasks.Document.Yaml.Cell
import CronTasks.Text.Hexadecimal
import CronTasks.Text.Numeral
import CronTasks.Text.Reader

namespace CronTasks.Document.Yaml

open Text Text.Reader

section Quoted

def escape? : Char → Option Char
  | '0' => some '\x00'
  | 'a' => some '\x07'
  | 'b' => some '\x08'
  | 't' | '\t' => some '\t'
  | 'n' => some '\n'
  | 'v' => some '\x0b'
  | 'f' => some '\x0c'
  | 'r' => some '\r'
  | 'e' => some '\x1b'
  | ' ' => some ' '
  | '"' => some '"'
  | '/' => some '/'
  | '\\' => some '\\'
  | 'N' => some '\u0085'
  | '_' => some '\u00a0'
  | 'L' => some '\u2028'
  | 'P' => some '\u2029'
  | _ => none

def escapeWidth? : Char → Option Nat
  | 'x' => some 2
  | 'u' => some 4
  | 'U' => some 8
  | _ => none

def quotedGap (shown : List Cell → List Char) (cs : List Cell) : Option (List Char × List Cell) :=
  let (gap, rest) := splitGap cs
  if atDocumentMark rest then none else some (shown gap, rest)

def escaped : List Cell → Option (List Char × List Cell)
  | [] => none
  | c :: cs =>
    if isBreak c.char then quotedGap (fun gap => (chars gap).filter isBreak) cs
    else
      match escapeWidth? c.char with
      | some width =>
        if cs.length < width then none
        else (character? (chars (cs.take width))).map fun d => ([d], cs.drop width)
      | none => (escape? c.char).map fun d => ([d], cs)

def doublePiece : List Cell → Option (List Char × List Cell)
  | [] => none
  | c :: cs =>
    if c.char == '"' then none
    else if c.char == '\\' then escaped cs
    else if c.isGap then quotedGap folded (c :: cs)
    else some ([c.char], cs)

def singlePiece : List Cell → Option (List Char × List Cell)
  | [] => none
  | c :: cs =>
    if c.char == '\'' then
      match cs with
      | d :: cs => if d.char == '\'' then some (['\''], cs) else none
      | [] => none
    else if c.isGap then quotedGap folded (c :: cs)
    else some ([c.char], cs)

def quoted (quote : Char) (cs : List Cell) : Option (List Char × List Cell) :=
  let (pieces, rest) := many (if quote == '"' then doublePiece else singlePiece) cs
  match rest with
  | c :: rest => if c.char == quote then some (pieces.flatten, rest) else none
  | [] => none

end Quoted

section Plain

def isBracket (c : Char) : Bool := ",[]\x7b\x7d".toList.contains c

def isIndicator (c : Char) : Bool := isBracket c || "-?:#&*!|>'\"%@`".toList.contains c

/-- The characters up to a gap or to the end of a scalar. Between brackets, nothing with a
meaning of its own may follow a colon. -/
def word (flow : Bool) : List Cell → Option (List Char × List Cell)
  | [] => some ([], [])
  | c :: cs =>
    if flow && c.char == ':' && cs.head?.any fun d => isBracket d.char || d.char == '?' then none
    else if c.isGap || (c.char == ':' && atGap cs) || (flow && isBracket c.char) then
      some ([], c :: cs)
    else (word flow cs).map fun x => (c.char :: x.1, x.2)

/-- Whether a scalar is over behind a gap: at a comment, a mark, or a line that is not
indented as far as it has to be. -/
def isOver (flow : Bool) (indent : Nat) (cs : List Cell) : Bool :=
  match cs with
  | [] => true
  | c :: _ => c.char == '#' || atDocumentMark cs || (!flow && c.column < indent)

def isTabbed (indent : Nat) (gap : List Cell) : Bool :=
  (gap.dropWhile fun c => !isBreak c.char).any fun c => c.char == '\t' && c.column < indent

structure Plain where
  text : List Char
  rest : List Cell
  broken : Bool

/-- A plain scalar whose lines are indented by at least `indent`. -/
def plain (flow : Bool) (indent : Nat) (cs : List Cell) : Option Plain := do
  let (first, cs') ← word flow cs
  let (gap, rest) := splitGap cs'
  let last : Plain := ⟨first, rest, gap.any fun c => isBreak c.char⟩
  if isTabbed indent gap then none
  else if gap.isEmpty || isOver flow indent rest then some last
  else if rest.length < cs.length then
    let more ← plain flow indent rest
    if more.text.isEmpty then some last
    else some { more with text := first ++ folded gap ++ more.text }
  else none
termination_by cs.length

end Plain

section Readings

def count? (cs : List Char) : Option Nat :=
  let ds := match cs with
    | '+' :: ds => ds
    | ds => ds
  match ds with
  | '0' :: 'x' :: ds => based 16 ds
  | '0' :: 'o' :: ds => based 8 ds
  | '0' :: 'b' :: ds => based 2 ds
  | '0' :: _ :: _ | '+' :: _ => none
  | ds => Numeral.read? Numeral.max64 ds
where
  based (base : Nat) (ds : List Char) : Option Nat := do
    let digits ← ds.mapM hexDigit?
    let n := digits.foldl (fun n d => n * base + d) 0
    if !digits.isEmpty && digits.all (· < base) && n ≤ Numeral.max64 then some n else none

def plainScalar (cs : List Char) : Scalar :=
  let s := String.ofList cs
  { text := some s
    count := count? cs
    flag :=
      if s ∈ ["true", "True", "TRUE"] then some true
      else if s ∈ ["false", "False", "FALSE"] then some false
      else none
    absent := s ∈ ["", "~", "null", "Null", "NULL"]
    vacant := s = "" }

end Readings

end CronTasks.Document.Yaml
