namespace CronTasks.Document.Yaml

def isPrintable (c : Char) : Bool :=
  let n := c.toNat
  n == 9 || n == 10 || n == 13 || (0x20 ≤ n && n ≤ 0x7e) || n == 0x85 ||
    (0xa0 ≤ n && n != 0xfffe && n != 0xffff)

def isBlank (c : Char) : Bool := c == ' ' || c == '\t'

/-- Line ends, among which three are kept apart: all others are written as `'\n'`. -/
def isBreak (c : Char) : Bool := c == '\n' || c == '\u2028' || c == '\u2029'

def isGap (c : Char) : Bool := isBlank c || isBreak c

/-- A character, its line, and how many characters and bytes of the line stand before it. -/
structure Cell where
  char : Char
  line : Nat
  column : Nat
  offset : Nat
  deriving DecidableEq

def cellsFrom (line column offset : Nat) : List Char → List Cell
  | [] => []
  | '\r' :: '\n' :: cs => ⟨'\n', line, column, offset⟩ :: cellsFrom (line + 1) 0 0 cs
  | c :: cs =>
    let c := if c == '\r' || c == '\u0085' then '\n' else c
    ⟨c, line, column, offset⟩ ::
      if isBreak c then cellsFrom (line + 1) 0 0 cs
      else cellsFrom line (column + 1) (offset + c.utf8Size) cs

def cells (cs : List Char) : List Cell := cellsFrom 0 0 0 cs

def Cell.isGap (c : Cell) : Bool := Yaml.isGap c.char

def chars (cs : List Cell) : List Char := cs.map (·.char)

def atGap (cs : List Cell) : Bool := cs.head?.all (·.isGap)

def atMark (mark : Char) : List Cell → Bool
  | a :: b :: c :: cs => a.column == 0 && chars [a, b, c] == [mark, mark, mark] && atGap cs
  | _ => false

def atDocumentMark (cs : List Cell) : Bool := atMark '-' cs || atMark '.' cs

def splitGap (cs : List Cell) : List Cell × List Cell := cs.span (·.isGap)

/-- What stands for a gap inside a scalar. The first of several line ends is left out and a
single one becomes a space, unless it is of those that are kept apart; spaces beside line
ends do not count. -/
def folded (gap : List Cell) : List Char :=
  match (chars gap).filter isBreak with
  | [] => chars gap
  | ['\n'] => [' ']
  | '\n' :: breaks => breaks
  | breaks => breaks

end CronTasks.Document.Yaml
