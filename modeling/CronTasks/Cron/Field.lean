import CronTasks.Cron.Stride
import CronTasks.Text.Numeral
import CronTasks.Text.Reader

namespace CronTasks.Cron

open Text Text.Reader

def isGap (c : Char) : Bool := c == ' ' || c == '\t' || c == '\r' || c == '\n'

def skipGaps (cs : List Char) : List Char := cs.dropWhile isGap

def spaced {α : Type} (r : Reader α) : Reader α := fun cs => do
  let (a, cs) ← r (skipGaps cs)
  some (a, skipGaps cs)

def number : Reader Nat := fun cs => do
  let (ds, cs) ← spaced (run Char.isDigit) cs
  some (← Numeral.read? Numeral.max32 ds, cs)

def name (f : Field) : Reader Nat := fun cs => do
  let (ls, cs) ← spaced (run Char.isAlpha) cs
  some (← f.named? ls, cs)

/-- What an item selects before a step is taken into account. -/
inductive Span
  | every
  | single (n : Nat)
  | between (m n : Nat)
  deriving DecidableEq

namespace Span

def fits (f : Field) : Span → Bool
  | every => true
  | single n => f.first ≤ n && n ≤ f.last
  | between m n => f.first ≤ m && m ≤ n && n ≤ f.last

def plain (f : Field) : Span → Stride
  | every => ⟨f.first, f.last, 1⟩
  | single n => ⟨n, n, 1⟩
  | between m n => ⟨m, n, 1⟩

def stepped (f : Field) (step : Nat) : Span → Stride
  | every => ⟨f.first, f.last, step⟩
  | single n => ⟨n, f.last, step⟩
  | between m n => ⟨m, n, step⟩

end Span

def pair {α : Type} (r : Reader α) : Reader (α × α) := fun cs => do
  let (a, cs) ← r cs
  let (_, cs) ← char '-' cs
  let (b, cs) ← r cs
  some ((a, b), cs)

/-- A span of numbers, or of two names. One name alone is an item, but not a span. -/
def span (f : Field) : Reader Span := fun cs => do
  let (s, rest) ←
    match cs with
    | '*' :: cs => some (Span.every, cs)
    | '?' :: cs => if f.admitsAny then some (Span.every, cs) else none
    | cs =>
      (pair number cs).map (fun x => (Span.between x.1.1 x.1.2, x.2)) <|>
      (number cs).map (fun x => (Span.single x.1, x.2)) <|>
      (pair (name f) cs).map (fun x => (Span.between x.1.1 x.1.2, x.2))
  if s.fits f then some (s, rest) else none

def stepped (f : Field) : Reader Stride := fun cs => do
  let (s, cs) ← span f cs
  let (_, cs) ← char '/' cs
  let (n, cs) ← number cs
  if 1 ≤ n ∧ n ≤ f.last then some (s.stepped f n, cs) else none

def item (f : Field) : Reader Stride := fun cs =>
  stepped f cs <|>
  (span f cs).map (fun x => (x.1.plain f, x.2)) <|>
  (name f cs).map (fun x => ((Span.single x.1).plain f, x.2))

def field (f : Field) : Reader (List Stride) := spaced (separated ',' (item f))

end CronTasks.Cron
