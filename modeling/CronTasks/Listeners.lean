import CronTasks.Table
import CronTasks.Journal
import CronTasks.Outcome

namespace CronTasks

structure Addition (α : Type) where
  order : Option Int
  number : Nat
  listener : α
  deriving DecidableEq

def Addition.precedes {α : Type} (a b : Addition α) : Bool :=
  match a.order, b.order with
  | some m, some n => m < n || m == n && a.number ≤ b.number
  | some _, none => true
  | none, some _ => false
  | none, none => a.number ≤ b.number

/-- The additions in the order of notification, and how many there have ever been. -/
structure Listeners (α : Type) where
  additions : List (Addition α)
  count : Nat

namespace Listeners

variable {α : Type}

def empty : Listeners α := ⟨[], 0⟩

def add (ls : Listeners α) (order : Option Int) (listener : α) : Listeners α :=
  let new := ⟨order, ls.count, listener⟩
  { additions :=
      ls.additions.takeWhile (·.precedes new) ++ new :: ls.additions.dropWhile (·.precedes new)
    count := ls.count + 1 }

def remove [BEq α] (ls : Listeners α) (listener : α) : Listeners α :=
  { ls with additions := ls.additions.filter (·.listener != listener) }

def contains [BEq α] (ls : Listeners α) (listener : α) : Bool :=
  ls.additions.any (·.listener == listener)

def clear (ls : Listeners α) : Listeners α := { ls with additions := [] }

def size (ls : Listeners α) : Nat := ls.additions.length

def toList (ls : Listeners α) : List α := ls.additions.map (·.listener)

def shown (ls : Listeners α) : String :=
  Text.shownRecord "ListenerRegistry" [("len", toString ls.size)] .wholly

end Listeners

/-- What a hook of a listener does: it comes to an outcome, or changes who listens. -/
inductive Reaction
  | outcome (o : Outcome)
  | add (name : String)
  | remove (name : String)
  | clear
  deriving DecidableEq

def Reaction.result : Reaction → Outcome
  | .outcome o => o
  | _ => .success

structure CronListener where
  order : Option Int
  before : Reaction
  success : Reaction
  failure : Reaction
  after : Reaction
  deriving DecidableEq

def CronListener.reaction (l : CronListener) : Hook → Reaction
  | .before => l.before
  | .success => l.success
  | .failure _ => l.failure
  | .after _ => l.after

/-- The listeners that are known by name, and those of them that listen. -/
structure Audience where
  known : Table String CronListener
  listening : Listeners String

namespace Audience

def empty : Audience := ⟨[], .empty⟩

def introduce (a : Audience) (name : String) (listener : CronListener) : Audience :=
  if a.known.contains name then a else { a with known := a.known.put name listener }

def add (a : Audience) (name : String) : Audience :=
  match a.known.get? name with
  | none => a
  | some l => { a with listening := a.listening.add l.order name }

def remove (a : Audience) (name : String) : Bool × Audience :=
  (a.listening.contains name, { a with listening := a.listening.remove name })

def clear (a : Audience) : Audience := { a with listening := a.listening.clear }

def react (a : Audience) : Reaction → Audience
  | .outcome _ => a
  | .add name => a.add name
  | .remove name => (a.remove name).2
  | .clear => a.clear

def tell (hook : Hook) (firing : Firing) (name : String) : Act (Audience × Journal) := fun state =>
  match state.1.known.get? name with
  | none => (.success, state)
  | some l =>
    let reaction := l.reaction hook
    (reaction.result, state.1.react reaction, state.2 ++ [.cron name hook firing])

/-- Calls a hook of all who listen, one after the other, whatever becomes of each call. -/
def dispatch (hook : Hook) (firing : Firing) : Act (Audience × Journal) := fun state =>
  Act.each (fun name => (tell hook firing name).isolated) state.1.listening.toList state

def dispatchCompleted (ending : Ending) (firing : Firing) : Act (Audience × Journal) :=
  (dispatch ending.hook firing).andThen (dispatch (.after ending) firing)

def notify (hook : Hook) (firing : Firing) (state : Audience × Journal) : Audience × Journal :=
  (dispatch hook firing state).2

def notifyCompleted (ending : Ending) (firing : Firing) (state : Audience × Journal) :
    Audience × Journal :=
  (dispatchCompleted ending firing state).2

end Audience

end CronTasks
