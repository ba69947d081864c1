import CronTasks.Body
import CronTasks.Methods

namespace CronTasks.Runner

open Text

inductive Work
  | runnable (r : Runnable)
  | method (b : BoundMethod) (description : String)

namespace Work

def description : Work → Option String
  | runnable r => r.description
  | method _ d => some d

def run (w : Work) (journal : Journal) : Outcome × Journal :=
  match w with
  | runnable r => (r.outcome, journal ++ [.ran r.label])
  | method b _ => b.call journal

def shown : Work → String
  | runnable r =>
    shownRecord "RunnableTask" [("description", shownOption (r.description.map quoted))] .partly
  | method _ d => shownRecord "MethodTask" [("method", quoted d)] .partly

/-- Builds the instance that a method is to run on. -/
def ofMethod (r : Registry) (type name : String) (journal : Journal) :
    Except (Raised RepositoryError) Work × Journal :=
  if blank type || blank name then
    (.error (.error (.invalidArgument "method tasks need a declaring type and a method name")),
      journal)
  else
    match r.resolve type name journal with
    | (.ok b, journal) => (.ok (.method b (type ++ "::" ++ name)), journal)
    | (.error (.error (.instantiation t cause)), journal) =>
      (.error (.error (.internal (.resolve (.instantiation t cause)))), journal)
    | (.error (.error e), journal) => (.error (.error (.illegalState e.message)), journal)
    | (.error (.panic p), journal) => (.error (.panic p), journal)

end Work

end CronTasks.Runner
