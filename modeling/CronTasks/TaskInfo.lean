import CronTasks.Document.Json

namespace CronTasks

open Document

structure TaskInfo where
  id : String
  expression : String
  description : Option String
  deriving DecidableEq

namespace TaskInfo

def write (i : TaskInfo) : String :=
  Json.writeTable <|
    [("id", Json.quoted i.id), ("expression", Json.quoted i.expression)] ++
    (i.description.map fun d => ("description", Json.quoted d)).toList

/-- From a table, which need not have a description, or from the list of all three. -/
def ofNode? (node : Node) : Option TaskInfo := do
  let fields ← node.fields? .short ["id", "expression", "description"]
  match node, fields with
  | .list _, [some id, some expression, some description] =>
    some ⟨← id.text?, ← expression.text?, ← description.optionalText?⟩
  | .table _, [some id, some expression, description] =>
    some ⟨← id.text?, ← expression.text?, ← (description.elim (some none) Node.optionalText?)⟩
  | _, _ => none

def read? (s : String) : Option TaskInfo := do ofNode? (← Json.read? s.toList)

end TaskInfo

end CronTasks
