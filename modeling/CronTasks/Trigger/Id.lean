import CronTasks.Document.Json
import CronTasks.Key

namespace CronTasks.JobKey

open Document

def id (k : JobKey) : String :=
  Json.writeTable [("group", Json.quoted k.group), ("name", Json.quoted k.name)]

def ofNode? (node : Node) : Option JobKey := do
  match ← node.fields? .short ["name", "group"] with
  | [some name, some group] => some ⟨← name.text?, ← group.text?⟩
  | _ => none

/-- The key that an id stands for, in any spelling of it. -/
def ofId? (id : String) : Option JobKey := do ofNode? (← Json.read? id.toList)

end CronTasks.JobKey
