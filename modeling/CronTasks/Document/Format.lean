import CronTasks.Document.Json
import CronTasks.Document.Toml
import CronTasks.Document.Yaml

namespace CronTasks.Document

inductive Format
  | toml
  | yaml
  | json
  deriving DecidableEq

namespace Format

def read? (f : Format) (s : String) : Option Node :=
  match f with
  | toml => Toml.read? s.toList
  | yaml => Yaml.read? s.toList
  | json => Json.read? s.toList

/-- How the fields of a record may be written without their names. -/
def listForm : Format → ListForm
  | toml => .lenient
  | yaml => .refused
  | json => .short

def isUnit : Format → Node → Bool
  | toml, .table [] | toml, .list [] => true
  | json, .scalar s => s.absent
  | _, _ => false

end Format

end CronTasks.Document
