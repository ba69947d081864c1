import CronTasks.Config.Schema
import CronTasks.Document.Format

namespace CronTasks

open Document

def decodeField {α : Type} (read : Node → Option α) (default : α) : Option Node → Option α
  | none => some default
  | some n => read n

def ClientType.ofNode? (f : Format) : Node → Option ClientType
  | .scalar s => s.text.bind ofName?
  | .table [(some name, n)] => if f.isUnit n then ofName? name else none
  | _ => none

def Properties.ofNode? (n : Node) : Option Properties := do
  let members ← n.namedMembers?
  let entries ← members.mapM fun m => m.2.text?.map (m.1, ·)
  some (.ofList entries)

def TriggerConfig.ofNode? (f : Format) (n : Node) : Option TriggerConfig := do
  let default : TriggerConfig := {}
  match ← n.fields? f.listForm ["scheduler_name", "thread_count", "timezone", "properties"] with
  | [name, threads, zone, properties] =>
    some {
      schedulerName := ← decodeField Node.text? default.schedulerName name
      threadCount := ← decodeField Node.count? default.threadCount threads
      timezone := ← decodeField Node.optionalText? default.timezone zone
      properties := ← decodeField Properties.ofNode? default.properties properties }
  | _ => none

def RunnerConfig.ofNode? (f : Format) (n : Node) : Option RunnerConfig := do
  match ← n.fields? f.listForm ["timezone"] with
  | [zone] => some { timezone := ← decodeField Node.optionalText? none zone }
  | _ => none

def LoggingConfig.ofNode? (f : Format) (n : Node) : Option LoggingConfig := do
  let default : LoggingConfig := {}
  match ← n.fields? f.listForm ["level", "json"] with
  | [level, json] =>
    some {
      level := ← decodeField Node.text? default.level level
      json := ← decodeField Node.flag? default.json json }
  | _ => none

namespace Config

def ofNode? (f : Format) (n : Node) : Option Config := do
  match ← n.fields? f.listForm ["client", "trigger", "runner", "logging"] with
  | [client, trigger, runner, logging] =>
    some {
      client := ← decodeField (ClientType.ofNode? f) .trigger client
      trigger := ← decodeField (TriggerConfig.ofNode? f) {} trigger
      runner := ← decodeField (RunnerConfig.ofNode? f) {} runner
      logging := ← decodeField (LoggingConfig.ofNode? f) {} logging }
  | _ => none

def read? (f : Format) (s : String) : Option Config := do ofNode? f (← f.read? s)

end Config

end CronTasks
