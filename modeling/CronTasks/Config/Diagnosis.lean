import CronTasks.Config.File
import CronTasks.Config.Settings
import CronTasks.Text.EditDistance

namespace CronTasks

open Document Text

inductive Severity
  | error
  | warning
  deriving DecidableEq

def Severity.name : Severity → String
  | .error => "error"
  | .warning => "warning"

inductive Category
  /-- The text is not in its format. -/
  | form
  | unknownField
  | type
  | value
  deriving DecidableEq

def Category.shown : Category → String
  | .form => "Syntax"
  | .unknownField => "UnknownField"
  | .type => "Type"
  | .value => "Value"

inductive Finding
  | unreadable (fault : ReadFault)
  | unloadable (e : LoadError)
  | malformed
  | mistyped
  | unknownField (path : String) (near : Option String)
  | unknownProperty (key near : String)
  | zeroThreads (path : String)
  | threadCount (fault : NumeralError)
  | blankName
  | timezone (path : String) (e : ConfigError)
  | logLevel (level : String)
  deriving DecidableEq

namespace Finding

def propertyPath (key : String) : String := "trigger.properties." ++ key

/-- An error makes the engines refuse to start; a warning is about what was hardly meant. -/
def severity : Finding → Severity
  | unknownProperty _ _ | blankName | logLevel _ => .warning
  | _ => .error

def category : Finding → Category
  | unreadable _ | unloadable _ | malformed => .form
  | unknownField _ _ | unknownProperty _ _ => .unknownField
  | mistyped => .type
  | zeroThreads _ | threadCount _ | blankName | timezone _ _ | logLevel _ => .value

def path : Finding → String
  | unreadable _ | unloadable _ | malformed | mistyped => ""
  | unknownField path _ => path
  | unknownProperty key _ => propertyPath key
  | zeroThreads path => path
  | threadCount _ => propertyPath Properties.threadCount
  | blankName => "trigger.scheduler_name"
  | timezone path _ => path
  | logLevel _ => "logging.level"

def suggestion (near : String) : String := " (did you mean \"" ++ near ++ "\"?)"

def message : Finding → String
  | unreadable fault => "failed to read config file: " ++ fault.message
  | unloadable e => e.message
  | malformed => "TOML syntax error"
  | mistyped => "type error"
  | unknownField _ near => "unknown field" ++ (near.map suggestion).getD ""
  | unknownProperty _ near => "unrecognised property" ++ suggestion near
  | zeroThreads _ => "thread count must be at least 1"
  | threadCount fault => "not a thread count: " ++ fault.message
  | blankName => "scheduler name is blank"
  | timezone _ e => e.message
  | logLevel level => "\"" ++ level ++ "\" is not a known log level"

def display (d : Finding) : String :=
  d.severity.name ++ ": " ++ (if d.path = "" then "" else d.path ++ ": ") ++ d.message

end Finding

section Fields

def knownFields : List String :=
  ["client", "trigger", "trigger.scheduler_name", "trigger.thread_count", "trigger.timezone",
   "trigger.properties", "runner", "runner.timezone", "logging", "logging.level",
   "logging.json"]

def freeForm : List String := ["trigger.properties"]

def knownProperties : List String := [Properties.instanceName, Properties.threadCount]

def pathBelow (parent key : String) : String :=
  if parent = "" then key else parent ++ "." ++ key

def fieldsBelow (parent : String) : List String :=
  (knownFields.filterMap fun field =>
    if parent = "" then some field
    else ((parent ++ ".").toList.isPrefixOf? field.toList).map String.ofList).filter
    (!·.toList.contains '.')

mutual

def unknownFields (parent : String) : Node → List Finding
  | .table ms => ((unknownMembers parent ms).mergeSort fun a b => a.1 ≤ b.1).flatMap (·.2)
  | _ => []

def unknownMembers (parent : String) : List (Option String × Node) → List (String × List Finding)
  | [] => []
  | (name, n) :: ms =>
    let key := name.getD ""
    let path := pathBelow parent key
    let found :=
      if !knownFields.contains path then [.unknownField path (closest? key (fieldsBelow parent))]
      else if freeForm.contains path || Toml.isMoment n then []
      else unknownFields path n
    (key, found) :: unknownMembers parent ms

end

end Fields

section Values

def logLevels : List String := ["trace", "debug", "info", "warn", "error", "off"]

def isLogLevel (level : String) : Bool :=
  logLevels.contains (lowered (trimmed level)) || level.toList.contains '='

def timezoneFindings (path : String) (name : Option String) : List Finding :=
  match parseTimezone path name with
  | .ok _ => []
  | .error e => [.timezone path e]

def propertyFindings (key value : String) : List Finding :=
  if key = Properties.threadCount then
    match parseThreadCount value with
    | .ok 0 => [.zeroThreads (Finding.propertyPath key)]
    | .ok _ => []
    | .error fault => [.threadCount fault]
  else ((closest? key knownProperties).map (.unknownProperty key)).toList

def Config.findings (c : Config) : List Finding :=
  let t := c.trigger
  (if t.threadCount = 0 then [.zeroThreads "trigger.thread_count"] else []) ++
  (if blank t.schedulerName && !t.properties.contains Properties.instanceName then [.blankName]
    else []) ++
  timezoneFindings "trigger.timezone" t.timezone ++
  timezoneFindings "runner.timezone" c.runner.timezone ++
  t.properties.entries.flatMap (fun p => propertyFindings p.1 p.2) ++
  (if isLogLevel c.logging.level then [] else [.logLevel c.logging.level])

end Values

/-- A TOML document whose tables under the reserved name for dates and times can be taken for
such; this does not concern the document itself. -/
def soundToml? (s : String) : Option Node := do
  match ← Format.toml.read? s with
  | .table ms => if Toml.membersSound ms then some (.table ms) else none
  | n => some n

/-- What is wrong with a TOML text, taken as it stands. -/
def tomlFindings (s : String) : List Finding :=
  match soundToml? s with
  | none => [.malformed]
  | some n =>
    unknownFields "" n ++
      match Config.ofNode? .toml n with
      | some c => c.findings
      | none => [.mistyped]

structure Diagnosis where
  file : Option String
  findings : List Finding

namespace Diagnosis

def errors (d : Diagnosis) : List Finding := d.findings.filter (·.severity = .error)

def warnings (d : Diagnosis) : List Finding := d.findings.filter (·.severity = .warning)

def hasErrors (d : Diagnosis) : Bool := !d.errors.isEmpty

end Diagnosis

namespace Site

/-- What is wrong with a file. TOML files are looked at key by key, others are loaded. -/
def findings (site : Site) (path : String) : List Finding :=
  match site.disk.read path with
  | .error fault => [.unreadable fault]
  | .ok s =>
    if Format.ofExtension? (extension? path) = some .toml then tomlFindings s
    else
      match site.load path with
      | .ok c => c.findings
      | .error e => [.unloadable e]

/-- Looks at a given file, or else at the one that is found; that there is none is no
mistake. -/
def diagnose (site : Site) (path : Option String) : Diagnosis :=
  match path <|> site.file? with
  | none => ⟨none, []⟩
  | some path => ⟨some path, site.findings path⟩

end Site

end CronTasks
