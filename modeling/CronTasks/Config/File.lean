import CronTasks.Config.Decode
import CronTasks.Config.Environment
import CronTasks.Text.Placeholder

namespace CronTasks

open Document

inductive Content
  | text (s : String)
  /-- Bytes that are no text. -/
  | binary
  | folder
  deriving DecidableEq

inductive ReadFault
  | missing
  | notText
  | folder
  deriving DecidableEq

def ReadFault.message : ReadFault → String
  | .missing => "No such file or directory (os error 2)"
  | .notText => "stream did not contain valid UTF-8"
  | .folder => "Is a directory (os error 21)"

abbrev Disk := Table String Content

def Disk.read (d : Disk) (path : String) : Except ReadFault String :=
  match d.get? path with
  | some (.text s) => .ok s
  | some .binary => .error .notText
  | some .folder => .error .folder
  | none => .error .missing

/-- What stands behind the last point of a file's name. A point at the beginning of a name
does not count. -/
def extension? (path : String) : Option String :=
  let name := path.toList.reverse.takeWhile (· ≠ '/')
  match name.dropWhile (· ≠ '.') with
  | [] | ['.'] => none
  | _ => some (String.ofList (name.takeWhile (· ≠ '.')).reverse)

def Document.Format.ofExtension? : Option String → Option Format
  | none | some "toml" => some .toml
  | some "yaml" | some "yml" => some .yaml
  | some "json" => some .json
  | some _ => none

inductive LoadError
  | unreadable (path : String) (fault : ReadFault)
  | unsupported (extension : String)
  | malformed (format : Format)
  deriving DecidableEq

def LoadError.message : LoadError → String
  | .unreadable path fault => "failed to read " ++ path ++ ": " ++ fault.message
  | .unsupported extension => "unsupported config format: ." ++ extension
  | .malformed .toml => "not a TOML configuration"
  | .malformed .yaml => "not a YAML configuration"
  | .malformed .json => "not a JSON configuration"

/-- Where a program runs: files, variables, and the user's folder for configurations. -/
structure Site where
  disk : Disk
  env : Environment
  folder : Option String

namespace Site

def parse (site : Site) (path s : String) : Except LoadError Config :=
  match Format.ofExtension? (extension? path) with
  | none => .error (.unsupported ((extension? path).getD ""))
  | some f =>
    match Config.read? f (Text.substitute site.env s) with
    | some c => .ok c
    | none => .error (.malformed f)

def load (site : Site) (path : String) : Except LoadError Config :=
  match site.disk.read path with
  | .error fault => .error (.unreadable path fault)
  | .ok s => site.parse path s

def fileNames : List String :=
  ["cronrepo.toml", "cronrepo.yaml", "cronrepo.yml", "cronrepo.json"]

/-- Where files are looked for: here, and then in the user's folder. -/
def candidates (site : Site) : List String :=
  fileNames ++
    match site.folder with
    | none => []
    | some folder => fileNames.map (folder ++ "/" ++ ·)

def file? (site : Site) : Option String := site.candidates.find? (site.disk.contains ·)

def config (site : Site) : Config :=
  site.env.override (((site.file?).bind fun path => (site.load path).toOption).getD {})

end Site

end CronTasks
