import CronTasks.Text.Shapeless

namespace CronTasks.Text

def shownAs : Char → List Char
  | '"' => ['\\', '"']
  | '\\' => ['\\', '\\']
  | '\n' => ['\\', 'n']
  | '\r' => ['\\', 'r']
  | '\t' => ['\\', 't']
  | '\x00' => ['\\', '0']
  | c => if isShapeless c then '\\' :: 'u' :: '{' :: Nat.toDigits 16 c.toNat ++ ['}'] else [c]

def quoted (s : String) : String :=
  String.ofList ('"' :: s.toList.flatMap shownAs ++ ['"'])

def shownOption : Option String → String
  | none => "None"
  | some s => "Some(" ++ s ++ ")"

def shownTuple (name value : String) : String := name ++ "(" ++ value ++ ")"

/-- A record as it is shown; `.partly` records have fields that are left out. -/
inductive Completeness
  | wholly
  | partly

def shownRecord (name : String) (fields : List (String × String)) : Completeness → String
  | .wholly => name ++ " \x7b " ++ shownFields ++ " \x7d"
  | .partly => name ++ " \x7b " ++ shownFields ++ ", .. \x7d"
where
  shownFields := String.intercalate ", " (fields.map fun f => f.1 ++ ": " ++ f.2)

end CronTasks.Text
