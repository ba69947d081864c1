import CronTasks.Document.Yaml.Token

namespace CronTasks.Document.Yaml

def nothing : Node := .scalar (plainScalar [])

/-- A collection has text as a name only if it is written as one. -/
def nameOf : Node → Option String
  | .scalar s => s.text
  | _ => none

def endsValue : Token → Bool
  | .name | .value | .blockEnd => true
  | _ => false

def endsItem (loose : Bool) : Token → Bool
  | .item | .blockEnd => true
  | t => loose && endsValue t

def endsFlow : Token → Bool
  | .comma | .listEnd | .tableEnd => true
  | _ => false

def endsField (t : Token) : Bool := endsFlow t || t == .value

mutual

/-- A value. A sequence below a member's name need not be indented (`loose`). Values are
nested at most `n` deep. -/
def node (n : Nat) (loose : Bool) (ts : List Token) : Option (Node × List Token) :=
  match n with
  | 0 => none
  | n + 1 =>
    match ts with
    | .scalar s :: ts => some (.scalar s, ts)
    | .item :: ts => if loose then (items n true (.item :: ts)).map ofItems else none
    | .sequence :: ts => (items n false ts).map ofItems
    | .mapping :: ts => (members n ts).map ofMembers
    | .listStart :: ts => (elements n ts).map ofItems
    | .tableStart :: ts => (fields n ts).map ofMembers
    | _ => none
where
  ofItems (x : List Node × List Token) : Node × List Token := (.list x.1, x.2)
  ofMembers (x : List (Option String × Node) × List Token) : Node × List Token := (.table x.1, x.2)

def items (n : Nat) (loose : Bool) (ts : List Token) : Option (List Node × List Token) :=
  match n with
  | 0 => none
  | n + 1 =>
    match ts with
    | .item :: ts => do
      let (v, ts) ← if ts.head?.any (endsItem loose) then some (nothing, ts) else node n false ts
      let (vs, ts) ← items n loose ts
      some (v :: vs, ts)
    | .blockEnd :: ts => some ([], if loose then .blockEnd :: ts else ts)
    | ts => if loose then some ([], ts) else none

def members (n : Nat) (ts : List Token) : Option (List (Option String × Node) × List Token) :=
  match n with
  | 0 => none
  | n + 1 =>
    match ts with
    | .name :: ts => do
      let (name, ts) ← if ts.head?.any endsValue then some (nothing, ts) else node n true ts
      let (v, ts) ← match ts with
        | .value :: ts => if ts.head?.any endsValue then some (nothing, ts) else node n true ts
        | ts => some (nothing, ts)
      let (ms, ts) ← members n ts
      some ((nameOf name, v) :: ms, ts)
    | .blockEnd :: ts => some ([], ts)
    | _ => none

/-- Values with commas between them, up to the end of a list; a comma may come last. A
member that stands alone is a table, and has to have a name. -/
def elements (n : Nat) (ts : List Token) : Option (List Node × List Token) :=
  match n with
  | 0 => none
  | n + 1 =>
    match ts with
    | .listEnd :: ts => some ([], ts)
    | ts => do
      let (v, ts) ← match ts with
        | .name :: ts =>
          if ts.head?.any endsField then none
          else (field n ts).map fun x => (.table [x.1], x.2)
        | ts => node n false ts
      match ts with
      | .comma :: ts =>
        let (vs, ts) ← elements n ts
        some (v :: vs, ts)
      | .listEnd :: ts => some ([v], ts)
      | _ => none

def fields (n : Nat) (ts : List Token) : Option (List (Option String × Node) × List Token) :=
  match n with
  | 0 => none
  | n + 1 =>
    match ts with
    | .tableEnd :: ts => some ([], ts)
    | ts => do
      let (m, ts) ← match ts with
        | .name :: ts => field n ts
        | ts => (node n false ts).map fun x => ((nameOf x.1, nothing), x.2)
      match ts with
      | .comma :: ts =>
        let (ms, ts) ← fields n ts
        some (m :: ms, ts)
      | .tableEnd :: ts => some ([m], ts)
      | _ => none

def field (n : Nat) (ts : List Token) : Option ((Option String × Node) × List Token) :=
  match n with
  | 0 => none
  | n + 1 => do
    let (name, ts) ← if ts.head?.any endsField then some (nothing, ts) else node n false ts
    let (v, ts) ← match ts with
      | .value :: ts => if ts.head?.any endsFlow then some (nothing, ts) else node n false ts
      | ts => some (nothing, ts)
    some ((nameOf name, v), ts)

end

def document? (ts : List Token) : Option Node := do
  let depth := 3 * ts.length + 3
  let (v, rest) ← match ts with
    | [] => some (nothing, [])
    | .documentStart :: ts =>
      match ts with
      | [] | .documentStart :: _ | .documentEnd :: _ => some (nothing, ts)
      | ts => node depth false ts
    | ts => node depth false ts
  if rest.all (· == .documentEnd) then some v else none

def read? (cs : List Char) : Option Node :=
  if cs.all isPrintable then (Scan.start cs).tokens?.bind document? else none

end CronTasks.Document.Yaml
