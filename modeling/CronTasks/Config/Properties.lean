import CronTasks.Table

namespace CronTasks

/-- Free-form properties: texts under keys, in the order of the keys. -/
structure Properties where
  entries : Table String String
  ascending : entries.keys.Pairwise (· < ·)
  deriving DecidableEq

namespace Properties

def empty : Properties := ⟨[], .nil⟩

def get? (ps : Properties) (key : String) : Option String := ps.entries.get? key

def contains (ps : Properties) (key : String) : Bool := ps.entries.contains key

def insert (key value : String) : Table String String → Table String String
  | [] => [(key, value)]
  | p :: ps =>
    if key < p.1 then (key, value) :: p :: ps
    else if key = p.1 then (key, value) :: ps
    else p :: insert key value ps

theorem mem_keys_insert {key value k : String} {ps : Table String String}
    (h : k ∈ (insert key value ps).keys) : k = key ∨ k ∈ ps.keys := by
  induction ps with
  | nil => simpa [insert, Table.keys] using h
  | cons p ps ih => grind [insert, Table.keys]

theorem insert_ascending (key value : String) {ps : Table String String}
    (h : ps.keys.Pairwise (· < ·)) : (insert key value ps).keys.Pairwise (· < ·) := by
  induction ps with
  | nil => simp [insert, Table.keys]
  | cons p ps ih =>
    obtain ⟨above, rest⟩ := List.pairwise_cons.mp h
    rw [insert]
    split
    case isTrue before =>
      refine List.pairwise_cons.mpr ⟨fun k hk => ?_, h⟩
      obtain rfl | hk := List.mem_cons.mp hk
      · exact before
      · exact String.lt_trans before (above k hk)
    case isFalse notBefore =>
      split
      case isTrue same => exact List.pairwise_cons.mpr ⟨same ▸ above, rest⟩
      case isFalse other =>
        refine List.pairwise_cons.mpr ⟨fun k hk => ?_, ih rest⟩
        obtain rfl | hk := mem_keys_insert hk
        · grind
        · exact above k hk

def set (ps : Properties) (key value : String) : Properties :=
  ⟨insert key value ps.entries, insert_ascending key value ps.ascending⟩

def erase (ps : Properties) (key : String) : Properties :=
  ⟨ps.entries.erase key, ps.ascending.sublist (List.filter_sublist.map _)⟩

/-- Of several values of a key the last one counts. -/
def ofList (entries : List (String × String)) : Properties :=
  entries.foldl (fun ps e => ps.set e.1 e.2) .empty

def instanceName : String := "scheduler.instanceName"

def threadCount : String := "threadPool.threadCount"

end Properties

end CronTasks
