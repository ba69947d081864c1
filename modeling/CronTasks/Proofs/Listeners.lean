import CronTasks.Listeners
import CronTasks.Proofs.Outcome
import CronTasks.Proofs.Table

namespace CronTasks

theorem Listeners.toList_empty {α : Type} : (empty : Listeners α).toList = [] := rfl

theorem Listeners.mem_toList_add {α : Type} (ls : Listeners α) (order : Option Int) (a b : α) :
    b ∈ (ls.add order a).toList ↔ b = a ∨ b ∈ ls.toList := by
  -- the new one stands between those that precede it and the rest
  have hmap : (ls.add order a).toList =
      (ls.additions.takeWhile (·.precedes ⟨order, ls.count, a⟩)).map (·.listener) ++
        a :: (ls.additions.dropWhile (·.precedes ⟨order, ls.count, a⟩)).map (·.listener) := by
    simp [add, toList]
  rw [hmap, List.mem_append, List.mem_cons, or_left_comm, ← List.mem_append, ← List.map_append,
    List.takeWhile_append_dropWhile]
  rfl

theorem Listeners.toList_remove_sublist {α : Type} [BEq α] (ls : Listeners α) (a : α) :
    (ls.remove a).toList.Sublist ls.toList :=
  List.filter_sublist.map _

/-- A listener whose hooks only come to outcomes, and change nobody's place. -/
def CronListener.Plain (l : CronListener) : Prop := ∀ hook, ∃ o, l.reaction hook = .outcome o

/-- What is noted when all of a list are told something about a firing. -/
def hooked (names : List String) (firing : Firing) (hook : Hook) : List Event :=
  names.map fun name => .cron name hook firing

def completed (names : List String) (firing : Firing) (ending : Ending) : List Event :=
  hooked names firing ending.hook ++ hooked names firing (.after ending)

namespace Audience

/-- All who listen are known, and all who are known are plain. -/
structure Steady (a : Audience) : Prop where
  known : ∀ name ∈ a.listening.toList, ∃ l, a.known.get? name = some l
  plain : ∀ name l, a.known.get? name = some l → l.Plain

theorem steady_empty : empty.Steady :=
  ⟨by simp [empty, Listeners.toList_empty], by rintro _ _ ⟨⟩⟩

namespace Steady

variable {a : Audience}

theorem introduce (h : a.Steady) (name : String) (l : CronListener) (hl : l.Plain) :
    (a.introduce name l).Steady := by
  unfold Audience.introduce
  split
  · exact h
  · constructor
    · intro j hj
      dsimp only
      rw [Table.get?_put]
      split
      · exact ⟨_, rfl⟩
      · exact h.known j hj
    · intro j k hk
      dsimp only at hk
      rw [Table.get?_put] at hk
      split at hk
      · cases hk
        exact hl
      · exact h.plain j k hk

theorem add (h : a.Steady) (name : String) : (a.add name).Steady := by
  unfold Audience.add
  split
  · exact h
  next l hl =>
    refine ⟨fun j hj => ?_, h.plain⟩
    obtain rfl | hj := (Listeners.mem_toList_add _ _ _ _).mp hj
    · exact ⟨l, hl⟩
    · exact h.known j hj

theorem remove (h : a.Steady) (name : String) : (a.remove name).2.Steady :=
  ⟨fun j hj => h.known j ((a.listening.toList_remove_sublist name).subset hj), h.plain⟩

theorem tell (h : a.Steady) (hook : Hook) (firing : Firing) (name : String)
    (hn : name ∈ a.listening.toList) (journal : Journal) :
    (Audience.tell hook firing name (a, journal)).2 = (a, journal ++ [.cron name hook firing]) := by
  obtain ⟨l, hl⟩ := h.known name hn
  obtain ⟨o, ho⟩ := h.plain name l hl hook
  simp only [Audience.tell, hl, ho, react]

theorem dispatch (h : a.Steady) (hook : Hook) (firing : Firing) (journal : Journal) :
    Audience.dispatch hook firing (a, journal) =
      (.success, a, journal ++ hooked a.listening.toList firing hook) := by
  have hn := Act.each_isolated_appends (Audience.tell hook firing) (fun j => (a, j))
    (fun name => [.cron name hook firing]) a.listening.toList (h.tell hook firing) journal
  rwa [← List.map_eq_flatMap] at hn

theorem dispatchCompleted (h : a.Steady) (ending : Ending) (firing : Firing) (journal : Journal) :
    Audience.dispatchCompleted ending firing (a, journal) =
      (.success, a, journal ++ completed a.listening.toList firing ending) := by
  rw [Audience.dispatchCompleted, Act.andThen_of_success _ (h.dispatch ending.hook firing journal),
    h.dispatch, completed, List.append_assoc]

end Steady

end Audience

end CronTasks
