import CronTasks.Proofs.Listeners
import Mathlib.Data.List.Count

namespace CronTasks

/-- Whether an event is a matter of tasks and cron listeners. -/
def Event.inCourse : Event → Bool
  | .built .. | .called .. | .ran _ | .cron .. => true
  | .toBeExecuted .. | .wasExecuted .. | .launch .. => false

def Event.isRun : Event → Bool
  | .called .. | .ran _ => true
  | _ => false

def Event.isCompletion : Event → Bool
  | .cron _ .before _ => false
  | .cron .. => true
  | _ => false

def Journal.course (j : Journal) : Journal := j.filter Event.inCourse

theorem Journal.course_append (j k : Journal) : course (j ++ k) = j.course ++ k.course :=
  List.filter_append j k

theorem Journal.course_hooked (names : List String) (firing : Firing) (hook : Hook) :
    course (hooked names firing hook) = hooked names firing hook := by
  refine List.filter_eq_self.mpr fun x hx => ?_
  obtain ⟨name, -, rfl⟩ := List.mem_map.mp hx
  rfl

theorem Journal.course_completed (names : List String) (firing : Firing) (ending : Ending) :
    course (completed names firing ending) = completed names firing ending := by
  rw [completed, course_append, course_hooked, course_hooked]

theorem Journal.course_flatMap {α : Type} [DecidableEq α] (as : List α) (speaker : α)
    (own : α → List Event) (hs : course (own speaker) = own speaker)
    (ho : ∀ a, a ≠ speaker → course (own a) = []) :
    course (as.flatMap own) = (List.replicate (as.count speaker) (own speaker)).flatten := by
  induction as with
  | nil => rfl
  | cons a as ih =>
    rw [List.flatMap_cons, course_append, ih]
    by_cases ha : a = speaker
    · rw [ha, hs, List.count_cons_self, List.replicate_succ, List.flatten_cons]
    · rw [ho a ha, List.count_cons_of_ne ha, List.nil_append]

/-- All listeners of an engine add their own, and where one of them speaks for the cron listeners,
the course has what it says, once. -/
theorem Journal.exists_added {α σ : Type} [DecidableEq α] (tell : α → Act σ) (state : Journal → σ)
    (own : α → List Event) (speaker : α)
    (ht : ∀ a journal, (tell a (state journal)).2 = state (journal ++ own a))
    (hs : course (own speaker) = own speaker) (ho : ∀ a, a ≠ speaker → course (own a) = [])
    (as : List α) (journal : Journal) : ∃ added,
      Act.each (fun a => (tell a).isolated) as (state journal) =
        (.success, state (journal ++ added)) ∧
      (as.count speaker = 1 → course added = own speaker) := by
  refine ⟨as.flatMap own,
    Act.each_isolated_appends tell state own as (fun a _ => ht a) journal, fun hc => ?_⟩
  rw [course_flatMap as speaker own hs ho, hc]
  exact List.append_nil _

def Outcome.ending (subject : String) (words : Failure → String) (o : Outcome) : Ending :=
  match o.caught subject with
  | .ok () => .succeeded
  | .error e => .failed (words e)

/-- From one journal to the other all of a list are told before a task, the task is run once, and
all are told how it ended, and then that it is over. -/
def Follows (names : List String) (firing : Firing) (task : Journal → Outcome × Journal)
    (ending : Outcome → Ending) (before after : Journal) : Prop :=
  ∃ (reached : Journal) (outcome : Outcome) (run : Event),
    reached.course = before.course ++ hooked names firing .before ∧
      task reached = (outcome, reached ++ [run]) ∧ run.isRun = true ∧
      after.course = reached.course ++ run :: completed names firing (ending outcome)

theorem Follows.of_added {names : List String} {firing : Firing}
    {task : Journal → Outcome × Journal} {ending : Outcome → Ending} (before told later : Journal)
    (outcome : Outcome) (run : Event) (ht : Journal.course told = hooked names firing .before)
    (htask : task (before ++ told) = (outcome, before ++ told ++ [run])) (hr : run.isRun = true)
    (hl : Journal.course later = completed names firing (ending outcome)) :
    Follows names firing task ending before (before ++ told ++ [run] ++ later) := by
  have hrun : Journal.course [run] = [run] := by
    cases run <;> first | rfl | cases hr
  refine ⟨before ++ told, outcome, run, ?_, htask, hr, ?_⟩
  · rw [Journal.course_append, ht]
  · rw [Journal.course_append, Journal.course_append, hrun, hl, List.append_assoc,
      List.singleton_append]

/-- From one journal to the other all of a list are told, each once, how a firing ended, and then
that it is over; whatever else there was came before. -/
def Reported (names : List String) (firing : Firing) (before after : Journal) : Prop :=
  ∃ earlier ending, (∀ x ∈ earlier, x.isCompletion = false) ∧
    after.course = before.course ++ earlier ++ completed names firing ending

theorem Follows.reported {names : List String} {firing : Firing}
    {task : Journal → Outcome × Journal} {ending : Outcome → Ending} {before after : Journal}
    (h : Follows names firing task ending before after) : Reported names firing before after := by
  obtain ⟨reached, outcome, run, hb, -, hr, ha⟩ := h
  refine ⟨hooked names firing .before ++ [run], ending outcome, fun x hx => ?_, ?_⟩
  · obtain hx | hx := List.mem_append.mp hx
    · obtain ⟨name, -, rfl⟩ := List.mem_map.mp hx
      rfl
    · obtain rfl := List.mem_singleton.mp hx
      cases x <;> first | rfl | cases hr
  · rw [ha, hb]
    simp

theorem reported_iff_of_quiet (names : List String) (firing : Firing) (before after : Journal)
    (quiet : List Event) (hq : ∀ x ∈ quiet, x.isCompletion = false)
    (h : after.course = before.course ++ quiet) :
    Reported names firing before after ↔ names = [] := by
  constructor
  · rintro ⟨earlier, ending, -, ha⟩
    rw [h, List.append_assoc, List.append_cancel_left_eq] at ha
    cases names with
    | nil => rfl
    | cons name names =>
      have hmem : Event.cron name (.after ending) firing ∈ quiet := by
        simp [ha, completed, hooked]
      cases hq _ hmem
  · rintro rfl
    exact ⟨quiet, .succeeded, hq, by simp [h, completed, hooked]⟩

end CronTasks
