import CronTasks.Proofs.Cron.Instants
import CronTasks.Proofs.Outcome
import CronTasks.Proofs.Table
import CronTasks.Runner.Engine

namespace CronTasks

open Calendar Cron

def Cron.Pattern.Panics (p : Pattern) (now : Instant) : Prop :=
  now.hasNextSecond = false ∧ p.alternatives ≠ []

theorem Cron.Pattern.next?_of_panics {p : Pattern} {now : Instant} (h : p.Panics now)
    (zone : Option Zone) : p.next? now zone = .error .overflow :=
  p.next?_of_not_hasNextSecond h.2 now zone h.1

theorem Cron.Pattern.next?_of_not_panics {p : Pattern} {now : Instant} (h : ¬ p.Panics now)
    (zone : Option Zone) : p.next? now zone = .ok (p.search? now zone) := by
  cases hn : now.hasNextSecond with
  | true => exact p.next?_of_hasNextSecond now zone hn
  | false =>
    have ha : p.alternatives = [] := by
      by_contra hne
      exact h ⟨hn, hne⟩
    simp [next?, search?, ha]
    rfl

theorem Cron.Pattern.search?_of_next? {p : Pattern} {now : Instant} {zone : Option Zone}
    {o : Option Instant} (h : p.next? now zone = .ok o) : p.search? now zone = o := by
  by_cases hp : p.Panics now
  · cases (next?_of_panics hp zone).symm.trans h
  · exact Except.ok.inj ((next?_of_not_panics hp zone).symm.trans h)

namespace Runner

namespace Entry

def untimed (x : Entry) : Pattern × Work := (x.pattern, x.work)

def refresh (zone : Option Zone) (now : Instant) (x : Entry) : Entry :=
  { x with nextFire := x.pattern.search? now zone }

def advance (zone : Option Zone) (now : Instant) (x : Entry) : Entry :=
  if x.due now then x.refresh zone now else x

/-- An entry that is due, and for which nothing can be searched. -/
def Jammed (now : Instant) (x : Entry) : Prop := x.due now = true ∧ x.pattern.Panics now

theorem untimed_advance (zone : Option Zone) (now : Instant) (x : Entry) :
    (x.advance zone now).untimed = x.untimed := by
  unfold advance
  split <;> rfl

end Entry

/-- Tables with the same entries, but for their fire times. -/
def Retimed (t t' : Table String Entry) : Prop :=
  (t'.map fun x => (x.1, x.2.untimed)) = t.map fun x => (x.1, x.2.untimed)

namespace Retimed

variable {t t' : Table String Entry}

theorem of_map (t : Table String Entry) (f : Entry → Entry) (hf : ∀ x, (f x).untimed = x.untimed) :
    Retimed t (t.map fun x => (x.1, f x.2)) := by
  unfold Retimed
  rw [List.map_map]
  exact List.map_congr_left fun x _ => congrArg (x.1, ·) (hf x.2)

theorem of_append (before after : Table String Entry) (ht : t = before ++ after) (f : Entry → Entry)
    (hf : ∀ x, (f x).untimed = x.untimed) :
    Retimed t (before.map (fun x => (x.1, f x.2)) ++ after) := by
  unfold Retimed
  rw [ht, List.map_append, List.map_append]
  exact congrArg (· ++ _) (of_map before f hf)

theorem keys_eq (h : Retimed t t') : t'.keys = t.keys := by
  have hk := congrArg (List.map Prod.fst) h
  rwa [List.map_map, List.map_map] at hk

theorem get?_eq (h : Retimed t t') (id : String) :
    (t'.get? id).map Entry.untimed = (t.get? id).map Entry.untimed := by
  have hg (t : Table String Entry) : (t.get? id).map Entry.untimed =
      Table.get? (t.map fun x => (x.1, x.2.untimed)) id := by
    rw [Table.get?_map]
    exact fun _ => rfl
  rw [hg, hg, h]

end Retimed

namespace Engine

/-- A call on an engine, or a tick of its timer. -/
inductive Call
  | schedule (host : Host) (pattern : Pattern) (work : Work)
  | reschedule (host : Host) (id : String) (pattern : Pattern)
  | deschedule (id : String)
  | start (host : Host)
  | stop
  | acquire (now : Instant)

def call (e : Engine) : Call → List Launch × Engine
  | .schedule host pattern work => ([], (e.schedule host pattern work).2)
  | .reschedule host id pattern => ([], (e.reschedule host id pattern).2)
  | .deschedule id => ([], (e.deschedule id).2)
  | .start host => ([], (e.start host).2)
  | .stop => ([], e.stop.2)
  | .acquire now =>
    match e.acquire now with
    | (.error _, e) => ([], { e with timer := false })
    | (.ok fired, e) => (fired, e)

def calls (e : Engine) : List Call → List Launch × Engine
  | [] => ([], e)
  | c :: cs => ((e.call c).1 ++ ((e.call c).2.calls cs).1, ((e.call c).2.calls cs).2)

def Reachable (e : Engine) : Prop := ∃ zone cs, e = ((new zone).calls cs).2

def refreshed (e : Engine) (now : Instant) : Table String Entry :=
  e.entries.map fun x => (x.1, x.2.refresh e.zone now)

def advanced (e : Engine) (now : Instant) : Table String Entry :=
  e.entries.map fun x => (x.1, x.2.advance e.zone now)

def due (e : Engine) (now : Instant) : List Launch :=
  (e.entries.filter fun x => x.2.due now).map fun x => ⟨some x.1, x.2.work, now⟩

def Jammed (e : Engine) (now : Instant) : Prop := ∃ x ∈ e.entries, x.2.Jammed now

theorem retimed_refreshed (e : Engine) (now : Instant) : Retimed e.entries (e.refreshed now) :=
  .of_map _ _ fun _ => rfl

theorem retimed_advanced (e : Engine) (now : Instant) : Retimed e.entries (e.advanced now) :=
  .of_map _ _ (Entry.untimed_advance e.zone now)

theorem search_cases (e : Engine) (host : Host) (p : Pattern) (hp : p.alternatives ≠ []) :
    (host.searches = false ∧ ∃ err, e.search host p = .error err) ∨
      (host.searches = true ∧ e.search host p = .ok (p.search? host.clock e.zone)) := by
  have hs := host.searches_iff
  unfold search
  cases hn : host.now with
  | error err =>
    rw [hn] at hs
    exact .inl ⟨Bool.eq_false_iff.mpr fun h => by simp [h] at hs, err, rfl⟩
  | ok now =>
    obtain ⟨-, -, rfl⟩ := (host.now_eq_ok_iff now).mp hn
    rw [hn] at hs
    simp only [bind, Except.bind, p.next?_eq hp]
    cases h : host.clock.hasNextSecond with
    | true => exact .inr ⟨hs.mpr ⟨rfl, h⟩, rfl⟩
    | false => exact .inl ⟨Bool.eq_false_iff.mpr fun h' => by simp [h, h'] at hs, .overflow, rfl⟩

/-- All that a start can come to. It searches anew for every entry, unless it is refused or panics. -/
theorem start_cases (e : Engine) (host : Host) :
    (∃ err, e.start host = (.error (.error err), e) ∧ (err = .alreadyStarted → e.running = true)) ∨
      (e.running = false ∧ ∃ p timer entries, Retimed e.entries entries ∧
        (timer = true → e.timer = true) ∧
        e.start host = (.error (.panic p), { e with running := true, timer, entries })) ∨
      (host.runtime = true ∧ e.running = false ∧ ∃ now, host.now = .ok now ∧ e.start host =
        (.ok (), { e with running := true, timer := true, entries := e.refreshed now })) := by
  unfold start
  cases hr : host.runtime with
  | false => exact .inl ⟨_, rfl, nofun⟩
  | true =>
    cases hrun : e.running with
    | true => exact .inl ⟨_, rfl, fun _ => rfl⟩
    | false =>
      cases hn : host.now with
      | error p => exact .inr (.inl ⟨rfl, p, e.timer, e.entries, rfl, id, rfl⟩)
      | ok now =>
        obtain ⟨-, hp⟩ | ⟨before, x, after, he, -, -, hp⟩ := e.entries.pass_cases
          (Entry.renewed e.zone now) (fun x => x.pattern.Panics now) (Entry.refresh e.zone now)
          .overflow
          (fun x _ h => by rw [Entry.renewed, Pattern.next?_of_not_panics h]; rfl)
          (fun x _ h => by rw [Entry.renewed, Pattern.next?_of_panics h]; rfl)
        · refine .inr (.inr ⟨rfl, rfl, now, rfl, ?_⟩)
          simp only [hp, List.append_nil]
          rfl
        · have hr := Retimed.of_append before (x :: after) he (Entry.refresh e.zone now) fun _ => rfl
          refine .inr (.inl ⟨rfl, .overflow, false, _, hr, nofun, ?_⟩)
          simp only [hp]
          rfl

theorem acquire_eq (e : Engine) (now : Instant) :
    (e.Jammed now ∧ ∃ entries, Retimed e.entries entries ∧
        e.acquire now = (.error .overflow, { e with entries })) ∨
      (¬ e.Jammed now ∧ e.acquire now = (.ok (e.due now), { e with entries := e.advanced now })) := by
  obtain ⟨hfree, hp⟩ | ⟨before, x, after, he, -, hx, hp⟩ := e.entries.pass_cases
    (fun x => if x.due now then x.renewed e.zone now else .ok x) (Entry.Jammed now)
    (Entry.advance e.zone now) .overflow
    (fun x _ h => by
      unfold Entry.advance
      split
      next hd => rw [Entry.renewed, Pattern.next?_of_not_panics fun hp => h ⟨hd, hp⟩]; rfl
      next => rfl)
    (fun x _ h => by rw [if_pos h.1, Entry.renewed, Pattern.next?_of_panics h.2]; rfl)
  · refine .inr ⟨?_, ?_⟩
    · rintro ⟨x, hm, hj⟩
      exact hfree x hm hj
    · simp only [acquire, hp, List.append_nil]
      rfl
  · have hr := Retimed.of_append before (x :: after) he (Entry.advance e.zone now)
      (Entry.untimed_advance e.zone now)
    refine .inl ⟨⟨x, by simp [he], hx⟩, _, hr, ?_⟩
    simp only [acquire, hp]
    rfl

/-- A tick launches and moves what is due, or its search panics and it launches nothing. -/
theorem acquire_cases (e : Engine) (now : Instant) :
    (e.Jammed now ∧ ∃ entries, Retimed e.entries entries ∧
        e.call (.acquire now) = ([], { e with timer := false, entries })) ∨
      (¬ e.Jammed now ∧
        e.call (.acquire now) = (e.due now, { e with entries := e.advanced now })) := by
  obtain ⟨hj, entries, hr, ha⟩ | ⟨hj, ha⟩ := e.acquire_eq now
  · exact .inl ⟨hj, entries, hr, by simp only [call, ha]⟩
  · exact .inr ⟨hj, by simp only [call, ha]⟩

theorem schedule_cases (e : Engine) (host : Host) (p : Pattern) (hp : p.alternatives ≠ [])
    (work : Work) :
    (host.searches = false ∧ ∃ err, e.schedule host p work = (.error err, e)) ∨
      (host.searches = true ∧ e.schedule host p work = (.ok (e.ids e.issued), { e with
        entries := e.entries.put (e.ids e.issued) ⟨p, work, p.search? host.clock e.zone⟩
        issued := e.issued + 1 })) := by
  unfold schedule
  obtain ⟨hs, err, he⟩ | ⟨hs, ho⟩ := e.search_cases host p hp
  · exact .inl ⟨hs, err, by rw [he]⟩
  · exact .inr ⟨hs, by rw [ho]⟩

theorem schedule_eq_ok_iff (e e' : Engine) (host : Host) (p : Pattern) (hp : p.alternatives ≠ [])
    (work : Work) (id : String) : e.schedule host p work = (.ok id, e') ↔
      host.searches = true ∧ id = e.ids e.issued ∧
        e' = { e with
          entries := e.entries.put id ⟨p, work, p.search? host.clock e.zone⟩
          issued := e.issued + 1 } := by
  obtain ⟨hs, err, he⟩ | ⟨hs, ho⟩ := e.schedule_cases host p hp work
  · simp [hs, he]
  · rw [ho, hs, Prod.mk.injEq, Except.ok.injEq]
    constructor
    · rintro ⟨rfl, rfl⟩
      exact ⟨rfl, rfl, rfl⟩
    · rintro ⟨-, rfl, rfl⟩
      exact ⟨rfl, rfl⟩

theorem reschedule_cases (e : Engine) (host : Host) (id : String) (p : Pattern)
    (hp : p.alternatives ≠ []) :
    (host.searches = false ∧ ∃ err, e.reschedule host id p = (.error err, e)) ∨
      (host.searches = true ∧ e.entries.get? id = none ∧
        e.reschedule host id p = (.ok false, e)) ∨
      (host.searches = true ∧ ∃ entry, e.entries.get? id = some entry ∧
        e.reschedule host id p = (.ok true, { e with
          entries := e.entries.put id
            { entry with pattern := p, nextFire := p.search? host.clock e.zone } })) := by
  unfold reschedule
  obtain ⟨hs, err, he⟩ | ⟨hs, ho⟩ := e.search_cases host p hp
  · exact .inl ⟨hs, err, by rw [he]⟩
  · rw [ho]
    cases hg : e.entries.get? id with
    | none => exact .inr (.inl ⟨hs, rfl, rfl⟩)
    | some entry => exact .inr (.inr ⟨hs, entry, rfl, rfl⟩)

theorem reschedule_eq_ok_iff (e e' : Engine) (host : Host) (id : String) (p : Pattern)
    (hp : p.alternatives ≠ []) : e.reschedule host id p = (.ok true, e') ↔
      host.searches = true ∧ ∃ entry, e.entries.get? id = some entry ∧
        e' = { e with
          entries := e.entries.put id
            { entry with pattern := p, nextFire := p.search? host.clock e.zone } } := by
  obtain ⟨hs, err, he⟩ | ⟨hs, hg, hr⟩ | ⟨hs, entry, hg, hr⟩ := e.reschedule_cases host id p hp
  · simp [hs, he]
  · simp [hs, hg, hr]
  · simp [hs, hg, hr, eq_comm]

theorem nodup_call (e : Engine) (h : e.entries.keys.Nodup) (c : Call) :
    (e.call c).2.entries.keys.Nodup := by
  cases c with
  | schedule host pattern work =>
    simp only [call, schedule]
    split
    · exact h
    · exact Table.nodup_keys_put e.entries h _ _
  | reschedule host id pattern =>
    simp only [call, reschedule]
    split
    · exact h
    · cases e.entries.get? id with
      | none => exact h
      | some entry => exact Table.nodup_keys_put e.entries h _ _
  | deschedule id => exact h.sublist (List.filter_sublist.map _)
  | start host =>
    obtain ⟨_, hs, -⟩ | ⟨-, _, _, _, hr, -, hs⟩ | ⟨-, -, now, -, hs⟩ := e.start_cases host
    · simpa only [call, hs] using h
    · simpa only [call, hs, hr.keys_eq] using h
    · simpa only [call, hs, (e.retimed_refreshed now).keys_eq] using h
  | stop =>
    simp only [call, stop]
    split <;> exact h
  | acquire now =>
    obtain ⟨-, _, hr, hc⟩ | ⟨-, hc⟩ := e.acquire_cases now
    · simpa only [hc, hr.keys_eq] using h
    · simpa only [hc, (e.retimed_advanced now).keys_eq] using h

theorem Reachable.nodup {e : Engine} (h : e.Reachable) : e.entries.keys.Nodup := by
  obtain ⟨zone, cs, rfl⟩ := h
  suffices hs : ∀ e : Engine, e.entries.keys.Nodup → (e.calls cs).2.entries.keys.Nodup from
    hs (new zone) List.nodup_nil
  induction cs with
  | nil => exact fun e he => he
  | cons c cs ih => exact fun e he => ih (e.call c).2 (e.nodup_call he c)

/-- A tick launches an entry once if it is due, and not otherwise. -/
theorem due_filter (e : Engine) (h : e.entries.keys.Nodup) (now : Instant) (id : String) :
    (e.due now).filter (·.taskId == some id) =
      ((e.entries.get? id).filter (·.due now)).toList.map fun x => ⟨some id, x.work, now⟩ := by
  have hf := Table.filter_eq_toList_find? e.entries (·.1) h id
  simp only [due, List.filter_map, List.filter_filter, Function.comp_def]
  have hswap : (e.entries.filter fun x => (some x.1 == some id) && x.2.due now) =
      (e.entries.filter (·.1 == id)).filter fun x => x.2.due now := by
    rw [List.filter_filter]
    exact List.filter_congr fun x _ => by simp [Bool.and_comm]
  rw [hswap, hf, Table.find?_key]
  cases e.entries.get? id with
  | none => rfl
  | some x => by_cases hx : x.due now = true <;> simp [hx, Option.filter]

/-- An engine that differs from another in who listens and in the journal, if at all. -/
def Aside (e e' : Engine) : Prop := ∃ audience journal, e' = { e with audience, journal }

instance : Std.Refl Aside := ⟨fun _ => ⟨_, _, rfl⟩⟩

instance : IsTrans Engine Aside where
  trans := by
    rintro e _ _ ⟨_, _, rfl⟩ ⟨audience, journal, rfl⟩
    exact ⟨audience, journal, rfl⟩

theorem tell_aside (relay : Act (Audience × Journal)) (note : String → Event)
    (own : LaunchListener → Outcome) (l : LaunchListener) : (tell relay note own l).Within Aside := by
  intro e
  cases l with
  | bridge => exact ⟨_, _, rfl⟩
  | idle => exact Std.Refl.refl e
  | watcher => exact ⟨_, _, rfl⟩

theorem tellAll_aside (relay : Act (Audience × Journal)) (note : String → Event)
    (own : LaunchListener → Outcome) : (tellAll relay note own).Within Aside :=
  fun e => Act.Within.each_isolated (tell_aside relay note own) e.listeners e

/-- Whatever becomes of a launch and of those who hear of it, no entry is touched. -/
theorem run_aside (l : Launch) : (run l).Within Aside := by
  refine Act.Within.andThen (tellAll_aside _ _ _) fun e => ?_
  have hrun : e.Aside { e with journal := (l.work.run e.journal).2 } := ⟨_, _, rfl⟩
  dsimp only
  split
  · exact IsTrans.trans _ _ _ hrun (tellAll_aside _ _ _ _)
  · exact IsTrans.trans _ _ _ hrun (tellAll_aside _ _ _ _)

end Engine

end Runner

end CronTasks
