import CronTasks.Proofs.Key
import CronTasks.Proofs.Trigger.Passes
import CronTasks.Trigger.Engine

namespace CronTasks.Trigger

open Calendar Cron

def Threads.single : Threads := ⟨1, le_rfl, by decide⟩

namespace Store

def resumed (s : Store) (now : Instant) : Store := (s.alter (Pending.resume? now)).dropIdle

def firing? (s : Store) (now : Instant) (job : JobKey) : Option Bundle :=
  (s.task? job).bind fun x =>
    if x.2.nextFire ≤ now then some ⟨x.1, x.2.trigger, now, x.2.nextFire⟩ else none

theorem Sound.filter_firings {s : Store} (h : s.Sound) (now : Instant) (job : JobKey) :
    (s.firings now).filter (·.detail.key == job) = (s.firing? now job).toList := by
  have hb : ∀ e ∈ s.triggers, ∀ b, s.bundle? now e.2 = some b →
      (b.detail.key == job) = (e.2.trigger.jobKey == job) := by
    intro e he b hb
    unfold bundle? at hb
    split at hb
    · obtain ⟨d, hd, rfl⟩ := Option.map_eq_some_iff.mp hb
      rw [h.detail_key _ (Table.mem_of_get?_eq_some s.jobs _ d hd)]
    · cases hb
  refine (Table.filter_filterMap s.triggers (fun e => s.bundle? now e.2) _ _ hb).trans ?_
  rw [Table.filter_eq_toList_find? s.triggers (·.2.trigger.jobKey) h.served_nodup]
  cases hp : s.triggers.find? (·.2.trigger.jobKey == job) with
  | none => simp [firing?, task?, pending?, hp]
  | some e =>
    have hj : e.2.trigger.jobKey = job := by simpa using List.find?_some hp
    cases hd : s.jobs.get? job <;> by_cases hn : e.2.nextFire ≤ now <;>
      simp [firing?, task?, pending?, bundle?, hp, hj, hd, hn]

theorem Whole.length_filter {s : Store} (h : s.Whole) (hs : s.Sound) (job : JobKey)
    (hj : job ∈ s.jobs.keys) : (s.triggers.filter (·.2.trigger.jobKey == job)).length = 1 := by
  obtain ⟨x, hx, hxj⟩ := List.mem_map.mp (h job hj)
  rw [Table.filter_eq_toList_find? s.triggers (·.2.trigger.jobKey) hs.served_nodup]
  cases hf : s.triggers.find? (·.2.trigger.jobKey == job) with
  | none => exact absurd (by simpa using hxj) (List.find?_eq_none.mp hf x hx)
  | some _ => rfl

end Store

namespace Engine

/-- A call on an engine, a tick of its timer, or a new order in which its triggers are visited. -/
inductive Call
  | schedule (host : Host) (detail : JobDetail) (trigger : Trigger)
  | reschedule (host : Host) (key : TriggerKey) (trigger : Trigger)
  | delete (job : JobKey)
  | start (host : Host)
  | standby
  | acquire (now : Instant)
  | arrange (rank : TriggerKey → Nat)

def call (e : Engine) : Call → List Bundle × Engine
  | .schedule host detail trigger => ([], (e.schedule host detail trigger).2)
  | .reschedule host key trigger => ([], (e.reschedule host key trigger).2)
  | .delete job => ([], (e.delete job).2)
  | .start host => ([], (e.start host).2)
  | .standby => ([], e.standby)
  | .acquire now =>
    match e.store.acquire now with
    | (.error _, store) => ([], { e with timer := false, store })
    | (.ok fired, store) => (fired, { e with store })
  | .arrange rank => ([], { e with store := e.store.arranged rank })

def calls (e : Engine) : List Call → List Bundle × Engine
  | [] => ([], e)
  | c :: cs => ((e.call c).1 ++ ((e.call c).2.calls cs).1, ((e.call c).2.calls cs).2)

theorem update_cases {α : Type} (e : Engine) (host : Host)
    (change : Instant → Except (Raised TriggerError) (α × Store)) :
    (∃ err, e.update host change = (.error err, e)) ∨
      ∃ now a s, host.now = .ok now ∧ change now = .ok (a, s) ∧
        e.update host change = (.ok a, { e with store := s }) := by
  unfold update
  cases host.now with
  | error p => exact .inl ⟨_, rfl⟩
  | ok now =>
    dsimp only
    cases hc : change now with
    | error err => exact .inl ⟨err, rfl⟩
    | ok x => exact .inr ⟨now, x.1, x.2, rfl, hc, rfl⟩

theorem schedule_cases (e : Engine) (host : Host) (detail : JobDetail) (trigger : Trigger) :
    (∃ err, e.schedule host detail trigger = (.error err, e)) ∨
      ∃ now t s, host.now = .ok now ∧ e.store.schedule now detail trigger = .ok (t, s) ∧
        e.schedule host detail trigger = (.ok t, { e with store := s }) :=
  e.update_cases host _

theorem reschedule_cases (e : Engine) (host : Host) (key : TriggerKey) (trigger : Trigger) :
    (∃ err, e.reschedule host key trigger = (.error err, e)) ∨
      ∃ now t s, host.now = .ok now ∧ e.store.reschedule now key trigger = .ok (t, s) ∧
        e.reschedule host key trigger = (.ok t, { e with store := s }) :=
  e.update_cases host _

theorem start_answers (e : Engine) (host : Host) :
    e.start host = (.error (.error .noRuntime), e) ∨
      (e.running = true ∧ e.start host = (.ok (), e)) ∨
      (∃ p store, e.start host = (.error (.panic p), { e with running := true, store })) ∨
      ∃ store, e.start host = (.ok (), { e with running := true, timer := true, store }) := by
  unfold start
  cases host.runtime with
  | false => exact .inl rfl
  | true =>
    cases hr : e.running with
    | true => exact .inr (.inl ⟨rfl, rfl⟩)
    | false =>
      cases host.now with
      | error p => exact .inr (.inr (.inl ⟨p, e.store, rfl⟩))
      | ok now =>
        cases hs : e.store.resume now with
        | mk answer store =>
          cases answer with
          | error p => exact .inr (.inr (.inl ⟨p, store, by simp [hs]⟩))
          | ok _ => exact .inr (.inr (.inr ⟨store, by simp [hs]⟩))

/-- All that a start can come to. -/
inductive Started (e : Engine) (host : Host) : Except (Raised TriggerError) Unit × Engine → Prop
  | refused (hr : host.runtime = false) : Started e host (.error (.error .noRuntime), e)
  | idle (hr : host.runtime = true) (hrun : e.running = true) : Started e host (.ok (), e)
  | untimed (hr : host.runtime = true) (hrun : e.running = false) (p : Payload)
      (hp : host.now = .error p) : Started e host (.error (.panic p), { e with running := true })
  | stuck (hr : host.runtime = true) (hrun : e.running = false) (now : Instant)
      (hn : host.now = .ok now) (hs : e.store.Stuck now) (keys : List TriggerKey)
      (hk : ∀ k p, (k, p) ∈ e.store.triggers → k ∈ keys → ¬ p.Stuck now) :
      Started e host (.error (.panic .overflow), { e with
        running := true
        store := e.store.alter (Pending.among keys (Pending.resume? now)) })
  | resumed (hr : host.runtime = true) (hrun : e.running = false) (now : Instant)
      (hn : host.now = .ok now) (hs : ¬ e.store.Stuck now) :
      Started e host (.ok (), { e with
        running := true
        timer := true
        store := e.store.resumed now })

theorem started (e : Engine) (h : e.store.Sound) (host : Host) : e.Started host (e.start host) := by
  unfold start
  cases hr : host.runtime with
  | false => exact .refused hr
  | true =>
    cases hrun : e.running with
    | true => exact .idle hr hrun
    | false =>
      cases hn : host.now with
      | error p => exact .untimed hr hrun p hn
      | ok now =>
        by_cases hs : e.store.Stuck now
        · obtain ⟨keys, hk, hres⟩ := h.resume_of_stuck now hs
          simp only [hres]
          exact .stuck hr hrun now hn hs keys hk
        · simp only [e.store.resume_of_not_stuck now hs]
          exact .resumed hr hrun now hn hs

/-- What calls do to each trigger on its own: they leave triggers as they are, drop the trigger of a
job, let triggers go on after a pause, or let them move on in a tick. Where a panic breaks a call off,
only some of the triggers are changed, and those that a tick has visited move on without a firing. -/
inductive Change : (Pending → Option Pending) → Prop
  | keep : Change some
  | remove (job : JobKey) : Change (Pending.unless? job)
  | resume (now : Instant) : Change (Pending.resume? now)
  | advance (now : Instant) : Change (Pending.advance? now)
  | resumeSome (now : Instant) (keys : List TriggerKey) :
      Change (Pending.among keys (Pending.resume? now))
  | slip (now : Instant) (keys : List TriggerKey) :
      Change (Pending.among keys fun p => some (p.moved now))

theorem Change.moves {f : Pending → Option Pending} (h : Change f) : Pending.Moves f := by
  cases h with
  | keep => exact Pending.moves_some
  | remove job => exact Pending.moves_unless? job
  | resume now => exact Pending.moves_resume? now
  | advance now => exact Pending.moves_advance? now
  | resumeSome now keys => exact (Pending.moves_resume? now).among keys
  | slip now keys => exact (Pending.moves_moved now).among keys

/-- What a tick fires and the store that it leaves, unless a search panics. Then it fires nothing,
and some triggers have moved on. -/
theorem acquire_cases (e : Engine) (h : e.store.Sound) (now : Instant) :
    (e.store.Jammed now ∧
        ∃ keys, (∀ k p, (k, p) ∈ e.store.triggers → k ∈ keys → ¬ p.Jammed now) ∧
          e.call (.acquire now) = ([], { e with
            timer := false
            store := e.store.alter (Pending.among keys fun p => some (p.moved now)) })) ∨
      (¬ e.store.Jammed now ∧ e.call (.acquire now) =
        (e.store.firings now, { e with store := e.store.revise (Pending.advance? now) })) := by
  by_cases hj : e.store.Jammed now
  · obtain ⟨keys, hk, ha⟩ := h.acquire_of_jammed now hj
    exact .inl ⟨hj, keys, hk, by simp only [call, ha]⟩
  · exact .inr ⟨hj, by simp only [call, h.acquire_of_not_jammed now hj]⟩

/-- All that a call can do to the store. -/
theorem store_call_cases (e : Engine) (h : e.store.Sound) (c : Call) :
    (∃ now t detail trigger,
        e.store.schedule now detail trigger = .ok (t, (e.call c).2.store)) ∨
      (∃ now t key trigger,
        e.store.reschedule now key trigger = .ok (t, (e.call c).2.store)) ∨
      ∃ f, Change f ∧ e.store.Revised f (e.call c).2.store := by
  have hkeep (hc : (e.call c).2.store = e.store) :
      ∃ f, Change f ∧ e.store.Revised f (e.call c).2.store :=
    ⟨_, .keep, hc ▸ e.store.revised_of_eq⟩
  cases c with
  | schedule host detail trigger =>
    obtain ⟨_, hu⟩ | ⟨now, t, s, -, hs, hu⟩ := e.schedule_cases host detail trigger
    · exact .inr (.inr (hkeep (by simp only [call, hu])))
    · exact .inl ⟨now, t, detail, trigger, by simpa only [call, hu] using hs⟩
  | reschedule host key trigger =>
    obtain ⟨_, hu⟩ | ⟨now, t, s, -, hs, hu⟩ := e.reschedule_cases host key trigger
    · exact .inr (.inr (hkeep (by simp only [call, hu])))
    · exact .inr (.inl ⟨now, t, key, trigger, by simpa only [call, hu] using hs⟩)
  | delete job => exact .inr (.inr ⟨_, .remove job, e.store.revised_delete job⟩)
  | start host =>
    have hst := e.started h host
    generalize hx : e.start host = x at hst
    cases hst with
    | refused | idle | untimed => exact .inr (.inr (hkeep (by simp only [call, hx])))
    | stuck _ _ now _ _ keys _ =>
      exact .inr (.inr ⟨_, .resumeSome now keys, by
        simpa only [call, hx] using e.store.revised_alter _⟩)
    | resumed _ _ now _ _ =>
      exact .inr (.inr ⟨_, .resume now, by
        simpa only [call, hx, Store.resumed] using e.store.revised_dropIdle _⟩)
  | standby => exact .inr (.inr (hkeep rfl))
  | acquire now =>
    obtain ⟨-, keys, -, hc⟩ | ⟨-, hc⟩ := e.acquire_cases h now
    · exact .inr (.inr ⟨_, .slip now keys, by simpa only [hc] using e.store.revised_alter _⟩)
    · exact .inr (.inr ⟨_, .advance now, by simpa only [hc] using e.store.revised_revise _⟩)
  | arrange rank => exact .inr (.inr ⟨_, .keep, e.store.revised_arranged rank⟩)

theorem sound_call (e : Engine) (h : e.store.Sound) (c : Call) : (e.call c).2.store.Sound := by
  obtain ⟨now, t, detail, trigger, hs⟩ | ⟨now, t, key, trigger, hs⟩ | ⟨f, hf, hr⟩ :=
    e.store_call_cases h c
  · exact h.schedule now t detail trigger hs
  · exact h.reschedule now t key trigger hs
  · exact hr.sound h hf.moves

theorem sound_calls (e : Engine) (h : e.store.Sound) (cs : List Call) :
    (e.calls cs).2.store.Sound := by
  induction cs generalizing e with
  | nil => exact h
  | cons c cs ih => exact ih (e.call c).2 (e.sound_call h c)

theorem sound_calls_fresh (name : String) (threads : Threads) (cs : List Call) :
    ((fresh name threads).calls cs).2.store.Sound :=
  sound_calls _ Store.sound_empty cs

def Reachable (e : Engine) : Prop :=
  ∃ name threads cs, e = ((fresh name threads).calls cs).2

theorem Reachable.sound {e : Engine} (h : e.Reachable) : e.store.Sound := by
  obtain ⟨name, threads, cs, rfl⟩ := h
  exact sound_calls_fresh name threads cs

theorem whole_call (e : Engine) (hs : e.store.Sound) (h : e.store.Whole) (c : Call)
    (hc : ∀ host p, c = .start host → (e.start host).1 ≠ .error (.panic p)) :
    (e.call c).2.store.Whole := by
  cases c with
  | schedule host detail trigger =>
    obtain ⟨_, hu⟩ | ⟨now, t, s, -, ht, hu⟩ := e.schedule_cases host detail trigger
    · simpa only [call, hu] using h
    · simpa only [call, hu] using h.schedule now t detail trigger ht
  | reschedule host key trigger =>
    obtain ⟨_, hu⟩ | ⟨now, t, s, -, ht, hu⟩ := e.reschedule_cases host key trigger
    · simpa only [call, hu] using h
    · simpa only [call, hu] using h.reschedule hs now t key trigger ht
  | delete job => exact h.delete job
  | start host =>
    have hst := e.started hs host
    have hno := fun p => hc host p rfl
    generalize hx : e.start host = x at hst hno
    cases hst with
    | refused | idle => simpa only [call, hx] using h
    | untimed | stuck => exact absurd rfl (hno _)
    | resumed => simpa only [call, hx, Store.resumed] using Store.whole_dropIdle _
  | standby => exact h
  | acquire now =>
    obtain ⟨-, keys, -, hc⟩ | ⟨-, hc⟩ := e.acquire_cases hs now
    · have hsome (p : Pending) :
          (p.among keys fun p => some (p.moved now)).isSome := by
        unfold Pending.among
        split <;> rfl
      rw [hc, ← e.store.revise_of_isSome _ ((Pending.moves_moved now).among keys) hsome]
      exact h.revise _
    · simpa only [hc] using h.revise _
  | arrange rank =>
    intro job hj
    exact ((List.mergeSort_perm _ _).map _).mem_iff.mpr (h job hj)

/-- No start among calls panics. -/
def Calm (e : Engine) : List Call → Prop
  | [] => True
  | c :: cs => (∀ host p, c = .start host → (e.start host).1 ≠ .error (.panic p)) ∧ (e.call c).2.Calm cs

theorem whole_calls (e : Engine) (hs : e.store.Sound) (h : e.store.Whole) (cs : List Call)
    (hc : e.Calm cs) : (e.calls cs).2.store.Whole := by
  induction cs generalizing e with
  | nil => exact h
  | cons c cs ih => exact ih (e.call c).2 (e.sound_call hs c) (e.whole_call hs h c hc.1) hc.2

def awaited? (e : Engine) (job : JobKey) : Option Instant :=
  (e.store.task? job).map (·.2.nextFire)

/-- A tick fires the trigger of a job if it is due, and moves it on. Or a search panics, and then the
tick fires nothing, though it may have moved on a trigger that does not need to search. -/
theorem task?_acquire (e : Engine) (h : e.store.Sound) (now : Instant) (job : JobKey) :
    (e.store.Jammed now ∧ (e.call (.acquire now)).1 = [] ∧
        ((e.call (.acquire now)).2.store.task? job = e.store.task? job ∨
          ∃ d p, e.store.task? job = some (d, p) ∧ ¬ p.Jammed now ∧
            (e.call (.acquire now)).2.store.task? job = some (d, p.moved now))) ∨
      (¬ e.store.Jammed now ∧
        (e.call (.acquire now)).1.filter (·.detail.key == job) =
          (e.store.firing? now job).toList ∧
        (e.call (.acquire now)).2.store.task? job =
          (e.store.task? job).bind fun x => (x.2.advance? now).map (x.1, ·)) := by
  obtain ⟨hj, keys, hk, hc⟩ | ⟨hj, hc⟩ := e.acquire_cases h now
  · refine .inl ⟨hj, by rw [hc], ?_⟩
    have ht := (e.store.revised_alter _).task?_eq h ((Pending.moves_moved now).among keys) job
    simp only [hc, ht]
    cases htask : e.store.task? job with
    | none => exact .inl rfl
    | some x =>
      obtain ⟨d, p⟩ := x
      have hm := ((h.task?_eq_some_iff job d p).mp htask).2.1
      by_cases hmem : p.trigger.key ∈ keys
      · exact .inr ⟨d, p, rfl, hk _ p hm hmem, by simp [Pending.among, hmem]⟩
      · exact .inl (by simp [Pending.among, hmem])
  · refine .inr ⟨hj, ?_, ?_⟩
    · rw [hc]
      exact h.filter_firings now job
    · rw [hc]
      exact (e.store.revised_revise _).task?_eq h (Pending.moves_advance? now) job

/-- After any calls every trigger fires a stored job, every stored job has at most one trigger,
entries stand under their own keys, a job that is scheduled is stored with its trigger, refused
changes change nothing, and a tick fires every trigger that is due. Only a start that panics leaves
jobs without a trigger, and the next start out of standby that succeeds drops them. -/
theorem store_in_step (name : String) (threads : Threads) (cs : List Call) :
    let e := ((fresh name threads).calls cs).2
    let s := e.store
    (∀ x ∈ s.triggers, x.2.trigger.jobKey ∈ s.jobs.keys) ∧
      (∀ job, (s.triggers.filter (·.2.trigger.jobKey == job)).length ≤ 1) ∧
      ((fresh name threads).Calm cs →
        ∀ job ∈ s.jobs.keys, (s.triggers.filter (·.2.trigger.jobKey == job)).length = 1) ∧
      (∀ host after, e.running = false → e.start host = (.ok (), after) →
        ∀ job ∈ after.store.jobs.keys,
          (after.store.triggers.filter (·.2.trigger.jobKey == job)).length = 1) ∧
      (∀ x ∈ s.triggers, x.2.trigger.key = x.1) ∧ s.triggers.keys.Nodup ∧
      (∀ x ∈ s.jobs, x.2.key = x.1) ∧ s.jobs.keys.Nodup ∧
      (∀ host detail trigger first after,
        e.schedule host detail trigger = (.ok first, after) →
          after.store.task? detail.key =
            some (detail, ⟨{ trigger with jobKey := detail.key }, first⟩)) ∧
      (∀ host detail trigger err, (e.schedule host detail trigger).1 = .error err →
        (e.schedule host detail trigger).2 = e) ∧
      (∀ host key trigger err, (e.reschedule host key trigger).1 = .error err →
        (e.reschedule host key trigger).2 = e) ∧
      (∀ now, ∀ x ∈ s.triggers, x.2.nextFire ≤ now →
        ∃ detail, s.jobs.get? x.2.trigger.jobKey = some detail ∧
          ∀ fired, (s.acquire now).1 = .ok fired →
            ⟨detail, x.2.trigger, now, x.2.nextFire⟩ ∈ fired) := by
  intro e s
  have h : s.Sound := sound_calls_fresh name threads cs
  refine ⟨?_, ?_, ?_, ?_, h.trigger_key, h.triggers_nodup, h.detail_key, h.jobs_nodup, ?_, ?_, ?_, ?_⟩
  · exact fun x hx => h.mem_jobs _ (s.mem_served_of_mem x.1 x.2 hx)
  · intro job
    rw [Table.filter_eq_toList_find? s.triggers (·.2.trigger.jobKey) h.served_nodup]
    exact Option.length_toList_le
  · intro hc
    exact (whole_calls _ Store.sound_empty Store.whole_empty cs hc).length_filter h
  · intro host after hrun ha
    have hsound : (e.start host).2.store.Sound := e.sound_call h (.start host)
    have hst := e.started h host
    rw [ha] at hst hsound
    cases hst with
    | idle _ hr => cases hrun.symm.trans hr
    | resumed => exact (Store.whole_dropIdle _).length_filter hsound
  · intro host detail trigger first after ha
    obtain ⟨_, hu⟩ | ⟨now, t, s', -, hs, hu⟩ := e.schedule_cases host detail trigger
    · cases hu.symm.trans ha
    · cases hu.symm.trans ha
      rw [h.task?_schedule now first detail trigger hs, if_pos rfl]
  · intro host detail trigger err herr
    obtain ⟨_, hu⟩ | ⟨_, _, _, _, _, hu⟩ := e.schedule_cases host detail trigger
    · rw [hu]
    · rw [hu] at herr
      cases herr
  · intro host key trigger err herr
    obtain ⟨_, hu⟩ | ⟨_, _, _, _, _, hu⟩ := e.reschedule_cases host key trigger
    · rw [hu]
    · rw [hu] at herr
      cases herr
  · intro now x hx hd
    obtain ⟨detail, -, hg, hb⟩ := h.bundle?_of_le now x.1 x.2 hx hd
    refine ⟨detail, hg, fun fired hf => ?_⟩
    by_cases hj : s.Jammed now
    · obtain ⟨_, -, ha⟩ := h.acquire_of_jammed now hj
      rw [ha] at hf
      cases hf
    · rw [h.acquire_of_not_jammed now hj] at hf
      cases hf
      exact List.mem_filterMap.mpr ⟨x, hx, hb⟩

def ofTwo (timing : Timing) (x : Expression) : List Call :=
  let job (name : String) (timing : Timing) : Call :=
    .schedule ⟨1893456000000, true⟩ (.ofMethod "Reports" name)
      ⟨⟨name, "Reports"⟩, ⟨name, "Reports"⟩, timing⟩
  [job "first" timing, job "second" (.cron x none)]

/-- In the last second a start drops what is over, panics, and leaves the job of what was dropped. -/
theorem job_outlives_its_trigger : ∃ x, Expression.parse "* * * * * *" = .ok x ∧
    let cs := ofTwo (.simple (.once 1893456000000)) x ++ [.start ⟨Instant.latest, true⟩]
    let s := ((fresh "main" .single).calls cs).2.store
    s.jobs.keys.map (·.name) = ["first", "second"] ∧ s.triggers.keys.map (·.name) = ["second"] ∧
      ¬ ∀ job ∈ s.jobs.keys, (s.triggers.filter (·.2.trigger.jobKey == job)).length = 1 :=
  exists_ok_of_any (by decide +kernel)

/-- A job's key is read back from its id, whatever its name and its group are. So after any calls
no two jobs have the same id, and the id of a job leads to its entry. -/
theorem ids_tell_jobs_apart :
    (∀ k : JobKey, JobKey.ofId? k.id = some k) ∧ Function.Injective JobKey.id ∧
      ∀ name threads cs,
        let s := ((fresh name threads).calls cs).2.store
        (s.jobKeys.map JobKey.id).Nodup ∧
          ∀ k ∈ s.jobKeys, ∃ d, (JobKey.ofId? k.id).bind s.jobs.get? = some d ∧ d.key = k := by
  have hinj : Function.Injective JobKey.id := fun j k h => JobKey.id_injective j k h
  refine ⟨JobKey.ofId?_id, hinj, fun name threads cs => ?_⟩
  intro s
  have h : s.Sound := sound_calls_fresh name threads cs
  constructor
  · have hkeys : s.jobKeys.Nodup := (List.mergeSort_perm _ _).nodup_iff.mpr h.jobs_nodup
    exact hkeys.map hinj
  · intro k hk
    obtain ⟨d, hd⟩ := (Table.mem_keys s.jobs k).mp (List.mem_mergeSort.mp hk)
    refine ⟨d, ?_, h.detail_key (k, d) hd⟩
    rw [JobKey.ofId?_id]
    exact (Table.get?_eq_some_iff s.jobs h.jobs_nodup k d).mpr hd

end Engine

end CronTasks.Trigger
