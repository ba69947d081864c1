import CronTasks.Proofs.Trigger.Firing

namespace CronTasks.Trigger

open Calendar Cron

namespace Engine

def Storing (e e' : Engine) : Prop := e'.store = e.store

instance : Std.Refl Storing := ⟨fun _ => rfl⟩

instance : IsTrans Engine Storing := ⟨fun _ _ _ h h' => Eq.trans h' h⟩

theorem tellAll_storing (relay : Act (Audience × Journal)) (note : String → Event)
    (own : JobListener → Outcome) : (tellAll relay note own).Within Storing := by
  intro e
  apply Act.Within.each_isolated
  intro l e
  cases l with
  | bridge => rfl
  | idle => rfl
  | watcher => rfl

theorem notifyWasExecuted_storing (b : Bundle) (hasInstance : Bool) (error : Option String) :
    (notifyWasExecuted b hasInstance error).Within Storing :=
  fun e => tellAll_storing _ _ _ e

theorem newJob_storing (e : Engine) (b : Bundle) : e.Storing (e.newJob b).2 := by
  unfold newJob
  split
  · rfl
  · split
    next err _ =>
      have hn := notifyWasExecuted_storing b false (some err.message) e
      split
      next hp => rwa [hp] at hn
      next hp => rwa [hp] at hn
    · rfl

theorem perform_storing (b : Bundle) (job : MethodJob) : (perform b job).Within Storing := by
  apply Act.Within.andThen (tellAll_storing _ _ _)
  intro e
  have hrest (error : Option String) := notifyWasExecuted_storing b true error (e.execute job).2
  dsimp only
  split
  · exact hrest none
  next failure _ => exact hrest (some failure.chain)

theorem run_storing (b : Bundle) : (run b).Within Storing := by
  intro e
  have hn := e.newJob_storing b
  unfold run
  split
  next job _ h =>
    rw [h] at hn
    exact IsTrans.trans _ _ _ hn (perform_storing b job _)
  next h => rwa [h] at hn
  next h => rwa [h] at hn
  next h => rwa [h] at hn

theorem store_settle (e : Engine) (host : Host) :
    (e.settle host).store = (e.tick host).2.store := by
  have hruns (bs : List Bundle) (e : Engine) :
      (bs.foldl (fun e b => (run b e).2) e).store = e.store := by
    induction bs generalizing e with
    | nil => rfl
    | cons b bs ih => exact (ih (run b e).2).trans (run_storing b e)
  exact hruns _ _

end Engine

namespace Store

theorem Sound.acquire {s : Store} (h : s.Sound) (now : Instant) : (s.acquire now).2.Sound := by
  by_cases hj : s.Jammed now
  · obtain ⟨keys, -, ha⟩ := h.acquire_of_jammed now hj
    rw [ha]
    exact (s.revised_alter _).sound h ((Pending.moves_moved now).among keys)
  · rw [h.acquire_of_not_jammed now hj]
    exact (s.revised_revise _).sound h (Pending.moves_advance? now)

theorem Sound.ticks {s : Store} (h : s.Sound) (now : Instant) (n : Nat) :
    (ticks now n s).2.2.Sound := by
  induction n generalizing s with
  | zero => exact h
  | succ n ih =>
    have ha := h.acquire now
    unfold Store.ticks
    split
    · split
      next hs => rwa [hs] at ha
      next hs =>
        rw [hs] at ha
        exact ih ha
    · exact h

end Store

namespace Repository

/-- Repositories that can come about: over an engine that may have been used before, by calls on the
repository and past it on the engine, by changes of who listens, and as time passes and firings are
run. -/
inductive Reachable : Repository → Prop
  | attach {e : Engine} (he : e.Reachable) (registry : Registry) (zone : Option Zone) :
    Reachable (attach e registry zone)
  | call {repo : Repository} (h : Reachable repo) (c : Call) : Reachable (repo.call c).2
  | restart {repo : Repository} (h : Reachable repo) (host : Host) : Reachable (repo.restart host).2
  | past {repo : Repository} (h : Reachable repo) (c : Engine.Call) :
    Reachable { repo with engine := (repo.engine.call c).2 }
  | addListener {repo : Repository} (h : Reachable repo) (name : String) (l : CronListener) :
    Reachable (repo.addListener name l)
  | removeListener {repo : Repository} (h : Reachable repo) (name : String) :
    Reachable (repo.removeListener name).2
  | addJobListener {repo : Repository} (h : Reachable repo) (l : JobListener) :
    Reachable { repo with engine := repo.engine.addJobListener l }
  | removeJobListener {repo : Repository} (h : Reachable repo) (name : String) :
    Reachable { repo with engine := (repo.engine.removeJobListener name).2 }
  | fire {repo : Repository} (h : Reachable repo) (host : Host) (job : JobKey) :
    Reachable { repo with engine := (repo.engine.fire host job).2 }
  | settle {repo : Repository} (h : Reachable repo) (host : Host) : Reachable (repo.settle host)

theorem sound_start {repo : Repository} (h : repo.engine.store.Sound) (host : Host) :
    (repo.start host).2.engine.store.Sound := by
  have hstart := repo.engine.sound_call h (.start host)
  simp only [Engine.call] at hstart
  simp only [start, Lifecycle.start, Lifecycle.moveTo]
  split
  · exact h
  · rcases hs : repo.engine.start host with ⟨(_ | _) | _, e⟩
    all_goals
      rw [hs] at hstart
      exact hstart

theorem sound_stop {repo : Repository} (h : repo.engine.store.Sound) :
    repo.stop.2.engine.store.Sound := by
  simp only [stop, Lifecycle.stop, Lifecycle.moveTo]
  split <;> exact h

theorem sound_call {repo : Repository} (h : repo.engine.store.Sound) (c : Call) :
    (repo.call c).2.engine.store.Sound := by
  cases c with
  | register host text b =>
    obtain ⟨_, hr⟩ | ⟨now, d, _, t, s, -, -, -, hs, hr⟩ := repo.register_cases host text b
    · rwa [call, hr]
    · rw [call, hr]
      exact h.schedule now t d _ hs
  | update host id text =>
    obtain ⟨_, hr⟩ | ⟨now, _, _, u, _, t, s, -, -, -, -, hs, hr⟩ := repo.update_cases host id text
    · rwa [call, hr]
    · rw [call, hr]
      exact h.reschedule now t u.key _ hs
  | remove id =>
    obtain ⟨_, hr⟩ | ⟨k, -, -, hr⟩ := repo.remove_cases id
    · rwa [call, hr]
    · rw [call, hr]
      exact (repo.engine.store.revised_delete k).sound h (Pending.moves_unless? k)
  | info id => exact h
  | all => exact h
  | start host => exact sound_start h host
  | stop => exact sound_stop h
  | tick now =>
    have ha := h.acquire now
    simp only [call]
    split
    next hs => rwa [hs] at ha
    next hs => rwa [hs] at ha

theorem sound_restart {repo : Repository} (h : repo.engine.store.Sound) (host : Host) :
    (repo.restart host).2.engine.store.Sound := by
  have hstop := sound_stop h
  unfold restart
  split
  next hs => rwa [hs] at hstop
  next hs =>
    rw [hs] at hstop
    exact sound_start hstop host

theorem sound_settle {repo : Repository} (h : repo.engine.store.Sound) (host : Host) :
    (repo.settle host).engine.store.Sound := by
  rw [settle, Engine.store_settle]
  unfold Engine.tick
  split
  · exact h
  · split
    · exact h
    next now _ => exact h.ticks now _

theorem Reachable.sound {repo : Repository} (h : repo.Reachable) : repo.engine.store.Sound := by
  induction h with
  | attach he => exact he.sound
  | call _ c ih => exact sound_call ih c
  | restart _ host ih => exact sound_restart ih host
  | past _ c ih => exact Engine.sound_call _ ih c
  | addListener _ _ _ ih => exact ih
  | removeListener _ _ ih => exact ih
  | addJobListener _ _ ih => exact ih
  | removeJobListener _ _ ih => exact ih
  | fire _ host job ih =>
    simp only [Engine.fire]
    split
    · exact ih
    · split
      · exact ih
      · split <;> exact ih
  | settle _ host ih => exact sound_settle ih host

theorem info_eq_some_iff (repo : Repository) (id : String) (info : TaskInfo) :
    repo.info id = some info ↔ ∃ k, JobKey.ofId? id = some k ∧ repo.infoOf k = some info :=
  Option.bind_eq_some_iff

/-- A task is told under the id of its key, by which it is found again. -/
theorem id_of_infoOf {repo : Repository} {k : JobKey} {info : TaskInfo}
    (h : repo.infoOf k = some info) : info.id = k.id ∧ repo.info info.id = some info := by
  have hid : info.id = k.id := by
    obtain ⟨_, -, h⟩ := Option.bind_eq_some_iff.mp h
    obtain ⟨_, -, h⟩ := Option.bind_eq_some_iff.mp h
    cases h
    rfl
  exact ⟨hid, (repo.info_eq_some_iff _ _).mpr ⟨k, by rw [hid, JobKey.ofId?_id], h⟩⟩

/-- After an update the job of an id has a task with the new expression; there was one before. -/
theorem infoOf_update {repo : Repository} (h : repo.engine.store.Sound) (host : Host)
    (id text : String) (hok : (repo.update host id text).1 = .ok ()) :
    ∃ k old info, JobKey.ofId? id = some k ∧ repo.infoOf k = some old ∧
      (repo.update host id text).2.infoOf k = some info ∧ info.expression = text := by
  obtain ⟨_, hr⟩ | ⟨now, k, e, u, us, t, s, -, hk, hp, hu, hs, hr⟩ := repo.update_cases host id text
  · rw [hr] at hok
    cases hok
  · rw [hr]
    rw [h.triggersOf_eq k] at hu
    cases ht : repo.engine.store.task? k with
    | none =>
      rw [ht] at hu
      cases hu
    | some x =>
      obtain ⟨d, p⟩ := x
      rw [ht] at hu
      cases hu
      obtain ⟨-, hm, hj⟩ := (h.task?_eq_some_iff k d p).mp ht
      have ho := (Table.get?_eq_some_iff _ h.triggers_nodup _ _).mpr hm
      have htask := h.task?_reschedule now t _ _ p ho hs k
      rw [if_pos hj.symm, ht] at htask
      have hs' : s.Sound := h.reschedule now t _ _ hs
      let after : Repository := { repo with engine := { repo.engine with store := s } }
      have hold := (repo.infoOf_eq h k).trans (congrArg _ ht)
      have hnew : after.infoOf k = some ⟨k.id, e.text, d.description⟩ :=
        (after.infoOf_eq hs' k).trans (congrArg _ htask)
      exact ⟨k, _, _, hk, hold, hnew, congrArg Expression.text (text_of_parse text e hp)⟩

end Repository

/-- Whatever became of a repository, what it tells of a task has the id that registering gives out
for the key that was asked for, and by that id the same is told. So the id that was asked for is
the id in the answer exactly if it is the id of a key as registering spells it, and this is so for
every id that registering answers and for every id that is listed. An update by any spelling leaves
the id of the task as it was. -/
theorem told_under_registered_id (repo : Repository) (h : repo.Reachable) (id : String) :
    (∀ info, repo.info id = some info → ∃ k, JobKey.ofId? id = some k ∧ info.id = k.id ∧
        repo.info info.id = some info ∧ (info.id = id ↔ ∃ j : JobKey, j.id = id)) ∧
      (∀ host text, (repo.update host id text).1 = .ok () →
        ∃ k old info, JobKey.ofId? id = some k ∧ repo.info id = some old ∧
          (repo.update host id text).2.info id = some info ∧ old.id = k.id ∧ info.id = k.id ∧
          info.expression = text) ∧
      (∀ host text b, (repo.register host text b).1 = .ok id → ∃ k : JobKey, k.id = id) ∧
      ∀ info ∈ repo.all, ∃ k : JobKey, k.id = info.id := by
  refine ⟨fun info hinfo => ?_, fun host text hok => ?_, fun host text b hok => ?_,
    fun info hinfo => ?_⟩
  · obtain ⟨k, hk, hinfo⟩ := (repo.info_eq_some_iff id info).mp hinfo
    obtain ⟨hid, hagain⟩ := Repository.id_of_infoOf hinfo
    refine ⟨k, hk, hid, hagain, fun he => ⟨k, hid.symm.trans he⟩, ?_⟩
    rintro ⟨j, rfl⟩
    obtain rfl : j = k := Option.some.inj ((JobKey.ofId?_id j).symm.trans hk)
    exact hid
  · obtain ⟨k, old, info, hk, hold, hinfo, htext⟩ := Repository.infoOf_update h.sound host id text hok
    exact ⟨k, old, info, hk, (repo.info_eq_some_iff id old).mpr ⟨k, hk, hold⟩,
      (Repository.info_eq_some_iff _ id info).mpr ⟨k, hk, hinfo⟩, (Repository.id_of_infoOf hold).1,
      (Repository.id_of_infoOf hinfo).1, htext⟩
  · obtain ⟨_, hr⟩ | ⟨_, d, _, _, _, -, -, -, -, hr⟩ := repo.register_cases host text b
    · rw [hr] at hok
      cases hok
    · rw [hr] at hok
      exact ⟨d.key, Except.ok.inj hok⟩
  · obtain ⟨k, -, hk⟩ := List.mem_filterMap.mp hinfo
    exact ⟨k, (Repository.id_of_infoOf hk).1.symm⟩

def reportsAtNine : Repository :=
  let reports : Registry := [("app.Reports",
    ⟨"app.Reports", fun _ => .done .success, [("daily", fun _ => .success)]⟩)]
  ((Repository.attach (.fresh "m" .single) reports none).register ⟨1893456000000, true⟩ "0 0 9 * * *"
    (.method "app.Reports" "daily")).2

theorem reachable_reportsAtNine : reportsAtNine.Reachable :=
  .call (.attach ⟨"m", .single, [], rfl⟩ _ none) (.register ⟨1893456000000, true⟩ "0 0 9 * * *"
    (.method "app.Reports" "daily"))

def nameFirst : String := "\x7b\"name\":\"daily\",\"group\":\"app.Reports\"\x7d"

theorem ofId?_nameFirst : JobKey.ofId? nameFirst = some ⟨"daily", "app.Reports"⟩ := by
  decide +kernel

theorem update_nameFirst :
    (reportsAtNine.update ⟨1893456000000, true⟩ nameFirst "0 0 8 * * *").1 = .ok () := by
  decide +kernel

theorem told_under_registered_id_by_name_first :
    let update := reportsAtNine.update ⟨1893456000000, true⟩ nameFirst "0 0 8 * * *"
    reportsAtNine.Reachable ∧ update.1 = .ok () ∧ ∃ info, update.2.info nameFirst = some info ∧
      info.id = JobKey.id ⟨"daily", "app.Reports"⟩ ∧ info.expression = "0 0 8 * * *" := by
  obtain ⟨-, hupdate, -⟩ :=
    told_under_registered_id reportsAtNine reachable_reportsAtNine nameFirst
  obtain ⟨k, _, info, hk, -, hinfo, -, hid, htext⟩ := hupdate _ _ update_nameFirst
  cases ofId?_nameFirst.symm.trans hk
  exact ⟨reachable_reportsAtNine, update_nameFirst, info, hinfo, hid, htext⟩

/-- The id in an answer need not be the one that was asked for, not even after an update by it. -/
theorem told_under_another_id :
    let update := reportsAtNine.update ⟨1893456000000, true⟩ nameFirst "0 0 8 * * *"
    reportsAtNine.Reachable ∧
      (∃ info, reportsAtNine.info nameFirst = some info ∧ info.id ≠ nameFirst) ∧
      update.1 = .ok () ∧ ∃ info, update.2.info nameFirst = some info ∧ info.id ≠ nameFirst := by
  have hne : JobKey.id ⟨"daily", "app.Reports"⟩ ≠ nameFirst := by decide +kernel
  obtain ⟨k, old, info, hk, hold, hinfo, -⟩ := Repository.infoOf_update
    reachable_reportsAtNine.sound _ nameFirst _ update_nameFirst
  cases ofId?_nameFirst.symm.trans hk
  have hid {repo : Repository} {info : TaskInfo}
      (h : repo.infoOf ⟨"daily", "app.Reports"⟩ = some info) : info.id ≠ nameFirst :=
    (Repository.id_of_infoOf h).1.trans_ne hne
  exact ⟨reachable_reportsAtNine,
    ⟨old, (Repository.info_eq_some_iff _ nameFirst old).mpr ⟨_, hk, hold⟩, hid hold⟩,
    update_nameFirst, info, (Repository.info_eq_some_iff _ nameFirst info).mpr ⟨_, hk, hinfo⟩, hid hinfo⟩

end CronTasks.Trigger
