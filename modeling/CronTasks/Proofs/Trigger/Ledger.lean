import CronTasks.Proofs.Key
import CronTasks.Proofs.Trigger.Run
import CronTasks.Trigger.Repository

namespace CronTasks.Trigger

open Calendar Cron

/-- A live task: the text of its schedule as it was given and read, the description of its body,
and its next fire time. -/
structure Task where
  text : String
  schedule : Schedule
  description : Option String
  fires : Instant

namespace Task

def expression (t : Task) : Expression := ⟨t.text, t.schedule⟩

def info (k : JobKey) (t : Task) : TaskInfo := ⟨k.id, t.text, t.description⟩

/-- A task after a tick; one that fires without a further fire time is gone. -/
def ticked? (zone : Option Zone) (now : Instant) (t : Task) : Option Task :=
  if t.fires ≤ now then (t.expression.search? now zone).map fun u => { t with fires := u } else some t

/-- A task after a pause; one that missed its last fire time is gone. -/
def resumed? (zone : Option Zone) (now : Instant) (t : Task) : Option Task :=
  if now - t.fires ≤ grace then some t
  else (t.expression.search? now zone).map fun u => { t with fires := u }

def stored (zone : Option Zone) (k : JobKey) (t : Task) : JobDetail × Pending :=
  (⟨k, .method, t.description⟩, ⟨⟨k.triggerKey, k, .cron t.expression zone⟩, t.fires⟩)

end Task

namespace Repository

/-- A call on a repository, or a tick of its engine's timer. -/
inductive Call
  | register (host : Host) (text : String) (b : Body)
  | update (host : Host) (id text : String)
  | remove (id : String)
  | info (id : String)
  | all
  | start (host : Host)
  | stop
  | tick (now : Instant)

/-- Whether a call succeeds, and the repository that it leaves behind. -/
def call (repo : Repository) : Call → Bool × Repository
  | .register host text b =>
    ((repo.register host text b).1.isOk, (repo.register host text b).2)
  | .update host id text => ((repo.update host id text).1.isOk, (repo.update host id text).2)
  | .remove id => ((repo.remove id).1.isOk, (repo.remove id).2)
  | .info _ | .all => (true, repo)
  | .start host => ((repo.start host).1.isOk, (repo.start host).2)
  | .stop => (repo.stop.1.isOk, repo.stop.2)
  | .tick now =>
    match repo.engine.store.acquire now with
    | (.error _, store) => (false, { repo with engine := { repo.engine with timer := false, store } })
    | (.ok _, store) => (true, { repo with engine := { repo.engine with store } })

theorem infoOf_eq (repo : Repository) (h : repo.engine.store.Sound) (k : JobKey) :
    repo.infoOf k = (repo.engine.store.task? k).map fun x =>
      ⟨k.id, x.2.trigger.expression, x.1.description⟩ := by
  simp only [infoOf, h.triggersOf_eq]
  cases ht : repo.engine.store.task? k with
  | none => cases repo.engine.store.jobs.get? k <;> rfl
  | some x =>
    have hd := ((h.task?_eq_some_iff k x.1 x.2).mp ht).1
    rw [(Table.get?_eq_some_iff _ h.jobs_nodup k x.1).mpr hd]
    rfl

end Repository

structure Ledger where
  registry : Registry
  zone : Option Zone
  lifecycle : Lifecycle
  running : Bool
  tasks : JobKey → Option Task

namespace Ledger

open Repository (Call)

def set (l : Ledger) (k : JobKey) (t : Option Task) : Ledger :=
  { l with tasks := fun j => if j = k then t else l.tasks j }

theorem set_none (l : Ledger) (k : JobKey) (h : l.tasks k = none) : l.set k none = l := by
  have htasks : (fun j => if j = k then none else l.tasks j) = l.tasks := by
    funext j
    by_cases hj : j = k
    · rw [if_pos hj, hj, h]
    · rw [if_neg hj]
  rw [set, htasks]

/-- The ledger after a call. Calls that fail enter nothing; a start that fails may yet leave
the engine running. -/
def record (l : Ledger) : Call → Bool → Ledger
  | .register host text b, true =>
    match Repository.detail b, Expression.parse text with
    | .ok d, .ok e =>
      l.set d.key ((e.search? host.clock l.zone).map fun t => ⟨text, e.schedule, d.description, t⟩)
    | _, _ => l
  | .update host id text, true =>
    match JobKey.ofId? id, Expression.parse text with
    | some k, .ok e =>
      l.set k ((l.tasks k).bind fun task =>
        (e.search? host.clock l.zone).map fun t => ⟨text, e.schedule, task.description, t⟩)
    | _, _ => l
  | .remove id, true =>
    match JobKey.ofId? id with
    | some k => l.set k none
    | none => l
  | .tick now, true => { l with tasks := fun k => (l.tasks k).bind (·.ticked? l.zone now) }
  | .start host, ok =>
    if l.lifecycle = .running ∨ host.runtime = false then l
    else
      { l with
        lifecycle := if ok then .running else l.lifecycle
        running := true
        tasks := if ok ∧ l.running = false then
            fun k => (l.tasks k).bind (·.resumed? l.zone host.clock)
          else l.tasks }
  | .stop, _ =>
    if l.lifecycle = .running then { l with lifecycle := .stopped, running := false } else l
  | _, _ => l

def new (registry : Registry) (zone : Option Zone) : Ledger :=
  ⟨registry, zone, .stopped, false, fun _ => none⟩

def run : Repository × Ledger → List Call → Repository × Ledger
  | x, [] => x
  | x, c :: cs => run ((x.1.call c).2, x.2.record c (x.1.call c).1) cs

end Ledger

/-- A repository holds what is in a ledger. -/
structure Ledger.Kept (l : Ledger) (repo : Repository) : Prop where
  sound : repo.engine.store.Sound
  whole : repo.engine.store.Whole
  registry_eq : repo.registry = l.registry
  zone_eq : repo.zone = l.zone
  lifecycle_eq : repo.lifecycle = l.lifecycle
  running_eq : repo.engine.running = l.running
  task?_eq : ∀ k, repo.engine.store.task? k = (l.tasks k).map (Task.stored l.zone k)

namespace Ledger.Kept

variable {l : Ledger} {repo : Repository}

theorem infoOf_eq (h : l.Kept repo) (k : JobKey) : repo.infoOf k = (l.tasks k).map (Task.info k) := by
  rw [repo.infoOf_eq h.sound, h.task?_eq k, Option.map_map]
  rfl

theorem info_eq (h : l.Kept repo) (k : JobKey) :
    repo.info k.id = (l.tasks k).map (Task.info k) := by
  rw [← h.infoOf_eq k, Repository.info, JobKey.ofId?_id]
  rfl

theorem notMem_jobs_iff (h : l.Kept repo) (k : JobKey) :
    k ∉ repo.engine.store.jobs.keys ↔ l.tasks k = none := by
  rw [← h.whole.mem_served_iff h.sound, ← h.sound.task?_eq_none_iff, h.task?_eq,
    Option.map_eq_none_iff]

theorem mem_jobKeys_iff (h : l.Kept repo) (k : JobKey) :
    k ∈ repo.engine.store.jobKeys ↔ l.tasks k ≠ none := by
  rw [Store.jobKeys, List.mem_mergeSort, Ne, ← h.notMem_jobs_iff k, not_not]

theorem all_eq (h : l.Kept repo) :
    repo.all = repo.engine.store.jobKeys.filterMap fun k => (l.tasks k).map (Task.info k) :=
  List.filterMap_congr fun k _ => h.infoOf_eq k

end Ledger.Kept

theorem of_bind_eq_ok {ε α β : Type} (x : Except ε α) (f : α → Except ε β) (b : β)
    (h : x >>= f = .ok b) : ∃ a, x = .ok a ∧ f a = .ok b := by
  cases x with
  | error err => cases h
  | ok a => exact ⟨a, rfl, h⟩

theorem text_of_parse (text : String) (e : Expression) (h : Expression.parse text = .ok e) :
    e = ⟨text, e.schedule⟩ := by
  unfold Expression.parse at h
  cases hs : Expression.schedule? text with
  | error fault =>
    rw [hs] at h
    cases h
  | ok s =>
    rw [hs] at h
    cases h
    rfl

namespace Repository

theorem parse_eq_ok_iff (text : String) (e : Expression) :
    parse text = .ok e ↔ Expression.parse text = .ok e := by
  unfold parse
  cases Expression.parse text <;> simp [Except.mapError]

theorem firstFire_cronTrigger (repo : Repository) (now t : Instant) (k : JobKey) (e : Expression) :
    Store.firstFire now (repo.cronTrigger k e) = .ok t ↔ e.next? now repo.zone = .ok (some t) :=
  Store.firstFire_eq_ok_iff now t (repo.cronTrigger k e)

theorem detail_of_accept (repo : Repository) (text : String) (b : Body) (d : JobDetail)
    (h : repo.accept text b = .ok d) : detail b = .ok d ∧ d.type = .method := by
  obtain ⟨_, -, h⟩ := of_bind_eq_ok _ _ _ h
  obtain ⟨d', hd, h⟩ := of_bind_eq_ok _ _ _ h
  obtain ⟨_, hc, h⟩ := of_bind_eq_ok _ _ _ h
  obtain ⟨_, -, h⟩ := of_bind_eq_ok _ _ _ h
  cases h
  refine ⟨hd, ?_⟩
  cases ht : d.type with
  | method => rfl
  | other name =>
    rw [ht] at hc
    cases hc

/-- A registration is refused, or the store takes the job in. -/
theorem register_cases (repo : Repository) (host : Host) (text : String) (b : Body) :
    (∃ err, repo.register host text b = (.error err, repo)) ∨
      ∃ now d e t s, host.now = .ok now ∧ repo.accept text b = .ok d ∧
        Expression.parse text = .ok e ∧
        repo.engine.store.schedule now d (repo.cronTrigger d.key e) = .ok (t, s) ∧
        repo.register host text b =
          (.ok d.key.id, { repo with engine := { repo.engine with store := s } }) := by
  unfold register
  cases ha : repo.accept text b with
  | error err => exact .inl ⟨_, rfl⟩
  | ok d =>
    cases hp : parse text with
    | error cause => exact .inl ⟨_, rfl⟩
    | ok e =>
      obtain ⟨err, hu⟩ | ⟨now, t, s, hn, hs, hu⟩ :=
        repo.engine.schedule_cases host d (repo.cronTrigger d.key e)
      · simp only [hu]
        cases err with
        | error err => exact .inl ⟨_, rfl⟩
        | panic p => exact .inl ⟨_, rfl⟩
      · simp only [hu]
        exact .inr ⟨now, d, e, t, s, hn, rfl, (parse_eq_ok_iff text e).mp hp, hs, rfl⟩

theorem keyOf_eq_ok (id : String) (k : JobKey) (h : keyOf id = .ok k) : JobKey.ofId? id = some k := by
  unfold keyOf at h
  cases ho : JobKey.ofId? id with
  | none =>
    rw [ho] at h
    cases h
  | some j =>
    rw [ho] at h
    cases h
    rfl

theorem replacement_eq_ok (repo : Repository) (id text : String) (x : TriggerKey × Trigger)
    (h : repo.replacement id text = .ok x) :
    ∃ k e u us, JobKey.ofId? id = some k ∧ Expression.parse text = .ok e ∧
      repo.engine.store.triggersOf k = u :: us ∧ x = (u.key, repo.cronTrigger k e) := by
  obtain ⟨e, hp, h⟩ := of_bind_eq_ok _ _ _ h
  obtain ⟨k, hk, h⟩ := of_bind_eq_ok _ _ _ h
  cases ht : repo.engine.store.triggersOf k with
  | nil =>
    rw [ht] at h
    cases h
  | cons u us =>
    rw [ht] at h
    cases h
    exact ⟨k, e, u, us, keyOf_eq_ok id k hk, (parse_eq_ok_iff text e).mp hp, ht, rfl⟩

/-- An update is refused, or the store puts a trigger in the place of the first one of the job. -/
theorem update_cases (repo : Repository) (host : Host) (id text : String) :
    (∃ err, repo.update host id text = (.error err, repo)) ∨
      ∃ now k e u us t s, host.now = .ok now ∧ JobKey.ofId? id = some k ∧
        Expression.parse text = .ok e ∧ repo.engine.store.triggersOf k = u :: us ∧
        repo.engine.store.reschedule now u.key (repo.cronTrigger k e) = .ok (t, s) ∧
        repo.update host id text =
          (.ok (), { repo with engine := { repo.engine with store := s } }) := by
  unfold update
  split
  · exact .inl ⟨_, rfl⟩
  · exact .inl ⟨_, rfl⟩
  · cases hr : repo.replacement id text with
    | error cause => exact .inl ⟨_, rfl⟩
    | ok x =>
      obtain ⟨k, e, u, us, hk, hp, ht, rfl⟩ := repo.replacement_eq_ok id text x hr
      obtain ⟨err, hu⟩ | ⟨now, t, s, hn, hs, hu⟩ :=
        repo.engine.reschedule_cases host u.key (repo.cronTrigger k e)
      · simp only [hu]
        cases err with
        | error err => exact .inl ⟨_, rfl⟩
        | panic p => exact .inl ⟨_, rfl⟩
      · simp only [hu]
        exact .inr ⟨now, k, e, u, us, t, s, hn, hk, hp, ht, hs, rfl⟩

theorem remove_cases (repo : Repository) (id : String) :
    (∃ err, repo.remove id = (.error err, repo)) ∨
      ∃ k, JobKey.ofId? id = some k ∧
        (repo.remove id).1.isOk = repo.engine.store.jobs.contains k ∧
        (repo.remove id).2 =
          { repo with engine := { repo.engine with store := (repo.engine.store.delete k).2 } } := by
  unfold remove keyOf
  cases requireText id "id" with
  | error err => exact .inl ⟨_, rfl⟩
  | ok _ =>
    cases JobKey.ofId? id with
    | none => exact .inl ⟨_, rfl⟩
    | some k =>
      refine .inr ⟨k, rfl, ?_⟩
      simp only [Engine.delete, Store.delete]
      cases repo.engine.store.jobs.contains k <;> exact ⟨rfl, rfl⟩

end Repository

theorem Task.advance?_stored (zone : Option Zone) (k : JobKey) (now : Instant) (t : Task) :
    ((t.stored zone k).2.advance? now).map ((t.stored zone k).1, ·) =
      (t.ticked? zone now).map (Task.stored zone k) := by
  by_cases hd : t.fires ≤ now
  · simp only [Task.stored, Pending.advance?, Pending.next?, Task.ticked?, hd, ↓reduceIte]
    cases t.expression.search? now zone <;> rfl
  · simp [Task.stored, Pending.advance?, Task.ticked?, hd]

theorem Task.resume?_stored (zone : Option Zone) (k : JobKey) (now : Instant) (t : Task) :
    ((t.stored zone k).2.resume? now).map ((t.stored zone k).1, ·) =
      (t.resumed? zone now).map (Task.stored zone k) := by
  by_cases hd : now - t.fires ≤ grace
  · simp [Task.stored, Pending.resume?, Task.resumed?, hd]
  · simp only [Task.stored, Pending.resume?, Task.resumed?, hd, ↓reduceIte, Timing.search?]
    cases t.expression.search? now zone <;> rfl

namespace Ledger.Kept

variable {l : Ledger} {repo : Repository}

/-- Where the store holds one more or one other task, the ledger has it, too. -/
theorem set (h : l.Kept repo) (s : Store) (hs : s.Sound) (hw : s.Whole) (k : JobKey)
    (t : Option Task) (ht : ∀ j, s.task? j =
      if j = k then t.map (Task.stored l.zone k) else repo.engine.store.task? j) :
    (l.set k t).Kept { repo with engine := { repo.engine with store := s } } where
  sound := hs
  whole := hw
  registry_eq := h.registry_eq
  zone_eq := h.zone_eq
  lifecycle_eq := h.lifecycle_eq
  running_eq := h.running_eq
  task?_eq := by
    intro j
    rw [ht j, h.task?_eq j]
    by_cases hj : j = k
    · subst hj
      simp [Ledger.set]
    · simp [Ledger.set, hj]

theorem expressed (h : l.Kept repo) : repo.engine.store.Expressed := by
  intro k p hp
  obtain ⟨d, hd⟩ := h.sound.task?_of_trigger k p hp
  rw [h.task?_eq] at hd
  obtain ⟨t, -, ht⟩ := Option.map_eq_some_iff.mp hd
  exact ⟨t.expression, l.zone, congrArg (·.2.trigger.timing) ht.symm⟩

theorem register (h : l.Kept repo) (host : Host) (text : String) (b : Body) :
    (l.record (.register host text b) (repo.register host text b).1.isOk).Kept
      (repo.register host text b).2 := by
  obtain ⟨err, hr⟩ | ⟨now, d, e, t, s, hn, ha, hp, hs, hr⟩ := repo.register_cases host text b
  · rw [hr]
    exact h
  · obtain ⟨hd, htype⟩ := repo.detail_of_accept text b d ha
    obtain ⟨-, -, hf, -⟩ := (repo.engine.store.schedule_eq_ok_iff s now t d _).mp hs
    have hf := (repo.firstFire_cronTrigger now t d.key e).mp hf
    obtain ⟨-, hf⟩ := (e.next?_now_eq_ok_iff host _ _).mp ⟨now, hn, hf⟩
    have htask := h.sound.task?_schedule now t d _ hs
    have he := text_of_parse text e hp
    have hrec : l.record (.register host text b) true =
        l.set d.key (some ⟨text, e.schedule, d.description, t⟩) := by
      simp only [Ledger.record, hd, hp, ← h.zone_eq, hf]
      rfl
    rw [hr]
    simp only [Except.isOk, Except.toBool, hrec]
    apply h.set s (h.sound.schedule now t d _ hs) (h.whole.schedule now t d _ hs) d.key _
    intro j
    rw [htask j]
    obtain ⟨k, type, description⟩ := d
    cases htype
    rw [he, Repository.cronTrigger, h.zone_eq]
    rfl

theorem triggersOf_eq (h : l.Kept repo) (k : JobKey) :
    repo.engine.store.triggersOf k =
      ((l.tasks k).map fun t => (t.stored l.zone k).2.trigger).toList := by
  rw [h.sound.triggersOf_eq k, h.task?_eq k, Option.map_map]
  rfl

theorem get?_triggers (h : l.Kept repo) (k : JobKey) (t : Task) (ht : l.tasks k = some t) :
    repo.engine.store.triggers.get? k.triggerKey = some (t.stored l.zone k).2 := by
  have htask := (h.task?_eq k).trans (congrArg (Option.map _) ht)
  have hm := ((h.sound.task?_eq_some_iff k _ _).mp htask).2.1
  exact (Table.get?_eq_some_iff _ h.sound.triggers_nodup _ _).mpr hm

theorem update (h : l.Kept repo) (host : Host) (id text : String) :
    (l.record (.update host id text) (repo.update host id text).1.isOk).Kept
      (repo.update host id text).2 := by
  obtain ⟨err, hr⟩ | ⟨now, k, e, u, us, t, s, hn, hk, hp, hu, hs, hr⟩ :=
    repo.update_cases host id text
  · rw [hr]
    exact h
  · rw [h.triggersOf_eq k] at hu
    cases ht : l.tasks k with
    | none =>
      rw [ht] at hu
      cases hu
    | some task =>
      rw [ht] at hu
      cases hu
      have ho := h.get?_triggers k task ht
      obtain ⟨_, -, -, hf, -⟩ := (repo.engine.store.reschedule_eq_ok_iff s now t _ _).mp hs
      have hf := (repo.firstFire_cronTrigger now t k e).mp hf
      obtain ⟨-, hf⟩ := (e.next?_now_eq_ok_iff host _ _).mp ⟨now, hn, hf⟩
      have htask := h.sound.task?_reschedule now t _ _ _ ho hs
      have he := text_of_parse text e hp
      have hrec : l.record (.update host id text) true =
          l.set k (some ⟨text, e.schedule, task.description, t⟩) := by
        simp only [Ledger.record, hk, hp, ← h.zone_eq, hf, ht]
        rfl
      rw [hr]
      simp only [Except.isOk, Except.toBool, hrec]
      apply h.set s (h.sound.reschedule now t _ _ hs) (h.whole.reschedule h.sound now t _ _ hs) k _
      intro j
      have hj : (task.stored l.zone k).2.trigger.jobKey = k := rfl
      rw [htask j, hj]
      split
      next hjk =>
        rw [hjk, h.task?_eq k, ht, he, Repository.cronTrigger, h.zone_eq]
        rfl
      next => rfl

theorem remove (h : l.Kept repo) (id : String) :
    (l.record (.remove id) (repo.remove id).1.isOk).Kept (repo.remove id).2 := by
  obtain ⟨err, hr⟩ | ⟨k, hk, hok, hr⟩ := repo.remove_cases id
  · rw [hr]
    exact h
  · have hset : (l.set k none).Kept (repo.remove id).2 := by
      have hrev := repo.engine.store.revised_delete k
      have hmoves := Pending.moves_unless? k
      rw [hr]
      apply h.set _ (hrev.sound h.sound hmoves) (h.whole.delete k) k none
      intro j
      rw [hrev.task?_eq h.sound hmoves, h.task?_eq j]
      cases ht : l.tasks j with
      | none => simp
      | some t => by_cases hj : j = k <;> simp [hj, Pending.unless?, Task.stored]
    rw [hok]
    cases hc : repo.engine.store.jobs.contains k with
    | true => simpa only [Ledger.record, hk] using hset
    | false =>
      -- what is not there is removed from neither
      have hgone := (h.notMem_jobs_iff k).mp ((Table.contains_eq_false _ k).mp hc)
      rwa [l.set_none k hgone] at hset

theorem tick (h : l.Kept repo) (now : Instant) :
    (l.record (.tick now) (repo.call (.tick now)).1).Kept (repo.call (.tick now)).2 := by
  by_cases hj : repo.engine.store.Jammed now
  · simp only [Repository.call, h.expressed.acquire_of_jammed h.sound now hj]
    exact ⟨h.sound, h.whole, h.registry_eq, h.zone_eq, h.lifecycle_eq, h.running_eq, h.task?_eq⟩
  · have hrev := repo.engine.store.revised_revise (Pending.advance? now)
    have hmoves := Pending.moves_advance? now
    simp only [Repository.call, h.sound.acquire_of_not_jammed now hj]
    refine ⟨hrev.sound h.sound hmoves, h.whole.revise _, h.registry_eq, h.zone_eq, h.lifecycle_eq,
      h.running_eq, fun k => ?_⟩
    simp only [Ledger.record, hrev.task?_eq h.sound hmoves, h.task?_eq k]
    cases l.tasks k with
    | none => rfl
    | some t => exact t.advance?_stored l.zone k now

theorem stop (h : l.Kept repo) : (l.record .stop repo.stop.1.isOk).Kept repo.stop.2 := by
  simp only [Repository.stop, Lifecycle.stop, Lifecycle.moveTo, Ledger.record, h.lifecycle_eq]
  cases hl : l.lifecycle with
  | stopped =>
    refine ⟨h.sound, h.whole, h.registry_eq, h.zone_eq, ?_, h.running_eq, h.task?_eq⟩
    simp [hl]
  | running => exact ⟨h.sound, h.whole, h.registry_eq, h.zone_eq, rfl, rfl, h.task?_eq⟩

/-- All that a start can come to where every trigger fires by an expression. A start that panics
leaves the store as it is. -/
theorem started (h : l.Kept repo) (host : Host) :
    (host.runtime = false ∧ repo.engine.start host = (.error (.error .noRuntime), repo.engine)) ∨
      (host.runtime = true ∧ repo.engine.running = true ∧
        repo.engine.start host = (.ok (), repo.engine)) ∨
      (host.runtime = true ∧ repo.engine.running = false ∧ ∃ p, repo.engine.start host =
        (.error (.panic p), { repo.engine with running := true })) ∨
      (host.runtime = true ∧ repo.engine.running = false ∧ repo.engine.start host =
        (.ok (), { repo.engine with
          running := true
          timer := true
          store := repo.engine.store.resumed host.clock })) := by
  have hst := repo.engine.started h.sound host
  generalize hx : repo.engine.start host = x at hst
  cases hst with
  | refused hr => exact .inl ⟨hr, rfl⟩
  | idle hr hrun => exact .inr (.inl ⟨hr, hrun, rfl⟩)
  | untimed hr hrun p hp => exact .inr (.inr (.inl ⟨hr, hrun, p, rfl⟩))
  | stuck hr hrun now hn hs keys hk =>
    refine .inr (.inr (.inl ⟨hr, hrun, .overflow, hx.symm.trans ?_⟩))
    simp [Engine.start, hr, hrun, hn, h.expressed.resume_of_stuck h.sound now hs]
  | resumed hr hrun now hn hs =>
    obtain ⟨-, -, rfl⟩ := (host.now_eq_ok_iff now).mp hn
    exact .inr (.inr (.inr ⟨hr, hrun, rfl⟩))

theorem start (h : l.Kept repo) (host : Host) :
    (l.record (.start host) (repo.start host).1.isOk).Kept (repo.start host).2 := by
  simp only [Repository.start, Lifecycle.start, Lifecycle.moveTo, Ledger.record, h.lifecycle_eq]
  by_cases hl : l.lifecycle = .running
  · simp only [hl, ↓reduceIte, true_or]
    exact ⟨h.sound, h.whole, h.registry_eq, h.zone_eq, hl.symm, h.running_eq, h.task?_eq⟩
  simp only [hl, ↓reduceIte, false_or]
  obtain ⟨hr, hs⟩ | ⟨hr, hrun, hs⟩ | ⟨hr, hrun, p, hs⟩ | ⟨hr, hrun, hs⟩ := h.started host
  · simp only [hs, hr, Raised.mapError, ↓reduceIte]
    exact ⟨h.sound, h.whole, h.registry_eq, h.zone_eq, rfl, h.running_eq, h.task?_eq⟩
  · have hrun' : l.running = true := h.running_eq.symm.trans hrun
    simp only [hs, hr, Raised.mapError, hrun', Bool.true_eq_false, ↓reduceIte, and_false]
    exact ⟨h.sound, h.whole, h.registry_eq, h.zone_eq, rfl, hrun, h.task?_eq⟩
  · simp only [hs, hr, Raised.mapError, Bool.true_eq_false, ↓reduceIte]
    exact ⟨h.sound, h.whole, h.registry_eq, h.zone_eq, rfl, rfl, h.task?_eq⟩
  · have hrun' : l.running = false := h.running_eq.symm.trans hrun
    have hrev := repo.engine.store.revised_dropIdle (Pending.resume? host.clock)
    have hmoves := Pending.moves_resume? host.clock
    simp only [hs, hr, Raised.mapError, hrun', Bool.true_eq_false, ↓reduceIte]
    refine ⟨hrev.sound h.sound hmoves, Store.whole_dropIdle _, h.registry_eq, h.zone_eq, rfl, rfl,
      fun k => ?_⟩
    simp only [Store.resumed, hrev.task?_eq h.sound hmoves, h.task?_eq k]
    cases ht : l.tasks k with
    | none => simp [Except.isOk, Except.toBool, ht]
    | some t => simpa [Except.isOk, Except.toBool, ht] using t.resume?_stored l.zone k host.clock

/-- Whatever is called, the repository holds what the ledger says. -/
theorem call (h : l.Kept repo) (c : Repository.Call) :
    (l.record c (repo.call c).1).Kept (repo.call c).2 := by
  cases c with
  | register host text b => exact h.register host text b
  | update host id text => exact h.update host id text
  | remove id => exact h.remove id
  | info id => exact h
  | all => exact h
  | start host => exact h.start host
  | stop => exact h.stop
  | tick now => exact h.tick now

theorem run (h : l.Kept repo) (cs : List Repository.Call) :
    (Ledger.run (repo, l) cs).2.Kept (Ledger.run (repo, l) cs).1 := by
  induction cs generalizing repo l with
  | nil => exact h
  | cons c cs ih => exact ih (h.call c)

theorem pairwise_jobKeys (h : l.Kept repo) :
    repo.engine.store.jobKeys.Pairwise fun j k => j.compare k = .lt :=
  JobKey.pairwise_mergeSort _ h.sound.jobs_nodup

theorem all_map_id (h : l.Kept repo) :
    repo.all.map (·.id) = repo.engine.store.jobKeys.map JobKey.id := by
  rw [h.all_eq, List.map_filterMap, ← List.filterMap_eq_map]
  apply List.filterMap_congr
  intro k hk
  obtain ⟨t, ht⟩ := Option.ne_none_iff_exists'.mp ((h.mem_jobKeys_iff k).mp hk)
  rw [ht]
  rfl

theorem nodup_ids (h : l.Kept repo) : (repo.all.map (·.id)).Nodup := by
  rw [h.all_map_id]
  refine List.Nodup.map JobKey.id_injective (h.pairwise_jobKeys.imp fun {j k} hlt heq => ?_)
  rw [heq, k.compare_self] at hlt
  cases hlt

theorem nodup_jobKeys (h : l.Kept repo) : repo.engine.store.jobKeys.Nodup :=
  List.Nodup.of_map _ (h.all_map_id ▸ h.nodup_ids)

/-- The ledger decides what is told. -/
theorem told_eq {l' : Ledger} {repo' : Repository} (h : l.Kept repo) (h' : l'.Kept repo')
    (ht : l'.tasks = l.tasks) : repo'.all = repo.all ∧ ∀ id, repo'.info id = repo.info id := by
  have hkeys : repo'.engine.store.jobKeys = repo.engine.store.jobKeys := by
    refine List.Perm.eq_of_pairwise ?_ h'.pairwise_jobKeys h.pairwise_jobKeys ?_
    · intro j k _ _ hjk hkj
      rw [JobKey.compare_swap, hkj] at hjk
      cases hjk
    · apply (List.perm_ext_iff_of_nodup h'.nodup_jobKeys h.nodup_jobKeys).mpr
      intro k
      rw [h.mem_jobKeys_iff, h'.mem_jobKeys_iff, ht]
  refine ⟨?_, fun id => ?_⟩
  · rw [h.all_eq, h'.all_eq, hkeys, ht]
  · simp only [Repository.info, h.infoOf_eq, h'.infoOf_eq, ht]

theorem accept_eq (h : l.Kept repo) (repo' : Repository) (hr : repo'.registry = l.registry)
    (text : String) (b : Body) : repo.accept text b = repo'.accept text b := by
  simp only [Repository.accept, h.registry_eq, hr]

theorem register_live (h : l.Kept repo) (host : Host) (now : Instant) (hn : host.now = .ok now)
    (text : String) (b : Body) (d : JobDetail) (e : Expression) (ha : repo.accept text b = .ok d)
    (hp : Expression.parse text = .ok e) (ht : l.tasks d.key ≠ none) :
    repo.register host text b =
      (.error (.error (.internal (.trigger (.alreadyExists d.key.display)))), repo) := by
  have hj : repo.engine.store.jobs.contains d.key = true := by
    rw [Table.contains_iff]
    by_contra hn
    exact ht ((h.notMem_jobs_iff d.key).mp hn)
  simp only [Repository.register, ha, (Repository.parse_eq_ok_iff text e).mpr hp, Engine.schedule,
    Engine.update, hn, Store.schedule, hj, ↓reduceIte]
  rfl

theorem notMem_triggers (h : l.Kept repo) (k : JobKey) (ht : l.tasks k = none) :
    k.triggerKey ∉ repo.engine.store.triggers.keys := by
  intro hm
  obtain ⟨p, hm⟩ := (Table.mem_keys _ _).mp hm
  obtain ⟨d, hd⟩ := h.sound.task?_of_trigger _ p hm
  rw [h.task?_eq] at hd
  obtain ⟨task, htask, heq⟩ := Option.map_eq_some_iff.mp hd
  have hkey : p.trigger.jobKey.triggerKey = k.triggerKey :=
    (congrArg (·.2.trigger.key) heq).trans (h.sound.trigger_key _ hm)
  rw [JobKey.triggerKey_injective _ _ hkey, ht] at htask
  cases htask

theorem register_eq_ok_iff (h : l.Kept repo) (host : Host) (text : String) (b : Body)
    (id : String) : (repo.register host text b).1 = .ok id ↔
      ∃ d e now t, repo.accept text b = .ok d ∧ Expression.parse text = .ok e ∧
        l.tasks d.key = none ∧ host.now = .ok now ∧ e.next? now l.zone = .ok (some t) ∧
        id = d.key.id := by
  constructor
  · intro hid
    obtain ⟨err, hr⟩ | ⟨now, d, e, t, s, hn, ha, hp, hs, hr⟩ := repo.register_cases host text b
    · rw [hr] at hid
      cases hid
    · rw [hr] at hid
      cases hid
      obtain ⟨hj, -, hf, -⟩ := (repo.engine.store.schedule_eq_ok_iff s now t d _).mp hs
      have hf := (repo.firstFire_cronTrigger now t d.key e).mp hf
      exact ⟨d, e, now, t, ha, hp, (h.notMem_jobs_iff d.key).mp hj, hn, h.zone_eq ▸ hf, rfl⟩
  · rintro ⟨d, e, now, t, ha, hp, ht, hn, hf, rfl⟩
    have hfirst := (repo.firstFire_cronTrigger now t d.key e).mpr (h.zone_eq ▸ hf)
    have hs := (repo.engine.store.schedule_eq_ok_iff _ now t d
      (repo.cronTrigger d.key e)).mpr
        ⟨(h.notMem_jobs_iff d.key).mpr ht, h.notMem_triggers d.key ht, hfirst, rfl⟩
    simp only [Repository.register, ha, (Repository.parse_eq_ok_iff text e).mpr hp,
      Engine.schedule, Engine.update, hn, hs]
    rfl

theorem update_eq_ok_iff (h : l.Kept repo) (host : Host) (k : JobKey) (text : String) :
    (repo.update host k.id text).1 = .ok () ↔
      l.tasks k ≠ none ∧ Text.blank text = false ∧ ∃ e now t, Expression.parse text = .ok e ∧
        host.now = .ok now ∧ e.next? now l.zone = .ok (some t) := by
  constructor
  · intro hok
    obtain ⟨err, hr⟩ | ⟨now, k', e, u, us, t, s, hn, hk, hp, hu, hs, hr⟩ :=
      repo.update_cases host k.id text
    · rw [hr] at hok
      cases hok
    · rw [JobKey.ofId?_id] at hk
      cases hk
      have hlive : l.tasks k ≠ none := by
        intro ht
        rw [h.triggersOf_eq, ht] at hu
        cases hu
      obtain ⟨_, -, -, hf, -⟩ := (repo.engine.store.reschedule_eq_ok_iff s now t _ _).mp hs
      have hf := (repo.firstFire_cronTrigger now t k e).mp hf
      refine ⟨hlive, ?_, e, now, t, hp, hn, h.zone_eq ▸ hf⟩
      cases hb : Text.blank text with
      | false => rfl
      | true => simp [Repository.update, requireText, hb, JobKey.blank_id] at hok
  · rintro ⟨hlive, hb, e, now, t, hp, hn, hf⟩
    obtain ⟨task, ht⟩ := Option.ne_none_iff_exists'.mp hlive
    have hfirst := (repo.firstFire_cronTrigger now t k e).mpr (h.zone_eq ▸ hf)
    have hs := (repo.engine.store.reschedule_eq_ok_iff _ now t k.triggerKey
      (repo.cronTrigger k e)).mpr
        ⟨_, h.get?_triggers k task ht, Table.notMem_keys_erase _ _, hfirst, rfl⟩
    have hu := h.triggersOf_eq k
    rw [ht] at hu
    have hrep : repo.replacement k.id text = .ok (k.triggerKey, repo.cronTrigger k e) := by
      simp only [Repository.replacement, (Repository.parse_eq_ok_iff text e).mpr hp,
        Repository.keyOf, JobKey.ofId?_id, bind, Except.bind, hu]
      rfl
    simp only [Repository.update, requireText, hb, JobKey.blank_id, hrep, Engine.reschedule,
      Engine.update, hn, hs]
    rfl

theorem remove_eq_ok_iff (h : l.Kept repo) (k : JobKey) :
    (repo.remove k.id).1 = .ok () ↔ l.tasks k ≠ none := by
  rw [← not_iff_not, not_not, ← h.notMem_jobs_iff, ← Table.contains_eq_false]
  simp only [Repository.remove, requireText, JobKey.blank_id, Repository.keyOf, JobKey.ofId?_id,
    Engine.delete, Store.delete]
  cases repo.engine.store.jobs.contains k <;> simp

end Ledger.Kept

theorem Ledger.kept_new (name : String) (threads : Threads) (registry : Registry)
    (zone : Option Zone) :
    (new registry zone).Kept (Repository.attach (.fresh name threads) registry zone) :=
  ⟨Store.sound_empty, Store.whole_empty, rfl, rfl, rfl, rfl, fun _ => rfl⟩

theorem Ledger.record_const (l : Ledger) (c : Repository.Call) (ok : Bool) :
    (l.record c ok).registry = l.registry ∧ (l.record c ok).zone = l.zone := by
  unfold record
  split
  all_goals first
    | exact ⟨rfl, rfl⟩
    | split <;> exact ⟨rfl, rfl⟩

theorem Ledger.run_const (x : Repository × Ledger) (cs : List Repository.Call) :
    (run x cs).2.registry = x.2.registry ∧ (run x cs).2.zone = x.2.zone := by
  induction cs generalizing x with
  | nil => exact ⟨rfl, rfl⟩
  | cons c cs ih =>
    have hc := x.2.record_const c (x.1.call c).1
    have hcs := ih ((x.1.call c).2, x.2.record c (x.1.call c).1)
    exact ⟨hcs.1.trans hc.1, hcs.2.trans hc.2⟩

theorem Ledger.tasks_record_of_not (l : Ledger) (c : Repository.Call) :
    (l.record c false).tasks = l.tasks := by
  cases c with
  | start host =>
    simp only [record]
    split <;> simp
  | stop =>
    simp only [record]
    split <;> rfl
  | _ => rfl

/-- After any calls the repository tells of the live tasks, each once and in the order of their
keys, what the ledger says; and the ledger decides which tasks can be registered, updated and
removed. -/
theorem repository_keeps_ledger (name : String) (threads : Threads) (registry : Registry)
    (zone : Option Zone) (cs : List Repository.Call) :
    let fresh := Repository.attach (.fresh name threads) registry zone
    let repo := (Ledger.run (fresh, .new registry zone) cs).1
    let tasks := (Ledger.run (fresh, .new registry zone) cs).2.tasks
    (∃ keys : List JobKey, keys.Pairwise (fun j k => j.compare k = .lt) ∧
        (∀ k, k ∈ keys ↔ tasks k ≠ none) ∧
        repo.all = keys.filterMap fun k => (tasks k).map (Task.info k)) ∧
      (repo.all.map (·.id)).Nodup ∧
      (∀ k : JobKey, repo.info k.id = (tasks k).map (Task.info k)) ∧
      (∀ host text b id, (repo.register host text b).1 = .ok id ↔
        ∃ d e now t, fresh.accept text b = .ok d ∧ Expression.parse text = .ok e ∧
          tasks d.key = none ∧ host.now = .ok now ∧ e.next? now zone = .ok (some t) ∧
          id = d.key.id) ∧
      (∀ host now text b d e, host.now = .ok now → fresh.accept text b = .ok d →
        Expression.parse text = .ok e → tasks d.key ≠ none → repo.register host text b =
          (.error (.error (.internal (.trigger (.alreadyExists d.key.display)))), repo)) ∧
      (∀ host (k : JobKey) text, (repo.update host k.id text).1 = .ok () ↔
        tasks k ≠ none ∧ Text.blank text = false ∧ ∃ e now t, Expression.parse text = .ok e ∧
          host.now = .ok now ∧ e.next? now zone = .ok (some t)) ∧
      (∀ k : JobKey, (repo.remove k.id).1 = .ok () ↔ tasks k ≠ none) ∧
      ∀ c, (repo.call c).1 = false ∨ (∃ id, c = .info id) ∨ c = .all →
        (repo.call c).2.all = repo.all ∧ ∀ id, (repo.call c).2.info id = repo.info id := by
  intro fresh repo tasks
  have h : Ledger.Kept _ repo := (Ledger.kept_new name threads registry zone).run cs
  obtain ⟨hreg, hzone⟩ := Ledger.run_const (fresh, .new registry zone) cs
  have haccept := h.accept_eq fresh hreg.symm
  refine ⟨⟨_, h.pairwise_jobKeys, h.mem_jobKeys_iff, h.all_eq⟩, h.nodup_ids, h.info_eq, ?_, ?_, ?_,
    h.remove_eq_ok_iff, ?_⟩
  · intro host text b id
    rw [h.register_eq_ok_iff, haccept, hzone]
    rfl
  · intro host now text b d e hn ha hp ht
    exact h.register_live host now hn text b d e ((haccept text b).trans ha) hp ht
  · intro host k text
    rw [h.update_eq_ok_iff, hzone]
    rfl
  · rintro c (hc | ⟨id, rfl⟩ | rfl)
    · have hk := h.call c
      rw [hc] at hk
      exact h.told_eq hk (Ledger.tasks_record_of_not _ c)
    · exact ⟨rfl, fun _ => rfl⟩
    · exact ⟨rfl, fun _ => rfl⟩

end CronTasks.Trigger
