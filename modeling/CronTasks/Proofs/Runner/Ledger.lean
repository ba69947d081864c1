import CronTasks.Proofs.Runner.Run
import CronTasks.Runner.Repository
import Mathlib.Data.List.Sort
import Mathlib.Data.String.Basic
import Mathlib.Logic.Function.Basic

namespace CronTasks

theorem Lifecycle.moveTo_state {ε σ : Type} (goal s : Lifecycle) (hook : σ → Except ε Unit × σ)
    (x : σ) : (moveTo goal s hook x).2.2 = x ∨ (moveTo goal s hook x).2.2 = (hook x).2 := by
  unfold moveTo
  split
  · exact .inl rfl
  · split <;> next he => exact .inr (congrArg Prod.snd he.symm)

namespace Runner

open Calendar Cron

structure Task where
  text : String
  description : Option String

def Task.info (id : String) (t : Task) : TaskInfo := ⟨id, t.text, t.description⟩

def Entry.task (x : Entry) : Task := ⟨x.pattern.text, x.work.description⟩

/-- What is told about the task of a body: code may have a description, and of a method it is the
type and the name. -/
def describe : Body → Option String
  | .runnable r => r.description
  | .method type name => some (type ++ "::" ++ name)
  | _ => none

namespace Repository

/-- A call on a repository, a tick of its engine's timer, or a run of something launched. -/
inductive Call
  | register (host : Host) (text : String) (b : Body)
  | update (host : Host) (id text : String)
  | remove (id : String)
  | info (id : String)
  | all
  | start (host : Host)
  | stop
  | tick (now : Instant)
  | run (l : Launch)

namespace Call

def edits : Call → Bool
  | register .. | update .. | remove _ => true
  | _ => false

end Call

inductive Answer
  | registered (id : String)
  | done
  | refused
  deriving DecidableEq

def Answer.of {ε : Type} : Except ε Unit → Answer
  | .ok () => done
  | .error _ => refused

def call (repo : Repository) : Call → Answer × Repository
  | .register host text b =>
    match repo.register host text b with
    | (.ok id, repo) => (.registered id, repo)
    | (.error _, repo) => (.refused, repo)
  | .update host id text => (.of (repo.update host id text).1, (repo.update host id text).2)
  | .remove id => (.of (repo.remove id).1, (repo.remove id).2)
  | .info _ | .all => (.done, repo)
  | .start host => (.of (repo.start host).1, (repo.start host).2)
  | .stop => (.of repo.stop.1, repo.stop.2)
  | .tick now => (.done, { repo with engine := (repo.engine.call (.acquire now)).2 })
  | .run l => (.done, { repo with engine := (Engine.run l repo.engine).2 })

end Repository

abbrev Ledger := String → Option Task

namespace Ledger

open Repository (Call Answer)

/-- The ledger after a call. Calls that are refused enter nothing. -/
def record (l : Ledger) : Call → Answer → Ledger
  | .register _ text b, .registered id => Function.update l id (some ⟨text, describe b⟩)
  | .update _ id text, .done => Function.update l id ((l id).map ({ · with text }))
  | .remove id, .done => Function.update l id none
  | _, _ => l

def run : Repository × Ledger → List Call → Repository × Ledger
  | x, [] => x
  | x, c :: cs => run ((x.1.call c).2, x.2.record c (x.1.call c).1) cs

end Ledger

/-- A repository holds what is in a ledger, under ids that its engine has given out. -/
structure Ledger.Kept (l : Ledger) (repo : Repository) : Prop where
  nodup : repo.engine.entries.keys.Nodup
  issued : ∀ id ∈ repo.engine.entries.keys, ∃ n < repo.engine.issued, id = repo.engine.ids n
  task_eq : ∀ id, (repo.engine.entries.get? id).map Entry.task = l id

theorem parseAlternatives_of_parse (text : String) (p : Pattern) (h : Pattern.parse text = .ok p) :
    p.text = text ∧ Pattern.parseAlternatives text.toList = .ok p.alternatives := by
  unfold Pattern.parse at h
  cases ha : Pattern.parseAlternatives text.toList with
  | error reason =>
    rw [ha] at h
    cases h
  | ok alternatives =>
    rw [ha] at h
    cases h
    exact ⟨rfl, rfl⟩

theorem blank_of_parse (text : String) (p : Pattern) (h : Pattern.parse text = .ok p) :
    Text.blank text = false := by
  obtain ⟨-, ha⟩ := parseAlternatives_of_parse text p h
  unfold Pattern.parseAlternatives at ha
  split at ha
  · cases ha
  · next hb => simpa [Text.blank] using hb

namespace Repository

theorem parse_eq_ok_iff (text : String) (p : Pattern) :
    parse text = .ok p ↔ Pattern.parse text = .ok p := by
  unfold parse RepositoryError.normalize
  cases Pattern.parse text <;> simp [Except.mapError]

theorem parse_of_accept (repo : Repository) (text : String) (b : Body) (p : Pattern)
    (h : repo.accept text b = .ok p) : Pattern.parse text = .ok p := by
  unfold accept at h
  cases ht : requireText text "expression" with
  | error err =>
    rw [ht] at h
    cases h
  | ok _ =>
    simp only [ht, bind, Except.bind] at h
    split at h
    · cases h
    · exact (parse_eq_ok_iff text p).mp h

theorem ne_nil_of_parse (text : String) (p : Pattern) (h : Pattern.parse text = .ok p) :
    p.alternatives ≠ [] :=
  Pattern.Accepted.ne_nil ⟨text, h⟩

theorem description_of_work (repo : Repository) (b : Body) (w : Work)
    (h : (repo.work b).1 = .ok w) : w.description = describe b := by
  unfold work at h
  split at h
  · cases h
    rfl
  · next registry _ =>
    simp only [Work.ofMethod] at h
    split at h
    · cases h
    · split at h <;> cases h
      rfl
  · cases h

theorem register_cases (repo : Repository) (host : Host) (text : String) (b : Body) :
    (∃ err journal, repo.register host text b =
        (.error err, { repo with engine := { repo.engine with journal } })) ∨
      ∃ p w, repo.accept text b = .ok p ∧ (repo.work b).1 = .ok w ∧
        host.searches = true ∧ repo.register host text b =
          (.ok (repo.engine.ids repo.engine.issued), { repo with engine := { repo.engine with
            journal := (repo.work b).2
            entries := repo.engine.entries.put (repo.engine.ids repo.engine.issued)
              ⟨p, w, p.search? host.clock repo.engine.zone⟩
            issued := repo.engine.issued + 1 } }) := by
  unfold register
  cases ha : repo.accept text b with
  | error err => exact .inl ⟨_, _, rfl⟩
  | ok p =>
    have hp := ne_nil_of_parse text p (repo.parse_of_accept text b p ha)
    obtain ⟨made, journal⟩ := repo.work b
    cases made with
    | error err => exact .inl ⟨_, journal, rfl⟩
    | ok w =>
      obtain ⟨-, err, hs⟩ | ⟨hn, hs⟩ := { repo.engine with journal }.schedule_cases host p hp w
      · exact .inl ⟨.panic err, journal, by simp only [hs]; rfl⟩
      · exact .inr ⟨p, w, rfl, rfl, hn, by simp only [hs]; rfl⟩

theorem register_eq_ok_iff (repo : Repository) (host : Host) (text : String) (b : Body)
    (id : String) : (repo.register host text b).1 = .ok id ↔
      (∃ p, repo.accept text b = .ok p) ∧ (∃ w, (repo.work b).1 = .ok w) ∧
        host.searches = true ∧ id = repo.engine.ids repo.engine.issued := by
  constructor
  · intro hok
    obtain ⟨_, _, hr⟩ | ⟨p, w, ha, hw, hn, hr⟩ := repo.register_cases host text b
    · rw [hr] at hok
      cases hok
    · rw [hr] at hok
      cases hok
      exact ⟨⟨p, ha⟩, ⟨w, hw⟩, hn, rfl⟩
  · rintro ⟨⟨p, ha⟩, ⟨w, hw⟩, hn, rfl⟩
    have hp := ne_nil_of_parse text p (repo.parse_of_accept text b p ha)
    simp only [register, ha]
    split
    next hw' =>
      rw [hw'] at hw
      cases hw
    next _ w' journal _ =>
      obtain ⟨hno, -⟩ | ⟨-, hs⟩ := { repo.engine with journal }.schedule_cases host p hp w'
      · cases hn.symm.trans hno
      · rw [hs]
        rfl

theorem accept_eq (repo repo' : Repository) (h : repo.registry = repo'.registry) (text : String)
    (b : Body) : repo.accept text b = repo'.accept text b := by
  have hs : repo.supports b = repo'.supports b := by
    unfold supports
    rw [h]
  unfold accept
  rw [hs]

theorem update_cases (repo : Repository) (host : Host) (id text : String) :
    (∃ err, repo.update host id text = (.error err, repo)) ∨
      ∃ p x, Text.blank id = false ∧ Pattern.parse text = .ok p ∧ host.searches = true ∧
        repo.engine.entries.get? id = some x ∧ repo.update host id text =
          (.ok (), { repo with engine := { repo.engine with
            entries := repo.engine.entries.put id
              { x with pattern := p, nextFire := p.search? host.clock repo.engine.zone } } }) := by
  unfold update requireText
  cases hb : Text.blank id with
  | true => exact .inl ⟨_, rfl⟩
  | false =>
    cases Text.blank text with
    | true => exact .inl ⟨_, rfl⟩
    | false =>
      cases hp : parse text with
      | error err => exact .inl ⟨_, rfl⟩
      | ok p =>
        have hp := (parse_eq_ok_iff text p).mp hp
        simp only [Bool.false_eq_true, ↓reduceIte]
        obtain ⟨-, err, hs⟩ | ⟨-, -, hs⟩ | ⟨hn, x, hx, hs⟩ :=
          repo.engine.reschedule_cases host id p (ne_nil_of_parse text p hp)
        · exact .inl ⟨.panic err, by rw [hs]⟩
        · exact .inl ⟨_, by rw [hs]⟩
        · exact .inr ⟨p, x, trivial, hp, hn, hx, by rw [hs]⟩

theorem update_of_searches (repo : Repository) (host : Host) (id text : String)
    (hb : Text.blank id = false) (p : Pattern) (hp : Pattern.parse text = .ok p)
    (hn : host.searches = true) : (repo.update host id text).1 =
      if repo.engine.entries.get? id = none then
        .error (.error (.internal (.runner (.taskNotFound id))))
      else .ok () := by
  simp only [update, requireText, hb, blank_of_parse text p hp,
    (parse_eq_ok_iff text p).mpr hp]
  obtain ⟨hno, -⟩ | ⟨-, hx, hs⟩ | ⟨-, x, hx, hs⟩ :=
    repo.engine.reschedule_cases host id p (ne_nil_of_parse text p hp)
  · cases hn.symm.trans hno
  · simp [hs, hx]
  · simp [hs, hx]

theorem remove_eq (repo : Repository) (id : String) : repo.remove id =
    if Text.blank id then (.error (.missingArgument "id"), repo)
    else (.ok (), { repo with engine :=
      { repo.engine with entries := repo.engine.entries.erase id } }) := by
  unfold remove requireText
  cases Text.blank id <;> rfl

theorem engine_start (repo : Repository) (host : Host) :
    (repo.start host).2.engine = repo.engine ∨
      (repo.start host).2.engine = (repo.engine.start host).2 := by
  have hs : (startEngine host repo.engine).2 = (repo.engine.start host).2 := by
    unfold startEngine
    split <;> next he => rw [he]
  rw [← hs]
  exact Lifecycle.moveTo_state .running repo.lifecycle (startEngine host) repo.engine

theorem engine_stop (repo : Repository) :
    repo.stop.2.engine = repo.engine ∨ repo.stop.2.engine = repo.engine.stop.2 := by
  have hs : (stopEngine repo.engine).2 = repo.engine.stop.2 := by
    unfold stopEngine
    split <;> next he => rw [he]
  rw [← hs]
  exact Lifecycle.moveTo_state .stopped repo.lifecycle stopEngine repo.engine

/-- All but runs leave alone who listens. -/
theorem call_cases (repo : Repository) (c : Call) :
    (∃ l, c = .run l) ∨ ∃ lifecycle entries issued running timer journal, (repo.call c).2 =
      { repo with lifecycle, engine :=
        { repo.engine with entries, issued, running, timer, journal } } := by
  cases c with
  | register host text b =>
    obtain ⟨_, _, hr⟩ | ⟨_, _, _, _, _, hr⟩ := repo.register_cases host text b
    · simp only [call, hr]
      exact .inr ⟨_, _, _, _, _, _, rfl⟩
    · simp only [call, hr]
      exact .inr ⟨_, _, _, _, _, _, rfl⟩
  | update host id text =>
    obtain ⟨_, hr⟩ | ⟨_, _, _, _, _, _, hr⟩ := repo.update_cases host id text
    · simp only [call, hr]
      exact .inr ⟨_, _, _, _, _, _, rfl⟩
    · simp only [call, hr]
      exact .inr ⟨_, _, _, _, _, _, rfl⟩
  | remove id =>
    simp only [call, repo.remove_eq id]
    split <;> exact .inr ⟨_, _, _, _, _, _, rfl⟩
  | info id => exact .inr ⟨_, _, _, _, _, _, rfl⟩
  | all => exact .inr ⟨_, _, _, _, _, _, rfl⟩
  | start host =>
    have hr : (repo.start host).2 = { repo with
      lifecycle := (repo.start host).2.lifecycle, engine := (repo.start host).2.engine } := rfl
    simp only [call]
    rw [hr]
    obtain hs | hs := repo.engine_start host
    · rw [hs]
      exact .inr ⟨_, _, _, _, _, _, rfl⟩
    · rw [hs]
      obtain ⟨_, he, -⟩ | ⟨-, _, _, _, -, -, he⟩ | ⟨-, -, _, -, he⟩ := repo.engine.start_cases host
      · rw [he]
        exact .inr ⟨_, _, _, _, _, _, rfl⟩
      · rw [he]
        exact .inr ⟨_, _, _, _, _, _, rfl⟩
      · rw [he]
        exact .inr ⟨_, _, _, _, _, _, rfl⟩
  | stop =>
    have hr : repo.stop.2 =
      { repo with lifecycle := repo.stop.2.lifecycle, engine := repo.stop.2.engine } := rfl
    simp only [call]
    rw [hr]
    obtain hs | hs := repo.engine_stop
    · rw [hs]
      exact .inr ⟨_, _, _, _, _, _, rfl⟩
    · rw [hs, Engine.stop]
      split <;> exact .inr ⟨_, _, _, _, _, _, rfl⟩
  | tick now =>
    obtain ⟨-, _, -, hc⟩ | ⟨-, hc⟩ := repo.engine.acquire_cases now
    · simp only [call, hc]
      exact .inr ⟨_, _, _, _, _, _, rfl⟩
    · simp only [call, hc]
      exact .inr ⟨_, _, _, _, _, _, rfl⟩
  | run l => exact .inl ⟨l, rfl⟩

theorem call_const (repo : Repository) (c : Call) :
    (repo.call c).2.engine.ids = repo.engine.ids ∧ (repo.call c).2.registry = repo.registry := by
  obtain ⟨l, rfl⟩ | ⟨_, _, _, _, _, _, hc⟩ := repo.call_cases c
  · obtain ⟨_, _, hr⟩ := Engine.run_aside l repo.engine
    simp only [call, hr, and_self]
  · rw [hc]
    exact ⟨rfl, rfl⟩

end Repository

namespace Ledger.Kept

open Repository (Call Answer)

variable {l : Ledger} {repo : Repository}

theorem of_entries {repo' : Repository} (h : l.Kept repo)
    (he : repo'.engine.entries = repo.engine.entries) (hi : repo'.engine.ids = repo.engine.ids)
    (hn : repo'.engine.issued = repo.engine.issued) : l.Kept repo' where
  nodup := he ▸ h.nodup
  issued := by
    rw [he, hi, hn]
    exact h.issued
  task_eq := by
    rw [he]
    exact h.task_eq

theorem get?_eq_none_iff (h : l.Kept repo) (id : String) :
    repo.engine.entries.get? id = none ↔ l id = none := by
  rw [← h.task_eq id, Option.map_eq_none_iff]

/-- An entry that is put under an id takes the place of what the ledger says there. -/
theorem put (h : l.Kept repo) (id : String) (x : Entry) (journal : Journal) (issued : Nat)
    (hi : repo.engine.issued ≤ issued) (hid : ∃ n < issued, id = repo.engine.ids n) :
    Ledger.Kept (Function.update l id (some x.task)) { repo with engine := { repo.engine with
      journal, issued, entries := repo.engine.entries.put id x } } where
  nodup := Table.nodup_keys_put _ h.nodup id x
  issued := by
    -- a key of the table is the new one, or was there before
    intro j hj
    obtain ⟨a, ha⟩ := (Table.mem_keys _ _).mp hj
    have hj' := (Table.get?_eq_some_iff _ (Table.nodup_keys_put _ h.nodup id x) j a).mpr ha
    rw [Table.get?_put] at hj'
    split at hj'
    next he => exact he ▸ hid
    next he =>
      have hm := (Table.mem_keys _ _).mpr ⟨a, Table.mem_of_get?_eq_some _ j a hj'⟩
      obtain ⟨n, hn, hj⟩ := h.issued j hm
      exact ⟨n, hn.trans_le hi, hj⟩
  task_eq := by
    intro j
    rw [Table.get?_put]
    by_cases hj : j = id
    · simp [hj]
    · simp [hj, h.task_eq]

theorem register (h : l.Kept repo) (host : Host) (text : String) (b : Body) :
    (l.record (.register host text b) (repo.call (.register host text b)).1).Kept
      (repo.call (.register host text b)).2 := by
  obtain ⟨_, _, hr⟩ | ⟨p, w, ha, hw, -, hr⟩ := repo.register_cases host text b
  · simp only [Repository.call, hr, record]
    exact h.of_entries rfl rfl rfl
  · obtain ⟨rfl, -⟩ := parseAlternatives_of_parse text p (repo.parse_of_accept text b p ha)
    simp only [Repository.call, hr, record, ← repo.description_of_work b w hw]
    exact h.put _ ⟨p, w, p.search? host.clock repo.engine.zone⟩ _ _ (Nat.le_succ _)
      ⟨_, Nat.lt_succ_self _, rfl⟩

theorem update (h : l.Kept repo) (host : Host) (id text : String) :
    (l.record (.update host id text) (repo.call (.update host id text)).1).Kept
      (repo.call (.update host id text)).2 := by
  obtain ⟨_, hr⟩ | ⟨p, x, -, hp, -, hx, hr⟩ := repo.update_cases host id text
  · simp only [Repository.call, hr]
    exact h
  · obtain ⟨rfl, -⟩ := parseAlternatives_of_parse text p hp
    have hid := h.issued id ((Table.mem_keys _ _).mpr ⟨x, Table.mem_of_get?_eq_some _ _ _ hx⟩)
    have hl : l id = some x.task := by rw [← h.task_eq, hx, Option.map_some]
    simp only [Repository.call, hr, Answer.of, record, hl, Option.map_some]
    exact h.put id { x with pattern := p, nextFire := p.search? host.clock repo.engine.zone }
      repo.engine.journal _ le_rfl hid

theorem remove (h : l.Kept repo) (id : String) :
    (l.record (.remove id) (repo.call (.remove id)).1).Kept (repo.call (.remove id)).2 := by
  simp only [Repository.call, repo.remove_eq id]
  cases Text.blank id with
  | true => exact h
  | false =>
    simp only [Bool.false_eq_true, ↓reduceIte, Answer.of, record]
    refine ⟨h.nodup.sublist (List.filter_sublist.map _), ?_, fun j => ?_⟩
    · intro j hj
      rw [Table.keys_erase] at hj
      exact h.issued j (List.mem_of_mem_filter hj)
    · rw [Table.get?_erase]
      by_cases hj : j = id
      · simp [hj]
      · simp [hj, h.task_eq]

theorem retimed (h : l.Kept repo) (e : Engine) (hr : Retimed repo.engine.entries e.entries)
    (hi : e.ids = repo.engine.ids) (hn : e.issued = repo.engine.issued) :
    l.Kept { repo with engine := e } := by
  refine ⟨?_, ?_, fun id => ?_⟩
  · simpa only [hr.keys_eq] using h.nodup
  · simpa only [hr.keys_eq, hi, hn] using h.issued
  · -- the task of an entry is told by what is kept of it
    have ht (o : Option Entry) : o.map Entry.task =
        (o.map Entry.untimed).map fun x => ⟨x.1.text, x.2.description⟩ := by
      rw [Option.map_map]
      rfl
    rw [ht, hr.get?_eq id, ← ht, h.task_eq]

theorem tick (h : l.Kept repo) (now : Instant) :
    l.Kept { repo with engine := (repo.engine.call (.acquire now)).2 } := by
  obtain ⟨-, _, hr, hc⟩ | ⟨-, hc⟩ := repo.engine.acquire_cases now
  · rw [hc]
    exact h.retimed _ hr rfl rfl
  · rw [hc]
    exact h.retimed _ (repo.engine.retimed_advanced now) rfl rfl

theorem start (h : l.Kept repo) (host : Host) : l.Kept (repo.start host).2 := by
  have he : l.Kept { repo with engine := (repo.engine.start host).2 } := by
    obtain ⟨_, hs, -⟩ | ⟨-, _, _, _, hr, -, hs⟩ | ⟨-, -, now, -, hs⟩ := repo.engine.start_cases host
    · rw [hs]
      exact h
    · rw [hs]
      exact h.retimed _ hr rfl rfl
    · rw [hs]
      exact h.retimed _ (repo.engine.retimed_refreshed now) rfl rfl
  obtain hs | hs := repo.engine_start host
  · exact h.of_entries (by rw [hs]) (by rw [hs]) (by rw [hs])
  · exact he.of_entries (by rw [hs]) (by rw [hs]) (by rw [hs])

theorem stop (h : l.Kept repo) : l.Kept repo.stop.2 := by
  have he : l.Kept { repo with engine := repo.engine.stop.2 } := by
    unfold Engine.stop
    split <;> exact h.of_entries rfl rfl rfl
  obtain hs | hs := repo.engine_stop
  · exact h.of_entries (by rw [hs]) (by rw [hs]) (by rw [hs])
  · exact he.of_entries (by rw [hs]) (by rw [hs]) (by rw [hs])

theorem runLaunch (h : l.Kept repo) (launch : Launch) :
    l.Kept { repo with engine := (Engine.run launch repo.engine).2 } := by
  obtain ⟨_, _, hr⟩ := Engine.run_aside launch repo.engine
  rw [hr]
  exact h.of_entries rfl rfl rfl

/-- Whatever is called, the repository holds what the ledger says. -/
theorem call (h : l.Kept repo) (c : Call) : (l.record c (repo.call c).1).Kept (repo.call c).2 := by
  cases c with
  | register host text b => exact h.register host text b
  | update host id text => exact h.update host id text
  | remove id => exact h.remove id
  | info id => exact h
  | all => exact h
  | start host => exact h.start host
  | stop => exact h.stop
  | tick now => exact h.tick now
  | run launch => exact h.runLaunch launch

theorem run (h : l.Kept repo) (cs : List Call) :
    (Ledger.run (repo, l) cs).2.Kept (Ledger.run (repo, l) cs).1 := by
  induction cs generalizing repo l with
  | nil => exact h
  | cons c cs ih => exact ih (h.call c)

theorem info_eq (h : l.Kept repo) (id : String) : repo.info id = (l id).map (Task.info id) := by
  rw [← h.task_eq id]
  simp only [Repository.info, Engine.pattern?, Engine.work?]
  cases repo.engine.entries.get? id <;> rfl

theorem all_eq (h : l.Kept repo) :
    repo.all = repo.engine.taskIds.filterMap fun id => (l id).map (Task.info id) :=
  List.filterMap_congr fun id _ => h.info_eq id

theorem mem_taskIds_iff (h : l.Kept repo) (id : String) : id ∈ repo.engine.taskIds ↔ l id ≠ none := by
  rw [Engine.taskIds, List.mem_mergeSort, Ne, ← h.get?_eq_none_iff, Table.get?_eq_none_iff, not_not]

theorem pairwise_taskIds (h : l.Kept repo) : repo.engine.taskIds.Pairwise (· < ·) := by
  have hsorted : repo.engine.taskIds.Pairwise (· ≤ ·) := List.pairwise_mergeSort' (· ≤ ·) _
  have hnodup : repo.engine.taskIds.Nodup := (List.mergeSort_perm _ _).nodup_iff.mpr h.nodup
  exact (List.pairwise_and_iff.mpr ⟨hsorted, hnodup⟩).imp fun h => lt_of_le_of_ne h.1 h.2

theorem told_eq {repo' : Repository} (h : l.Kept repo) (h' : l.Kept repo') :
    repo'.all = repo.all ∧ ∀ id, repo'.info id = repo.info id := by
  -- both list the ids of one ledger in order
  have hids : repo'.engine.taskIds = repo.engine.taskIds := by
    refine List.Perm.eq_of_pairwise (fun a b _ _ hab hba => absurd hab hba.not_gt)
      h'.pairwise_taskIds h.pairwise_taskIds ?_
    apply (List.perm_ext_iff_of_nodup h'.pairwise_taskIds.nodup h.pairwise_taskIds.nodup).mpr
    intro id
    rw [h.mem_taskIds_iff, h'.mem_taskIds_iff]
  refine ⟨?_, fun id => ?_⟩
  · rw [h.all_eq, h'.all_eq, hids]
  · rw [h.info_eq, h'.info_eq]

/-- Where ids do not come twice, the next one is not in the ledger. -/
theorem next_eq_none (h : l.Kept repo) (hi : Function.Injective repo.engine.ids) :
    l (repo.engine.ids repo.engine.issued) = none := by
  rw [← h.get?_eq_none_iff, Table.get?_eq_none_iff]
  intro hm
  obtain ⟨n, hn, he⟩ := h.issued _ hm
  exact hn.ne' (hi he)

theorem update_eq_ok_iff (h : l.Kept repo) (host : Host) (id text : String) :
    (repo.update host id text).1 = .ok () ↔
      l id ≠ none ∧ Text.blank id = false ∧ (∃ p, Pattern.parse text = .ok p) ∧
        host.searches = true := by
  rw [Ne, ← h.get?_eq_none_iff]
  constructor
  · intro hok
    obtain ⟨_, hr⟩ | ⟨p, x, hb, hp, hn, hx, -⟩ := repo.update_cases host id text
    · rw [hr] at hok
      cases hok
    · exact ⟨by simp [hx], hb, ⟨p, hp⟩, hn⟩
  · rintro ⟨hx, hb, ⟨p, hp⟩, hn⟩
    rw [repo.update_of_searches host id text hb p hp hn, if_neg hx]

theorem update_of_eq_none (h : l.Kept repo) (host : Host) (id text : String) (hid : l id = none)
    (hb : Text.blank id = false) (p : Pattern) (hp : Pattern.parse text = .ok p)
    (hn : host.searches = true) : repo.update host id text =
      (.error (.error (.internal (.runner (.taskNotFound id)))), repo) := by
  have hx := (h.get?_eq_none_iff id).mpr hid
  have ha := repo.update_of_searches host id text hb p hp hn
  rw [if_pos hx] at ha
  obtain ⟨err, hr⟩ | ⟨_, x, -, -, -, hx', -⟩ := repo.update_cases host id text
  · rw [hr] at ha ⊢
    cases ha
    rfl
  · cases hx.symm.trans hx'

theorem remove_of_eq_none (h : l.Kept repo) (id : String) (hid : l id = none)
    (hb : Text.blank id = false) : repo.remove id = (.ok (), repo) := by
  have hk := (Table.get?_eq_none_iff _ id).mp ((h.get?_eq_none_iff id).mpr hid)
  rw [repo.remove_eq id, hb, Table.erase_of_notMem _ id hk]
  rfl

end Ledger.Kept

theorem Ledger.kept_new (zone : Option Zone) (ids : Nat → String) (registry : Option Registry) :
    Kept (fun _ => none) (Repository.attach (.new zone ids) registry) :=
  ⟨List.nodup_nil, by rintro _ ⟨⟩, fun _ => rfl⟩

theorem Ledger.run_const (x : Repository × Ledger) (cs : List Repository.Call) :
    (run x cs).1.engine.ids = x.1.engine.ids ∧ (run x cs).1.registry = x.1.registry := by
  induction cs generalizing x with
  | nil => exact ⟨rfl, rfl⟩
  | cons c cs ih =>
    have hc := x.1.call_const c
    have hcs := ih ((x.1.call c).2, x.2.record c (x.1.call c).1)
    exact ⟨hcs.1.trans hc.1, hcs.2.trans hc.2⟩

theorem Ledger.record_eq_self (l : Ledger) (c : Repository.Call) (answer : Repository.Answer)
    (h : c.edits = false ∨ answer = .refused) : l.record c answer = l := by
  obtain h | rfl := h
  · cases c <;> first | rfl | cases h
  · cases c <;> rfl

/-- After any calls the repository tells of the tasks that were registered and not removed since,
each once and in the order of their ids, what was last given for them, and of nothing else. -/
theorem runner_keeps_ledger (zone : Option Zone) (ids : Nat → String)
    (hids : Function.Injective ids) (registry : Option Registry) (cs : List Repository.Call) :
    let fresh := Repository.attach (.new zone ids) registry
    let repo := (Ledger.run (fresh, fun _ => none) cs).1
    let tasks := (Ledger.run (fresh, fun _ => none) cs).2
    (∃ live : List String, live.Pairwise (· < ·) ∧ (∀ id, id ∈ live ↔ tasks id ≠ none) ∧
        repo.all = live.filterMap fun id => (tasks id).map (Task.info id)) ∧
      (∀ id, repo.info id = (tasks id).map (Task.info id)) ∧
      (∀ host text b id, (repo.register host text b).1 = .ok id ↔
        (∃ p, fresh.accept text b = .ok p) ∧ (∃ w, (repo.work b).1 = .ok w) ∧
          host.searches = true ∧ id = ids repo.engine.issued) ∧
      tasks (ids repo.engine.issued) = none ∧
      (∀ host id text, (repo.update host id text).1 = .ok () ↔
        tasks id ≠ none ∧ Text.blank id = false ∧ (∃ p, Pattern.parse text = .ok p) ∧
          host.searches = true) ∧
      (∀ host id text p, tasks id = none → Text.blank id = false → Pattern.parse text = .ok p →
        host.searches = true → repo.update host id text =
          (.error (.error (.internal (.runner (.taskNotFound id)))), repo)) ∧
      (∀ id, Text.blank id = false → (repo.remove id).1 = .ok ()) ∧
      (∀ id, Text.blank id = false → tasks id = none → (repo.remove id).2 = repo) ∧
      ∀ c, c.edits = false ∨ (repo.call c).1 = .refused →
        (repo.call c).2.all = repo.all ∧ ∀ id, (repo.call c).2.info id = repo.info id := by
  intro fresh repo tasks
  have h : Ledger.Kept tasks repo := (Ledger.kept_new zone ids registry).run cs
  obtain ⟨hi, hr⟩ := Ledger.run_const (fresh, fun _ => none) cs
  refine ⟨⟨_, h.pairwise_taskIds, h.mem_taskIds_iff, h.all_eq⟩, h.info_eq, ?_, ?_,
    h.update_eq_ok_iff, fun host id text p hid hb hp hn => h.update_of_eq_none host id text hid hb p hp hn,
    ?_, fun id hb hid => by rw [h.remove_of_eq_none id hid hb], ?_⟩
  · intro host text b id
    have hi : repo.engine.ids = ids := hi
    rw [repo.register_eq_ok_iff, repo.accept_eq fresh hr, hi]
  · have hnext := h.next_eq_none (hi ▸ hids)
    rwa [hi] at hnext
  · intro id hb
    rw [repo.remove_eq id, hb]
    rfl
  · intro c hc
    have hk := h.call c
    rw [Ledger.record_eq_self _ c _ hc] at hk
    exact h.told_eq hk

theorem runner_keeps_ledger_of_a_task :
    let ids (n : Nat) := String.ofList (List.replicate (n + 1) 'a')
    let host : Host := ⟨1893456000000, true⟩
    let repo := (Ledger.run (Repository.attach (.new none ids) none, fun _ => none)
      [.register host "* * * * * *" (.runnable ⟨"backup", some "nightly", .success⟩),
        .update host "a" "0 0 3 * * *",
        .register host "* * * * * *" (.runnable ⟨"cleanup", none, .success⟩),
        .start host, .remove "aa"]).1
    Function.Injective ids ∧ repo.info "a" = some ⟨"a", "0 0 3 * * *", some "nightly"⟩ ∧
      repo.info "aa" = none := by
  intro ids host repo
  have hids : Function.Injective ids := by
    intro m n h
    have hl := congrArg List.length (String.ofList_inj.mp h)
    simpa using hl
  obtain ⟨-, hinfo, -⟩ := runner_keeps_ledger none ids hids none
    [.register host "* * * * * *" (.runnable ⟨"backup", some "nightly", .success⟩),
      .update host "a" "0 0 3 * * *",
      .register host "* * * * * *" (.runnable ⟨"cleanup", none, .success⟩),
      .start host, .remove "aa"]
  refine ⟨hids, (hinfo "a").trans ?_, (hinfo "aa").trans ?_⟩
  · decide +kernel
  · decide +kernel

/-- An id that is blank is refused before the engine is asked whether it is known. In the last
second no update is answered, for its search panics, and none before 1970. -/
theorem unknown_ids_refused_otherwise :
    let repo := Repository.attach (.new none) none
    repo.info "" = none ∧ repo.info "a" = none ∧ Pattern.valid "* * * * * *" = true ∧
      (repo.update ⟨1893456000000, true⟩ "" "* * * * * *").1 =
        .error (.error (.missingArgument "id")) ∧
      (repo.update ⟨8210266876799999, true⟩ "a" "* * * * * *").1 = .error (.panic .overflow) ∧
      (repo.update ⟨-1, true⟩ "a" "* * * * * *").1 = .error (.panic .early) := by
  refine ⟨rfl, rfl, ?_, rfl, ?_, ?_⟩
  · decide +kernel
  · decide +kernel
  · decide +kernel

end Runner

end CronTasks
