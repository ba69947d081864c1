import CronTasks.Proofs.Cron.Window
import CronTasks.Proofs.Runner.Run

namespace CronTasks.Runner.Engine

open Calendar Cron

def tickOf (id : String) (e : Engine) (now : Instant) : Nat × Engine :=
  (((e.call (.acquire now)).1.filter (·.taskId == some id)).length, (e.call (.acquire now)).2)

/-- An entry is launched by a pattern in universal time, unless there is no such entry. -/
structure Expects (e : Engine) (id : String) (p : Pattern) : Prop where
  nodup : e.entries.keys.Nodup
  zone_eq : e.zone = none
  pattern_eq : ∀ x, e.entries.get? id = some x → x.pattern = p

theorem get?_advanced (e : Engine) (now : Instant) (id : String) :
    (e.advanced now).get? id = (e.entries.get? id).map (·.advance e.zone now) := by
  rw [advanced, Table.get?_map]
  exact fun _ => rfl

theorem get?_refreshed (e : Engine) (now : Instant) (id : String) :
    (e.refreshed now).get? id = (e.entries.get? id).map (·.refresh e.zone now) := by
  rw [refreshed, Table.get?_map]
  exact fun _ => rfl

theorem length_due_filter (e : Engine) (h : e.entries.keys.Nodup) (now : Instant) (id : String) :
    ((e.due now).filter (·.taskId == some id)).length =
      if (e.nextFire? id).any (· ≤ now) then 1 else 0 := by
  rw [e.due_filter h now id, List.length_map, nextFire?]
  cases e.entries.get? id with
  | none => rfl
  | some x => by_cases hx : x.due now = true <;> simp_all [Entry.due, Option.filter]

theorem Expects.acquire {e : Engine} {id : String} {p : Pattern} (h : e.Expects id p)
    (now : Instant) : (e.call (.acquire now)).2.Expects id p := by
  have hretimed (entries : Table String Entry) (hr : Retimed e.entries entries) (timer : Bool) :
      Expects { e with entries, timer } id p := by
    refine ⟨hr.keys_eq ▸ h.nodup, h.zone_eq, fun x hx => ?_⟩
    have hg := hr.get?_eq id
    rw [hx, Option.map_some] at hg
    obtain ⟨y, hy, he⟩ := Option.map_eq_some_iff.mp hg.symm
    exact (congrArg Prod.fst he).symm.trans (h.pattern_eq y hy)
  obtain ⟨-, entries, hr, hc⟩ | ⟨-, hc⟩ := e.acquire_cases now
  · simpa only [hc] using hretimed entries hr false
  · simpa only [hc] using hretimed _ (e.retimed_advanced now) e.timer

theorem Expects.awaited_acquire {e : Engine} {id : String} {p : Pattern} (h : e.Expects id p)
    (now : Instant) (hn : now.hasNextSecond = true) :
    ((e.call (.acquire now)).1.filter (·.taskId == some id)).length =
        (if (e.nextFire? id).any (· ≤ now) then 1 else 0) ∧
      (e.call (.acquire now)).2.nextFire? id =
        if (e.nextFire? id).any (· ≤ now) then p.search? now none else e.nextFire? id := by
  obtain ⟨⟨_, -, -, hlast, -⟩, -⟩ | ⟨-, hc⟩ := e.acquire_cases now
  · cases hn.symm.trans hlast
  · refine ⟨by rw [hc, e.length_due_filter h.nodup], ?_⟩
    rw [hc, nextFire?, e.get?_advanced now id, nextFire?]
    cases hx : e.entries.get? id with
    | none => rfl
    | some x =>
      have hp := h.pattern_eq x hx
      by_cases hd : x.due now = true <;>
        simp_all [Entry.due, Entry.advance, Entry.refresh, h.zone_eq]

theorem Expects.acquire_late {e : Engine} {id : String} {p : Pattern} (h : e.Expects id p)
    (hp : p.alternatives ≠ []) (now : Instant) (hn : now.hasNextSecond = false) :
    (e.call (.acquire now)).1.filter (·.taskId == some id) = [] := by
  obtain ⟨-, _, -, hc⟩ | ⟨hfree, hc⟩ := e.acquire_cases now
  · rw [hc]
    rfl
  · rw [hc, e.due_filter h.nodup]
    cases hx : e.entries.get? id with
    | none => rfl
    | some x =>
      have hd : x.due now = false := by
        rw [← Bool.not_eq_true]
        intro hd
        have hm := Table.mem_of_get?_eq_some _ id x hx
        exact hfree ⟨_, hm, hd, hn, (h.pattern_eq x hx).symm ▸ hp⟩
      simp [Option.filter, hd]

theorem waits_of_expects (id : String) (p : Pattern) (hp : p.alternatives ≠ []) :
    Waits (tickOf id) (·.Expects id p) (·.nextFire? id) (p.search? · none) where
  good_tick := fun _ now h => h.acquire now
  count := fun _ now h hn => (h.awaited_acquire now hn).1
  awaited_tick := fun _ now h hn => (h.awaited_acquire now hn).2
  count_late := fun e now h hn => by simp [tickOf, h.acquire_late hp now hn]

/-- The ways in which an entry comes to be launched by a pattern in universal time: with the
instants of the pattern, the time of the call, and what ticks launch from then on. -/
inductive Onset : Set Instant → Instant → (List Instant → List Nat) → Prop
  | schedule (e e' : Engine) (he : e.Reachable) (hz : e.zone = none) (host : Host) (p : Pattern)
      (hp : p.Accepted) (work : Work) (id : String)
      (ha : e.schedule host p work = (.ok id, e')) :
      Onset p.instants host.clock (tickCounts (tickOf id) e')
  | reschedule (e e' : Engine) (he : e.Reachable) (hz : e.zone = none) (host : Host)
      (id : String) (p : Pattern) (hp : p.Accepted)
      (ha : e.reschedule host id p = (.ok true, e')) :
      Onset p.instants host.clock (tickCounts (tickOf id) e')
  | start (e e' : Engine) (he : e.Reachable) (hz : e.zone = none) (host : Host) (id : String)
      (x : Entry) (hx : e.entries.get? id = some x) (hp : x.pattern.Accepted)
      (ha : e.start host = (.ok (), e')) :
      Onset x.pattern.instants host.clock (tickCounts (tickOf id) e')

/-- An entry is launched once for every window from the time on at which its first instant was
searched for. -/
theorem counts_of_entry (e : Engine) (hn : e.entries.keys.Nodup) (hz : e.zone = none)
    (id : String) (x : Entry) (hx : e.entries.get? id = some x) (hp : x.pattern.Accepted)
    (now : Instant) (hnow : 0 ≤ now) (hi : x.nextFire = x.pattern.search? now none)
    (ts : List Instant) (hs : (now :: ts).Pairwise (· ≤ ·)) :
    tickCounts (tickOf id) e ts = windowCounts x.pattern.instants now ts := by
  have he : e.Expects id x.pattern := ⟨hn, hz, fun y hy => by
    cases hx.symm.trans hy
    rfl⟩
  have hnext : e.nextFire? id = x.pattern.search? now none := by simp [nextFire?, hx, hi]
  refine (waits_of_expects id x.pattern hp.ne_nil).counts_eq _ now ?_ e he ?_ ts hs
  · exact fun u hu _ => x.pattern.isFirst_search? hp.ordered u (yearZero_le_of_nonneg (hnow.trans hu))
  · rw [hnext]
    exact x.pattern.isFirst_search? hp.ordered now (yearZero_le_of_nonneg hnow)

theorem counts_of_onset (S : Set Instant) (t : Instant) (fired : List Instant → List Nat)
    (h : Onset S t fired) (ts : List Instant) (hs : (t :: ts).Pairwise (· ≤ ·)) :
    fired ts = windowCounts S t ts := by
  have hclock (host : Host) (hn : host.searches = true) : 0 ≤ host.clock :=
    ((host.now_eq_ok_iff _).mp ((host.searches_iff).mp hn).1).1
  cases h with
  | schedule e e' he hz host p hp work id ha =>
    obtain ⟨hn, rfl, rfl⟩ := (e.schedule_eq_ok_iff e' host p hp.ne_nil work id).mp ha
    refine counts_of_entry _ (Table.nodup_keys_put _ he.nodup _ _) ?_ _
      ⟨p, work, p.search? host.clock e.zone⟩ (Table.get?_put_self _ _ _) hp _ (hclock host hn) ?_ ts hs
    · exact hz
    · simp only [hz]
  | reschedule e e' he hz host id p hp ha =>
    obtain ⟨hn, x, -, rfl⟩ := (e.reschedule_eq_ok_iff e' host id p hp.ne_nil).mp ha
    refine counts_of_entry _ (Table.nodup_keys_put _ he.nodup _ _) ?_ id
      ⟨p, x.work, p.search? host.clock e.zone⟩ (Table.get?_put_self _ _ _) hp _ (hclock host hn) ?_ ts hs
    · exact hz
    · simp only [hz]
  | start e e' he hz host id x hx hp ha =>
    obtain ⟨_, hs', -⟩ | ⟨-, _, _, _, -, -, hs'⟩ | ⟨-, -, now, hn, hs'⟩ := e.start_cases host
    · cases hs'.symm.trans ha
    · cases hs'.symm.trans ha
    · cases hs'.symm.trans ha
      obtain ⟨hlow, -, rfl⟩ := (host.now_eq_ok_iff now).mp hn
      have hg := e.get?_refreshed host.clock id
      rw [hx, Option.map_some] at hg
      refine counts_of_entry _ ?_ ?_ id (x.refresh e.zone host.clock) hg hp host.clock hlow ?_ ts hs
      · exact (e.retimed_refreshed host.clock).keys_eq.symm ▸ he.nodup
      · exact hz
      · simp only [Entry.refresh, hz]

end CronTasks.Runner.Engine
