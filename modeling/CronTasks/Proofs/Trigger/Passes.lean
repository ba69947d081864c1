import CronTasks.Proofs.Cron.Instants
import CronTasks.Proofs.Trigger.Store

namespace CronTasks.Trigger

open Calendar Cron

namespace Timing

/-- What a search finds where it does not panic. -/
def search? : Timing → Instant → Option Instant
  | cron x zone, after => x.search? after zone
  | simple r, after => r.next? after

def Panics (t : Timing) (now : Instant) : Prop :=
  now.hasNextSecond = false ∧ ∃ x zone, t = cron x zone

theorem panics_cron_iff (x : Expression) (zone : Option Zone) (now : Instant) :
    (cron x zone).Panics now ↔ now.hasNextSecond = false :=
  ⟨And.left, fun h => ⟨h, x, zone, rfl⟩⟩

theorem next?_of_panics {t : Timing} {now : Instant} (h : t.Panics now) :
    t.next? now = .error .overflow := by
  obtain ⟨hn, x, zone, rfl⟩ := h
  rw [next?, x.next?_eq, hn]
  rfl

theorem next?_of_not_panics {t : Timing} {now : Instant} (h : ¬ t.Panics now) :
    t.next? now = .ok (t.search? now) := by
  cases t with
  | cron x zone =>
    rw [panics_cron_iff, Bool.not_eq_false] at h
    rw [next?, x.next?_eq, h]
    rfl
  | simple r => rfl

theorem search?_of_next? {t : Timing} {now : Instant} {o : Option Instant} (h : t.next? now = .ok o) :
    t.search? now = o := by
  by_cases hp : t.Panics now
  · cases (next?_of_panics hp).symm.trans h
  · exact Except.ok.inj ((next?_of_not_panics hp).symm.trans h)

end Timing

namespace Pending

/-- What a pause leaves of a trigger whose search does not panic. -/
def resume? (now : Instant) (p : Pending) : Option Pending :=
  if now - p.nextFire ≤ grace then some p
  else (p.trigger.timing.search? now).map fun t => { p with nextFire := t }

/-- What a trigger that fires waits for next: a repetition goes on from the instant at which it was
due, an expression from now. -/
def next? (now : Instant) (p : Pending) : Option Instant :=
  match p.trigger.timing with
  | .simple r => r.next? p.nextFire
  | .cron x zone => x.search? now zone

/-- What a tick leaves of a trigger whose search does not panic. -/
def advance? (now : Instant) (p : Pending) : Option Pending :=
  if p.nextFire ≤ now then (p.next? now).map fun t => { p with nextFire := t } else some p

/-- A trigger that was due waits for its next fire time, if it has one. -/
def moved (now : Instant) (p : Pending) : Pending := (p.advance? now).getD p

/-- Changes the triggers under some keys. -/
def among (keys : List TriggerKey) (f : Pending → Option Pending) (p : Pending) : Option Pending :=
  if p.trigger.key ∈ keys then f p else some p

def drop (keys : List TriggerKey) (p : Pending) : Option Pending :=
  if p.trigger.key ∈ keys then none else some p

/-- A trigger that is too late, and for which nothing can be searched. -/
def Stuck (now : Instant) (p : Pending) : Prop :=
  grace < now - p.nextFire ∧ p.trigger.timing.Panics now

/-- A trigger that is due, and for which nothing can be searched. -/
def Jammed (now : Instant) (p : Pending) : Prop :=
  p.nextFire ≤ now ∧ p.trigger.timing.Panics now

theorem moves_resume? (now : Instant) : Moves (resume? now) := by
  intro p q h
  unfold resume? at h
  split at h
  · cases h
    rfl
  · obtain ⟨_, _, rfl⟩ := Option.map_eq_some_iff.mp h
    rfl

theorem moves_advance? (now : Instant) : Moves (advance? now) := by
  intro p q h
  unfold advance? at h
  split at h
  · obtain ⟨_, _, rfl⟩ := Option.map_eq_some_iff.mp h
    rfl
  · cases h
    rfl

theorem trigger_moved (now : Instant) (p : Pending) : (p.moved now).trigger = p.trigger := by
  unfold moved
  cases h : p.advance? now with
  | none => rfl
  | some q => exact moves_advance? now p q h

theorem moves_moved (now : Instant) : Moves fun p => some (p.moved now) := by
  intro p q h
  cases h
  exact p.trigger_moved now

theorem Moves.among {f : Pending → Option Pending} (hf : Moves f) (keys : List TriggerKey) :
    Moves (among keys f) := by
  intro p q h
  unfold Pending.among at h
  split at h
  · exact hf p q h
  · cases h
    rfl

theorem moves_drop (keys : List TriggerKey) : Moves (drop keys) := by
  intro p q h
  unfold drop at h
  split at h
  · cases h
  · cases h
    rfl

theorem drop_bind_drop (keys keys' : List TriggerKey) (p : Pending) :
    (p.drop keys).bind (drop keys') = p.drop (keys ++ keys') := by
  unfold drop
  by_cases h : p.trigger.key ∈ keys <;> simp [h]

theorem resume?_of_le (now : Instant) (p : Pending) (h : now - p.nextFire ≤ grace) :
    p.resume? now = some p :=
  if_pos h

theorem resume?_of_lt (now : Instant) (p : Pending) (h : grace < now - p.nextFire) :
    p.resume? now = (p.trigger.timing.search? now).map fun t => { p with nextFire := t } :=
  if_neg (not_le.mpr h)

theorem advance?_of_lt (now : Instant) (p : Pending) (h : now < p.nextFire) :
    p.advance? now = some p :=
  if_neg (not_le.mpr h)

theorem advance?_of_le (now : Instant) (p : Pending) (h : p.nextFire ≤ now) :
    p.advance? now = (p.next? now).map fun t => { p with nextFire := t } :=
  if_pos h

theorem moved_of_lt (now : Instant) (p : Pending) (h : now < p.nextFire) : p.moved now = p := by
  rw [moved, p.advance?_of_lt now h]
  rfl

theorem advance?_eq_none_iff (now : Instant) (p : Pending) :
    p.advance? now = none ↔ p.nextFire ≤ now ∧ p.next? now = none := by
  by_cases h : p.nextFire ≤ now
  · simp [p.advance?_of_le now h, h]
  · simp [p.advance?_of_lt now (not_le.mp h), h]

theorem resumed?_of_stuck {now : Instant} {p : Pending} (h : p.Stuck now) :
    p.resumed? now = .error .overflow := by
  rw [resumed?, Timing.resume?, if_neg (not_le.mpr h.1), Timing.next?_of_panics h.2]
  rfl

theorem resumed?_of_not_stuck {now : Instant} {p : Pending} (h : ¬ p.Stuck now) :
    p.resumed? now = .ok (p.resume? now) := by
  unfold resumed? Timing.resume? resume?
  split
  · rfl
  next hlate => rw [Timing.next?_of_not_panics fun hp => h ⟨not_le.mp hlate, hp⟩]; rfl

theorem following?_of_panics {now : Instant} {p : Pending} (h : p.trigger.timing.Panics now) :
    p.following? now = .error .overflow := by
  obtain ⟨hn, x, zone, hx⟩ := h
  rw [following?, hx]
  exact Timing.next?_of_panics ⟨hn, x, zone, rfl⟩

theorem following?_of_not_panics {now : Instant} {p : Pending} (h : ¬ p.trigger.timing.Panics now) :
    p.following? now = .ok (p.next? now) := by
  unfold following? next?
  cases hp : p.trigger.timing with
  | simple r => rfl
  | cron x zone =>
    rw [hp] at h
    exact Timing.next?_of_not_panics h

end Pending

namespace Store

/-- A trigger that is too late needs a search that panics. -/
def Stuck (s : Store) (now : Instant) : Prop := ∃ k p, (k, p) ∈ s.triggers ∧ p.Stuck now

/-- A trigger that is due needs a search that panics. -/
def Jammed (s : Store) (now : Instant) : Prop := ∃ k p, (k, p) ∈ s.triggers ∧ p.Jammed now

def alter (s : Store) (f : Pending → Option Pending) : Store :=
  { s with triggers := s.triggers.revise f }

/-- Changes or drops triggers, and drops the jobs of those that are dropped. -/
def revise (s : Store) (f : Pending → Option Pending) : Store :=
  { jobs := s.jobs.filter fun e => (s.alter f).hasTrigger e.1 || !s.hasTrigger e.1
    triggers := s.triggers.revise f }

theorem revised_alter (s : Store) (f : Pending → Option Pending) : s.Revised f (s.alter f) :=
  ⟨List.Perm.refl _, List.Sublist.refl _, fun _ he _ => he⟩

theorem revised_dropIdle (s : Store) (f : Pending → Option Pending) :
    s.Revised f (s.alter f).dropIdle :=
  ⟨List.Perm.refl _, List.filter_sublist, fun e he hs =>
    List.mem_filter.mpr ⟨he, ((s.alter f).hasTrigger_iff e.1).mpr hs⟩⟩

theorem revised_revise (s : Store) (f : Pending → Option Pending) : s.Revised f (s.revise f) :=
  ⟨List.Perm.refl _, List.filter_sublist, fun e he hs =>
    List.mem_filter.mpr ⟨he, by rw [((s.alter f).hasTrigger_iff e.1).mpr hs, Bool.true_or]⟩⟩

theorem whole_dropIdle (s : Store) : s.dropIdle.Whole := by
  intro job hj
  obtain ⟨e, he, rfl⟩ := List.mem_map.mp hj
  exact (s.hasTrigger_iff e.1).mp (List.mem_filter.mp he).2

theorem Whole.revise {s : Store} (h : s.Whole) (f : Pending → Option Pending) : (s.revise f).Whole := by
  intro job hj
  obtain ⟨e, he, rfl⟩ := List.mem_map.mp hj
  obtain ⟨hm, hkeep⟩ := List.mem_filter.mp he
  rw [(s.hasTrigger_iff e.1).mpr (h e.1 (List.mem_map_of_mem hm)), Bool.not_true, Bool.or_false]
    at hkeep
  exact ((s.alter f).hasTrigger_iff e.1).mp hkeep

theorem Sound.mem_jobs_revise_iff {s : Store} (hs : s.Sound) (f : Pending → Option Pending)
    (hf : Pending.Moves f) (job : JobKey) (d : JobDetail) :
    (job, d) ∈ (s.revise f).jobs ↔ (job, d) ∈ s.jobs ∧
      ∀ k p, (k, p) ∈ s.triggers → p.trigger.jobKey = job → k ∈ (s.revise f).triggers.keys := by
  have hr := s.revised_revise f
  simp only [revise, List.mem_filter, Bool.or_eq_true, Bool.not_eq_true', ← Bool.not_eq_true,
    hasTrigger_iff]
  refine and_congr_right fun _ => ⟨?_, fun hk => ?_⟩
  · rintro (hj | hj) k p hp rfl
    · obtain ⟨⟨k', q⟩, hq, hjq⟩ := List.mem_map.mp hj
      obtain ⟨p', hp', hf'⟩ := (hr.mem_triggers_iff k' q).mp hq
      -- a job has one trigger
      have he := List.inj_on_of_nodup_map hs.served_nodup hp hp' (hf p' q hf' ▸ hjq.symm)
      obtain rfl : k = k' := (Prod.mk.inj he).1
      exact (Table.mem_keys _ k).mpr ⟨q, hq⟩
    · exact absurd (s.mem_served_of_mem k p hp) hj
  · by_cases hj : job ∈ s.served
    · obtain ⟨⟨k, p⟩, hp, rfl⟩ := List.mem_map.mp hj
      obtain ⟨q, hq⟩ := (Table.mem_keys _ k).mp (hk k p hp rfl)
      obtain ⟨p', hp', hf'⟩ := (hr.mem_triggers_iff k q).mp hq
      obtain rfl : p = p' := (Prod.mk.inj (List.inj_on_of_nodup_map hs.triggers_nodup hp hp' rfl)).2
      exact .inl (hf p q hf' ▸ (s.alter f).mem_served_of_mem k q hq)
    · exact .inr hj

theorem revise_congr (s : Store) (f g : Pending → Option Pending)
    (h : ∀ k p, (k, p) ∈ s.triggers → f p = g p) : s.revise f = s.revise g := by
  have ht : s.alter f = s.alter g := by
    refine congrArg (Store.mk s.jobs) (List.filterMap_congr fun e he => ?_)
    rw [h e.1 e.2 he]
  rw [revise, revise, ht]
  exact congrArg (Store.mk _) (congrArg Store.triggers ht)

theorem revise_of_isSome (s : Store) (f : Pending → Option Pending) (hf : Pending.Moves f)
    (h : ∀ p, (f p).isSome) : s.revise f = s.alter f := by
  refine congrArg (Store.mk · _) (List.filter_eq_self.mpr fun e _ => ?_)
  rw [Bool.or_eq_true, Bool.not_eq_true', ← Bool.not_eq_true, hasTrigger_iff, hasTrigger_iff]
  refine (Classical.em (e.1 ∈ s.served)).imp_left fun hj => ?_
  obtain ⟨⟨k, p⟩, hp, hj⟩ := List.mem_map.mp hj
  obtain ⟨q, hq⟩ := Option.isSome_iff_exists.mp (h p)
  rw [← hj, ← hf p q hq]
  exact (s.alter f).mem_served_of_mem k q (((s.revised_alter f).mem_triggers_iff k q).mpr ⟨p, hp, hq⟩)

theorem revise_some (s : Store) : s.revise some = s := by
  rw [s.revise_of_isSome some Pending.moves_some fun _ => rfl]
  exact congrArg (Store.mk s.jobs) (by simp [Table.revise])

theorem revise_revise (s : Store) (f g : Pending → Option Pending) (hf : Pending.Moves f)
    (hg : Pending.Moves g) : (s.revise f).revise g = s.revise fun p => (f p).bind g := by
  have ht : ((s.revise f).revise g).triggers = (s.revise fun p => (f p).bind g).triggers := by
    simp only [revise, Table.revise, List.filterMap_filterMap]
    apply List.filterMap_congr
    intro e _
    cases f e.2 <;> simp
  -- what is fired after both changes is fired after the first, and that before it
  have hsub := ((s.revised_revise f).served_subperm hf).subset
  have hsub' := (((s.revise f).revised_revise g).served_subperm hg).subset
  have hsame (job : JobKey) : (s.revise fun p => (f p).bind g).hasTrigger job =
      ((s.revise f).revise g).hasTrigger job := by
    simp only [hasTrigger, ht]
  have hj : ((s.revise f).revise g).jobs = (s.revise fun p => (f p).bind g).jobs := by
    change (s.jobs.filter fun e => (s.revise f).hasTrigger e.1 || !s.hasTrigger e.1).filter
        (fun e => ((s.revise f).revise g).hasTrigger e.1 || !(s.revise f).hasTrigger e.1) =
      s.jobs.filter fun e => (s.revise fun p => (f p).bind g).hasTrigger e.1 || !s.hasTrigger e.1
    rw [List.filter_filter]
    apply List.filter_congr
    intro e _
    have h₁ := @hsub e.1
    have h₂ := @hsub' e.1
    rw [hsame, Bool.eq_iff_iff]
    simp only [Bool.and_eq_true, Bool.or_eq_true, Bool.not_eq_true', ← Bool.not_eq_true, hasTrigger_iff]
    tauto
  calc (s.revise f).revise g = ⟨((s.revise f).revise g).jobs, ((s.revise f).revise g).triggers⟩ := rfl
    _ = s.revise fun p => (f p).bind g := by rw [hj, ht]

/-- Where a pass has broken off, it has changed the triggers that it has visited. -/
theorem Sound.revise_among {s : Store} (hs : s.Sound) (before after : Table TriggerKey Pending)
    (h : s.triggers = before ++ after) (f : Pending → Option Pending) :
    s.triggers.revise (Pending.among before.keys f) = before.revise f ++ after := by
  have hkey (e : TriggerKey × Pending) (he : e ∈ before ++ after) : e.2.trigger.key = e.1 :=
    hs.trigger_key e (h ▸ he)
  have hdisjoint : before.keys.Disjoint (Table.keys after) := by
    have hn := hs.triggers_nodup
    rw [h, Table.keys, List.map_append] at hn
    exact List.disjoint_of_nodup_append hn
  have hbefore : before.revise (Pending.among before.keys f) = before.revise f := by
    refine List.filterMap_congr fun e he => ?_
    have hm : e.2.trigger.key ∈ before.keys :=
      hkey e (List.mem_append_left _ he) ▸ List.mem_map_of_mem he
    rw [Pending.among, if_pos hm]
  have hafter : after.revise (Pending.among before.keys f) = after := by
    refine Eq.trans (List.filterMap_congr fun e he => ?_) (List.filterMap_some)
    have hm : e.2.trigger.key ∉ before.keys :=
      hkey e (List.mem_append_right _ he) ▸ fun hb => hdisjoint hb (List.mem_map_of_mem he)
    rw [Pending.among, if_neg hm]
    rfl
  rw [h, Table.revise, List.filterMap_append]
  exact congr (congrArg _ hbefore) hafter

theorem Sound.not_panics_of_mem {s : Store} (hs : s.Sound)
    (before after : Table TriggerKey Pending) (h : s.triggers = before ++ after)
    (panics : Pending → Prop) (hb : ∀ e ∈ before, ¬ panics e.2) (k : TriggerKey) (p : Pending)
    (hp : (k, p) ∈ s.triggers) (hk : k ∈ before.keys) : ¬ panics p := by
  obtain ⟨e, he, rfl⟩ := List.mem_map.mp hk
  have hm : e ∈ s.triggers := h ▸ List.mem_append_left after he
  obtain rfl : e.2 = p := congrArg Prod.snd (List.inj_on_of_nodup_map hs.triggers_nodup hm hp rfl)
  exact hb e he

theorem resume_of_not_stuck (s : Store) (now : Instant) (h : ¬ s.Stuck now) :
    s.resume now = (.ok (), (s.alter (Pending.resume? now)).dropIdle) := by
  obtain ⟨-, hp⟩ | ⟨before, e, after, ht, -, hstuck, -⟩ :=
    s.triggers.pass_cases _ (Pending.Stuck now) (Pending.resume? now) .overflow
      (fun _ _ => Pending.resumed?_of_not_stuck) fun _ _ => Pending.resumed?_of_stuck
  · simp only [resume, hp, List.append_nil, List.filterMap_map]
    rfl
  · exact absurd ⟨e.1, e.2, by simp [ht], hstuck⟩ h

theorem Sound.resume_of_stuck {s : Store} (hs : s.Sound) (now : Instant) (h : s.Stuck now) :
    ∃ keys, (∀ k p, (k, p) ∈ s.triggers → k ∈ keys → ¬ p.Stuck now) ∧
      s.resume now = (.error .overflow, s.alter (Pending.among keys (Pending.resume? now))) := by
  obtain ⟨hfree, -⟩ | ⟨before, e, after, ht, hbefore, -, hp⟩ :=
    s.triggers.pass_cases _ (Pending.Stuck now) (Pending.resume? now) .overflow
      (fun _ _ => Pending.resumed?_of_not_stuck) fun _ _ => Pending.resumed?_of_stuck
  · obtain ⟨k, p, hm, hstuck⟩ := h
    exact absurd hstuck (hfree (k, p) hm)
  · refine ⟨Table.keys before, hs.not_panics_of_mem before _ ht _ hbefore, ?_⟩
    rw [alter, hs.revise_among before _ ht]
    simp only [resume, hp, List.filterMap_map]
    rfl

def bundle? (s : Store) (now : Instant) (p : Pending) : Option Bundle :=
  if p.nextFire ≤ now then
    (s.jobs.get? p.trigger.jobKey).map fun d => ⟨d, p.trigger, now, p.nextFire⟩
  else none

def firings (s : Store) (now : Instant) : List Bundle :=
  s.triggers.filterMap fun e => s.bundle? now e.2

theorem Sound.bundle?_of_le {s : Store} (h : s.Sound) (now : Instant) (k : TriggerKey)
    (p : Pending) (hm : (k, p) ∈ s.triggers) (hd : p.nextFire ≤ now) :
    ∃ d, (p.trigger.jobKey, d) ∈ s.jobs ∧ s.jobs.get? p.trigger.jobKey = some d ∧
      s.bundle? now p = some ⟨d, p.trigger, now, p.nextFire⟩ := by
  obtain ⟨d, hd'⟩ := (Table.mem_keys s.jobs _).mp (h.mem_jobs _ (s.mem_served_of_mem k p hm))
  have hg := (Table.get?_eq_some_iff s.jobs h.jobs_nodup _ d).mpr hd'
  exact ⟨d, hd', hg, by simp [bundle?, hd, hg]⟩

def visited (s : Store) (now : Instant) (p : Pending) : Visit :=
  ⟨s.bundle? now p, p.moved now, (p.advance? now).isNone⟩

theorem Sound.visit_of_not_jammed {s : Store} (hs : s.Sound) (now : Instant)
    (e : TriggerKey × Pending) (he : e ∈ s.triggers) (h : ¬ e.2.Jammed now) :
    s.visit now e.2 = .ok (s.visited now e.2) := by
  obtain ⟨k, p⟩ := e
  by_cases hd : p.nextFire ≤ now
  · obtain ⟨d, -, hg, hb⟩ := hs.bundle?_of_le now k p he hd
    have hf := Pending.following?_of_not_panics fun hp => h ⟨hd, hp⟩
    simp only [visit, if_neg (not_lt.mpr hd), hg, hf, visited, hb, Pending.moved,
      p.advance?_of_le now hd, Except.map]
    cases p.next? now <;> rfl
  · have hlt := not_le.mp hd
    simp [visit, visited, bundle?, hd, hlt, p.moved_of_lt now hlt, p.advance?_of_lt now hlt]

theorem Sound.visit_of_jammed {s : Store} (hs : s.Sound) (now : Instant)
    (e : TriggerKey × Pending) (he : e ∈ s.triggers) (h : e.2.Jammed now) :
    s.visit now e.2 = .error .overflow := by
  obtain ⟨d, -, hg, -⟩ := hs.bundle?_of_le now e.1 e.2 he h.1
  simp only [visit, if_neg (not_lt.mpr h.1), hg, Pending.following?_of_panics h.2]
  rfl

theorem Sound.erase_triggers_eq {s : Store} (hs : s.Sound) (key : TriggerKey) :
    s.triggers.erase key = s.triggers.revise (Pending.drop [key]) := by
  rw [Table.erase, ← List.filterMap_eq_filter]
  apply List.filterMap_congr
  intro e he
  by_cases hke : e.1 = key <;> simp [Pending.drop, Option.guard, hs.trigger_key e he, hke]

theorem Sound.erase_jobs_eq {s : Store} (hs : s.Sound) (key : TriggerKey) (p : Pending)
    (hp : (key, p) ∈ s.triggers) :
    s.jobs.erase p.trigger.jobKey = (s.revise (Pending.drop [key])).jobs := by
  have hserved := hs.served_erase key p hp
  have hn := hserved.nodup_iff.mp hs.served_nodup
  have hm : p.trigger.jobKey ∈ s.served := s.mem_served_of_mem key p hp
  apply List.filter_congr
  intro e _
  have hleft : e.1 ∈ (s.alter (Pending.drop [key])).served ↔
      e.1 ∈ s.served ∧ e.1 ≠ p.trigger.jobKey := by
    rw [hserved.mem_iff, List.mem_cons, served, alter, ← hs.erase_triggers_eq]
    constructor
    · exact fun hm => ⟨.inr hm, fun he => (List.nodup_cons.mp hn).1 (he ▸ hm)⟩
    · exact fun h => h.1.resolve_left h.2
  rw [Bool.eq_iff_iff, bne_iff_ne, Bool.or_eq_true, Bool.not_eq_true', ← Bool.not_eq_true,
    hasTrigger_iff, hasTrigger_iff, hleft]
  by_cases he : e.1 = p.trigger.jobKey
  · simp [he, hm]
  · by_cases hs : e.1 ∈ s.served <;> simp [he, hs]

theorem Sound.retire_eq {s : Store} (hs : s.Sound) (key : TriggerKey) :
    s.retire key = s.revise (Pending.drop [key]) := by
  cases hg : s.triggers.get? key with
  | none =>
    have hk := (Table.get?_eq_none_iff _ key).mp hg
    have hsame : s.revise (Pending.drop [key]) = s.revise some := by
      refine s.revise_congr _ _ fun k p hp => ?_
      have hne : p.trigger.key ∉ [key] := fun he => hk (List.mem_singleton.mp he ▸
        hs.trigger_key _ hp ▸ (Table.mem_keys _ _).mpr ⟨p, hp⟩)
      rw [Pending.drop, if_neg hne]
    simp only [retire, hg, hsame, revise_some]
  | some p =>
    have hp := Table.mem_of_get?_eq_some _ key p hg
    have hn := (hs.served_erase key p hp).nodup_iff.mp hs.served_nodup
    -- no other trigger fires its job, so that this goes with it
    have hno : ({ s with triggers := s.triggers.erase key } : Store).hasTrigger p.trigger.jobKey =
        false := by
      rw [← Bool.not_eq_true, hasTrigger_iff]
      exact (List.nodup_cons.mp hn).1
    simp only [retire, hg, hno, Bool.false_eq_true, ↓reduceIte]
    rw [hs.erase_jobs_eq key p hp, hs.erase_triggers_eq]
    rfl

theorem Sound.foldl_retire {s : Store} (hs : s.Sound) (keys : List TriggerKey) :
    keys.foldl retire s = s.revise (Pending.drop keys) := by
  induction keys generalizing s with
  | nil => exact (s.revise_some).symm
  | cons k keys ih =>
    have hdrop := Pending.moves_drop
    rw [List.foldl_cons, hs.retire_eq, ih ((s.revised_revise _).sound hs (hdrop [k])),
      s.revise_revise _ _ (hdrop [k]) (hdrop keys)]
    exact congrArg s.revise (funext fun p => p.drop_bind_drop [k] keys)

def exhausted (s : Store) (now : Instant) : List TriggerKey :=
  Table.keys (s.triggers.filter fun e => (e.2.advance? now).isNone)

theorem Sound.mem_exhausted_iff {s : Store} (hs : s.Sound) (now : Instant) (k : TriggerKey)
    (p : Pending) (hp : (k, p) ∈ s.triggers) : k ∈ s.exhausted now ↔ p.advance? now = none := by
  simp only [exhausted, Table.mem_keys, List.mem_filter, Option.isNone_iff_eq_none]
  constructor
  · rintro ⟨q, hq, hn⟩
    obtain rfl : q = p := congrArg Prod.snd (List.inj_on_of_nodup_map hs.triggers_nodup hq hp rfl)
    exact hn
  · exact fun hn => ⟨p, hp, hn⟩

/-- To move all triggers on, and then to take out the exhausted ones, is to advance each of them. -/
theorem Sound.retire_exhausted {s : Store} (hs : s.Sound) (now : Instant) :
    (s.exhausted now).foldl retire (s.revise fun p => some (p.moved now)) =
      s.revise (Pending.advance? now) := by
  have hmoves := Pending.moves_moved now
  rw [((s.revised_revise _).sound hs hmoves).foldl_retire,
    s.revise_revise _ _ hmoves (Pending.moves_drop _)]
  refine s.revise_congr _ _ fun k p hp => ?_
  have hkey : (p.moved now).trigger.key = k := by
    rw [p.trigger_moved]
    exact hs.trigger_key _ hp
  rw [Option.bind_some, Pending.drop, hkey]
  have hk := hs.mem_exhausted_iff now k p hp
  by_cases hn : p.advance? now = none
  · rw [if_pos (hk.mpr hn), hn]
  · obtain ⟨q, hq⟩ := Option.ne_none_iff_exists'.mp hn
    rw [if_neg (mt hk.mp hn), hq, Pending.moved, hq]
    rfl

/-- A tick fires what is due, and moves it on or drops it with its job. -/
theorem Sound.acquire_of_not_jammed {s : Store} (hs : s.Sound) (now : Instant)
    (h : ¬ s.Jammed now) :
    s.acquire now = (.ok (s.firings now), s.revise (Pending.advance? now)) := by
  obtain ⟨-, hp⟩ | ⟨before, e, after, ht, -, hjammed, -⟩ :=
    s.triggers.pass_cases _ (Pending.Jammed now) (s.visited now) .overflow
      (hs.visit_of_not_jammed now) (hs.visit_of_jammed now)
  · have hmoved : s.alter (fun p => some (p.moved now)) = s.revise fun p => some (p.moved now) :=
      (s.revise_of_isSome _ (Pending.moves_moved now) fun _ => rfl).symm
    have htriggers : { s with triggers := s.triggers.map fun e => (e.1, e.2.moved now) } =
        s.alter fun p => some (p.moved now) := by
      simp [alter, Table.revise]
    rw [← hs.retire_exhausted, ← hmoved, ← htriggers, exhausted, Table.keys, List.foldl_map]
    simp only [acquire, hp, List.append_nil, List.map_map, List.filterMap_map, List.filter_map,
      List.foldl_map]
    rfl
  · exact absurd ⟨e.1, e.2, by simp [ht], hjammed⟩ h

/-- A tick that panics has moved on the triggers that it has visited, and fires nothing. -/
theorem Sound.acquire_of_jammed {s : Store} (hs : s.Sound) (now : Instant) (h : s.Jammed now) :
    ∃ keys, (∀ k p, (k, p) ∈ s.triggers → k ∈ keys → ¬ p.Jammed now) ∧
      s.acquire now =
        (.error .overflow, s.alter (Pending.among keys fun p => some (p.moved now))) := by
  obtain ⟨hfree, -⟩ | ⟨before, e, after, ht, hbefore, -, hp⟩ :=
    s.triggers.pass_cases _ (Pending.Jammed now) (s.visited now) .overflow
      (hs.visit_of_not_jammed now) (hs.visit_of_jammed now)
  · obtain ⟨k, p, hm, hjammed⟩ := h
    exact absurd hjammed (hfree (k, p) hm)
  · refine ⟨Table.keys before, hs.not_panics_of_mem before _ ht _ hbefore, ?_⟩
    rw [alter, hs.revise_among before _ ht]
    simp [acquire, hp, Table.revise, visited]

/-- Every trigger fires by an expression. -/
def Expressed (s : Store) : Prop :=
  ∀ k p, (k, p) ∈ s.triggers → ∃ x zone, p.trigger.timing = .cron x zone

theorem alter_eq_self (s : Store) (f : Pending → Option Pending)
    (h : ∀ k p, (k, p) ∈ s.triggers → f p = some p) : s.alter f = s := by
  refine congrArg (Store.mk s.jobs) (Eq.trans (List.filterMap_congr fun e he => ?_) List.filterMap_some)
  rw [h e.1 e.2 he]
  rfl

theorem Expressed.resume_of_stuck {s : Store} (h : s.Expressed) (hs : s.Sound) (now : Instant)
    (hstuck : s.Stuck now) : s.resume now = (.error .overflow, s) := by
  obtain ⟨keys, hk, hr⟩ := hs.resume_of_stuck now hstuck
  obtain ⟨_, _, -, -, hn, -⟩ := hstuck
  rw [hr, s.alter_eq_self _ fun k p hp => ?_]
  unfold Pending.among
  split
  next hmem =>
    rw [hs.trigger_key _ hp] at hmem
    exact p.resume?_of_le now (not_lt.mp fun hlate => hk k p hp hmem ⟨hlate, hn, h k p hp⟩)
  next => rfl

theorem Expressed.acquire_of_jammed {s : Store} (h : s.Expressed) (hs : s.Sound) (now : Instant)
    (hjammed : s.Jammed now) : s.acquire now = (.error .overflow, s) := by
  obtain ⟨keys, hk, hr⟩ := hs.acquire_of_jammed now hjammed
  obtain ⟨_, _, -, -, hn, -⟩ := hjammed
  rw [hr, s.alter_eq_self _ fun k p hp => ?_]
  unfold Pending.among
  split
  next hmem =>
    rw [hs.trigger_key _ hp] at hmem
    have hlt : now < p.nextFire := by
      by_contra hle
      exact hk k p hp hmem ⟨not_lt.mp hle, hn, h k p hp⟩
    exact congrArg some (p.moved_of_lt now hlt)
  next => rfl

end Store

end CronTasks.Trigger
