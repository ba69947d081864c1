import CronTasks.Proofs.Later
import CronTasks.Proofs.Trigger.Tick

namespace CronTasks.Trigger

open Calendar Cron

theorem Timing.mem_instants_of_gives (r : Repetition) (u : Instant) (h : Gives (.simple r) u) :
    u ∈ r.instants := by
  cases h with
  | start => exact r.startAt_mem_instants
  | next _ after _ h => exact (r.next?_mem_instants after u h).1

namespace Pending

/-- Triggers that ticks move forward: expressions in universal time, and repetitions that wait for an
instant of their schedule. -/
structure Forward (p : Pending) : Prop where
  universal : ∀ x zone, p.trigger.timing = .cron x zone → zone = none
  startAt_inRange : ∀ r, p.trigger.timing = .simple r → r.startAt.InRange
  mem_instants : ∀ r, p.trigger.timing = .simple r → p.nextFire ∈ r.instants

def arrears (now : Instant) : Nat → Pending → List Instant
  | 0, _ => []
  | n + 1, p =>
    if p.nextFire ≤ now then p.nextFire :: ((p.advance? now).map (arrears now n)).getD [] else []

/-- Instants that a trigger has missed: all that a repetition was to fire by now, and one of an
expression. -/
def Missed (now : Instant) (p : Pending) (ts : List Instant) : Prop :=
  match p.trigger.timing with
  | .simple r => ∀ t, t ∈ ts ↔ t ∈ r.instants ∧ p.nextFire ≤ t ∧ t ≤ now
  | .cron _ _ => ts = if p.nextFire ≤ now then [p.nextFire] else []

theorem arrears_of_lt (now : Instant) (n : Nat) (p : Pending) (h : now < p.nextFire) :
    p.arrears now n = [] := by
  cases n with
  | zero => rfl
  | succ n => rw [arrears, if_neg (not_le.mpr h)]

theorem arrears_of_le (now : Instant) (n : Nat) (p : Pending) (h : p.nextFire ≤ now) :
    p.arrears now (n + 1) = p.nextFire :: ((p.advance? now).map (arrears now n)).getD [] := by
  rw [arrears, if_pos h]

theorem backlog_of_lt (now : Instant) (p : Pending) (h : now < p.nextFire) : p.backlog now = 0 :=
  if_pos h

theorem backlog_pos (now : Instant) (p : Pending) (h : p.nextFire ≤ now) : 0 < p.backlog now := by
  rw [backlog, if_neg (not_lt.mpr h)]
  cases p.trigger.timing <;> simp

theorem Forward.advance? {p q : Pending} (h : p.Forward) (now : Instant) (hd : p.nextFire ≤ now)
    (hq : p.advance? now = some q) : q.Forward ∧ p.nextFire < q.nextFire ∧
      (∀ r, p.trigger.timing = .simple r → q.nextFire = p.nextFire + r.interval) ∧
      ∀ x zone, p.trigger.timing = .cron x zone → now < q.nextFire := by
  have ht : q.trigger.timing = p.trigger.timing := by rw [moves_advance? now p q hq]
  have hsimple (r : Repetition) (hr : p.trigger.timing = .simple r) :=
    Engine.advance?_simple r p q now hr (h.mem_instants r hr) hd hq
  have hcron (x : Expression) (zone : Option Zone) (hx : p.trigger.timing = .cron x zone) :
      now < q.nextFire := by
    obtain rfl := h.universal x zone hx
    rw [p.advance?_of_le now hd, next?, hx] at hq
    obtain ⟨t, hn, rfl⟩ := Option.map_eq_some_iff.mp hq
    refine x.lt_of_search? now t none ?_ hn
    rintro ⟨m, hm, hle⟩
    rw [Option.getD_none, utc_wallTime, utc_wallTime] at hle
    exact absurd hle (not_le.mpr hm)
  refine ⟨⟨?_, ?_, ?_⟩, ?_, fun r hr => (hsimple r hr).2.2, hcron⟩
  · exact fun x zone hx => h.universal x zone (ht ▸ hx)
  · exact fun r hr => h.startAt_inRange r (ht ▸ hr)
  · exact fun r hr => (hsimple r (ht ▸ hr)).1
  · cases hp : p.trigger.timing with
    | simple r => exact (hsimple r hp).2.1
    | cron x zone => exact hd.trans_lt (hcron x zone hp)

theorem Forward.backlog_advance? {p q : Pending} (h : p.Forward) (now : Instant)
    (hd : p.nextFire ≤ now) (hq : p.advance? now = some q) : q.backlog now + 1 ≤ p.backlog now := by
  obtain ⟨-, hlt, hsimple, hcron⟩ := h.advance? now hd hq
  by_cases hdue : q.nextFire ≤ now
  · cases hp : p.trigger.timing with
    | cron x zone => exact absurd hdue (not_le.mpr (hcron x zone hp))
    | simple r =>
      have hstep := hsimple r hp
      have ht : q.trigger.timing = .simple r := by rw [moves_advance? now p q hq, hp]
      have hpos : 0 < r.interval := by lia
      have hdiv := Nat.div_eq_sub_div (a := (now - p.nextFire).toNat) hpos (by lia)
      have hsub : (now - p.nextFire).toNat - r.interval = (now - q.nextFire).toNat := by lia
      rw [backlog, if_neg (not_lt.mpr hdue), ht, backlog, if_neg (not_lt.mpr hd), hp]
      simp only
      rw [hdiv, hsub]
  · rw [q.backlog_of_lt now (not_le.mp hdue)]
    exact p.backlog_pos now hd

theorem Forward.pairwise_arrears {p : Pending} (h : p.Forward) (now : Instant) (n : Nat) :
    (∀ t ∈ p.arrears now n, p.nextFire ≤ t) ∧ (p.arrears now n).Pairwise (· < ·) := by
  induction n generalizing p with
  | zero => simp [arrears]
  | succ n ih =>
    by_cases hd : p.nextFire ≤ now
    · rw [p.arrears_of_le now n hd]
      cases hq : p.advance? now with
      | none => simp
      | some q =>
        obtain ⟨hf, hlt, -⟩ := h.advance? now hd hq
        obtain ⟨hle, hpair⟩ := ih hf
        have hlater (t : Instant) (ht : t ∈ q.arrears now n) : p.nextFire < t :=
          hlt.trans_le (hle t ht)
        simp only [Option.map_some, Option.getD_some]
        refine ⟨fun t ht => ?_, List.pairwise_cons.mpr ⟨hlater, hpair⟩⟩
        obtain rfl | ht := List.mem_cons.mp ht
        · exact le_refl _
        · exact (hlater t ht).le
    · simp [p.arrears_of_lt now _ (not_le.mp hd)]

theorem Forward.isFirst_next? {p : Pending} (h : p.Forward) (r : Repetition)
    (hr : p.trigger.timing = .simple r) :
    IsFirst (r.representable ∩ Set.Ioi p.nextFire) (r.next? p.nextFire) := by
  obtain ⟨k, -, -, hk⟩ := h.mem_instants r hr
  have hlow := (h.startAt_inRange r hr).1
  exact r.isFirst_next? p.nextFire (.inl (by lia)) (by lia)

theorem Forward.mem_representable {p : Pending} (h : p.Forward) (r : Repetition)
    (hr : p.trigger.timing = .simple r) (t : Instant) (ht : t ∈ r.instants)
    (hn : t ≤ Instant.latest) : t ∈ r.representable := by
  refine ⟨ht, ?_, hn⟩
  obtain ⟨k, -, -, rfl⟩ := ht
  have hlow := (h.startAt_inRange r hr).1
  lia

theorem Forward.mem_instants_iff {p : Pending} (h : p.Forward) (now : Instant)
    (hn : now ≤ Instant.latest) (hd : p.nextFire ≤ now) (r : Repetition)
    (hr : p.trigger.timing = .simple r) (t : Instant) (ht : t ≤ now) :
    t ∈ r.instants ∧ p.nextFire ≤ t ↔
      t = p.nextFire ∨ ∃ q, p.advance? now = some q ∧ t ∈ r.instants ∧ q.nextFire ≤ t := by
  have hfirst := h.isFirst_next? r hr
  have hrest (hm : t ∈ r.instants) (hlt : p.nextFire < t) :
      t ∈ r.representable ∩ Set.Ioi p.nextFire :=
    ⟨h.mem_representable r hr t hm (ht.trans hn), hlt⟩
  constructor
  · rintro ⟨hm, hle⟩
    obtain rfl | hlt := hle.eq_or_lt
    · exact .inl rfl
    · have hnext : p.next? now = r.next? p.nextFire := by rw [Pending.next?, hr]
      rw [p.advance?_of_le now hd, hnext]
      cases hu : r.next? p.nextFire with
      | none =>
        have hempty := hfirst.eq_none_iff.mp hu
        exact absurd (hrest hm hlt) (hempty ▸ Set.notMem_empty t)
      | some u =>
        have hleast := (hfirst.eq_some_iff u).mp hu
        exact .inr ⟨{ p with nextFire := u }, rfl, hm, hleast.2 (hrest hm hlt)⟩
  · rintro (rfl | ⟨q, hq, hm, hle⟩)
    · exact ⟨h.mem_instants r hr, le_refl _⟩
    · exact ⟨hm, (h.advance? now hd hq).2.1.le.trans hle⟩

theorem Forward.mem_arrears_iff {p : Pending} (h : p.Forward) (now : Instant)
    (hn : now ≤ Instant.latest) (r : Repetition) (hr : p.trigger.timing = .simple r) (n : Nat)
    (hb : p.backlog now ≤ n) (t : Instant) :
    t ∈ p.arrears now n ↔ t ∈ r.instants ∧ p.nextFire ≤ t ∧ t ≤ now := by
  -- each tick takes one instant off the backlog
  induction n generalizing p with
  | zero =>
    refine iff_of_false List.not_mem_nil ?_
    rintro ⟨-, hle, ht⟩
    have hpos := p.backlog_pos now (hle.trans ht)
    lia
  | succ n ih =>
    by_cases hd : p.nextFire ≤ now
    · have hstep : t ∈ p.arrears now (n + 1) ↔
          t = p.nextFire ∨ ∃ q, p.advance? now = some q ∧ t ∈ q.arrears now n := by
        rw [p.arrears_of_le now n hd, List.mem_cons]
        cases p.advance? now <;> simp
      have hlater (q : Pending) (hq : p.advance? now = some q) :
          t ∈ q.arrears now n ↔ t ∈ r.instants ∧ q.nextFire ≤ t ∧ t ≤ now := by
        have hback := h.backlog_advance? now hd hq
        exact ih (h.advance? now hd hq).1 (by rw [moves_advance? now p q hq, hr]) (by lia)
      have hsplit := h.mem_instants_iff now hn hd r hr t
      rw [hstep]
      constructor
      · rintro (rfl | ⟨q, hq, ht⟩)
        · exact ⟨h.mem_instants r hr, le_refl _, hd⟩
        · obtain ⟨hm, hle, htn⟩ := (hlater q hq).mp ht
          obtain ⟨-, hp⟩ := (hsplit htn).mpr (.inr ⟨q, hq, hm, hle⟩)
          exact ⟨hm, hp, htn⟩
      · rintro ⟨hm, hle, htn⟩
        obtain rfl | ⟨q, hq, hm, hle⟩ := (hsplit htn).mp ⟨hm, hle⟩
        · exact .inl rfl
        · exact .inr ⟨q, hq, (hlater q hq).mpr ⟨hm, hle, htn⟩⟩
    · rw [p.arrears_of_lt now _ (not_le.mp hd)]
      refine iff_of_false List.not_mem_nil ?_
      rintro ⟨-, hle, ht⟩
      exact hd (hle.trans ht)

theorem Forward.arrears_cron {p : Pending} (h : p.Forward) (now : Instant) (x : Expression)
    (zone : Option Zone) (hx : p.trigger.timing = .cron x zone) (n : Nat)
    (hb : p.backlog now ≤ n) :
    p.arrears now n = if p.nextFire ≤ now then [p.nextFire] else [] := by
  by_cases hd : p.nextFire ≤ now
  · obtain ⟨m, rfl⟩ := Nat.exists_eq_add_one.mpr ((p.backlog_pos now hd).trans_le hb)
    rw [p.arrears_of_le now m hd, if_pos hd]
    cases hq : p.advance? now with
    | none => rfl
    | some q =>
      have hlt := (h.advance? now hd hq).2.2.2 x zone hx
      simp only [Option.map_some, Option.getD_some, q.arrears_of_lt now m hlt]
  · rw [p.arrears_of_lt now n (not_le.mp hd), if_neg hd]

theorem Forward.missed {p : Pending} (h : p.Forward) (now : Instant) (hn : now ≤ Instant.latest)
    (n : Nat) (hb : p.backlog now ≤ n) : p.Missed now (p.arrears now n) := by
  unfold Missed
  cases hp : p.trigger.timing with
  | simple r => exact h.mem_arrears_iff now hn r hp n hb
  | cron x zone => exact h.arrears_cron now x zone hp n hb

end Pending

namespace Store

def repeated (now : Instant) : Nat → Store → Except Payload (List (List Bundle) × Store)
  | 0, s => .ok ([], s)
  | n + 1, s =>
    match s.acquire now with
    | (.error p, _) => .error p
    | (.ok fired, s) => (repeated now n s).map fun x => (fired :: x.1, x.2)

/-- Stores that ticks at an instant bring forward without a panic. -/
structure Steady (now : Instant) (s : Store) : Prop where
  sound : s.Sound
  forward : ∀ k p, (k, p) ∈ s.triggers → p.Forward
  free : ¬ s.Jammed now

theorem Steady.acquire {now : Instant} {s : Store} (h : s.Steady now) :
    s.acquire now = (.ok (s.firings now), s.revise (Pending.advance? now)) :=
  h.sound.acquire_of_not_jammed now h.free

theorem due_iff (s : Store) (now : Instant) :
    s.due now = true ↔ ∃ k p, (k, p) ∈ s.triggers ∧ p.nextFire ≤ now := by
  simp [due]

theorem Steady.revise {now : Instant} {s : Store} (h : s.Steady now) :
    (s.revise (Pending.advance? now)).Steady now := by
  have hr := s.revised_revise (Pending.advance? now)
  refine ⟨hr.sound h.sound (Pending.moves_advance? now), fun k q hq => ?_, ?_⟩
  · obtain ⟨p, hp, hpq⟩ := (hr.mem_triggers_iff k q).mp hq
    by_cases hd : p.nextFire ≤ now
    · exact ((h.forward k p hp).advance? now hd hpq).1
    · rw [p.advance?_of_lt now (not_le.mp hd)] at hpq
      cases hpq
      exact h.forward k q hp
  · -- an expression that is due after a tick was due before it
    rintro ⟨k, q, hq, hd, hpanic⟩
    obtain ⟨p, hp, hpq⟩ := (hr.mem_triggers_iff k q).mp hq
    rw [Pending.moves_advance? now p q hpq] at hpanic
    refine h.free ⟨k, p, hp, ?_, hpanic⟩
    by_contra hlt
    rw [p.advance?_of_lt now (not_le.mp hlt)] at hpq
    cases hpq
    exact hlt hd

theorem Steady.backlog_revise {now : Instant} {s : Store} (h : s.Steady now) (n : Nat)
    (hb : ∀ k p, (k, p) ∈ s.triggers → p.backlog now ≤ n + 1) (k : TriggerKey) (q : Pending)
    (hq : (k, q) ∈ (s.revise (Pending.advance? now)).triggers) : q.backlog now ≤ n := by
  obtain ⟨p, hp, hpq⟩ := ((s.revised_revise _).mem_triggers_iff k q).mp hq
  by_cases hd : p.nextFire ≤ now
  · have hback := (h.forward k p hp).backlog_advance? now hd hpq
    have hle := hb k p hp
    lia
  · rw [p.advance?_of_lt now (not_le.mp hd)] at hpq
    cases hpq
    rw [q.backlog_of_lt now (not_le.mp hd)]
    exact Nat.zero_le n

/-- Ticks of a store fire given instants of each trigger, the first one in the first tick, and so on,
and nothing else. -/
structure Delivers (now : Instant) (due : Pending → List Instant) (s : Store)
    (calls : List (List Bundle)) : Prop where
  fires : ∀ k p, (k, p) ∈ s.triggers → ∃ d, (p.trigger.jobKey, d) ∈ s.jobs ∧
    (due p).length ≤ calls.length ∧ ∀ (i : Nat) (bs : List Bundle), calls[i]? = some bs →
      bs.filter (·.trigger.key == k) = ((due p)[i]?.map fun t => ⟨d, p.trigger, now, t⟩).toList
  fires_only : ∀ bs ∈ calls, ∀ b ∈ bs, b.trigger.key ∈ s.triggers.keys

theorem Sound.delivers_nil {s : Store} (hs : s.Sound) (now : Instant) (n : Nat)
    (hd : s.due now = false) : s.Delivers now (Pending.arrears now n) [] := by
  refine ⟨fun k p hp => ?_, fun _ h => absurd h List.not_mem_nil⟩
  obtain ⟨d, hd'⟩ := hs.task?_of_trigger k p hp
  have hlt : now < p.nextFire := by
    by_contra hle
    rw [(s.due_iff now).mpr ⟨k, p, hp, not_lt.mp hle⟩] at hd
    cases hd
  refine ⟨d, ((hs.task?_eq_some_iff _ d p).mp hd').1, ?_, fun i bs h => ?_⟩
  · rw [p.arrears_of_lt now n hlt]
    exact le_refl _
  · cases h

theorem Steady.delivers_later {now : Instant} {s : Store} (h : s.Steady now) (n : Nat)
    (calls : List (List Bundle))
    (hc : (s.revise (Pending.advance? now)).Delivers now (Pending.arrears now n) calls)
    (k : TriggerKey) (p : Pending) (hp : (k, p) ∈ s.triggers) (d : JobDetail)
    (hd : (p.trigger.jobKey, d) ∈ s.jobs) :
    let rest := ((p.advance? now).map (Pending.arrears now n)).getD []
    rest.length ≤ calls.length ∧ ∀ (i : Nat) (bs : List Bundle), calls[i]? = some bs →
      bs.filter (·.trigger.key == k) = (rest[i]?.map fun t => ⟨d, p.trigger, now, t⟩).toList := by
  have hr := s.revised_revise (Pending.advance? now)
  cases hq : p.advance? now with
  | none =>
    have hk : k ∉ (s.revise (Pending.advance? now)).triggers.keys := by
      rw [← Table.get?_eq_none_iff, hr.get?_triggers h.sound (Pending.moves_advance? now),
        h.sound.get?_triggers k p hp, Option.bind_some, hq]
    refine ⟨Nat.zero_le _, fun i bs hi => List.filter_eq_nil_iff.mpr fun b hb he => hk ?_⟩
    exact beq_iff_eq.mp he ▸ hc.fires_only bs (List.mem_of_getElem? hi) b hb
  | some q =>
    obtain ⟨d', hd', hlen, hf⟩ := hc.fires k q ((hr.mem_triggers_iff k q).mpr ⟨p, hp, hq⟩)
    rw [Pending.moves_advance? now p q hq] at hd' hf
    have he := List.inj_on_of_nodup_map h.sound.jobs_nodup (hr.jobs_sublist.subset hd') hd rfl
    cases he
    exact ⟨hlen, hf⟩

/-- A tick delivers the first of what is due, and the ticks after it the rest. -/
theorem Steady.delivers_cons {now : Instant} {s : Store} (h : s.Steady now) (n : Nat)
    (calls : List (List Bundle))
    (hc : (s.revise (Pending.advance? now)).Delivers now (Pending.arrears now n) calls) :
    s.Delivers now (Pending.arrears now (n + 1)) (s.firings now :: calls) := by
  have ht := h.sound.ticked now h.free
  refine ⟨fun k p hp => ?_, fun bs hbs b hb => ?_⟩
  · obtain ⟨d, hd, hf⟩ := ht.fires k p hp
    obtain ⟨hlen, hlater⟩ := h.delivers_later n calls hc k p hp d hd
    refine ⟨d, hd, ?_⟩
    by_cases hdue : p.nextFire ≤ now
    · rw [p.arrears_of_le now n hdue]
      refine ⟨Nat.succ_le_succ hlen, fun i bs hi => ?_⟩
      cases i with
      | zero =>
        cases hi
        rw [hf, if_pos hdue]
        rfl
      | succ i => exact hlater i bs hi
    · have hlt := not_le.mp hdue
      rw [p.arrears_of_lt now (n + 1) hlt]
      rw [p.advance?_of_lt now hlt, Option.map_some, Option.getD_some, p.arrears_of_lt now n hlt]
        at hlater
      refine ⟨Nat.zero_le _, fun i bs hi => ?_⟩
      cases i with
      | zero =>
        cases hi
        rw [hf, if_neg hdue]
        rfl
      | succ i => exact hlater i bs hi
  · obtain rfl | hbs := List.mem_cons.mp hbs
    · exact ht.fires_only b hb
    · exact ht.keys_subset _ (hc.fires_only bs hbs b hb)

/-- As many ticks as the store is behind leave nothing due. -/
theorem Steady.ticks {now : Instant} {s : Store} (h : s.Steady now) (n : Nat)
    (hb : ∀ k p, (k, p) ∈ s.triggers → p.backlog now ≤ n) :
    ∃ calls s', s.repeated now calls.length = .ok (calls, s') ∧
      s.ticks now n = (calls.flatten, .ok (), s') ∧ s'.due now = false ∧ (∀ bs ∈ calls, bs ≠ []) ∧
      s.Delivers now (Pending.arrears now n) calls := by
  induction n generalizing s with
  | zero =>
    have hd : s.due now = false := by
      rw [← Bool.not_eq_true, due_iff]
      rintro ⟨k, p, hp, hd⟩
      have hpos := p.backlog_pos now hd
      have hle := hb k p hp
      lia
    exact ⟨[], s, rfl, rfl, hd, by simp, h.sound.delivers_nil now 0 hd⟩
  | succ n ih =>
    cases hd : s.due now with
    | false =>
      exact ⟨[], s, rfl, by simp [Store.ticks, hd], hd, by simp, h.sound.delivers_nil now _ hd⟩
    | true =>
      obtain ⟨calls, s', hr, ht, hd', hne, hdel⟩ := ih h.revise (h.backlog_revise n hb)
      refine ⟨s.firings now :: calls, s', ?_, ?_, hd', ?_, h.delivers_cons n calls hdel⟩
      · simp [repeated, h.acquire, hr, Except.map]
      · simp [Store.ticks, hd, h.acquire, ht]
      · refine List.forall_mem_cons.mpr ⟨fun hnil => ?_, hne⟩
        obtain ⟨k, p, hp, hle⟩ := (s.due_iff now).mp hd
        obtain ⟨d, -, hf⟩ := (h.sound.ticked now h.free).fires k p hp
        rw [hnil, if_pos hle] at hf
        cases hf

theorem le_backlog (s : Store) (now : Instant) (k : TriggerKey) (p : Pending)
    (hp : (k, p) ∈ s.triggers) : p.backlog now ≤ s.backlog now := by
  have hfold (es : List (TriggerKey × Pending)) (n : Nat) :
      n ≤ es.foldl (fun n e => max n (e.2.backlog now)) n ∧
        ∀ e ∈ es, e.2.backlog now ≤ es.foldl (fun n e => max n (e.2.backlog now)) n := by
    induction es generalizing n with
    | nil => simp
    | cons e es ih =>
      obtain ⟨hle, hmem⟩ := ih (max n (e.2.backlog now))
      rw [List.foldl_cons]
      refine ⟨(le_max_left _ _).trans hle, fun e' he' => ?_⟩
      obtain rfl | he' := List.mem_cons.mp he'
      · exact (le_max_right _ _).trans hle
      · exact hmem e' he'
  exact (hfold s.triggers 0).2 (k, p) hp

theorem catchUp_of_jammed (s t : Store) (now : Instant) (hj : s.Jammed now)
    (ha : s.acquire now = (.error .overflow, t)) : s.catchUp now = ([], .error .overflow, t) := by
  obtain ⟨k, p, hp, hle, -⟩ := hj
  have hd := (s.due_iff now).mpr ⟨k, p, hp, hle⟩
  obtain ⟨n, hn⟩ := Nat.exists_eq_add_one.mpr ((p.backlog_pos now hle).trans_le (s.le_backlog now k p hp))
  simp [catchUp, hn, Store.ticks, hd, ha]

/-- Ticks at one instant come to an end. Until then each of them fires something, and all of them
together fire what has been missed: each repetition fires every instant of its schedule from the one
that it waited for up to now, one in a tick and in order, and each expression that is due fires once.
Only in the last second the first tick panics, if an expression is due, and nothing is fired. -/
theorem catchUp_fires_what_was_missed (s : Store) (h : s.Reachable) (now : Instant)
    (hn : now.InRange)
    (hzone : ∀ k p x zone, (k, p) ∈ s.triggers → p.trigger.timing = .cron x zone → zone = none)
    (hstart : ∀ k p r, (k, p) ∈ s.triggers → p.trigger.timing = .simple r → r.startAt.InRange) :
    (s.Jammed now → ∃ t, s.acquire now = (.error .overflow, t) ∧
        s.catchUp now = ([], .error .overflow, t) ∧ s.HalfTicked now t) ∧
      (¬ s.Jammed now → ∃ calls s' missed, s.repeated now calls.length = .ok (calls, s') ∧
        s.catchUp now = (calls.flatten, .ok (), s') ∧ s'.due now = false ∧ (∀ bs ∈ calls, bs ≠ []) ∧
        s.Delivers now missed calls ∧
        ∀ k p, (k, p) ∈ s.triggers → p.Missed now (missed p) ∧ (missed p).Pairwise (· < ·)) := by
  have hs := h.sound
  constructor
  · intro hj
    obtain ⟨keys, hk, ha⟩ := hs.acquire_of_jammed now hj
    exact ⟨_, ha, s.catchUp_of_jammed _ now hj ha, hs.halfTicked now keys hk⟩
  · intro hfree
    have hforward (k : TriggerKey) (p : Pending) (hp : (k, p) ∈ s.triggers) : p.Forward := by
      refine ⟨fun x zone => hzone k p x zone hp, fun r => hstart k p r hp, fun r hr => ?_⟩
      exact Timing.mem_instants_of_gives r p.nextFire (hr ▸ h.onSchedule k p hp)
    have hsteady : s.Steady now := ⟨hs, hforward, hfree⟩
    have hback := s.le_backlog now
    obtain ⟨calls, s', hr, ht, hd, hne, hdel⟩ := hsteady.ticks _ hback
    refine ⟨calls, s', _, hr, ht, hd, hne, hdel, fun k p hp => ?_⟩
    exact ⟨(hforward k p hp).missed now hn.2 _ (hback k p hp),
      ((hforward k p hp).pairwise_arrears now _).2⟩

def hourly (x : Expression) : Engine :=
  let job (name : String) (timing : Timing) : Engine.Call :=
    .schedule ⟨0, true⟩ (.ofMethod "Reports" name) ⟨⟨name, "Reports"⟩, ⟨name, "Reports"⟩, timing⟩
  ((Engine.fresh "main" .single).calls
    [job "repeated" (.simple ⟨3600000, 3600000, none⟩), job "expressed" (.cron x none)]).2

theorem reachable_hourly (x : Expression) : (hourly x).store.Reachable :=
  ⟨_, ⟨"main", .single, _, rfl⟩, rfl⟩

theorem parse_every_hour : ∃ x, Expression.parse "0 0 * * * *" = .ok x ∧
    ((hourly x).store.triggers.all fun e =>
      match e.2.trigger.timing with
      | .simple r => r.startAt = 3600000
      | .cron _ zone => zone.isNone) = true ∧
    ((hourly x).store.catchUp 10800000).1.map (fun b => (b.detail.key.name, b.scheduledAt)) =
      [("repeated", 3600000), ("expressed", 3600000), ("repeated", 7200000),
        ("repeated", 10800000)] :=
  exists_ok_of_any (by decide +kernel)

/-- Three hours late the repetition fires three times, and the expression once. -/
theorem catchUp_after_three_hours : ∃ x, Expression.parse "0 0 * * * *" = .ok x ∧
    let s := (hourly x).store
    ∃ calls s' missed, s.repeated 10800000 calls.length = .ok (calls, s') ∧
      s.catchUp 10800000 = (calls.flatten, .ok (), s') ∧ s'.due 10800000 = false ∧
      (∀ bs ∈ calls, bs ≠ []) ∧ s.Delivers 10800000 missed calls ∧
      (∀ k p, (k, p) ∈ s.triggers →
        p.Missed 10800000 (missed p) ∧ (missed p).Pairwise (· < ·)) ∧
      calls.flatten.map (fun b => (b.detail.key.name, b.scheduledAt)) =
        [("repeated", 3600000), ("expressed", 3600000), ("repeated", 7200000),
          ("repeated", 10800000)] := by
  obtain ⟨x, hx, htimings, hshown⟩ := parse_every_hour
  have htiming (k : TriggerKey) (p : Pending) (hp : (k, p) ∈ (hourly x).store.triggers) :=
    List.all_eq_true.mp htimings (k, p) hp
  have hfree : ¬ (hourly x).store.Jammed 10800000 := by
    rintro ⟨-, -, -, -, hn, -⟩
    cases hn
  obtain ⟨calls, s', missed, hr, hc, hd, hne, hdel, hm⟩ :=
    (catchUp_fires_what_was_missed (hourly x).store (reachable_hourly x) 10800000 (by decide)
      (fun k p x' zone hp hz => by simpa [hz] using htiming k p hp)
      (fun k p r hp hr => by
        have hstart : r.startAt = 3600000 := by simpa [hr] using htiming k p hp
        rw [hstart]
        decide)).2 hfree
  refine ⟨x, hx, calls, s', missed, hr, hc, hd, hne, hdel, hm, ?_⟩
  rwa [hc] at hshown

/-- In the last second no ticks catch up with an expression that is centuries late. -/
theorem catchUp_panics_in_the_last_second : ∃ x, Expression.parse "* * * * * *" = .ok x ∧
    let s := (engineOf 1893456000000 x).store
    s.Reachable ∧
      (∀ k p x' zone, (k, p) ∈ s.triggers → p.trigger.timing = .cron x' zone → zone = none) ∧
      s.due Instant.latest = true ∧
      ¬ ∃ calls s', s.repeated Instant.latest calls.length = .ok (calls, s') ∧
        s'.due Instant.latest = false := by
  obtain ⟨x, hx, hxn⟩ := parse_every_second
  obtain ⟨hr, hj, hlate⟩ := jammed_engineOf x hxn
  have hs := triggers_engineOf 1893456000000 1893456001000 x (by decide) hxn
  have hd := ((engineOf 1893456000000 x).store.due_iff Instant.latest).mpr hlate
  obtain ⟨_, -, ha⟩ := hr.sound.acquire_of_jammed Instant.latest hj
  refine ⟨x, hx, hr, ?_, hd, ?_⟩
  · intro k p x' zone hp hz
    obtain ⟨rfl, rfl⟩ : k = _ ∧ p = _ := by simpa [hs] using hp
    cases hz
    rfl
  · rintro ⟨calls, s', hr, hd'⟩
    cases calls with
    | nil =>
      cases hr
      rw [hd] at hd'
      cases hd'
    | cons bs calls => simp [repeated, ha] at hr

end Store

end CronTasks.Trigger
