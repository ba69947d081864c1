import CronTasks.Proofs.Cron.Instants
import CronTasks.Proofs.Later

namespace CronTasks

open Calendar Cron Trigger

namespace Cron.Expression

/-- The fire times of an expression by the clocks of a zone. -/
def fires (e : Expression) (z : Zone) : Set Instant := e.schedule.fires z

theorem hasNextSecond_of_lt (e : Expression) (he : e.schedule.Ordered) (t b : Instant)
    (ht : t ∈ e.instants) (hb : b < t) : b.hasNextSecond = true := by
  obtain ⟨wall, hadm, rfl⟩ := ht
  have hday := (he.day_of_admitsDay _ (Bool.and_eq_true_iff.mp hadm).1).2
  have hlatest : Instant.latest = 8210266876799999 := by decide
  simp only [Schedule.dayCount] at hday
  apply decide_eq_true
  rw [hlatest]
  lia

theorem search?_of_between (e : Expression) (he : e.schedule.Ordered) (a b r : Instant)
    (hr : e.search? a none = some r) (hab : a ≤ b) (hbr : b < r) : e.search? b none = some r := by
  have hy := e.yearZero_le_of_search? a r hr
  have hleast := e.isLeast_of_search? he a r hr
  refine ((e.isFirst_search? he b (by lia)).eq_some_iff r).mpr ⟨⟨hleast.1.1, hbr⟩, ?_⟩
  rintro t ⟨ht, hlt⟩
  exact hleast.2 ⟨ht, lt_of_le_of_lt hab hlt⟩

theorem search?_mono (e : Expression) (he : e.schedule.Ordered) (a b s : Instant)
    (hy : yearZero ≤ a + 1000) (hab : a ≤ b) (hs : e.search? b none = some s) :
    ∃ r ≤ s, e.search? a none = some r := by
  have hleast := e.isLeast_of_search? he b s hs
  have hfirst := e.isFirst_search? he a hy
  have hmem : s ∈ e.instants ∩ Set.Ioi a := ⟨hleast.1.1, lt_of_le_of_lt hab hleast.1.2⟩
  cases hn : e.search? a none with
  | none =>
    rw [hn] at hfirst
    exact absurd hmem (Set.eq_empty_iff_forall_notMem.mp hfirst s)
  | some r =>
    rw [hn] at hfirst
    exact ⟨r, hfirst.2 hmem, rfl⟩

end Cron.Expression

/-- From an instant on whose next second has not been shown by the clocks of a zone before, and which is
neither before year 0 there nor in the last second, a search does not panic: it answers the least fire
time that is later, and none exactly if there is none. In universal time so does every search that begins
between the two, and the answers of later searches are not earlier. -/
theorem next?_is_successor (e : Expression) (he : e.Accepted) (zone : Option Zone)
    (hz : zone.getD .utc ∈ Zone.all) (after : Instant) (hlast : after.hasNextSecond = true)
    (hyear : 0 ≤ (Date.ofDayNumber ((zone.getD .utc).wallTime (after / 1000 + 1) / 86400)).year)
    (hfirst : ∀ m < after / 1000 + 1,
      (zone.getD .utc).wallTime m ≠ (zone.getD .utc).wallTime (after / 1000 + 1)) :
    (∃ o, e.next? after zone = .ok o) ∧
      (∀ r, e.next? after zone = .ok (some r) ↔
        IsLeast (e.fires (zone.getD .utc) ∩ Set.Ioi after) r) ∧
      (e.next? after zone = .ok none ↔ e.fires (zone.getD .utc) ∩ Set.Ioi after = ∅) ∧
      (zone = none →
        (∀ r, e.next? after none = .ok (some r) → ∀ b, after ≤ b → b < r →
          e.next? b none = .ok (some r)) ∧
        ∀ b s, after ≤ b → e.next? b none = .ok (some s) →
          ∃ r ≤ s, e.next? after none = .ok (some r)) := by
  have hsucc : IsFirst (e.fires (zone.getD .utc) ∩ Set.Ioi after) (e.search? after zone) :=
    he.ordered.isFirst_fires _ hz after hyear hfirst
  have hok (zone : Option Zone) (o : Option Instant) :
      e.next? after zone = .ok o ↔ e.search? after zone = o :=
    (e.next?_eq_ok_iff after zone o).trans (and_iff_right hlast)
  refine ⟨⟨_, (hok zone _).mpr rfl⟩, fun r => (hok zone _).trans (hsucc.eq_some_iff r),
    (hok zone none).trans hsucc.eq_none_iff, ?_⟩
  rintro rfl
  refine ⟨fun r hr b hab hbr => ?_, fun b s hab hs => ?_⟩
  · have hr := (hok none _).mp hr
    have hmem := (e.isLeast_of_search? he.ordered after r hr).1.1
    exact (e.next?_eq_ok_iff b none _).mpr ⟨e.hasNextSecond_of_lt he.ordered r b hmem hbr,
      e.search?_of_between he.ordered after b r hr hab hbr⟩
  · rw [Option.getD_none, utc_wallTime, ← yearZero_le_iff] at hyear
    obtain ⟨r, hle, hr⟩ := e.search?_mono he.ordered after b s hyear hab (Expression.search?_of_next? hs)
    exact ⟨r, hle, (hok none _).mpr hr⟩

/-- Half past two in Paris, before the clocks are put back to two. -/
theorem next?_is_successor_before_clocks_are_put_back :
    ∃ x, Expression.parse "0 30 2 * * *" = .ok x ∧
      let z := Zone.european "Europe/Paris" 3600
      let after : Instant := 1919290500000
      z ∈ Zone.all ∧ after.hasNextSecond = true ∧
        0 ≤ (Date.ofDayNumber (z.wallTime (after / 1000 + 1) / 86400)).year ∧
        (∀ m < after / 1000 + 1, z.wallTime m ≠ z.wallTime (after / 1000 + 1)) ∧
        x.next? after (some z) = .ok (some 1919291400000) ∧
        IsLeast (x.fires z ∩ Set.Ioi after) 1919291400000 := by
  obtain ⟨x, hx, hn, -⟩ := parse_half_past_two
  have hmem : (some (Zone.european "Europe/Paris" 3600)).getD .utc ∈ Zone.all := by decide
  have hfirst : ∀ m < (1919290500000 : Instant) / 1000 + 1,
      (Zone.european "Europe/Paris" 3600).wallTime m ≠
        (Zone.european "Europe/Paris" 3600).wallTime ((1919290500000 : Instant) / 1000 + 1) :=
    fun m hm he => not_repeats_at_first ⟨m, hm, he.ge⟩
  obtain ⟨-, hsome, -⟩ := next?_is_successor x ⟨_, .inl hx⟩ (some (.european "Europe/Paris" 3600))
    hmem 1919290500000 (by decide) (by decide +kernel) hfirst
  exact ⟨x, hx, hmem, by decide, by decide +kernel, hfirst, hn, (hsome _).mp hn⟩

theorem parse_first_second : ∃ x, Expression.parse "0 0 0 1 1 * 1970" = .ok x ∧
    x.next? yearZero (some (.fixed "Etc/GMT+5" (-18000))) = .ok none ∧ x.schedule.admits 0 = true :=
  exists_ok_of_any (by decide +kernel)

/-- Where the clocks are five hours behind, nothing is found from the beginning of year 0, although a
fire time lies ahead; and in the last second, behind all fire times, a search panics. -/
theorem next?_fails_at_the_ends : ∃ x, Expression.parse "0 0 0 1 1 * 1970" = .ok x ∧
    let z := Zone.fixed "Etc/GMT+5" (-18000)
    z ∈ Zone.all ∧ (∀ m < yearZero / 1000 + 1, z.wallTime m ≠ z.wallTime (yearZero / 1000 + 1)) ∧
      18000000 ∈ x.fires z ∩ Set.Ioi yearZero ∧ x.next? yearZero (some z) = .ok none ∧
      x.next? 8210266876799000 none = .error .overflow := by
  obtain ⟨x, hx, hn, hadm⟩ := parse_first_second
  have hwall (m : Int) : (Zone.fixed "Etc/GMT+5" (-18000)).wallTime m = m - 18000 := rfl
  have hfirst (m n : Int) (h : n < m) : (Zone.fixed "Etc/GMT+5" (-18000)).wallTime n ≠
      (Zone.fixed "Etc/GMT+5" (-18000)).wallTime m := by
    rw [hwall, hwall]
    omega
  have hlast : Instant.hasNextSecond 8210266876799000 = false := by decide
  refine ⟨x, hx, by decide, hfirst _, ⟨⟨18000, ?_, hfirst 18000, rfl⟩, by decide⟩, hn, ?_⟩
  · rwa [hwall]
  · rw [x.next?_eq, hlast]
    rfl

end CronTasks
