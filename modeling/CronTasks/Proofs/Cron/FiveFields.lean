import CronTasks.Proofs.Cron.Instants
import CronTasks.Proofs.Cron.Weekday

namespace CronTasks.Cron

open Calendar Text Text.Reader

theorem skipGaps_rows {v : List Char} (hv : Compact v) (ws : List (List Char)) :
    skipGaps (rows ' ' (v :: ws)) = v ++ rows ' ' ws :=
  skipGaps_append hv.no_gap hv.ne_nil _

theorem ends_rows (ws : List (List Char)) (hws : ∀ v ∈ ws, Compact v) : Ends (rows ' ' ws) := by
  have hspace (c : Char) (hc : c ∈ (rows ' ' ws).head?) : c = ' ' := head?_rows ' ' ws c hc
  have hnext (c : Char) (hc : isLink c = true) : c ∉ (skipGaps (rows ' ' ws)).head? := by
    cases ws with
    | nil => exact nofun
    | cons v ws =>
      have hv := hws v List.mem_cons_self
      rw [skipGaps_rows hv]
      intro h
      rw [List.head?_append_of_ne_nil _ hv.ne_nil] at h
      exact absurd (hv.head c h) (by simp [hc])
  refine ⟨⟨fun c hc => ?_, fun c hc => ⟨fun h => ?_, hnext c ?_⟩⟩, fun h => ?_, hnext ',' rfl⟩
  · obtain rfl := hspace c hc
    decide
  · obtain rfl := hspace c h
    simp at hc
  · obtain rfl | rfl := hc <;> rfl
  · exact absurd (hspace ',' h) (by decide)

def allFields? : List Field → List Char → Option (List (List Stride))
  | [], cs => if cs = [] then some [] else none
  | f :: fs, cs => (field f cs).bind fun x => (allFields? fs x.2).map (x.1 :: ·)

/-- With no more fields than words, each field has to be one of the words. -/
theorem allFields?_rows (fs : List Field) (w : List Char) (ws : List (List Char)) (hne : w ≠ [])
    (hw : Safe (rows ' ' ws) w) (hws : ∀ v ∈ ws, Compact v) (hl : fs.length ≤ ws.length + 1) :
    allFields? fs (w ++ rows ' ' ws) = if fs.length = ws.length + 1
      then (fs.zip (w :: ws)).mapM fun x => whole? (field x.1) x.2 else none := by
  induction fs generalizing w ws with
  | nil => simp [allFields?, hne]
  | cons f fs ih =>
    simp only [List.length_cons, Nat.add_right_cancel_iff, Nat.add_le_add_iff_right] at hl ⊢
    rw [allFields?, List.zip_cons_cons, List.mapM_cons]
    obtain ⟨h, h'⟩ | ⟨as, rest, h, hsuf, h'⟩ := field_append (ends_rows ws hws) f hw hne
    · simp [whole?, h, h']
    · rw [h', Option.bind_some]
      cases rest with
      | nil =>
        have hwhole : whole? (field f) w = some as := by simp only [whole?, h]
        rw [hwhole]
        simp only [↓reduceIte]
        cases ws with
        | nil =>
          obtain rfl : fs = [] := List.length_eq_zero_iff.mp (Nat.le_zero.mp hl)
          rfl
        | cons v ws =>
          have hv := hws v List.mem_cons_self
          rw [skipGaps_rows hv, ih v ws hv.ne_nil ⟨hv.no_gap, .inr hv.last⟩
            (fun u hu => hws u (List.mem_cons_of_mem v hu)) hl]
          by_cases hn : fs.length = ws.length + 1 <;> simp [hn, Option.map_eq_bind]
      | cons c rest =>
        -- the rest of the word counts as one more, and there are too few fields for all of them
        rw [whole?_eq_none h (List.cons_ne_nil c rest)]
        simp only [reduceCtorEq, ↓reduceIte]
        rw [ih (c :: rest) ws (List.cons_ne_nil c rest) (hw.suffix hsuf) hws (hl.trans (Nat.le_succ _)),
          if_neg (by omega)]
        simp

def Schedule.ofFields? : List (List Stride) → Option Schedule
  | [seconds, minutes, hours, daysOfMonth, months, daysOfWeek, years] => some
    { seconds := Field.second.values seconds
      minutes := Field.minute.values minutes
      hours := Field.hour.values hours
      daysOfMonth := Field.dayOfMonth.values daysOfMonth
      months := Field.month.values months
      daysOfWeek := Field.dayOfWeek.values daysOfWeek
      years := Field.year.values years }
  | _ => none

theorem readFields?_eq_bind (cs : List Char)
    (h : allFields? [.second, .minute, .hour, .dayOfMonth, .month, .dayOfWeek] cs = none) :
    Schedule.readFields? cs =
      (allFields? [.second, .minute, .hour, .dayOfMonth, .month, .dayOfWeek, .year] cs).bind
        Schedule.ofFields? := by
  -- the two go field by field together, up to what is left after the sixth
  revert h
  simp only [Schedule.readFields?, allFields?, Option.bind_eq_bind]
  obtain _ | ⟨seconds, cs⟩ := field .second cs
  · exact fun _ => rfl
  simp only [Option.bind_some]
  obtain _ | ⟨minutes, cs⟩ := field .minute cs
  · exact fun _ => rfl
  simp only [Option.bind_some]
  obtain _ | ⟨hours, cs⟩ := field .hour cs
  · exact fun _ => rfl
  simp only [Option.bind_some]
  obtain _ | ⟨days, cs⟩ := field .dayOfMonth cs
  · exact fun _ => rfl
  simp only [Option.bind_some]
  obtain _ | ⟨months, cs⟩ := field .month cs
  · exact fun _ => rfl
  simp only [Option.bind_some]
  obtain _ | ⟨weekdays, cs⟩ := field .dayOfWeek cs
  · exact fun _ => rfl
  simp only [Option.bind_some]
  cases cs with
  | nil =>
    intro h
    cases h
  | cons c cs =>
    intro _
    simp only [whole?]
    obtain _ | ⟨years, _ | ⟨d, cs⟩⟩ := field .year (c :: cs)
    · rfl
    · rfl
    · rfl

theorem read?_zero (cs : List Char) : Schedule.read? ('0' :: cs) = Schedule.readFields? ('0' :: cs) := by
  have hlookup : Schedule.shorthands.lookup (String.ofList ('0' :: cs)) = none := by
    refine List.lookup_eq_none_iff.mpr fun x hx => ?_
    have hhead : '0' ∉ x.1.toList.head? := by
      revert x
      decide
    refine bne_iff_ne.mpr fun h => hhead ?_
    rw [← h, String.toList_ofList]
    rfl
  rw [Schedule.read?, hlookup]

/-- Where all five fields are compact, the padded text is a schedule if each of them is a field. -/
theorem read?_padded {minute hour day month weekday : List Char} {s : Schedule}
    (hc : ∀ w ∈ [minute, hour, day, month, weekday], Compact w) :
    Schedule.read? ([' '].intercalate [['0'], minute, hour, day, month, weekday, ['*']]) = some s ↔
      ∃ minutes hours days months weekdays, whole? (field .minute) minute = some minutes ∧
        whole? (field .hour) hour = some hours ∧ whole? (field .dayOfMonth) day = some days ∧
        whole? (field .month) month = some months ∧
        whole? (field .dayOfWeek) weekday = some weekdays ∧
        { seconds := [0]
          minutes := Field.minute.values minutes
          hours := Field.hour.values hours
          daysOfMonth := Field.dayOfMonth.values days
          months := Field.month.values months
          daysOfWeek := Field.dayOfWeek.values weekdays
          years := Field.year.range } = s := by
  have hone (c : Char) (hg : isGap c = false) (hl : isLink c = false) : Compact [c] :=
    ⟨nofun, by simpa using hg, by simpa using hl, by simpa using hl⟩
  have hws : ∀ v ∈ [minute, hour, day, month, weekday, ['*']], Compact v := by
    intro v hv
    obtain hv | hv := List.mem_append.mp (show v ∈ [minute, hour, day, month, weekday] ++ [['*']] from hv)
    · exact hc v hv
    · rw [List.mem_singleton.mp hv]
      exact hone '*' rfl rfl
  have hzero : Safe (rows ' ' [minute, hour, day, month, weekday, ['*']]) ['0'] :=
    ⟨(hone '0' rfl rfl).no_gap, .inr (hone '0' rfl rfl).last⟩
  have hsix := allFields?_rows [.second, .minute, .hour, .dayOfMonth, .month, .dayOfWeek] ['0'] _
    nofun hzero hws (Nat.le_succ 6)
  have hseven := allFields?_rows [.second, .minute, .hour, .dayOfMonth, .month, .dayOfWeek, .year]
    ['0'] _ nofun hzero hws le_rfl
  have hsecond : whole? (field .second) ['0'] = some [⟨0, 0, 1⟩] := by decide +kernel
  have hyear : whole? (field .year) ['*'] = some [⟨1970, 2100, 1⟩] := by decide +kernel
  have hvalues : Field.second.values [⟨0, 0, 1⟩] = [0] := by decide
  have hrange : Field.year.values [⟨1970, 2100, 1⟩] = Field.year.range := by decide +kernel
  have hread : Schedule.read?
      ([' '].intercalate [['0'], minute, hour, day, month, weekday, ['*']]) = some s ↔
      ∃ minutes hours days months weekdays, (whole? (field .minute) minute = some minutes ∧
        whole? (field .hour) hour = some hours ∧ whole? (field .dayOfMonth) day = some days ∧
        whole? (field .month) month = some months ∧
        whole? (field .dayOfWeek) weekday = some weekdays) ∧
        Schedule.ofFields? [[⟨0, 0, 1⟩], minutes, hours, days, months, weekdays,
          [⟨1970, 2100, 1⟩]] = some s := by
    rw [intercalate_eq_rows, List.singleton_append, read?_zero, ← List.singleton_append,
      readFields?_eq_bind _ hsix, hseven]
    simp [hsecond, hyear, Option.bind_eq_some_iff]
  rw [hread]
  simp only [Schedule.ofFields?, hvalues, hrange, Option.some.injEq, and_assoc]

theorem compact_of_mem_words {cs w : List Char} (hw : w ∈ words cs)
    (hhead : ∀ c ∈ w.head?, isLink c = false) (hlast : ∀ c ∈ w.getLast?, isLink c = false) :
    Compact w := by
  obtain ⟨hne, hblank⟩ := mem_words hw
  refine ⟨hne, fun c hc => ?_, hhead, hlast⟩
  have hb := hblank c hc
  rw [← Bool.not_eq_true]
  simp only [isGap, Bool.or_eq_true, beq_iff_eq]
  rintro (((rfl | rfl) | rfl) | rfl) <;> cases hb

theorem Schedule.mem_instants {s : Schedule} {t : Instant} (ht : t ∈ s.instants) :
    t % 1000 = 0 ∧ (t / 1000 % 60).toNat ∈ s.seconds ∧ (t / 60000 % 60).toNat ∈ s.minutes ∧
      (t / 3600000 % 24).toNat ∈ s.hours ∧
      (Date.ofDayNumber (t / Instant.millisPerDay)).day ∈ s.daysOfMonth ∧
      (Date.ofDayNumber (t / Instant.millisPerDay)).month ∈ s.months ∧
      weekday (t / Instant.millisPerDay) ∈ s.daysOfWeek := by
  obtain ⟨wall, hadm, rfl⟩ := ht
  simp only [admits, admitsDay, admitsSecond, Bool.and_eq_true, List.contains_iff_mem] at hadm
  obtain ⟨⟨⟨⟨hm, hd⟩, hw⟩, -⟩, ⟨hh, hn⟩, hk⟩ := hadm
  have hday : wall * 1000 / Instant.millisPerDay = wall / 86400 := by
    unfold Instant.millisPerDay
    lia
  have hsecond : (wall * 1000 / 1000 % 60).toNat = (wall % 86400).toNat % 60 := by lia
  have hminute : (wall * 1000 / 60000 % 60).toNat = (wall % 86400).toNat / 60 % 60 := by lia
  have hhour : (wall * 1000 / 3600000 % 24).toNat = (wall % 86400).toNat / 3600 := by lia
  rw [hday, hsecond, hminute, hhour]
  exact ⟨Int.mul_emod_left wall 1000, hk, hn, hh, hd, hm, hw⟩

/-- An expression of five fields, none of which begins or ends with a comma, a dash or a slash, and
whose days of the week have no sign, means its five fields: each of them is a field for itself, and
what is found without a zone lies on second 0 of a minute that each of them selects, the days of the
week in UNIX numbering. -/
theorem five_fields_mean_themselves (s : String) (minute hour day month dayOfWeek : List Char)
    (e : Expression) (hs : words s.toList = [minute, hour, day, month, dayOfWeek])
    (hends : ∀ w ∈ [minute, hour, day, month, dayOfWeek],
      (∀ c ∈ w.head?, isLink c = false) ∧ ∀ c ∈ w.getLast?, isLink c = false)
    (hplus : '+' ∉ dayOfWeek) (he : Expression.parseUnix s = .ok e) :
    ∃ minutes hours days months weekdays, whole? (field .minute) minute = some minutes ∧
      whole? (field .hour) hour = some hours ∧ whole? (field .dayOfMonth) day = some days ∧
      whole? (field .month) month = some months ∧
      Weekday.unixField? dayOfWeek = some weekdays ∧
      ∀ after t, e.next? after none = .ok (some t) → t % 60000 = 0 ∧
        (t / 60000 % 60).toNat ∈ Field.minute.values minutes ∧
        (t / 3600000 % 24).toNat ∈ Field.hour.values hours ∧
        (Date.ofDayNumber (t / Instant.millisPerDay)).day ∈ Field.dayOfMonth.values days ∧
        (Date.ofDayNumber (t / Instant.millisPerDay)).month ∈ Field.month.values months ∧
        weekday (t / Instant.millisPerDay) - 1 ∈ weekdays := by
  have hcompact : ∀ w ∈ [minute, hour, day, month, dayOfWeek], Compact w := fun w hw =>
    compact_of_mem_words (hs ▸ hw) (hends w hw).1 (hends w hw).2
  have hordered := ordered_of_parseUnix s e he
  simp only [Expression.parseUnix, Expression.unixSchedule?, hs] at he
  cases hr : Weekday.renumber dayOfWeek with
  | error item =>
    rw [hr] at he
    cases he
  | ok renumbered =>
    have hday := hcompact dayOfWeek (by simp)
    obtain ⟨hcompact', hweek⟩ := Weekday.renumber_spec hday hplus hr
    rw [hr] at he
    cases hread : Schedule.read? ([' '].intercalate [['0'], minute, hour, day, month, renumbered,
        ['*']]) with
    | none =>
      simp only [hread] at he
      cases he
    | some schedule =>
      simp only [hread, Expression.ofSchedule] at he
      cases he
      have hfields : ∀ w ∈ [minute, hour, day, month, renumbered], Compact w := by
        simp only [List.forall_mem_cons] at hcompact ⊢
        exact ⟨hcompact.1, hcompact.2.1, hcompact.2.2.1, hcompact.2.2.2.1, hcompact', nofun⟩
      obtain ⟨minutes, hours, days, months, ss, hm, hh, hd, hn, hss, rfl⟩ :=
        (read?_padded hfields).mp hread
      obtain ⟨weekdays, hu, hmem⟩ := hweek ss hss
      refine ⟨minutes, hours, days, months, weekdays, hm, hh, hd, hn, hu, fun after t ht => ?_⟩
      have hleast := Expression.isLeast_of_search? _ hordered after t (Expression.search?_of_next? ht)
      obtain ⟨hk, hsec, hmin, hhour, hdom, hmon, hdow⟩ := Schedule.mem_instants hleast.1.1
      refine ⟨?_, hmin, hhour, hdom, hmon, (hmem _).mpr ?_⟩
      · have := List.mem_singleton.mp hsec
        lia
      · exact hdow

theorem mornings_mean_their_fields :
    let s := "0 9 * jan-jun mon,3-5/2"
    ∃ e, Expression.parseUnix s = .ok e ∧
      words s.toList = [['0'], ['9'], ['*'], "jan-jun".toList, "mon,3-5/2".toList] ∧
      ∀ after t, e.next? after none = .ok (some t) → t % 60000 = 0 ∧ t / 60000 % 60 = 0 ∧
        t / 3600000 % 24 = 9 ∧ (Date.ofDayNumber (t / Instant.millisPerDay)).month ≤ 6 ∧
        weekday (t / Instant.millisPerDay) - 1 ∈ [1, 3, 5] := by
  intro s
  have hs : words s.toList = [['0'], ['9'], ['*'], "jan-jun".toList, "mon,3-5/2".toList] := by
    decide +kernel
  have hends : [['0'], ['9'], ['*'], "jan-jun".toList, "mon,3-5/2".toList].all (fun w =>
      w.head?.all (!isLink ·) && w.getLast?.all (!isLink ·)) = true := by
    decide +kernel
  have hok : (Expression.parseUnix s).isOk = true := by decide +kernel
  cases he : Expression.parseUnix s with
  | error err =>
    rw [he] at hok
    cases hok
  | ok e =>
    obtain ⟨minutes, hours, days, months, weekdays, hm, hh, -, hn, hw, hnext⟩ :=
      five_fields_mean_themselves s _ _ _ _ _ e hs
        (fun w hw => by simpa [Option.all_eq_true] using List.all_eq_true.mp hends w hw)
        (by decide +kernel) he
    have hm' : whole? (field .minute) ['0'] = some [⟨0, 0, 1⟩] := by decide +kernel
    have hh' : whole? (field .hour) ['9'] = some [⟨9, 9, 1⟩] := by decide +kernel
    have hn' : whole? (field .month) "jan-jun".toList = some [⟨1, 6, 1⟩] := by decide +kernel
    have hw' : Weekday.unixField? "mon,3-5/2".toList = some [1, 3, 5] := by decide +kernel
    cases hm.symm.trans hm'
    cases hh.symm.trans hh'
    cases hn.symm.trans hn'
    cases hw.symm.trans hw'
    have hminutes : Field.minute.values [⟨0, 0, 1⟩] = [0] := by decide
    have hhours : Field.hour.values [⟨9, 9, 1⟩] = [9] := by decide
    have hmonths : ∀ n ∈ Field.month.values [⟨1, 6, 1⟩], n ≤ 6 := by decide
    refine ⟨e, rfl, hs, fun after t ht => ?_⟩
    obtain ⟨hk, hmin, hhour, -, hmon, hdow⟩ := hnext after t ht
    rw [hminutes, List.mem_singleton] at hmin
    rw [hhours, List.mem_singleton] at hhour
    exact ⟨hk, by lia, by lia, hmonths _ hmon, hdow⟩

/-- A comma at the end of a field takes the next field in, so that all that follow are read in
another's place; and a number with a sign is no item. -/
theorem comma_takes_next_field_in :
    let s := "1, 2 3 4 5"
    words s.toList = [['1', ','], ['2'], ['3'], ['4'], ['5']] ∧
      whole? (field .minute) ['1', ','] = none ∧
      whole? (field .month) ['4'] = some [⟨4, 4, 1⟩] ∧
      ((Expression.parseUnix s).toOption.bind fun e => (e.next? 1893456000000 none).toOption.join).map
        (fun t => Date.ofDayNumber (t / Instant.millisPerDay)) = some ⟨2030, 6, 4⟩ ∧
      (Expression.parseUnix "0 9 * * +1").isOk = true ∧ Weekday.unixField? ['+', '1'] = none := by
  decide +kernel

end CronTasks.Cron
