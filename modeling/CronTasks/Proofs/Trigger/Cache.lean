import CronTasks.Proofs.Trigger.Firing

namespace CronTasks

namespace Journal

def builds (j : Journal) : Journal :=
  j.filter fun
    | .built _ _ => true
    | _ => false

theorem builds_append (j k : Journal) : builds (j ++ k) = j.builds ++ k.builds :=
  List.filter_append j k

def Quiet (j j' : Journal) : Prop := ∃ added, j' = j ++ added ∧ builds added = []

theorem Quiet.refl (j : Journal) : j.Quiet j := ⟨[], by simp, rfl⟩

theorem Quiet.trans {j k l : Journal} (h : j.Quiet k) (h' : k.Quiet l) : j.Quiet l := by
  obtain ⟨x, rfl, hx⟩ := h
  obtain ⟨y, rfl, hy⟩ := h'
  refine ⟨x ++ y, List.append_assoc j x y, ?_⟩
  rw [builds_append, hx, hy, List.append_nil]

end Journal

namespace Audience

def Noting (x y : Audience × Journal) : Prop := x.2.Quiet y.2

instance : Std.Refl Noting := ⟨fun x => Journal.Quiet.refl x.2⟩

instance : IsTrans (Audience × Journal) Noting := ⟨fun _ _ _ h h' => Journal.Quiet.trans h h'⟩

theorem tell_noting (hook : Hook) (firing : Firing) (name : String) :
    (tell hook firing name).Within Noting := by
  intro x
  unfold tell
  split
  · exact Std.Refl.refl x
  · exact ⟨[.cron name hook firing], rfl, rfl⟩

theorem dispatch_noting (hook : Hook) (firing : Firing) : (dispatch hook firing).Within Noting :=
  fun x => Act.Within.each_isolated (tell_noting hook firing) x.1.listening.toList x

theorem dispatchCompleted_noting (ending : Ending) (firing : Firing) :
    (dispatchCompleted ending firing).Within Noting :=
  Act.Within.andThen (dispatch_noting _ firing) (dispatch_noting _ firing)

end Audience

namespace Trigger

namespace Engine

def Noting (e e' : Engine) : Prop := e'.factory = e.factory ∧ e.journal.Quiet e'.journal

instance : Std.Refl Noting := ⟨fun e => ⟨rfl, Journal.Quiet.refl e.journal⟩⟩

instance : IsTrans Engine Noting := ⟨fun _ _ _ h h' => ⟨h'.1.trans h.1, h.2.trans h'.2⟩⟩

theorem notifyWasExecuted_noting (b : Bundle) (hasInstance : Bool) (error : Option String) :
    (notifyWasExecuted b hasInstance error).Within Noting := by
  intro e
  apply Act.Within.each_isolated
  intro l e
  cases l with
  | bridge => exact ⟨rfl, Audience.dispatchCompleted_noting _ (firing b) (e.audience, e.journal)⟩
  | idle => exact Std.Refl.refl e
  | watcher name _ _ => exact ⟨rfl, [.wasExecuted name (report b hasInstance) error], rfl, rfl⟩

theorem newJob_noting (e : Engine) (f : Factory) (hf : e.factory = some f) (b : Bundle)
    (ht : b.detail.type ≠ .method) :
    Factory.Answer.of (e.newJob b).1 = .failed ∧ e.Noting (e.newJob b).2 := by
  cases hc : b.detail.type.check with
  | ok => exact absurd ((check_eq_ok_iff _).mp hc) ht
  | error err =>
    have hn := notifyWasExecuted_noting b false (some err.message) e
    simp only [newJob, hf, hc]
    split
    next hp =>
      rw [hp] at hn
      exact ⟨rfl, hn⟩
    next hp =>
      rw [hp] at hn
      exact ⟨rfl, hn⟩

end Engine

namespace Factory

/-- A call for a job by others than constructors: for a key, when the journal is as it is, or for a
firing of an engine. -/
inductive Demand
  | direct (key : JobKey) (journal : Journal)
  | firing (b : Bundle) (e : Engine)

namespace Demand

def key : Demand → JobKey
  | direct key _ => key
  | firing b _ => b.detail.key

def type : Demand → JobType
  | direct _ _ => .method
  | firing b _ => b.detail.type

def journal : Demand → Journal
  | direct _ journal => journal
  | firing _ e => e.journal

end Demand

def meet (f : Factory) : Demand → Answer × Factory × Journal
  | .direct key journal =>
    let (made, f, journal) := f.methodJob key journal
    (.of made, f, journal)
  | .firing b e =>
    let (made, e) := { e with factory := some f }.newJob b
    (.of made, e.factory.getD f, e.journal)

/-- The calls that this comes to. A job whose type is not that of methods is not asked for. -/
def callsOf (f : Factory) (d : Demand) : List Call :=
  match d.type with
  | .method => f.calls d.key d.journal
  | type => [⟨d.key, type, [], none, (f.meet d).1, (f.meet d).2.1⟩]

/-- All the calls that demands come to one after the other, and the factory that is left. Anything may
happen between two of them. -/
def meetAll (f : Factory) : List Demand → List Call × Factory
  | [] => ([], f)
  | d :: ds =>
    (f.callsOf d ++ ((f.meet d).2.1.meetAll ds).1, ((f.meet d).2.1.meetAll ds).2)

theorem meet_of_method (f : Factory) (d : Demand) (ht : d.type = .method) :
    f.meet d = (.of (f.methodJob d.key d.journal).1, (f.methodJob d.key d.journal).2) := by
  cases d with
  | direct key journal => rfl
  | firing b e =>
    have hc : b.detail.type.check = .ok () := (Engine.check_eq_ok_iff _).mpr ht
    obtain ⟨made, hn, hmade⟩ := Engine.newJob_eq { e with factory := some f } f rfl b hc
    simp only [meet, hn, hmade]
    rfl

theorem meet_of_foreign (f : Factory) (d : Demand) (ht : d.type ≠ .method) :
    (f.meet d).1 = .failed ∧ (f.meet d).2.1 = f ∧ d.journal.Quiet (f.meet d).2.2 := by
  cases d with
  | direct key journal => exact absurd rfl ht
  | firing b e =>
    obtain ⟨hmade, hf, hq⟩ := Engine.newJob_noting { e with factory := some f } f rfl b ht
    exact ⟨hmade, by simp only [meet, hf, Option.getD_some], hq⟩

/-- What comes of a demand: its calls, of which it is the last itself; the others are made by
constructors. -/
structure Met (r : Registry) (earlier : List Call) (f : Factory) (d : Demand) : Prop where
  keeps : Keeps r [] (earlier ++ f.callsOf d) (f.meet d).2.1
  lawful : AllLawful r (earlier ++ f.callsOf d)
  journal_eq : ∃ added, (f.meet d).2.2 = d.journal ++ added ∧
    added.builds.Perm ((f.callsOf d).filterMap Call.event?)
  last : ∃ inner x, f.callsOf d = inner ++ [x] ∧ (∀ y ∈ inner, y.within ≠ []) ∧
    x.key = d.key ∧ x.type = d.type ∧ x.within = [] ∧ x.answer = (f.meet d).1 ∧
    x.left = (f.meet d).2.1

theorem builds_of_perm {added : Journal} {calls : List Call}
    (h : added.Perm (calls.filterMap Call.event?)) : added.builds = added := by
  refine List.filter_eq_self.mpr fun x hx => ?_
  obtain ⟨call, -, hcall⟩ := List.mem_filterMap.mp (h.mem_iff.mp hx)
  obtain ⟨_, -, rfl⟩ := Option.map_eq_some_iff.mp hcall
  rfl

theorem Keeps.meet {r : Registry} {earlier : List Call} {f : Factory} (h : Keeps r [] earlier f)
    (hl : AllLawful r earlier) (d : Demand) : Met r earlier f d := by
  by_cases ht : d.type = .method
  · obtain ⟨hkeeps, hlawful, ⟨added, ha, hp⟩, inner, x, hcalls, hinner, hkey, htype, hwithin, hanswer,
      hleft⟩ := h.traced hl d.key d.journal
    have hof : f.callsOf d = f.calls d.key d.journal := by simp only [callsOf, ht]
    rw [← hof] at hkeeps hlawful hp hcalls
    have hm := f.meet_of_method d ht
    refine ⟨hm ▸ hkeeps, hlawful, ⟨added, hm ▸ ha, (builds_of_perm hp).symm ▸ hp⟩, inner, x, hcalls,
      fun y hy hnil => ?_, hkey, htype.trans ht.symm, hwithin, hm ▸ hanswer, hm ▸ hleft⟩
    simpa [hnil] using hinner y hy
  · obtain ⟨hfailed, hf, added, ha, hbuilds⟩ := f.meet_of_foreign d ht
    have hof : f.callsOf d = [⟨d.key, d.type, [], none, .failed, f⟩] := by
      unfold callsOf
      split
      next hm => exact absurd hm ht
      next => rw [hfailed, hf]
    have hkeeps := h.note ⟨d.key, d.type, [], none, .failed, f⟩ rfl
    refine ⟨by rwa [hof, hf], ?_, ⟨added, ha, by simp [hbuilds, hof, Call.event?]⟩, [], _, hof,
      fun _ hy => absurd hy List.not_mem_nil, rfl, rfl, rfl, hfailed.symm, hf.symm⟩
    rw [hof]
    exact hl.concat ⟨fun _ => ⟨rfl, rfl⟩, fun hv => absurd hv.type_eq ht,
      fun hv => absurd hv.type_eq ht, fun hv => absurd hv.type_eq ht, hkeeps.mem_built_iff,
      hkeeps.cachedJobs_eq⟩

theorem Keeps.meetAll {r : Registry} {earlier : List Call} {f : Factory} (h : Keeps r [] earlier f)
    (hl : AllLawful r earlier) (ds : List Demand) :
    Keeps r [] (earlier ++ (f.meetAll ds).1) (f.meetAll ds).2 ∧
      AllLawful r (earlier ++ (f.meetAll ds).1) := by
  induction ds generalizing f earlier with
  | nil => simpa [Factory.meetAll] using ⟨h, hl⟩
  | cons d ds ih =>
    have hm := h.meet hl d
    simpa [Factory.meetAll] using ih hm.keeps hm.lawful

/-- After any demands, with all the calls that they come to, every call is lawful: it runs a
constructor if and only if its key is good, its type is that of methods, no constructor has succeeded
for its identity, and none is at work; where one has succeeded, the answer is the job that was built
then. There is one job for each identity for which a constructor has succeeded, and none else, also in
the middle of a call. A slot stays locked where a constructor never ends. The next demand comes to calls
of which the last is the demand itself, and the others are made by constructors; the constructors that
are called are those in the journal. -/
theorem jobs_are_built_once (r : Registry) (ds : List Demand) :
    let calls := ((ofRegistry r).meetAll ds).1
    let f := ((ofRegistry r).meetAll ds).2
    (∀ before x after, calls = before ++ x :: after → Lawful r before x) ∧
      ((built calls).map (·.1)).Nodup ∧ f.cachedJobs = (built calls).length ∧
      (∀ identity, (f.slot identity).locked = true ↔
        ∃ y ∈ calls, y.identity = identity ∧ y.Stuck) ∧
      ∀ d, Met r calls f d := by
  intro calls f
  obtain ⟨h, hl⟩ := (keeps_ofRegistry r).meetAll (allLawful_nil r) ds
  rw [List.nil_append] at h hl
  refine ⟨hl, ?_, h.cachedJobs_eq, fun i => ?_, h.meet hl⟩
  · exact ((h.jobs_perm.map _).nodup_iff).mp (nodup_keys_jobs h.nodup)
  · rw [h.locked_iff, AtWork]
    exact or_iff_right List.not_mem_nil

/-- A constructor that asks for another job and then fails: the other job is kept. One that asks for
its own job never ends, and its slot stays locked. -/
example :
    let r : Registry := [
      ("app.Inner", ⟨"app.Inner", fun _ => .done .success, [("run", fun _ => .success)]⟩),
      ("app.Outer", ⟨"app.Outer", fun _ => .ask ⟨"run", "app.Inner"⟩ fun _ =>
        .done (.failure (.plain "no database")), [("run", fun _ => .success)]⟩),
      ("app.Own", ⟨"app.Own", fun _ => .ask ⟨"run", "app.Own"⟩ fun _ => .done .success,
        [("run", fun _ => .success)]⟩)]
    let run := (ofRegistry r).meetAll [.direct ⟨"run", "app.Outer"⟩ [], .direct ⟨"run", "app.Own"⟩ []]
    run.1.map (fun x => (x.identity, x.within, x.attempt)) =
        [("app.Inner@run", ["app.Outer@run"], some (1, some .success)),
          ("app.Outer@run", [], some (1, some (.failure (.plain "no database")))),
          ("app.Own@run", ["app.Own@run"], none), ("app.Own@run", [], some (1, none))] ∧
      run.2.cachedJobs = 1 ∧ run.2.cache.length = 3 ∧ (run.2.slot "app.Own@run").locked = true := by
  decide +kernel

end Factory

end Trigger

end CronTasks
