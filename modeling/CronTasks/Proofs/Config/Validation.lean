import CronTasks.Config.Diagnosis
import CronTasks.Proofs.Text.Placeholder

namespace CronTasks

open Document Text

/-- Whether a finding speaks against the use of a file: it is an error, and not about a field that
is merely unknown. -/
def Finding.objects (d : Finding) : Bool := d.severity = .error && d.category ≠ .unknownField

def Config.faulty (c : Config) : Bool := c.findings.any (·.severity = .error)

namespace Site

def objects (site : Site) (path : String) : Bool :=
  (site.diagnose (some path)).findings.any (·.objects)

def refuses (site : Site) (path : String) : Bool :=
  match site.load path with
  | .ok c => c.faulty
  | .error _ => true

def bare (site : Site) : Site := { site with env := fun _ => none }

end Site

/-- Whether a text has a table with the mark of a date or a time that cannot be taken for one. -/
def misdated (s : String) : Bool :=
  match Format.toml.read? s with
  | some (.table ms) => !Toml.membersSound ms
  | _ => false

mutual

theorem category_of_mem_unknownFields (parent : String) (n : Node) :
    ∀ d ∈ unknownFields parent n, d.category = .unknownField := by
  cases n with
  | scalar s => simp [unknownFields]
  | list items => simp [unknownFields]
  | table ms =>
    intro d hd
    obtain ⟨x, hx, hd⟩ := List.mem_flatMap.mp (by simpa only [unknownFields] using hd)
    exact category_of_mem_unknownMembers parent ms x (List.mem_mergeSort.mp hx) d hd

theorem category_of_mem_unknownMembers (parent : String) (ms : List (Option String × Node)) :
    ∀ x ∈ unknownMembers parent ms, ∀ d ∈ x.2, d.category = .unknownField := by
  cases ms with
  | nil => simp [unknownMembers]
  | cons m ms =>
    obtain ⟨name, n⟩ := m
    intro x hx d hd
    obtain rfl | hx := List.mem_cons.mp (by simpa only [unknownMembers] using hx)
    · dsimp only at hd
      split at hd
      · cases List.mem_singleton.mp hd
        rfl
      · split at hd
        · cases hd
        · exact category_of_mem_unknownFields _ n d hd
    · exact category_of_mem_unknownMembers parent ms x hx d hd

end

theorem any_objects_unknownFields (parent : String) (n : Node) :
    (unknownFields parent n).any (·.objects) = false := by
  apply List.any_eq_false.mpr
  intro d hd
  simp [Finding.objects, category_of_mem_unknownFields parent n d hd]

theorem Config.category_of_error (c : Config) :
    ∀ d ∈ c.findings, d.severity = .error → d.category = .value := by
  have hzone (path : String) (name : Option String) :
      ∀ d ∈ timezoneFindings path name, d.severity = .error → d.category = .value := by
    unfold timezoneFindings
    cases parseTimezone path name <;> simp [Finding.category]
  have hproperty (key value : String) :
      ∀ d ∈ propertyFindings key value, d.severity = .error → d.category = .value := by
    unfold propertyFindings
    split
    · split <;> simp [Finding.category]
    · cases closest? key knownProperties <;> simp [Finding.severity]
  have hif (p : Prop) [Decidable p] (ds es : List Finding) (hds : ∀ d ∈ ds, d.category = .value)
      (hes : ∀ d ∈ es, d.category = .value) :
      ∀ d ∈ if p then ds else es, d.severity = .error → d.category = .value := by
    split
    · exact fun d hd _ => hds d hd
    · exact fun d hd _ => hes d hd
  simp only [findings, List.forall_mem_append, List.forall_mem_flatMap]
  refine ⟨⟨⟨⟨⟨?_, ?_⟩, hzone _ _⟩, hzone _ _⟩, fun p _ => hproperty p.1 p.2⟩, ?_⟩
  · exact hif _ _ _ (by simp [Finding.category]) (by simp)
  · exact hif _ _ _ (by simp [Finding.category]) (by simp)
  · exact hif _ _ _ (by simp) (by simp [Finding.category])

theorem Config.any_objects_findings (c : Config) : c.findings.any (·.objects) = c.faulty := by
  apply Bool.eq_iff_iff.mpr
  simp only [faulty, List.any_eq_true, decide_eq_true_eq]
  constructor
  · rintro ⟨d, hd, ho⟩
    simp only [Finding.objects, Bool.and_eq_true, decide_eq_true_eq] at ho
    exact ⟨d, hd, ho.1⟩
  · rintro ⟨d, hd, he⟩
    exact ⟨d, hd, by simp [Finding.objects, he, c.category_of_error d hd he]⟩

theorem soundToml?_eq (s : String) :
    soundToml? s = if misdated s then none else Format.toml.read? s := by
  unfold soundToml? misdated
  cases Format.toml.read? s with
  | none => rfl
  | some n =>
    cases n with
    | scalar x => rfl
    | list items => rfl
    | table ms => cases hm : Toml.membersSound ms <;> simp [hm]

theorem any_objects_tomlFindings (s : String) : (tomlFindings s).any (·.objects) =
    (misdated s || (Config.read? .toml s).all (·.faulty)) := by
  unfold tomlFindings Config.read?
  rw [soundToml?_eq]
  cases misdated s with
  | true => rfl
  | false =>
    cases Format.toml.read? s with
    | none => rfl
    | some n =>
      simp only [Bool.false_eq_true, ↓reduceIte, List.any_append, any_objects_unknownFields]
      cases hc : Config.ofNode? .toml n with
      | none => simp [hc, Finding.objects, Finding.severity, Finding.category]
      | some c => simp [hc, c.any_objects_findings]

theorem Site.refuses_eq (site : Site) (path s : String) (f : Format)
    (hr : site.disk.read path = .ok s) (hf : Format.ofExtension? (extension? path) = some f) :
    site.refuses path = (Config.read? f (substitute site.env s)).all (·.faulty) := by
  simp only [refuses, load, hr, parse, hf]
  cases Config.read? f (substitute site.env s) <;> rfl

/-- A file is objected to exactly if it is refused; as a TOML file it is so where there are no
variables, and for a false date. Where no placeholder of a TOML file has a value, and no date is
false, variables make no difference. -/
theorem objections_agree_with_loading (site : Site) (path s : String)
    (hr : site.disk.read path = .ok s) :
    (Format.ofExtension? (extension? path) ≠ some .toml →
        site.objects path = site.refuses path) ∧
      (Format.ofExtension? (extension? path) = some .toml →
        site.objects path = (misdated s || site.bare.refuses path) ∧
        ((∀ name, .reference name ∈ pieces s.toList → site.env (String.ofList name) = none) →
          misdated s = false → site.objects path = site.refuses path)) := by
  have hfind : (site.diagnose (some path)).findings = site.findings path := rfl
  refine ⟨fun hf => ?_, fun hf => ?_⟩
  · simp only [Site.objects, hfind, Site.findings, hr, hf, ↓reduceIte, Site.refuses]
    cases site.load path with
    | ok c => exact c.any_objects_findings
    | error e => rfl
  · have ho : site.objects path = (misdated s || (Config.read? .toml s).all (·.faulty)) := by
      simp only [Site.objects, hfind, Site.findings, hr, hf, ↓reduceIte, any_objects_tomlFindings]
    have hbare : substitute site.bare.env s = s := substitute_eq_self _ _ fun _ _ => rfl
    refine ⟨?_, fun hn hm => ?_⟩
    · rw [ho, site.bare.refuses_eq path s .toml hr hf, hbare]
    · rw [ho, site.refuses_eq path s .toml hr hf, substitute_eq_self site.env s hn, hm,
        Bool.false_or]

def Site.ofFile (path s : String) : Site where
  disk := [(path, .text s)]
  env name := if name = "N" then some "4" else if name = "Q" then some "a\"b" else none
  folder := none

theorem unset_placeholder_makes_no_difference :
    let s := "[trigger]\ntimezone = \"$\x7bM\x7d\"\n"
    let site := Site.ofFile "c.toml" s
    site.disk.read "c.toml" = .ok s ∧ Format.ofExtension? (extension? "c.toml") = some .toml ∧
      (∀ name, .reference name ∈ pieces s.toList → site.env (String.ofList name) = none) ∧
      misdated s = false ∧ site.objects "c.toml" = true ∧ site.refuses "c.toml" = true := by
  intro s site
  have hr : site.disk.read "c.toml" = .ok s := by
    simp [site, Site.ofFile, Disk.read, Table.get?]
  have hf : Format.ofExtension? (extension? "c.toml") = some .toml := by decide +kernel
  have hn : ∀ name, .reference name ∈ pieces s.toList → site.env (String.ofList name) = none := by
    have hall : (pieces s.toList).all (fun
        | .reference name => (site.env (String.ofList name)).isNone
        | .literal _ => true) = true := by decide +kernel
    intro name hm
    simpa using List.all_eq_true.mp hall _ hm
  have hm : misdated s = false := by decide +kernel
  have ho : site.objects "c.toml" = true := by decide +kernel
  have hagree := ((objections_agree_with_loading site "c.toml" s hr).2 hf).2 hn hm
  exact ⟨hr, hf, hn, hm, ho, hagree ▸ ho⟩

/-- A placeholder with a value can make a number of what was none, or it can break a text in two;
and a property can be called as if it were a date. Then objections and refusals part. -/
theorem objections_part_from_refusals :
    let number := Site.ofFile "c.toml" "[trigger]\nthread_count = $\x7bN\x7d\n"
    let quote := Site.ofFile "c.toml" "[trigger]\nscheduler_name = \"$\x7bQ\x7d\"\n"
    let date := Site.ofFile "c.toml" "[trigger.properties]\n\"$__toml_private_datetime\" = \"x\"\n"
    (number.objects "c.toml" = true ∧ number.refuses "c.toml" = false) ∧
      (quote.objects "c.toml" = false ∧ quote.refuses "c.toml" = true) ∧
      date.objects "c.toml" = true ∧ date.refuses "c.toml" = false := by
  decide +kernel

end CronTasks
