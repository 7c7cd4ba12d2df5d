import Intel8080.CommandLine.Option
import Mathlib.Data.List.TakeDrop
import Mathlib.Data.List.TakeWhile

/-!
# What command lines say

The settings that a command line leaves are those that the tool starts with, changed by options one
after the other, so a property that every option keeps holds of them. Main statements:
`parse_induction`, which says so, and `takeAll_given`, `take_switch` and `takeAll_path`, from which
follows what a command line says whose options have their values behind an equals sign.
-/

namespace Intel8080.CommandLine

variable {α : Type} {P : α → Prop}

/-- Whatever an option is given, it keeps a property of the settings. -/
def OptionAction.Keeps (P : α → Prop) : OptionAction α → Prop
  | .value use => ∀ text f, use text = some f → ∀ s, P s → P (f s)
  | .switch use => ∀ s, P s → P (use s)
  | .stop _ => True

/-- An option that makes a change with what it reads keeps what the change keeps. -/
theorem OptionAction.keeps_value {β ε : Type} {reader : String → Except ε β}
    {use : String → Option (α → α)} {change : β → α → α}
    (huse : ∀ text, use text = (reader text).toOption.map change)
    (h : ∀ text v, reader text = .ok v → ∀ s, P s → P (change v s)) :
    (OptionAction.value use).Keeps P := by
  intro text f hf
  rw [huse] at hf
  cases hread : reader text with
  | error e =>
    rw [hread] at hf
    cases hf
  | ok v =>
    rw [hread] at hf
    obtain rfl := Option.some.inj hf
    exact h text v hread

namespace Reading

variable {specs : List (OptionSpec α)} {reading next : Reading α}

/-! ## What every option keeps -/

/-- The settings so far have a property, and the option that waits keeps it. -/
structure Sound (P : α → Prop) (reading : Reading α) : Prop where
  settings : P reading.settings
  waiting : ∀ spec, reading.waiting = some spec → spec.action.Keeps P

section Sound

variable (h : reading.Sound P)

include h

/-- An option that keeps a property of the settings may be taken note of. -/
theorem Sound.apply {spec : OptionSpec α} {use : α → α} (huse : ∀ s, P s → P (use s))
    (hnext : reading.apply spec use = .ok next) : next.Sound P := by
  unfold Reading.apply at hnext
  split at hnext
  · cases hnext
  · obtain rfl := Except.ok.inj hnext
    exact ⟨huse _ h.settings, nofun⟩

theorem Sound.give {spec : OptionSpec α} {use : String → Option (α → α)} {value : String}
    (huse : (OptionAction.value use).Keeps P) (hnext : reading.give spec use value = .ok next) :
    next.Sound P := by
  unfold Reading.give at hnext
  split at hnext
  · next f hf => exact h.apply (huse value f hf) hnext
  · cases hnext

theorem Sound.takePath {path : String} (hnext : reading.takePath path = .ok next) :
    next.Sound P := by
  unfold Reading.takePath at hnext
  split at hnext
  · cases hnext
  · obtain rfl := Except.ok.inj hnext
    exact ⟨h.settings, h.waiting⟩

variable (hspecs : ∀ spec ∈ specs, spec.action.Keeps P)

include hspecs

/-- Long options keep what each option keeps. -/
theorem Sound.takeLong {name : String} {value : Option String}
    (hnext : reading.takeLong specs name value = .ok next) : next.Sound P := by
  unfold Reading.takeLong at hnext
  split at hnext
  · cases hnext
  · next spec hspec =>
    have hkeeps := hspecs spec (List.mem_of_find?_eq_some hspec)
    split at hnext
    · next use value haction => exact h.give (haction ▸ hkeeps) hnext
    · obtain rfl := Except.ok.inj hnext
      exact ⟨h.settings, fun _ hwaiting ↦ Option.some.inj hwaiting ▸ hkeeps⟩
    · next use haction =>
      rw [haction] at hkeeps
      exact h.apply hkeeps hnext
    · cases hnext
    · cases hnext

theorem Sound.takeShort {names : List Char} (hnext : reading.takeShort specs names = .ok next) :
    next.Sound P := by
  induction names generalizing reading with
  | nil =>
    obtain rfl := Except.ok.inj hnext
    exact h
  | cons name rest ih =>
    unfold Reading.takeShort at hnext
    split at hnext
    · cases hnext
    · next spec hspec =>
      have hkeeps := hspecs spec (List.mem_of_find?_eq_some hspec)
      split at hnext
      · next use haction =>
        split at hnext
        · obtain rfl := Except.ok.inj hnext
          exact ⟨h.settings, fun _ hwaiting ↦ Option.some.inj hwaiting ▸ hkeeps⟩
        · exact h.give (haction ▸ hkeeps) hnext
      · next use haction =>
        rw [haction] at hkeeps
        split at hnext
        · next happly => exact ih (h.apply hkeeps happly) hnext
        · cases hnext
      · cases hnext

theorem Sound.takeFree {argument : String} (hnext : reading.takeFree specs argument = .ok next) :
    next.Sound P := by
  unfold Reading.takeFree at hnext
  split at hnext
  · obtain rfl := Except.ok.inj hnext
    exact ⟨h.settings, h.waiting⟩
  · split at hnext <;> exact h.takeLong hspecs hnext
  · exact h.takeShort hspecs hnext
  · exact h.takePath hnext

/-- Whatever one argument says keeps what each option keeps. -/
theorem Sound.take {argument : String} (hnext : reading.take specs argument = .ok next) :
    next.Sound P := by
  unfold Reading.take at hnext
  split at hnext
  · exact h.takePath hnext
  · split at hnext
    · exact h.takeFree hspecs hnext
    · next spec hwaiting =>
      have hkeeps := h.waiting spec hwaiting
      split at hnext
      · next use haction =>
        split at hnext
        · cases hnext
        · exact h.give (haction ▸ hkeeps) hnext
      · cases hnext

/-- By induction, so does whatever a command line says. -/
theorem Sound.takeAll {arguments : List String}
    (hnext : takeAll specs arguments reading = .ok next) : next.Sound P := by
  induction arguments generalizing reading with
  | nil =>
    obtain rfl := Except.ok.inj hnext
    exact h
  | cons argument rest ih =>
    unfold Reading.takeAll at hnext
    split at hnext
    · next htake => exact ih (h.take hspecs htake) hnext
    · cases hnext

end Sound

end Reading

/-- A property of the default settings that every option keeps holds of all settings that a command
line can leave. -/
theorem parse_induction {specs : List (OptionSpec α)} {defaults : α} {arguments : List String}
    {invocation : Invocation α} (hspecs : ∀ spec ∈ specs, spec.action.Keeps P)
    (hdefaults : P defaults) (h : parse specs defaults arguments = .ok invocation) :
    P invocation.settings := by
  have hstart : Reading.Sound P { settings := defaults } := ⟨hdefaults, nofun⟩
  unfold parse at h
  split at h
  · next reading hreading =>
    unfold Reading.finish at h
    split at h
    · obtain rfl := Except.ok.inj h
      exact (hstart.takeAll hspecs hreading).settings
    · cases h
  · cases h

/-! ## Single arguments -/

namespace Reading

variable {specs : List (OptionSpec α)} {reading : Reading α}

/-- No option waits for its value, and the options are not over. -/
structure Free (reading : Reading α) : Prop where
  waiting : reading.waiting = none
  onlyPaths : reading.onlyPaths = false

/-- The characters before an equals sign, if there is none among them, and those after it. -/
theorem span_append_equals {name : List Char} (h : '=' ∉ name) (value : List Char) :
    (name ++ '=' :: value).span (· != '=') = (name, '=' :: value) := by
  have hname : ∀ c ∈ name, (c != '=') = true := fun c hc ↦ bne_iff_ne.2 fun heq ↦ h (heq ▸ hc)
  rw [List.span_eq_takeWhile_dropWhile, List.takeWhile_append_of_pos hname,
    List.dropWhile_append_of_pos hname]
  simp

theorem span_of_no_equals {name : List Char} (h : '=' ∉ name) :
    name.span (· != '=') = (name, []) := by
  have hname : ∀ c ∈ name, (c != '=') = true := fun c hc ↦ bne_iff_ne.2 fun heq ↦ h (heq ▸ hc)
  rw [List.span_eq_takeWhile_dropWhile, List.takeWhile_eq_self_iff.2 hname,
    List.dropWhile_eq_nil_iff.2 hname]

/-- While nothing is waited for, an argument is judged by how it is written. -/
theorem take_of_free (h : reading.Free) (argument : String) :
    reading.take specs argument = reading.takeFree specs argument := by
  simp [take, h.onlyPaths, h.waiting]

/-- An argument in which more follows two dashes is a long option. -/
theorem takeFree_long {argument : String} {long : List Char}
    (h : argument.toList = '-' :: '-' :: long) (hlong : long ≠ []) :
    reading.takeFree specs argument = match long.span (· != '=') with
      | (name, []) => reading.takeLong specs (String.ofList name) none
      | (name, _ :: value) =>
        reading.takeLong specs (String.ofList name) (some (String.ofList value)) := by
  obtain ⟨c, rest, rfl⟩ := List.exists_cons_of_ne_nil hlong
  rw [takeFree, h]
  rfl

section Option

variable (h : reading.Free) {spec : OptionSpec α}
  (hfind : specs.find? (·.long == spec.long) = some spec) (hname : '=' ∉ spec.long.toList)
  (hfresh : spec.long ∉ reading.used)

include h hfind hname hfresh

/-- A long option with its value behind an equals sign. -/
theorem take_value {use : String → Option (α → α)} (haction : spec.action = .value use)
    {value : String} {f : α → α} (hf : use value = some f) :
    reading.take specs ("--" ++ spec.long ++ "=" ++ value) = .ok
      { reading with settings := f reading.settings, used := spec.long :: reading.used } := by
  have hchars : ("--" ++ spec.long ++ "=" ++ value).toList =
      '-' :: '-' :: (spec.long.toList ++ '=' :: value.toList) := by
    simp
  rw [take_of_free h, takeFree_long hchars (by simp), span_append_equals hname]
  simp [takeLong, hfind, haction, give, hf, apply, hfresh, h.waiting]

/-- A long option that stands alone. -/
theorem take_switch {use : α → α} (haction : spec.action = .switch use) (hne : spec.long ≠ "") :
    reading.take specs ("--" ++ spec.long) = .ok
      { reading with settings := use reading.settings, used := spec.long :: reading.used } := by
  have hchars : ("--" ++ spec.long).toList = '-' :: '-' :: spec.long.toList := by simp
  have hlong : spec.long.toList ≠ [] := by simpa using hne
  rw [take_of_free h, takeFree_long hchars hlong, span_of_no_equals hname]
  simp [takeLong, hfind, haction, apply, hfresh, h.waiting]

end Option

/-- The end of the options. -/
theorem take_end (h : reading.Free) :
    reading.take specs "--" = .ok { reading with onlyPaths := true } :=
  take_of_free h "--"

/-- A path as the last argument, behind the end of the options, where it may look like one. -/
theorem takeAll_path (h : reading.Free) (hnone : reading.path = none) {path : String}
    (hpath : path ≠ "") : takeAll specs ["--", path] reading =
      .ok { reading with onlyPaths := true, path := some path } := by
  have hlast : take specs { reading with onlyPaths := true } path =
      .ok { reading with onlyPaths := true, path := some path } := by
    simp [take, takePath, hnone, hpath]
  simp only [takeAll, take_end h, hlast]

end Reading

/-! ## Options in sequence -/

/-- An option with the text of its value, and what the value does to the settings. -/
structure Given (α : Type) where
  spec : OptionSpec α
  text : String
  change : α → α

namespace Given

def argument (given : Given α) : String := "--" ++ given.spec.long ++ "=" ++ given.text

/-- The option is found by its name, and accepts its value. -/
structure Accepted (specs : List (OptionSpec α)) (given : Given α) : Prop where
  find?_eq : specs.find? (·.long == given.spec.long) = some given.spec
  name : '=' ∉ given.spec.long.toList
  action : ∃ use, given.spec.action = .value use ∧ use given.text = some given.change

end Given

/-- Options that accept their values make their changes one after the other. -/
theorem Reading.takeAll_given {specs : List (OptionSpec α)} {options : List (Given α)}
    {reading : Reading α} (h : reading.Free) (haccepted : ∀ given ∈ options, given.Accepted specs)
    (hfresh : ∀ given ∈ options, given.spec.long ∉ reading.used)
    (hnodup : (options.map (·.spec.long)).Nodup) :
    takeAll specs (options.map Given.argument) reading = .ok
      { reading with
        settings := options.foldl (fun s given ↦ given.change s) reading.settings
        used := (options.map (·.spec.long)).reverse ++ reading.used } := by
  induction options generalizing reading with
  | nil => rfl
  | cons given options ih =>
    obtain ⟨hfind, hname, use, haction, huse⟩ := haccepted given List.mem_cons_self
    rw [List.map_cons, List.nodup_cons] at hnodup
    rw [List.map_cons, takeAll, Given.argument,
      take_value h hfind hname (hfresh given List.mem_cons_self) haction huse]
    have hrest : ∀ other ∈ options, other.spec.long ∉ given.spec.long :: reading.used := by
      intro other hother hmem
      rcases List.mem_cons.1 hmem with heq | hused
      · exact hnodup.1 (heq ▸ List.mem_map_of_mem hother)
      · exact hfresh other (List.mem_cons_of_mem _ hother) hused
    have hfree : Free { reading with
        settings := given.change reading.settings, used := given.spec.long :: reading.used } :=
      ⟨h.waiting, h.onlyPaths⟩
    refine (ih hfree
      (fun other hother ↦ haccepted other (List.mem_cons_of_mem _ hother)) hrest hnodup.2).trans ?_
    simp

end Intel8080.CommandLine
