/-
  Where loggers write that were asked for late.

  Stream and layout that are configured reach the loggers that there are; a logger that is asked for
  later starts with the standard error stream and the default layout, at the level that was set
  last. So a logger writes to the outlet that was configured last among the calls it has lived
  through (`logger_writes`). That is the outlet configured last of all if the logger was configured
  since it was first asked for, or if that outlet is the standard one, and only then: an application
  that configures its log at the start does not find there what a logger writes that comes
  afterwards (`late_logger_on_standardError`).
-/
import TrustRegion.Proofs.LoggerCalls

namespace TrustRegion

namespace Logging

/-! ## The outlet that was configured last -/

theorem suffix_of_since {name : String} {calls later : List Call}
    (found : since name calls = some later) : later <:+ calls := by
  induction calls with
  | nil => cases found
  | cons call calls ih =>
    rw [since] at found
    split at found
    · rw [← Option.some.inj found]
      exact List.suffix_cons call calls
    · exact (ih found).trans (List.suffix_cons call calls)

theorem suffix_of_heard {name : String} {calls later : List Call}
    (found : heard name calls = some later) : later <:+ calls := by
  unfold heard at found
  split at found
  · have same : calls = later := Option.some.inj found
    exact same ▸ List.suffix_refl calls
  · exact suffix_of_since found

theorem lastOutlet_of_silent {calls : List Call}
    (silent : ¬ ∃ call ∈ calls, call.outlet?.isSome = true) : lastOutlet calls = .standard := by
  have none_asked : calls.filterMap Call.outlet? = [] := by
    rw [List.filterMap_eq_nil_iff]
    intro call mem
    rw [← Option.not_isSome_iff_eq_none]
    intro asked
    exact silent ⟨call, mem, asked⟩
  unfold lastOutlet
  rw [none_asked]
  rfl

/-- Earlier calls do not matter once an outlet is configured. -/
theorem lastOutlet_of_suffix {calls later : List Call} (suffix : later <:+ calls)
    (asked : ∃ call ∈ later, call.outlet?.isSome = true) : lastOutlet calls = lastOutlet later := by
  obtain ⟨earlier, rfl⟩ := suffix
  obtain ⟨call, mem, asked⟩ := asked
  obtain ⟨o, asked⟩ := Option.isSome_iff_exists.1 asked
  have nonempty : later.filterMap Call.outlet? ≠ [] :=
    List.ne_nil_of_mem (List.mem_filterMap.2 ⟨call, mem, asked⟩)
  unfold lastOutlet
  rw [List.filterMap_append, List.getLast?_append, List.getLast?_eq_some_getLast nonempty]
  rfl

/--
A part at the end has the same last outlet if something is configured in it, or if that outlet is
the standard one.
-/
theorem lastOutlet_eq_iff {calls later : List Call} (suffix : later <:+ calls) :
    lastOutlet later = lastOutlet calls ↔
      (∃ call ∈ later, call.outlet?.isSome = true) ∨ lastOutlet calls = .standard := by
  by_cases asked : ∃ call ∈ later, call.outlet?.isSome = true
  · simp only [asked, lastOutlet_of_suffix suffix asked, true_or]
  · rw [lastOutlet_of_silent asked]
    simp only [asked, false_or]
    exact eq_comm

/-! ## What is written -/

/--
The level that decides where all loggers have the same one: if it is `unset`, that of the logger
above all others, which is `warning`.
-/
def Level.deciding (level : Level) : Level := if level = unset then warning else level

namespace Outlet

theorem logger_inj {o o' : Outlet} {level : Level} : o.logger level = o'.logger level ↔ o = o' := by
  constructor
  · intro same
    obtain ⟨stream, format⟩ := o
    obtain ⟨stream', format'⟩ := o'
    simpa [logger] using same
  · intro same
    rw [same]

/-- The lines that a message becomes at an outlet, for loggers of one level. -/
def lines (outlet : Outlet) (level : Level) (message : Message) : List (Stream × String) :=
  if 0 < message.level ∧ Level.deciding level ≤ message.level then
    ((outlet.format.line message).map fun line => (outlet.stream, line)).toList
  else []

end Outlet

namespace Registry.Follows

variable {r : Registry} {level : Level} {outlet : String → Option Outlet} {name : String}

theorem level_of_find? (F : r.Follows level outlet) {logger : Logger}
    (found : r.find? name = some logger) : logger.level = level := by
  rw [F.find?, Option.map_eq_some_iff] at found
  obtain ⟨o, -, rfl⟩ := found
  rfl

/-- The logger above all others is none of those in the cache, so nobody has set its level. -/
theorem topLevel (F : r.Follows level outlet) : r.topLevel = Level.warning := by
  have apart : topName ∉ r.cached := by
    intro mem
    exact absurd (F.qualified topName mem) (by decide)
  unfold Registry.topLevel
  rw [F.find?, F.outlet_of_not_mem apart]
  rfl

/-- All loggers above have the level of the logger itself. -/
theorem effectiveLevel (F : r.Follows level outlet) (mem : name ∈ r.cached) :
    r.effectiveLevel name = Level.deciding level := by
  obtain ⟨o, found⟩ := F.outlet_of_mem mem
  have here : r.find? name = some (o.logger level) := by
    rw [F.find?, found]
    rfl
  unfold Registry.effectiveLevel Level.deciding
  dsimp only
  split
  · next unset =>
    have none_set : ((name :: ancestors name).filterMap fun n =>
        (r.find? n).map Logger.level).find? (fun level => level != Level.unset) = none := by
      rw [List.find?_eq_none]
      intro level' mem'
      obtain ⟨n, -, asked⟩ := List.mem_filterMap.1 mem'
      obtain ⟨logger, there, rfl⟩ := Option.map_eq_some_iff.1 asked
      simp [F.level_of_find? there, unset]
    rw [none_set, Option.getD_none, F.topLevel]
  · next set =>
    simp [here, Outlet.logger, set]

theorem write (F : r.Follows level outlet) (mem : name ∈ r.cached) {o : Outlet}
    (found : outlet name = some o) (importance : Level) (text : String) :
    r.write ⟨name, importance, text⟩ = o.lines level ⟨name, importance, text⟩ := by
  have here : r.find? name = some (o.logger level) := by
    rw [F.find?, found]
    rfl
  unfold Registry.write Outlet.lines
  dsimp only
  rw [here]
  dsimp only
  rw [F.effectiveLevel mem]
  split
  · next passes =>
    obtain ⟨positive, reaches⟩ := passes
    -- A handler without a level of its own lets every message pass that is let through at all.
    have handled : level ≤ importance := by
      unfold Level.deciding at reaches
      split at reaches
      · next unset =>
        rw [unset]
        exact positive.le
      · exact reaches
    cases line : o.format.line ⟨name, importance, text⟩ <;>
      simp [Outlet.logger, handled, line]
  · rfl

end Registry.Follows

/-! ## Loggers after any calls -/

/--
After any valid calls a cached logger writes with the level that was set last, to the outlet that
was configured last among the calls since it was first asked for. That is the outlet configured last
of all exactly if one of those calls configures, or if that outlet is the standard one.
-/
theorem logger_writes {φ : Type} {calls : List Call} (valid : ∀ call ∈ calls, call.Valid) :
    ∃ r, Call.performAll calls Registry.initial = .ok (ε := Fault φ) () r ∧
      (∀ name, name ∈ r.cached ↔ (heard name calls).isSome) ∧
      ∀ name later, heard name calls = some later →
        r.find? name = some ((lastOutlet later).logger (lastLevel calls)) ∧
        (∀ importance text, r.write ⟨name, importance, text⟩ =
          (lastOutlet later).lines (lastLevel calls) ⟨name, importance, text⟩) ∧
        (r.find? name = some ((lastOutlet calls).logger (lastLevel calls)) ↔
          (∃ call ∈ later, call.outlet?.isSome = true) ∨ lastOutlet calls = .standard) := by
  obtain ⟨r, performed, follows⟩ := exists_performAll (φ := φ) valid
  refine ⟨r, performed, follows.cached_iff, fun name later found => ?_⟩
  have outlet : (heard name calls).map lastOutlet = some (lastOutlet later) := by
    rw [found]
    rfl
  have kept : r.find? name = some ((lastOutlet later).logger (lastLevel calls)) := by
    rw [follows.find?, outlet]
    rfl
  have mem : name ∈ r.cached := by
    rw [follows.cached_iff, found]
    rfl
  refine ⟨kept, follows.write mem outlet, ?_⟩
  rw [kept, Option.some.injEq, Outlet.logger_inj]
  exact lastOutlet_eq_iff (suffix_of_heard found)

/-- One logger from before the log is configured, and one from afterwards. -/
theorem logger_writes_early_and_late :
    (∀ call ∈ [Call.get (some "early"),
      .configure (.named "debug") (some "%(message)s") (.caller 1),
      .get (some "late"), .setLevel (.number 20)], call.Valid) ∧
    ∃ r, Call.performAll [.get (some "early"),
        .configure (.named "debug") (some "%(message)s") (.caller 1),
        .get (some "late"), .setLevel (.number 20)] Registry.initial =
          .ok (ε := Fault Empty) () r ∧
      r.write ⟨"tronopt.early", 20, "done"⟩ = [(.caller 1, "done")] ∧
      r.write ⟨"tronopt.late", 20, "done"⟩ = [(.standardError, "[INFO] tronopt.late: done")] := by
  have valid : ∀ call ∈ [Call.get (some "early"),
      .configure (.named "debug") (some "%(message)s") (.caller 1),
      .get (some "late"), .setLevel (.number 20)], call.Valid := by decide
  obtain ⟨r, performed, -, writes⟩ := logger_writes (φ := Empty) valid
  obtain ⟨-, early, -⟩ := writes "tronopt.early"
    [.configure (.named "debug") (some "%(message)s") (.caller 1), .get (some "late"),
      .setLevel (.number 20)] (by decide)
  obtain ⟨-, late, -⟩ := writes "tronopt.late" [.setLevel (.number 20)] (by decide)
  refine ⟨valid, r, performed, ?_, ?_⟩
  · rw [early]
    decide
  · rw [late]
    decide

/-- A log that is configured first: the logger that is asked for afterwards writes elsewhere. -/
theorem late_logger_on_standardError :
    (∀ call ∈ [Call.configure (.number 10) none .buffer, .get (some "test_module")], call.Valid) ∧
    lastOutlet [.configure (.number 10) none .buffer, .get (some "test_module")] =
      ⟨.buffer, defaultFormat⟩ ∧
    ∃ r, Call.performAll [.configure (.number 10) none .buffer, .get (some "test_module")]
        Registry.initial = .ok (ε := Fault Empty) () r ∧
      "tronopt.test_module" ∈ r.cached ∧
      r.find? "tronopt.test_module" ≠ some (Outlet.logger ⟨.buffer, defaultFormat⟩ 10) ∧
      r.write ⟨"tronopt.test_module", 10, "Debug message"⟩ =
        [(.standardError, "[DEBUG] tronopt.test_module: Debug message")] := by
  refine ⟨by decide, by decide, _, rfl, by decide, by decide, ?_⟩
  decide

end Logging

end TrustRegion
