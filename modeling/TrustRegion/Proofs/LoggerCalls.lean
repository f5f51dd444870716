/-
  What a sequence of calls leaves of the loggers.

  Two things are carried along a history of calls: the level that was set last, and for every name
  the outlet of its logger, that is, the stream and the layout it writes with. A registry follows
  them (`Registry.Follows`) if its cache holds exactly the names that have an outlet, each with one
  handler at that outlet, and every level in it is the same. The registry at the start follows the
  empty history, and one call keeps this (`Follows.perform`), so every history of valid calls ends
  in a registry that follows it (`exists_performAll`). What holds of all loggers after any calls is
  read off from there (`loggers_uniform`).
-/
import Mathlib.Data.List.Induction
import TrustRegion.Proofs.LoggersInPlace

namespace TrustRegion

namespace Logging

/-! ## Histories of calls -/

/-- Where a logger writes, and with which layout. -/
structure Outlet where
  /-- The stream it writes to. -/
  stream : Stream
  /-- The layout of its lines. -/
  format : Format
deriving Repr, DecidableEq

namespace Outlet

/-- The standard error stream and the default layout. -/
def standard : Outlet := ⟨.standardError, defaultFormat⟩

/-- A logger that writes to an outlet alone what is important enough. -/
def logger (outlet : Outlet) (level : Level) : Logger where
  level := level
  handlers := [⟨level, outlet.stream, outlet.format⟩]
  propagate := false

end Outlet

/-- The level that is asked for, if it is one. -/
def LevelChoice.level? (choice : LevelChoice) : Option Level :=
  (choice.toLevel : Except (Fault Empty) Level).toOption

/-- Whether a name is a level does not depend on the faults there are. -/
theorem Level.ofName_cases (name : String) :
    (∃ level, ∀ φ, ofName (φ := φ) name = .ok level) ∨
      (ofName (φ := Empty) name).toOption = none := by
  unfold ofName
  split <;> first | exact Or.inl ⟨_, fun _ => rfl⟩ | exact Or.inr rfl

theorem LevelChoice.toLevel_of_level? {φ : Type} {choice : LevelChoice} {level : Level}
    (asked : choice.level? = some level) : choice.toLevel (φ := φ) = .ok level := by
  cases choice with
  | number level' =>
    cases asked
    rfl
  | named name =>
    change (Level.ofName (φ := Empty) name).toOption = some level at asked
    rcases Level.ofName_cases name with ⟨level', named⟩ | refused
    · rw [named] at asked
      cases asked
      exact named φ
    · rw [refused] at asked
      cases asked

namespace Call

/-- The level that a call sets. -/
def level? : Call → Option Level
  | get _ => none
  | setLevel choice | configure choice _ _ => choice.level?

/-- The outlet that a call gives to all loggers there are. -/
def outlet? : Call → Option Outlet
  | get _ | setLevel _ => none
  | configure _ layout stream => some ⟨stream, ⟨Format.read .text (layoutText layout).toList⟩⟩

/-- A call whose level is one, and whose layout has a field. -/
def Valid : Call → Prop
  | get _ => True
  | setLevel choice => choice.level?.isSome
  | configure choice layout _ => choice.level?.isSome ∧ Format.hasField (layoutText layout).toList

instance : DecidablePred Valid
  | get _ => inferInstanceAs (Decidable True)
  | setLevel choice => inferInstanceAs (Decidable (choice.level?.isSome = true))
  | configure choice layout _ =>
    inferInstanceAs (Decidable (choice.level?.isSome = true ∧
      Format.hasField (layoutText layout).toList = true))

/-- Whether a call asks for the logger that is kept under a name. -/
def requests (name : String) : Call → Bool
  | get name' => name == qualifiedName name'
  | setLevel _ | configure .. => false

/-- The outlet of a logger after a call; one that was asked for has the standard outlet at first. -/
def outletAfter (call : Call) (name : String) : Option Outlet → Option Outlet
  | some outlet => some (call.outlet?.getD outlet)
  | none => if call.requests name then some .standard else none

end Call

/-- The level that was set last. -/
def lastLevel (calls : List Call) : Level :=
  ((calls.filterMap Call.level?).getLast?).getD Level.warning

/-- The outlet that was configured last. -/
def lastOutlet (calls : List Call) : Outlet :=
  ((calls.filterMap Call.outlet?).getLast?).getD .standard

/-- The calls after the first one that asks for a name. -/
def since (name : String) : List Call → Option (List Call)
  | [] => none
  | call :: calls => if call.requests name then some calls else since name calls

/-- The calls that a logger has lived through, if there is one. -/
def heard (name : String) (calls : List Call) : Option (List Call) :=
  if name ∈ Registry.initial.cached then some calls else since name calls

theorem lastLevel_concat (calls : List Call) (call : Call) :
    lastLevel (calls ++ [call]) = call.level?.getD (lastLevel calls) := by
  unfold lastLevel
  cases asked : call.level? <;> simp [List.filterMap_append, asked]

theorem lastOutlet_concat (calls : List Call) (call : Call) :
    lastOutlet (calls ++ [call]) = call.outlet?.getD (lastOutlet calls) := by
  unfold lastOutlet
  cases asked : call.outlet? <;> simp [List.filterMap_append, asked]

theorem since_concat (name : String) (calls : List Call) (call : Call) :
    since name (calls ++ [call]) = match since name calls with
      | some later => some (later ++ [call])
      | none => if call.requests name then some [] else none := by
  induction calls with
  | nil => rfl
  | cons first calls ih =>
    rw [List.cons_append, since, since, ih]
    split <;> rfl

theorem outlet_concat (name : String) (calls : List Call) (call : Call) :
    (heard name (calls ++ [call])).map lastOutlet =
      call.outletAfter name ((heard name calls).map lastOutlet) := by
  unfold heard
  split
  · exact congrArg some (lastOutlet_concat calls call)
  · rw [since_concat]
    cases since name calls with
    | some later => exact congrArg some (lastOutlet_concat later call)
    | none =>
      show Option.map lastOutlet (if _ then _ else _) = if _ then _ else _
      split <;> rfl

/-! ## Registries that follow a history -/

/-- Loggers of one level, each with the outlet that is told for its name. -/
structure Registry.Follows (r : Registry) (level : Level) (outlet : String → Option Outlet) :
    Prop where
  /-- Loggers that are set up later get the same level. -/
  defaultLevel : r.defaultLevel = level
  /-- A logger writes to its outlet alone. -/
  find? : ∀ name, r.find? name = (outlet name).map fun o => o.logger level
  /-- The cache holds the names that have an outlet. -/
  cached : ∀ name, name ∈ r.cached ↔ (outlet name).isSome
  /-- No name is cached twice. -/
  nodup : r.cached.Nodup
  /-- Cached names are full names. -/
  qualified : ∀ name ∈ r.cached, qualifiedName (some name) = name

namespace Registry.Follows

variable {φ : Type} {r : Registry} {level level' : Level} {outlet : String → Option Outlet}

theorem outlet_of_mem (F : r.Follows level outlet) {name : String} (mem : name ∈ r.cached) :
    ∃ o, outlet name = some o :=
  Option.isSome_iff_exists.1 ((F.cached name).1 mem)

theorem outlet_of_not_mem (F : r.Follows level outlet) {name : String} (absent : name ∉ r.cached) :
    outlet name = none := by
  rw [F.cached name] at absent
  simpa using absent

/-- A logger that is not there yet is set up with the standard outlet. -/
theorem obtain (F : r.Follows level outlet) {name : String}
    (qualified : qualifiedName (some name) = name) :
    (r.obtain name).Follows level fun name' => match outlet name' with
      | some o => some o
      | none => if name' = name then some .standard else none := by
  by_cases known : name ∈ r.cached
  · have same : r.obtain name = r := by
      simp [Registry.obtain, known]
    have kept : (fun name' => match outlet name' with
        | some o => some o
        | none => if name' = name then some .standard else none) = outlet := by
      funext name'
      cases found : outlet name' with
      | some o => rfl
      | none =>
        refine if_neg fun same => ?_
        obtain ⟨o, found'⟩ := F.outlet_of_mem known
        rw [← same, found] at found'
        cases found'
    rw [same, kept]
    exact F
  · have absent : r.find? name = none := by
      rw [F.find?, F.outlet_of_not_mem known]
      rfl
    have added : r.obtain name =
        { r.put name r.fresh with cached := r.cached ++ [name] } := by
      simp [Registry.obtain, known, absent, Registry.put]
    rw [added]
    have unset : outlet name = none := F.outlet_of_not_mem known
    have fresh : r.fresh = Outlet.standard.logger level := by
      rw [← F.defaultLevel]
      rfl
    refine ⟨Registry.defaultLevel_put.trans F.defaultLevel, fun name' => ?_, fun name' => ?_, ?_,
      fun name' mem => ?_⟩
    · show (r.put name r.fresh).find? name' = _
      rw [Registry.find?_put, F.find?, fresh]
      by_cases same : name' = name
      · simp [same, unset]
      · cases outlet name' <;> simp [same]
    · show name' ∈ r.cached ++ [name] ↔ _
      rw [List.mem_append, List.mem_singleton, F.cached name']
      by_cases same : name' = name
      · simp [same, unset]
      · cases outlet name' <;> simp [same]
    · rw [List.nodup_append]
      refine ⟨F.nodup, by simp, fun a mem b mem' same => ?_⟩
      obtain rfl := List.mem_singleton.1 mem'
      exact known (same ▸ mem)
    · rcases List.mem_append.1 mem with mem | mem
      · exact F.qualified name' mem
      · obtain rfl := List.mem_singleton.1 mem
        exact qualified

/-- All loggers changed alike. -/
theorem mapCached (F : r.Follows level outlet) {f : Logger → Logger} {g : Outlet → Outlet}
    (changed : ∀ o : Outlet, f (o.logger level) = (g o).logger level') :
    Registry.Follows { r.mapCached f with defaultLevel := level' } level'
      fun name => (outlet name).map g := by
  refine ⟨rfl, fun name => ?_, fun name => ?_, F.nodup, F.qualified⟩
  · show (r.mapCached f).find? name = _
    rw [Registry.find?_mapCached, F.find?]
    split
    · next mem =>
      obtain ⟨o, found⟩ := F.outlet_of_mem mem
      simp [found, changed]
    · next absent => simp [F.outlet_of_not_mem absent]
  · rw [Option.isSome_map]
    exact F.cached name

/-- A call that changes all loggers alike. -/
theorem perform_change (F : r.Follows level outlet) {call : Call} {f : Logger → Logger}
    (performed : call.perform r =
      .ok (ε := Fault φ) () { r.mapCached f with defaultLevel := level' })
    (wired : ∀ o : Outlet, f (o.logger level) = (call.outlet?.getD o).logger level')
    (asked : call.level? = some level') (silent : ∀ name, call.requests name = false) :
    ∃ r', call.perform r = .ok (ε := Fault φ) () r' ∧
      r'.Follows (call.level?.getD level) fun name => call.outletAfter name (outlet name) := by
  have outlets : (fun name => call.outletAfter name (outlet name)) =
      fun name => (outlet name).map call.outlet?.getD := by
    funext name
    cases outlet name with
    | some o => rfl
    | none => exact if_neg (by simp [silent])
  refine ⟨_, performed, ?_⟩
  rw [outlets, asked]
  exact F.mapCached wired

/-- One call: the level and the outlets are those that the call leaves. -/
theorem perform (F : r.Follows level outlet) {call : Call} (valid : call.Valid) :
    ∃ r', call.perform r = .ok (ε := Fault φ) () r' ∧
      r'.Follows (call.level?.getD level) fun name => call.outletAfter name (outlet name) := by
  cases call with
  | get name =>
    refine ⟨r.get name, Call.perform_get name, ?_⟩
    have after := F.obtain (qualifiedName_idem name)
    have outlets : (fun name' => (Call.get name).outletAfter name' (outlet name')) =
        fun name' => match outlet name' with
          | some o => some o
          | none => if name' = qualifiedName name then some .standard else none := by
      funext name'
      cases outlet name' with
      | some o => rfl
      | none => simp [Call.outletAfter, Call.requests]
    rw [outlets]
    exact after
  | setLevel choice =>
    obtain ⟨level', asked⟩ := Option.isSome_iff_exists.1 valid
    refine F.perform_change (f := fun logger => logger.withLevel level') ?_ (fun o => rfl) asked
      fun name => rfl
    rw [Call.perform_setLevel, Registry.setLevel, LevelChoice.toLevel_of_level? asked]
    rfl
  | configure choice layout stream =>
    obtain ⟨valid, hasField⟩ := valid
    obtain ⟨level', asked⟩ := Option.isSome_iff_exists.1 valid
    have parsed : Format.parse (α := φ) (layoutText layout) =
        .ok ⟨Format.read .text (layoutText layout).toList⟩ := if_pos hasField
    refine F.perform_change (f := fun logger => { logger with
      level := level'
      handlers := [⟨level', stream, ⟨Format.read .text (layoutText layout).toList⟩⟩] }) ?_
      (fun o => rfl) asked fun name => rfl
    rw [Call.perform_configure, Registry.configure_eq, parsed,
      LevelChoice.toLevel_of_level? asked]
    rfl

end Registry.Follows

theorem cached_initial : Registry.initial.cached = [solverName, controllerName] := by
  decide

theorem initial_follows :
    Registry.initial.Follows (lastLevel []) fun name => (heard name []).map lastOutlet := by
  have empty : Registry.Follows { defaultLevel := Level.warning, loggers := [], cached := [] }
      Level.warning fun _ => none :=
    ⟨rfl, fun name => rfl, fun name => by simp, List.nodup_nil, fun name mem => by cases mem⟩
  have solver : qualifiedName (some solverName) = solverName := by decide
  have controller : qualifiedName (some controllerName) = controllerName := by decide
  have outlets : (fun name => (heard name []).map lastOutlet) = fun name =>
      match (match (none : Option Outlet) with
        | some o => some o
        | none => if name = solverName then some .standard else none) with
      | some o => some o
      | none => if name = controllerName then some .standard else none := by
    funext name
    unfold heard
    rw [cached_initial]
    by_cases first : name = solverName
    · simp [first]
      rfl
    · by_cases second : name = controllerName <;> simp [first, second, since]
      rfl
  rw [outlets]
  exact (empty.obtain solver).obtain controller

namespace Call

theorem performAll_concat {φ : Type} {calls : List Call} {call : Call} {r r' r'' : Registry}
    (performed : performAll calls r = .ok (ε := Fault φ) () r')
    (performed' : call.perform r' = .ok (ε := Fault φ) () r'') :
    performAll (calls ++ [call]) r = .ok (ε := Fault φ) () r'' := by
  show (forM (calls ++ [call]) perform : EStateM (Fault φ) Registry Unit) r = _
  rw [List.forM_append]
  exact bind_eq_ok.2 ⟨(), r', performed, bind_eq_ok.2 ⟨(), r'', performed', rfl⟩⟩

end Call

/-- A history of valid calls is carried out in full. -/
theorem exists_performAll {φ : Type} {calls : List Call} (valid : ∀ call ∈ calls, call.Valid) :
    ∃ r, Call.performAll calls Registry.initial = .ok (ε := Fault φ) () r ∧
      r.Follows (lastLevel calls) fun name => (heard name calls).map lastOutlet := by
  induction calls using List.reverseRecOn with
  | nil => exact ⟨_, rfl, initial_follows⟩
  | append_singleton calls call ih =>
    obtain ⟨r, performed, follows⟩ := ih fun call mem => valid call (List.mem_append_left _ mem)
    obtain ⟨r', performed', follows'⟩ := follows.perform (φ := φ) (valid call (by simp))
    refine ⟨r', Call.performAll_concat performed performed', ?_⟩
    simp only [outlet_concat, lastLevel_concat]
    exact follows'

/-! ## What holds of all loggers -/

/-- Loggers with full names, one handler each and no way up, and one level everywhere. -/
structure Registry.Uniform (r : Registry) (level : Level) : Prop where
  /-- Loggers that are set up later get the same level. -/
  defaultLevel : r.defaultLevel = level
  /-- No name is cached twice. -/
  nodup : r.cached.Nodup
  /-- Loggers are cached under names with the common first part. -/
  named : ∀ name ∈ r.cached, name = rootName ∨ (rootName ++ ".").toList <+: name.toList
  /-- A cached logger has one handler, and both have the level; messages go no further. -/
  logger : ∀ name ∈ r.cached, ∃ logger handler, r.find? name = some logger ∧
    logger.handlers = [handler] ∧ logger.propagate = false ∧ logger.level = level ∧
    handler.level = level

/-- The cache holds the names that were there at first and those asked for since. -/
theorem Registry.Follows.cached_iff {r : Registry} {level : Level} {calls : List Call}
    (F : r.Follows level fun name => (heard name calls).map lastOutlet) (name : String) :
    name ∈ r.cached ↔ (heard name calls).isSome := by
  rw [F.cached, Option.isSome_map]

theorem Registry.Follows.uniform {r : Registry} {level : Level} {outlet : String → Option Outlet}
    (F : r.Follows level outlet) : r.Uniform level := by
  refine ⟨F.defaultLevel, F.nodup, fun name mem => ?_, fun name mem => ?_⟩
  · have qualified := qualified_qualifiedName (some name)
    rw [F.qualified name mem] at qualified
    exact qualified.imp_right List.isPrefixOf_iff_prefix.1
  · obtain ⟨o, found⟩ := F.outlet_of_mem mem
    refine ⟨o.logger level, ⟨level, o.stream, o.format⟩, ?_, rfl, rfl, rfl, rfl⟩
    rw [F.find?, found]
    rfl

/--
After any valid calls the cached loggers are those there were at first and those asked for since.
Every one has its full name, one handler and the level that was set last, and so have loggers that
are set up later. A full name stays as it is, so that the logger of a cached name is given out again
and nothing changes; and nothing changes where a layout is refused.
-/
theorem loggers_uniform {φ : Type} {calls : List Call} (valid : ∀ call ∈ calls, call.Valid) :
    ∃ r, Call.performAll calls Registry.initial = .ok (ε := Fault φ) () r ∧
      (∀ name, name ∈ r.cached ↔ (heard name calls).isSome) ∧
      r.Uniform (lastLevel calls) ∧
      (∀ name, qualifiedName (some (qualifiedName name)) = qualifiedName name) ∧
      (∀ name ∈ r.cached, Call.request (some name) r = .ok (ε := Fault φ) name r) ∧
      ∀ choice layout stream, Format.hasField (layoutText layout).toList = false →
        (Call.configure choice layout stream).perform r = .error (Fault.logFormat (α := φ)) r := by
  obtain ⟨r, performed, follows⟩ := exists_performAll (φ := φ) valid
  refine ⟨r, performed, follows.cached_iff, follows.uniform, qualifiedName_idem,
    fun name mem => ?_, fun choice layout stream refused => ?_⟩
  · have given : Call.request (some name) r =
        .ok (ε := Fault φ) (qualifiedName (some name)) (r.get (some name)) := rfl
    have same : r.get (some name) = r := by
      unfold Registry.get Registry.obtain
      rw [follows.qualified name mem]
      simp [mem]
    rw [given, same, follows.qualified name mem]
  · have unread : Format.parse (α := φ) (layoutText layout) = .error .logFormat := by
      unfold Format.parse
      rw [refused]
      rfl
    rw [Call.perform_configure, Registry.configure_eq, unread]
    rfl

/-- A history with an early and a late logger, a layout and a level of its own. -/
theorem loggers_uniform_late :
    (∀ call ∈ [Call.get (some "a"), .configure (.named "Debug") (some "%(message)s") (.caller 1),
      .get (some "tronopt.b"), .setLevel (.number 25)], call.Valid) ∧
    ∃ r, Call.performAll [.get (some "a"),
        .configure (.named "Debug") (some "%(message)s") (.caller 1),
        .get (some "tronopt.b"), .setLevel (.number 25)] Registry.initial =
          .ok (ε := Fault Empty) () r ∧
      "tronopt.a" ∈ r.cached ∧ "tronopt.b" ∈ r.cached ∧ r.Uniform 25 ∧
      (∀ name ∈ r.cached, Call.request (some name) r = .ok (ε := Fault Empty) name r) ∧
      (Call.configure (.number 10) (some "%(message") .buffer).perform r =
        .error (Fault.logFormat (α := Empty)) r := by
  have valid : ∀ call ∈ [Call.get (some "a"),
      .configure (.named "Debug") (some "%(message)s") (.caller 1),
      .get (some "tronopt.b"), .setLevel (.number 25)], call.Valid := by decide
  obtain ⟨r, performed, cached, uniform, -, given, refused⟩ := loggers_uniform (φ := Empty) valid
  refine ⟨valid, r, performed, ?_, ?_, uniform, given, refused _ (some "%(message") _ (by decide)⟩
  · rw [cached]
    decide
  · rw [cached]
    decide

end Logging

end TrustRegion
