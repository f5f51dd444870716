/-
  Calls that change loggers where they are.

  A call goes through the cached loggers one after the other and takes their handlers off one by
  one. What it leaves is the same as if all cached loggers were changed at once (`perform_setLevel`,
  `perform_configure`), and where it is refused it has not changed anything: the layout and the
  level are read before the first logger is touched. Beside that the module has what the operations
  on a registry do to the logger of a name, and that a full name stays as it is
  (`qualifiedName_idem`).
-/
import TrustRegion.Logging.Calls
import TrustRegion.Proofs.Turn

namespace TrustRegion

namespace Logging

/-! ## Names -/

theorem qualifiedName_of_qualified {name : String}
    (qualified : name = rootName ∨ (rootName ++ ".").toList.isPrefixOf name.toList) :
    qualifiedName (some name) = name :=
  if_pos qualified

/-- The full name of a logger is under the common first part. -/
theorem qualified_qualifiedName (name : Option String) :
    qualifiedName name = rootName ∨
      (rootName ++ ".").toList.isPrefixOf (qualifiedName name).toList = true := by
  unfold qualifiedName
  cases name with
  | none => exact Or.inl rfl
  | some name =>
    dsimp only
    split
    · next qualified => exact qualified
    · have split : (rootName ++ "." ++ name).toList = (rootName ++ ".").toList ++ name.toList :=
        String.toList_append
      rw [List.isPrefixOf_iff_prefix, split]
      exact Or.inr (List.prefix_append _ _)

theorem qualifiedName_idem (name : Option String) :
    qualifiedName (some (qualifiedName name)) = qualifiedName name :=
  qualifiedName_of_qualified (qualified_qualifiedName name)

/-! ## Loggers in place -/

theorem foldl_erase_self {α : Type} [BEq α] [LawfulBEq α] (xs : List α) :
    xs.foldl List.erase xs = [] := by
  induction xs with
  | nil => rfl
  | cons x xs ih =>
    rw [List.foldl_cons, List.erase_cons_head]
    exact ih

/-- Taking all handlers off one by one leaves the new one alone. -/
theorem Logger.rewired_eq (logger : Logger) (level : Level) (handler : Handler) :
    logger.rewired level handler = { logger with level, handlers := [handler] } := by
  unfold rewired
  rw [foldl_erase_self]
  rfl

theorem lookup_map_if (p : String → Bool) (f : Logger → Logger) (entries : List (String × Logger))
    (name : String) :
    (entries.map fun entry => if p entry.1 then (entry.1, f entry.2) else entry).lookup name =
      if p name then (entries.lookup name).map f else entries.lookup name := by
  induction entries with
  | nil => simp
  | cons entry entries ih =>
    obtain ⟨key, logger⟩ := entry
    rw [List.map_cons, List.lookup_cons]
    by_cases same : name = key
    · subst same
      by_cases chosen : p name <;> simp [chosen]
    · have different : (name == key) = false := beq_eq_false_iff_ne.2 same
      by_cases chosen : p key <;> simp [chosen, List.lookup_cons, different, ih]

namespace Registry

variable {r : Registry} {name name' : String} {logger : Logger} {f : Logger → Logger}

theorem find?_mapCached : (r.mapCached f).find? name =
    if name ∈ r.cached then (r.find? name).map f else r.find? name := by
  unfold find? mapCached
  rw [lookup_map_if fun key => r.cached.contains key]
  simp

theorem find?_put : (r.put name logger).find? name' =
    if name' = name then some logger else r.find? name' := by
  unfold put
  split
  · next found =>
    have replaced : (fun entry : String × Logger =>
        if entry.1 = name then (name, logger) else entry) =
        fun entry => if decide (entry.1 = name) then (entry.1, logger) else entry := by
      funext entry
      by_cases same : entry.1 = name <;> simp [same]
    unfold find? at found ⊢
    dsimp only
    rw [replaced, lookup_map_if (fun key => decide (key = name)) fun _ => logger]
    by_cases same : name' = name
    · obtain ⟨old, found⟩ := Option.isSome_iff_exists.1 found
      simp [same, found]
    · simp [same]
  · next absent =>
    rw [Option.not_isSome_iff_eq_none] at absent
    unfold find? at absent ⊢
    rw [List.lookup_append]
    by_cases same : name' = name
    · simp [same, absent]
    · have different : (name' == name) = false := beq_eq_false_iff_ne.2 same
      simp [same, List.lookup_cons, different]

theorem defaultLevel_put : (r.put name logger).defaultLevel = r.defaultLevel := by
  unfold put
  split <;> rfl

/-- Changing the loggers of some names one after another changes them all at once. -/
theorem foldl_change (idem : ∀ logger, f (f logger) = f logger) (names : List String) :
    names.foldl (fun r name => r.change name f) r =
      { r with loggers := r.loggers.map fun entry =>
          if names.contains entry.1 then (entry.1, f entry.2) else entry } := by
  induction names generalizing r with
  | nil => simp
  | cons name names ih =>
    rw [List.foldl_cons, ih]
    unfold change
    dsimp only
    rw [List.map_map]
    congr 1
    refine List.map_congr_left fun entry _ => ?_
    obtain ⟨key, logger⟩ := entry
    by_cases same : key = name
    · by_cases later : name ∈ names <;> simp [same, later, idem]
    · simp [same]

theorem configure_eq {φ : Type} (choice : LevelChoice) (layout : Option String) (stream : Stream) :
    r.configure choice layout stream = (do
      let format ← Format.parse (α := φ) (layoutText layout)
      let level ← choice.toLevel
      let changed := r.mapCached fun logger =>
        { logger with level, handlers := [⟨level, stream, format⟩] }
      pure { changed with defaultLevel := level }) := rfl

end Registry

/-! ## Calls in place -/

namespace Call

variable {φ : Type} {r : Registry} {f : Logger → Logger}

theorem changeEach_apply (idem : ∀ logger, f (f logger) = f logger) :
    (changeEach f : EStateM (Fault φ) Registry Unit) r = .ok () (r.mapCached f) := by
  have run (names : List String) (r : Registry) :
      (names.forM fun name => modify fun r => r.change name f : EStateM (Fault φ) Registry Unit) r =
        .ok () (names.foldl (fun r name => r.change name f) r) := by
    induction names generalizing r with
    | nil => rfl
    | cons name names ih => exact ih (r.change name f)
  have each := run r.cached r
  rw [Registry.foldl_change idem] at each
  exact each

/-- What a call comes to, with the registry it leaves. -/
def outcome (r : Registry) : Except (Fault φ) Registry → EStateM.Result (Fault φ) Registry Unit
  | .ok r' => .ok () r'
  | .error fault => .error fault r

theorem perform_get (name : Option String) :
    (get name).perform r = outcome (φ := φ) r (.ok (r.get name)) := rfl

theorem changeEach_setDefault (idem : ∀ logger, f (f logger) = f logger) (level : Level) :
    (do changeEach f; setDefault level : EStateM (Fault φ) Registry Unit) r =
      .ok () { r.mapCached f with defaultLevel := level } :=
  bind_eq_ok.2 ⟨(), _, changeEach_apply idem, rfl⟩

theorem perform_setLevel (choice : LevelChoice) :
    (setLevel choice).perform r = outcome (φ := φ) r (r.setLevel choice) := by
  rw [perform, Registry.setLevel]
  cases choice.toLevel (φ := φ) with
  | error fault => rfl
  | ok level =>
    have idem (logger : Logger) :
        (logger.withLevel level).withLevel level = logger.withLevel level := by
      simp [Logger.withLevel]
    exact changeEach_setDefault idem level

theorem perform_configure (choice : LevelChoice) (layout : Option String) (stream : Stream) :
    (configure choice layout stream).perform r =
      outcome (φ := φ) r (r.configure choice layout stream) := by
  rw [perform, Registry.configure_eq]
  cases Format.parse (α := φ) (layoutText layout) with
  | error fault => rfl
  | ok format =>
    cases choice.toLevel (φ := φ) with
    | error fault => rfl
    | ok level =>
      have rewired : (fun logger : Logger => logger.rewired level ⟨level, stream, format⟩) =
          fun logger => { logger with level, handlers := [⟨level, stream, format⟩] } := by
        funext logger
        exact logger.rewired_eq level _
      have idem (logger : Logger) : (logger.rewired level ⟨level, stream, format⟩).rewired level
          ⟨level, stream, format⟩ = logger.rewired level ⟨level, stream, format⟩ := by
        rw [Logger.rewired_eq, Logger.rewired_eq]
      refine (changeEach_setDefault idem level).trans ?_
      rw [rewired]
      rfl

end Call

end Logging

end TrustRegion
