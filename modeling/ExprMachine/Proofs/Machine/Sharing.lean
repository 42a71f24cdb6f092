/-
  ExprMachine.Proofs.Machine.Sharing

  Machines over shared registries do not disturb each other. Each machine has the
  overloads of the registry that it was built over, followed by those registered on it;
  the shared registries stay as they are. What carries this is that the place of a
  machine's own registry is neither shared nor that of another machine (`Apart`).
-/
import ExprMachine.Machine.Sharing
import ExprMachine.Proofs.Machine.Registration

namespace ExprMachine

/-- Whether a machine has a registry of its own. -/
def Holding.isOwned : Holding → Bool
  | .borrowed _ => false
  | .owned _ => true

/-- Whether a place is one of the shared ones if it is borrowed, and one of the others if
    not. -/
def Holding.Fits (shared total : Nat) : Holding → Prop
  | .borrowed place => place < shared
  | .owned place => shared ≤ place ∧ place < total

theorem Holding.exists_owned {holding : Holding} (h : holding.isOwned = true) :
    ∃ place, holding = .owned place := by
  cases holding with
  | borrowed place => cases h
  | owned place => exact ⟨place, rfl⟩

theorem Holding.Fits.mono {shared total more : Nat} {holding : Holding}
    (h : holding.Fits shared total) (le : total ≤ more) : holding.Fits shared more := by
  cases holding with
  | borrowed place => exact h
  | owned place => exact ⟨h.1, Nat.lt_of_lt_of_le h.2 le⟩

namespace Workshop

-- ============================================================================
-- Registrations on one machine
-- ============================================================================

/-- What an action registers on a machine. -/
def Action.registrations (index : Nat) : Action → List (String × Overload)
  | .register other symbol overload => if other = index then [(symbol, overload)] else []
  | .build .. | .buildBare .. => []

/-- What some actions register on a machine, in their order. -/
def registrations (index : Nat) (actions : List Action) : List (String × Overload) :=
  actions.flatMap (Action.registrations index)

theorem registrations_cons (index : Nat) (action : Action) (actions : List Action) :
    registrations index (action :: actions) =
      action.registrations index ++ registrations index actions :=
  List.flatMap_cons

-- ============================================================================
-- The invariant
-- ============================================================================

/-- Whether every registry of a machine's own is in a place of its own. -/
structure Apart (workshop : Workshop) : Prop where
  shared_le : workshop.shared ≤ workshop.registries.length
  fits : ∀ {index : Nat} {runner : Runner}, workshop.runners[index]? = some runner →
    runner.holding.Fits workshop.shared workshop.registries.length
  alone : ∀ {index other place : Nat} {first second : Runner},
    workshop.runners[index]? = some first → workshop.runners[other]? = some second →
      first.holding = .owned place → second.holding = .owned place → index = other

theorem apart_start (registries : List Registry) : (start registries).Apart where
  shared_le := Nat.le_refl _
  fits h := nomatch h
  alone h := nomatch h

variable {workshop : Workshop} {index place : Nat} {runner : Runner} {host : Host}

/-- A machine's place is one of the registries. -/
theorem Apart.place_lt (apart : workshop.Apart) (h : workshop.runners[index]? = some runner) :
    runner.holding.place < workshop.registries.length := by
  have fits := apart.fits h
  cases hholding : runner.holding with
  | borrowed place =>
    rw [hholding] at fits
    exact Nat.lt_of_lt_of_le fits apart.shared_le
  | owned place =>
    rw [hholding] at fits
    exact fits.2

/-- No machine uses the place that belongs to another. -/
theorem Apart.place_ne (apart : workshop.Apart) {other : Nat} {second : Runner}
    (h : workshop.runners[index]? = some runner) (hother : workshop.runners[other]? = some second)
    (different : other ≠ index) (owned : runner.holding = .owned place) :
    place ≠ second.holding.place := by
  have fits := apart.fits h
  have fitsOther := apart.fits hother
  rw [owned] at fits
  cases hholding : second.holding with
  | borrowed shared =>
    rw [hholding] at fitsOther
    exact Nat.ne_of_gt (Nat.lt_of_lt_of_le fitsOther fits.1)
  | owned more =>
    rintro rfl
    exact different (apart.alone hother h hholding owned)

-- ============================================================================
-- Registries in their places
-- ============================================================================

/-- One more registry changes none of those before. -/
theorem registryAt_concat {later : Workshop} {registry : Registry}
    (h : later.registries = workshop.registries ++ [registry])
    (lt : place < workshop.registries.length) :
    later.registryAt place = workshop.registryAt place := by
  rw [registryAt, registryAt, h, List.getElem?_append_left lt]

theorem registryAt_last {later : Workshop} {registry : Registry}
    (h : later.registries = workshop.registries ++ [registry]) :
    later.registryAt workshop.registries.length = registry := by
  rw [registryAt, h, List.getElem?_concat_length, Option.getD_some]

-- ============================================================================
-- New machines
-- ============================================================================

/-- A machine of a longer list is one of those before, or the last. -/
theorem cases_of_concat {runners : List Runner} {new : Runner}
    (h : (runners ++ [new])[index]? = some runner) :
    runners[index]? = some runner ∨ index = runners.length ∧ runner = new := by
  by_cases before : index < runners.length
  · rw [List.getElem?_append_left before] at h
    exact .inl h
  · obtain ⟨lt, -⟩ := List.getElem?_eq_some_iff.1 h
    rw [List.length_append, List.length_singleton] at lt
    have last : index = runners.length := by omega
    rw [last, List.getElem?_concat_length] at h
    exact .inr ⟨last, (Option.some.inj h).symm⟩

theorem Apart.build (apart : workshop.Apart) (place : Nat) (chunk : Chunk) (environment : Value) :
    (workshop.build place chunk environment).Apart := by
  rw [Workshop.build]
  split
  · rename_i isShared
    refine ⟨apart.shared_le, fun h => ?_, fun h hother owned owned' => ?_⟩
    · rcases cases_of_concat h with h | ⟨-, rfl⟩
      · exact apart.fits h
      · exact isShared
    · -- The new machine owns nothing.
      rcases cases_of_concat h with h | ⟨-, rfl⟩
      · rcases cases_of_concat hother with hother | ⟨-, rfl⟩
        · exact apart.alone h hother owned owned'
        · cases owned'
      · cases owned
  · exact apart

theorem Apart.buildBare (apart : workshop.Apart) (chunk : Chunk) (environment : Value) :
    (workshop.buildBare chunk environment).Apart := by
  have longer : (workshop.registries ++ [Registry.empty]).length =
      workshop.registries.length + 1 := List.length_append
  have shared_le := apart.shared_le
  refine ⟨?_, fun {index runner} h => ?_,
    fun {index other place first second} h hother owned owned' => ?_⟩
  · show workshop.shared ≤ (workshop.registries ++ [Registry.empty]).length
    omega
  · show runner.holding.Fits workshop.shared (workshop.registries ++ [Registry.empty]).length
    rcases cases_of_concat h with h | ⟨-, rfl⟩
    · exact (apart.fits h).mono (by omega)
    · exact ⟨shared_le, by omega⟩
  · -- The new place comes after those of the machines before.
    rcases cases_of_concat h with h | ⟨hindex, rfl⟩
    · rcases cases_of_concat hother with hother | ⟨-, rfl⟩
      · exact apart.alone h hother owned owned'
      · have lt := apart.place_lt h
        cases owned'
        rw [owned] at lt
        exact absurd lt (Nat.lt_irrefl _)
    · rcases cases_of_concat hother with hother | ⟨hindex', -⟩
      · have lt := apart.place_lt hother
        cases owned
        rw [owned'] at lt
        exact absurd lt (Nat.lt_irrefl _)
      · rw [hindex, hindex']

-- ============================================================================
-- Owning a registry
-- ============================================================================

/-- What it is for a machine to own a registry, with the same overloads as before, where
    nothing else has changed. -/
structure Owns (workshop : Workshop) (index : Nat) (runner : Runner) (later : Workshop)
    (place : Nat) : Prop where
  apart : later.Apart
  shared_eq : later.shared = workshop.shared
  self : later.runners[index]? = some { runner with holding := .owned place }
  others : ∀ other, other ≠ index → later.runners[other]? = workshop.runners[other]?
  same : later.registryAt place = workshop.registryAt runner.holding.place
  kept : ∀ other, other < workshop.registries.length →
    later.registryAt other = workshop.registryAt other

/-- A machine can move to a place that no registry had before. -/
theorem Apart.move (apart : workshop.Apart) {later : Workshop} {registry : Registry}
    {moved : Runner} (hshared : later.shared = workshop.shared)
    (hregistries : later.registries = workshop.registries ++ [registry])
    (hself : later.runners[index]? = some moved)
    (howned : moved.holding = .owned workshop.registries.length)
    (hothers : ∀ other, other ≠ index → later.runners[other]? = workshop.runners[other]?) :
    later.Apart := by
  have longer : later.registries.length = workshop.registries.length + 1 := by
    rw [hregistries, List.length_append, List.length_singleton]
  have shared_le := apart.shared_le
  have place_of_self : ∀ {runner : Runner} {place : Nat}, later.runners[index]? = some runner →
      runner.holding = .owned place → place = workshop.registries.length := by
    intro runner place h owned
    cases hself.symm.trans h
    exact Holding.owned.inj (owned.symm.trans howned)
  have place_of_other : ∀ {other place : Nat} {runner : Runner}, other ≠ index →
      later.runners[other]? = some runner → runner.holding = .owned place →
        place < workshop.registries.length := by
    intro other place runner different h owned
    rw [hothers other different] at h
    have lt := apart.place_lt h
    rwa [owned] at lt
  refine ⟨by omega, fun {other runner} h => ?_,
    fun {first second place a b} h h' owned owned' => ?_⟩
  · by_cases same : other = index
    · rw [same, hself] at h
      cases h
      rw [howned]
      exact ⟨by omega, by omega⟩
    · rw [hothers other same] at h
      rw [hshared]
      exact (apart.fits h).mono (by omega)
  · by_cases same : first = index
    · by_cases same' : second = index
      · rw [same, same']
      · have place_eq := place_of_self (same ▸ h) owned
        have place_lt := place_of_other same' h' owned'
        omega
    · by_cases same' : second = index
      · have place_eq := place_of_self (same' ▸ h') owned'
        have place_lt := place_of_other same h owned
        omega
      · rw [hothers first same] at h
        rw [hothers second same'] at h'
        exact apart.alone h h' owned owned'

theorem owns_own (apart : workshop.Apart) (h : workshop.runners[index]? = some runner) :
    Owns workshop index runner (workshop.own index runner).1 (workshop.own index runner).2 := by
  obtain ⟨chunk, environment, holding⟩ := runner
  cases holding with
  | owned place => exact ⟨apart, rfl, h, fun _ _ => rfl, rfl, fun _ _ => rfl⟩
  | borrowed place =>
    obtain ⟨lt, -⟩ := List.getElem?_eq_some_iff.1 h
    have self : (workshop.own index ⟨chunk, environment, .borrowed place⟩).1.runners[index]? =
        some ⟨chunk, environment, .owned workshop.registries.length⟩ :=
      List.getElem?_set_self lt
    have others : ∀ other, other ≠ index →
        (workshop.own index ⟨chunk, environment, .borrowed place⟩).1.runners[other]? =
          workshop.runners[other]? :=
      fun other different => List.getElem?_set_ne different.symm
    exact ⟨apart.move rfl rfl self rfl others, rfl, self, others, registryAt_last rfl,
      fun other hother => registryAt_concat rfl hother⟩

-- ============================================================================
-- Registering
-- ============================================================================

/-- A registry in another place is not touched. -/
theorem registryAt_modify_ne {later : Workshop} {change : Registry → Registry} {other : Nat}
    (h : later.registries = workshop.registries.modify place change) (different : place ≠ other) :
    later.registryAt other = workshop.registryAt other := by
  rw [registryAt, registryAt, h, List.getElem?_modify_ne change _ different]

theorem registryAt_modify_self {later : Workshop} {change : Registry → Registry}
    (h : later.registries = workshop.registries.modify place change)
    (lt : place < workshop.registries.length) :
    later.registryAt place = change (workshop.registryAt place) := by
  rw [registryAt, registryAt, h, List.getElem?_modify_eq, List.getElem?_eq_getElem lt]
  rfl

theorem Apart.modify (apart : workshop.Apart) (place : Nat) (change : Registry → Registry) :
    Apart { workshop with registries := workshop.registries.modify place change } := by
  have length : (workshop.registries.modify place change).length = workshop.registries.length :=
    List.length_modify ..
  refine ⟨?_, fun {index runner} h => ?_, apart.alone⟩
  · show workshop.shared ≤ (workshop.registries.modify place change).length
    rw [length]
    exact apart.shared_le
  · show runner.holding.Fits workshop.shared (workshop.registries.modify place change).length
    rw [length]
    exact apart.fits h

/-- What it is for a machine to have registered an overload, where nothing else has
    changed. -/
structure Registers (workshop : Workshop) (index : Nat) (runner : Runner) (symbol : String)
    (overload : Overload) (later : Workshop) : Prop where
  apart : later.Apart
  shared_eq : later.shared = workshop.shared
  registry_eq : ∀ place, place < workshop.shared →
    later.registryAt place = workshop.registryAt place
  self : ∃ place, later.runners[index]? = some { runner with holding := .owned place } ∧
    later.registryAt place =
      (workshop.registryAt runner.holding.place).register symbol overload
  others : ∀ other, other ≠ index → later.runners[other]? = workshop.runners[other]? ∧
    ∀ second, workshop.runners[other]? = some second →
      later.registryAt second.holding.place = workshop.registryAt second.holding.place

theorem registers_register (apart : workshop.Apart)
    (h : workshop.runners[index]? = some runner) (symbol : String) (overload : Overload) :
    Registers workshop index runner symbol overload (workshop.register index symbol overload) := by
  have owns := owns_own apart h
  generalize howner : workshop.own index runner = owner at owns
  obtain ⟨middle, place⟩ := owner
  have later : workshop.register index symbol overload =
      { middle with
        registries := middle.registries.modify place (·.register symbol overload) } := by
    rw [register, h]
    simp only [howner]
  rw [later]
  have place_lt : place < middle.registries.length := owns.apart.place_lt owns.self
  have shared_le : workshop.shared ≤ place := owns.shared_eq ▸ (owns.apart.fits owns.self).1
  refine ⟨owns.apart.modify _ _, owns.shared_eq, fun shared hshared => ?_,
    ⟨place, owns.self, ?_⟩, fun other different => ⟨owns.others other different, ?_⟩⟩
  · have lt : shared < workshop.registries.length := Nat.lt_of_lt_of_le hshared apart.shared_le
    rw [registryAt_modify_ne rfl (show place ≠ shared by omega)]
    exact owns.kept shared lt
  · rw [registryAt_modify_self rfl place_lt]
    exact congrArg (·.register symbol overload) owns.same
  · intro second hsecond
    have hmiddle : middle.runners[other]? = some second := by
      rw [owns.others other different, hsecond]
    rw [registryAt_modify_ne rfl (owns.apart.place_ne owns.self hmiddle different rfl)]
    exact owns.kept _ (apart.place_lt hsecond)

-- ============================================================================
-- One action
-- ============================================================================

theorem Apart.perform (apart : workshop.Apart) (action : Action) :
    (workshop.perform action).Apart := by
  cases action with
  | build place chunk environment => exact apart.build place chunk environment
  | buildBare chunk environment => exact apart.buildBare chunk environment
  | register index symbol overload =>
    cases h : workshop.runners[index]? with
    | none =>
      rw [Workshop.perform, register, h]
      exact apart
    | some runner => exact (registers_register apart h symbol overload).apart

theorem shared_perform (apart : workshop.Apart) (action : Action) :
    (workshop.perform action).shared = workshop.shared := by
  cases action with
  | build place chunk environment =>
    rw [perform, build]
    split <;> rfl
  | buildBare chunk environment => rfl
  | register index symbol overload =>
    cases h : workshop.runners[index]? with
    | none => rw [perform, register, h]
    | some runner => exact (registers_register apart h symbol overload).shared_eq

/-- No action changes a shared registry. -/
theorem registryAt_perform (apart : workshop.Apart) (action : Action)
    (hplace : place < workshop.shared) :
    (workshop.perform action).registryAt place = workshop.registryAt place := by
  cases action with
  | build other chunk environment =>
    rw [perform, build]
    split <;> rfl
  | buildBare chunk environment =>
    exact registryAt_concat rfl (Nat.lt_of_lt_of_le hplace apart.shared_le)
  | register index symbol overload =>
    cases h : workshop.runners[index]? with
    | none => rw [perform, register, h]
    | some runner => exact (registers_register apart h symbol overload).registry_eq place hplace

/-- What becomes of a machine in a later state of the workshop: its registry has got some
    overloads more, and it owns a registry if these are any or if it did before. -/
structure Continues (workshop : Workshop) (runner : Runner) (later : Workshop) (next : Runner)
    (added : List (String × Overload)) : Prop where
  chunk_eq : next.chunk = runner.chunk
  environment_eq : next.environment = runner.environment
  registry_eq : later.registryAt next.holding.place =
    (workshop.registryAt runner.holding.place).registerAll added
  holding_eq : added = [] → next.holding = runner.holding
  isOwned_eq : next.holding.isOwned = (runner.holding.isOwned || !added.isEmpty)

theorem Continues.runner_eq {later : Workshop} {next : Runner} {added : List (String × Overload)}
    (h : Continues workshop runner later next added) :
    next = ⟨runner.chunk, runner.environment, next.holding⟩ := by
  rw [← h.chunk_eq, ← h.environment_eq]

theorem Continues.of_same {later : Workshop}
    (h : later.registryAt runner.holding.place = workshop.registryAt runner.holding.place) :
    Continues workshop runner later runner [] :=
  ⟨rfl, rfl, h, fun _ => rfl, (Bool.or_false _).symm⟩

theorem Continues.trans {middle later : Workshop} {next last : Runner}
    {added more : List (String × Overload)} (first : Continues workshop runner middle next added)
    (second : Continues middle next later last more) :
    Continues workshop runner later last (added ++ more) where
  chunk_eq := second.chunk_eq.trans first.chunk_eq
  environment_eq := second.environment_eq.trans first.environment_eq
  registry_eq := by
    rw [second.registry_eq, first.registry_eq, Registry.registerAll, Registry.registerAll,
      Registry.registerAll, List.foldl_append]
  holding_eq none := by
    obtain ⟨hadded, hmore⟩ := List.append_eq_nil_iff.1 none
    rw [second.holding_eq hmore, first.holding_eq hadded]
  isOwned_eq := by
    rw [second.isOwned_eq, first.isOwned_eq, Bool.or_assoc]
    cases added <;> simp

/-- An action adds to the registry of a machine what it registers on the machine. -/
theorem runner_perform (apart : workshop.Apart) (action : Action)
    (h : workshop.runners[index]? = some runner) :
    ∃ next, (workshop.perform action).runners[index]? = some next ∧
      Continues workshop runner (workshop.perform action) next (action.registrations index) := by
  obtain ⟨lt, -⟩ := List.getElem?_eq_some_iff.1 h
  cases action with
  | build place chunk environment =>
    refine ⟨runner, ?_, .of_same ?_⟩
    · rw [perform, build]
      split
      · exact (List.getElem?_append_left lt).trans h
      · exact h
    · rw [perform, build]
      split <;> rfl
  | buildBare chunk environment =>
    exact ⟨runner, (List.getElem?_append_left lt).trans h,
      .of_same (registryAt_concat rfl (apart.place_lt h))⟩
  | register other symbol overload =>
    rw [Action.registrations]
    cases hother : workshop.runners[other]? with
    | none =>
      have different : other ≠ index := by
        rintro rfl
        rw [h] at hother
        cases hother
      rw [perform, register, hother, if_neg different]
      exact ⟨runner, h, .of_same rfl⟩
    | some second =>
      have registers := registers_register apart hother symbol overload
      by_cases same : other = index
      · subst same
        cases h.symm.trans hother
        obtain ⟨place, hself, hregistry⟩ := registers.self
        rw [if_pos rfl]
        exact ⟨_, hself, rfl, rfl, hregistry, fun none => absurd none (List.cons_ne_nil _ _),
          (Bool.or_true _).symm⟩
      · obtain ⟨hrunner, hregistry⟩ := registers.others index (Ne.symm same)
        rw [if_neg same]
        exact ⟨runner, hrunner.trans h, .of_same (hregistry runner h)⟩

-- ============================================================================
-- Some actions
-- ============================================================================

theorem performAll_cons (workshop : Workshop) (action : Action) (actions : List Action) :
    workshop.performAll (action :: actions) = (workshop.perform action).performAll actions := rfl

theorem performAll_append (workshop : Workshop) (actions more : List Action) :
    workshop.performAll (actions ++ more) = (workshop.performAll actions).performAll more :=
  List.foldl_append

theorem Apart.performAll (apart : workshop.Apart) (actions : List Action) :
    (workshop.performAll actions).Apart := by
  induction actions generalizing workshop with
  | nil => exact apart
  | cons action actions ih => exact ih (apart.perform action)

/-- No actions change a shared registry. -/
theorem registryAt_performAll (apart : workshop.Apart) (actions : List Action) :
    (workshop.performAll actions).shared = workshop.shared ∧
    ∀ place, place < workshop.shared →
      (workshop.performAll actions).registryAt place = workshop.registryAt place := by
  induction actions generalizing workshop with
  | nil => exact ⟨rfl, fun _ _ => rfl⟩
  | cons action actions ih =>
    obtain ⟨hshared, hregistry⟩ := ih (apart.perform action)
    have first := shared_perform apart action
    refine ⟨hshared.trans first, fun place hplace => ?_⟩
    calc (workshop.performAll (action :: actions)).registryAt place
        = (workshop.perform action).registryAt place := hregistry place (first ▸ hplace)
      _ = workshop.registryAt place := registryAt_perform apart action hplace

/-- Actions add to the registry of a machine what they register on the machine. -/
theorem runner_performAll (apart : workshop.Apart) (actions : List Action)
    (h : workshop.runners[index]? = some runner) :
    ∃ last, (workshop.performAll actions).runners[index]? = some last ∧
      Continues workshop runner (workshop.performAll actions) last
        (registrations index actions) := by
  induction actions generalizing workshop runner with
  | nil => exact ⟨runner, h, .of_same rfl⟩
  | cons action actions ih =>
    obtain ⟨next, hnext, continues⟩ := runner_perform apart action h
    obtain ⟨last, hlast, rest⟩ := ih (apart.perform action) hnext
    rw [registrations_cons]
    exact ⟨last, hlast, continues.trans rest⟩

-- ============================================================================
-- Machines over shared registries
-- ============================================================================

variable {registries : List Registry} {registry : Registry}

theorem shared_start (registries : List Registry) (actions : List Action) :
    ((start registries).performAll actions).shared = registries.length :=
  (registryAt_performAll (apart_start registries) actions).1

/-- Whatever is done in a workshop, its shared registries stay as they were. -/
theorem registryAt_start (h : registries[place]? = some registry) (actions : List Action) :
    ((start registries).performAll actions).registryAt place = registry := by
  obtain ⟨lt, -⟩ := List.getElem?_eq_some_iff.1 h
  rw [(registryAt_performAll (apart_start registries) actions).2 place lt, registryAt, start, h,
    Option.getD_some]

/-- A machine over a shared registry is ready as soon as it is built. -/
theorem runner_build (hplace : place < workshop.shared) (chunk : Chunk) (environment : Value) :
    (workshop.build place chunk environment).runners[workshop.runners.length]? =
        some ⟨chunk, environment, .borrowed place⟩ ∧
      (workshop.build place chunk environment).registryAt place = workshop.registryAt place := by
  rw [build, if_pos hplace]
  exact ⟨List.getElem?_concat_length, rfl⟩

/-- A machine that is built over a shared registry borrows it until something is registered
    on this machine, and has a registry of its own from then on. Either has the overloads of
    the shared one, and at the end what was registered on the machine. -/
theorem runner_of_build (h : registries[place]? = some registry) (before later : List Action)
    (chunk : Chunk) (environment : Value) :
    let index := ((start registries).performAll before).runners.length
    let workshop :=
      (start registries).performAll (before ++ .build place chunk environment :: later)
    ∃ holding, workshop.runners[index]? = some ⟨chunk, environment, holding⟩ ∧
      workshop.registryAt holding.place = registry.registerAll (registrations index later) ∧
      (registrations index later = [] → holding = .borrowed place) ∧
      (registrations index later ≠ [] →
        ∃ own, registries.length ≤ own ∧ holding = .owned own) := by
  intro index workshop
  have apart := (apart_start registries).performAll before
  have lt_shared : place < ((start registries).performAll before).shared := by
    rw [shared_start]
    exact (List.getElem?_eq_some_iff.1 h).1
  obtain ⟨hrunner, hregistry⟩ := runner_build lt_shared chunk environment
  obtain ⟨last, hlast, continues⟩ :=
    runner_performAll (apart.build place chunk environment) later hrunner
  have hworkshop : workshop =
      (((start registries).performAll before).build place chunk environment).performAll later := by
    rw [show workshop = _ from performAll_append _ _ _, performAll_cons, perform]
  rw [← hworkshop] at hlast continues
  have same : last = ⟨chunk, environment, last.holding⟩ := continues.runner_eq
  refine ⟨last.holding, same ▸ hlast, ?_, continues.holding_eq, fun some => ?_⟩
  · calc workshop.registryAt last.holding.place
        = ((((start registries).performAll before).build place chunk environment).registryAt
            place).registerAll _ := continues.registry_eq
      _ = registry.registerAll _ := by rw [hregistry, registryAt_start h before]
  · have nonempty : (registrations index later).isEmpty = false := by simpa using some
    have isOwned : last.holding.isOwned = true := by
      rw [continues.isOwned_eq, nonempty]
      rfl
    have fits := ((apart_start registries).performAll _).fits hlast
    rw [shared_start] at fits
    obtain ⟨own, howned⟩ := Holding.exists_owned isOwned
    rw [howned] at fits
    exact ⟨own, fits.1, howned⟩

end Workshop

open Registry Workshop in
/-- Of the overloads registered for a symbol and two kinds, by typed functions or not, the
    earliest is resolved, with a place that no later registration changes, and none just when
    none was registered. Machines over shared registries never change these, whatever is
    registered on the machines in whatever order: a machine has the overloads of the registry
    that it was built over, in front of those registered on it, and what it evaluates with is
    this history. It has a copy just when something was registered on it. -/
theorem Workshop.overloads_of_history :
    (∀ (first : Registry) (history : List (String × Overload)) (symbol : String)
        (left right : Kind),
      ((first.registerAll history).resolve? symbol left right = none ↔
        ∀ entry ∈ first.entries ++ history, ¬ Serves symbol left right entry) ∧
      ((first.registerAll history).position? symbol left right = none ↔
        (first.registerAll history).resolve? symbol left right = none) ∧
      ∀ before overload after, first.entries ++ history = before ++ (symbol, overload) :: after →
        Serves symbol left right (symbol, overload) →
        (∀ entry ∈ before, ¬ Serves symbol left right entry) →
        ∀ later,
          (first.registerAll (history ++ later)).resolve? symbol left right = some overload ∧
          (first.registerAll (history ++ later)).position? symbol left right =
            some (before.countP (·.1 == symbol))) ∧
    ∀ (registries : List Registry) (place : Nat) (registry : Registry) (before later : List Action)
        (chunk : Chunk) (environment : Value), registries[place]? = some registry →
      let index := ((start registries).performAll before).runners.length
      let added := registrations index later
      let workshop :=
        (start registries).performAll (before ++ .build place chunk environment :: later)
      (∀ other shared, registries[other]? = some shared → workshop.registryAt other = shared) ∧
      (∀ symbol, workshop.overloads? index symbol =
        some (registry.overloads symbol ++ (added.filter (·.1 == symbol)).map (·.2))) ∧
      (∀ host, workshop.run? host index =
        some (Machine.run ⟨host, registry.registerAll added, environment⟩ chunk)) ∧
      (added = [] → workshop.runners[index]? = some ⟨chunk, environment, .borrowed place⟩) ∧
      (added ≠ [] → ∃ own, registries.length ≤ own ∧
        workshop.runners[index]? = some ⟨chunk, environment, .owned own⟩) := by
  refine ⟨fun first history symbol left right => ⟨?_, position?_eq_none_iff, ?_⟩, ?_⟩
  · rw [resolve?_eq_none_iff, entries_registerAll]
  · intro before overload after split serves earliest later
    have longer : (first.registerAll (history ++ later)).entries =
        before ++ (symbol, overload) :: (after ++ later) := by
      rw [entries_registerAll, ← List.append_assoc, split, List.append_assoc, List.cons_append]
    exact ⟨resolve?_of_entries longer serves earliest, position?_of_entries longer serves earliest⟩
  · intro registries place registry before later chunk environment h index added workshop
    obtain ⟨holding, hrunner, hregistry, borrows, owns⟩ :=
      runner_of_build h before later chunk environment
    refine ⟨fun other shared hother => registryAt_start hother _, fun symbol => ?_,
      fun host => ?_, fun none => borrows none ▸ hrunner, fun some => ?_⟩
    · rw [overloads?, hrunner, Option.map_some, hregistry, overloads_registerAll]
    · rw [run?, prepared?, hrunner, Option.map_some, Option.map_some, hregistry]
    · obtain ⟨own, hown, rfl⟩ := owns some
      exact ⟨own, hown, hrunner⟩

open Registry Workshop in
/-- The second of three machines over a registry with one overload gets another for the same
    kinds. It has a copy with both, of which the first still counts. -/
theorem Workshop.overloads_of_history_second :
    let first : Overload := ⟨.int, .int, fun left _ => .ok left⟩
    let second : Overload := ⟨.int, .int, fun _ right => .ok right⟩
    let registry := Registry.empty.register "+" first
    let workshop := (start [registry]).performAll
      [.build 0 ⟨#[], #[]⟩ .nil, .build 0 ⟨#[], #[]⟩ .nil, .build 0 ⟨#[], #[]⟩ .nil,
        .register 1 "+" second]
    (registry.registerAll [("+", second)]).resolve? "+" .int .int = some first ∧
      (registry.registerAll [("+", second)]).position? "+" .int .int = some 0 ∧
      workshop.registryAt 0 = registry ∧
      workshop.overloads? 1 "+" = some [first, second] ∧
      (∃ own, 1 ≤ own ∧ workshop.runners[1]? = some ⟨⟨#[], #[]⟩, .nil, .owned own⟩) := by
  intro first second registry workshop
  obtain ⟨hresolve, hposition⟩ :=
    (overloads_of_history.1 registry [] "+" .int .int).2.2 [] first [] rfl ⟨rfl, rfl, rfl⟩
      (fun _ h => nomatch h) [("+", second)]
  obtain ⟨hshared, hoverloads, -, -, howned⟩ :=
    overloads_of_history.2 [registry] 0 registry [.build 0 ⟨#[], #[]⟩ .nil]
      [.build 0 ⟨#[], #[]⟩ .nil, .register 1 "+" second] ⟨#[], #[]⟩ .nil rfl
  exact ⟨hresolve, hposition, hshared 0 registry rfl, hoverloads "+",
    howned (List.cons_ne_nil _ _)⟩

end ExprMachine
