import Spead.Proofs.Except
import Spead.Proofs.FloatingPoint.Bounds
import Spead.Simulation.Plan

/-!
What a run does.

Whatever the command line and the configuration file say, a plan can be carried out: its settings
are those of a stream and of a network that there may be. There is a plan just if the file that is
named can be read and the settings are sound. Settings that are not given are sound by themselves,
those of a drawn network among them, whatever the source of random numbers.
-/

namespace Spead
namespace Simulation
namespace Plan

/-! ## Drawn networks -/

section Draws

variable [RandomSource]

theorem isUnitInterval_drawSmallRate
    {percent : Nat} (small : percent ≤ 100)
    (unit : (Binary64.ofRatio percent 100).isUnitInterval = true) (source : RandomSource.State) :
    (drawSmallRate percent source).1.isUnitInterval = true := by
  have one : FloatFormat.binary64.encodeRatio 1 1 =
      (0 + 1023) * 2 ^ FloatFormat.binary64.fractionBits := by
    decide
  have drawn : (RandomSource.fraction source).1.UpTo 0 := by
    apply Binary64.upTo_ofWord _ (by decide)
    rw [← one]
    exact RandomSource.float_lt _ _ _ (by decide)
  have limit : (Binary64.ofRatio percent 100).UpTo 2 :=
    Binary64.upTo_ofRatio (by decide) (by simpa using small) (by decide)
  have product := (drawn.multiply drawn (by decide)).multiply limit (by decide)
  obtain ⟨_, read⟩ := product.exists_fraction?
  exact Binary64.isUnitInterval_minimum read unit

/-- A network that is drawn passes the check of networks that are given. -/
theorem validate_drawNetwork (seed : Nat) : (drawNetwork seed).validate = .ok () := by
  have lossRate : (drawSmallRate 2 (RandomSource.ofSeed seed)).1.isUnitInterval = true :=
    isUnitInterval_drawSmallRate (by decide) (by decide) _
  have duplicateRate :
      (drawSmallRate 5 (drawSmallRate 2 (RandomSource.ofSeed seed)).2).1.isUnitInterval = true :=
    isUnitInterval_drawSmallRate (by decide) (by decide) _
  simp only [NetworkSettings.validate, NetworkSettings.checkRate, drawNetwork, lossRate,
    duplicateRate, if_true]
  rfl

end Draws

/-! ## Plans -/

/-- What holds of every plan that is made. -/
structure Sound (plan : Plan) : Prop where
  stream : plan.stream.validate = .ok ()
  network : plan.network.validate = .ok ()
  seed : plan.network.seed = plan.seed
  descriptorInterval : 0 < plan.descriptorInterval

section Resolve

variable [RandomSource] {options : Options} {file : FileSettings} {fallbackSeed : Nat} {plan : Plan}

theorem sound_of_resolve (resolved : resolve options file fallbackSeed = .ok plan) :
    plan.Sound := by
  unfold resolve at resolved
  obtain ⟨_, stream, resolved⟩ := Except.bind_eq_ok_iff.1 resolved
  obtain ⟨_, network, done⟩ := Except.bind_eq_ok_iff.1 resolved
  cases done
  constructor
  case stream => exact stream
  case network => exact network
  case seed => rfl
  case descriptorInterval => exact Nat.le_max_left 1 _

theorem exists_resolve_iff :
    (∃ plan, resolve options file fallbackSeed = .ok plan) ↔
      (chooseStream options file).validate = .ok () ∧
        (chooseNetwork options file
          ((options.seed <|> file.seed).getD fallbackSeed)).validate = .ok () := by
  constructor
  · rintro ⟨plan, resolved⟩
    unfold resolve at resolved
    obtain ⟨_, stream, resolved⟩ := Except.bind_eq_ok_iff.1 resolved
    obtain ⟨_, network, _⟩ := Except.bind_eq_ok_iff.1 resolved
    exact ⟨stream, network⟩
  · rintro ⟨stream, network⟩
    unfold resolve
    rw [Except.bind_of_eq_ok stream, Except.bind_of_eq_ok network]
    exact ⟨_, rfl⟩

end Resolve

section Make

variable [RandomSource] [SettingsNotation] {source : String → Option String} {options : Options}
  {fallbackSeed : Nat} {plan : Plan}

/-- What the options say is to be read before a plan is made. -/
inductive Reads (source : String → Option String) (options : Options) : FileSettings → Prop
  | nothing (unnamed : options.configPath = none) : Reads source options {}
  | file {path text : String} {file : FileSettings} (named : options.configPath = some path)
      (found : source path = some text) (read : FileSettings.ofText? text = some file) :
      Reads source options file

/-- Once it is known what is read, the rules that put settings together decide. -/
theorem make_of_reads {file : FileSettings} (read : Reads source options file) :
    make source fallbackSeed options =
      (resolve options file fallbackSeed).mapError PlanError.settings := by
  cases read with
  | nothing unnamed =>
      simp only [make, unnamed, pure_bind]
      cases resolve options {} fallbackSeed <;> rfl
  | file named found isRead =>
      simp only [make, named, found, isRead, pure_bind]
      cases resolve options file fallbackSeed <;> rfl

theorem exists_reads (made : make source fallbackSeed options = .ok plan) :
    ∃ file, Reads source options file := by
  cases named : options.configPath with
  | none => exact ⟨{}, .nothing named⟩
  | some path =>
      cases found : source path with
      | none =>
          simp only [make, named, found] at made
          cases made
      | some text =>
          cases isRead : FileSettings.ofText? text with
          | none =>
              simp only [make, named, found, isRead] at made
              cases made
          | some file => exact ⟨file, .file named found isRead⟩

theorem make_eq_ok_iff :
    make source fallbackSeed options = .ok plan ↔
      ∃ file, Reads source options file ∧ resolve options file fallbackSeed = .ok plan := by
  have settled (file : FileSettings) :
      (resolve options file fallbackSeed).mapError PlanError.settings = .ok plan ↔
        resolve options file fallbackSeed = .ok plan := by
    cases resolve options file fallbackSeed <;> simp [Except.mapError]
  constructor
  · intro made
    obtain ⟨file, read⟩ := exists_reads made
    rw [make_of_reads read, settled] at made
    exact ⟨file, read, made⟩
  · rintro ⟨file, read, resolved⟩
    rw [make_of_reads read, settled]
    exact resolved

theorem exists_make_iff :
    (∃ plan, make source fallbackSeed options = .ok plan) ↔
      ∃ file, Reads source options file ∧ (chooseStream options file).validate = .ok () ∧
        (chooseNetwork options file
          ((options.seed <|> file.seed).getD fallbackSeed)).validate = .ok () := by
  simp only [make_eq_ok_iff, ← exists_resolve_iff]
  constructor
  · rintro ⟨plan, file, read, resolved⟩
    exact ⟨file, read, plan, resolved⟩
  · rintro ⟨file, read, plan, resolved⟩
    exact ⟨plan, file, read, resolved⟩

/-- A run that nothing is asked of can always be planned. -/
theorem exists_make_of_nothing : ∃ plan, make source fallbackSeed {} = .ok plan :=
  exists_make_iff.2 ⟨{}, .nothing rfl, rfl, validate_drawNetwork fallbackSeed⟩

theorem sound_of_make (made : make source fallbackSeed options = .ok plan) : plan.Sound := by
  obtain ⟨_, _, resolved⟩ := make_eq_ok_iff.1 made
  exact sound_of_resolve resolved

/-- A configuration file in which nothing is written is like none. -/
theorem make_of_empty_file
    {path : String} (given : options.configPath = some path) (empty : source path = some "") :
    make source fallbackSeed options =
      make source fallbackSeed { options with configPath := none } := by
  have isRead : FileSettings.ofText? "" = some {} := by
    rw [FileSettings.ofText?, SettingsNotation.read?_empty]
    rfl
  rw [make_of_reads (.file given empty isRead), make_of_reads (.nothing rfl)]
  rfl

end Make

end Plan
end Simulation
end Spead
