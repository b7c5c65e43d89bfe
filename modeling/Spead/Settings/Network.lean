import Spead.Error
import Spead.Settings.Value

/-!
Settings of a simulated network. Every setting has a default; by default nothing goes wrong.
-/

namespace Spead

structure NetworkSettings where
  /-- How long a packet takes, in milliseconds. -/
  baseLatency : Nat := 0
  /-- How far the time of a single packet is off, at most, in milliseconds. -/
  jitter : Nat := 0
  /-- The share of packets that are lost. -/
  lossRate : Binary64 := .ofNat 0
  /-- The share of packets that arrive twice. -/
  duplicateRate : Binary64 := .ofNat 0
  /-- What chance is drawn from. -/
  seed : Nat := 0
  deriving DecidableEq, Repr

namespace NetworkSettings

def perfect (seed : Nat) : NetworkSettings :=
  { seed }

def lan (seed : Nat) : NetworkSettings where
  baseLatency := 5
  jitter := 4
  lossRate := .ofRatio 1 100
  duplicateRate := .ofRatio 2 100
  seed

/-! ## Reading -/

def names : List String :=
  ["base_latency_ms", "jitter_ms", "loss_rate", "duplicate_rate", "seed"]

def set? (settings : NetworkSettings) (name : String) (value : SettingValue) :
    Option NetworkSettings :=
  match name with
  | "base_latency_ms" => value.word?.map fun time => { settings with baseLatency := time }
  | "jitter_ms" => value.word?.map fun time => { settings with jitter := time }
  | "loss_rate" => value.real?.map fun rate => { settings with lossRate := rate }
  | "duplicate_rate" => value.real?.map fun rate => { settings with duplicateRate := rate }
  | "seed" => value.word?.map fun seed => { settings with seed := seed }
  | _ => none

def ofValue? (surplus : Surplus) (value : SettingValue) : Option NetworkSettings :=
  value.readRecord? surplus names set? {}

/-! ## Checking -/

def checkRate (setting : String) (rate : Binary64) : Except SettingsError Unit :=
  if rate.isUnitInterval then .ok () else .error (.rateOutOfRange setting rate)

def validate (settings : NetworkSettings) : Except SettingsError Unit := do
  checkRate "loss_rate" settings.lossRate
  checkRate "duplicate_rate" settings.duplicateRate

end NetworkSettings
end Spead
