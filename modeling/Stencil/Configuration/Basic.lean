import Stencil.Budget
import Stencil.Issue
import Stencil.Markup.Escape
import Stencil.Markup.Tag
import Stencil.Policy.Rate

/-!
# Configurations

What a renderer is set up with. A profile gives the budget and the limits of rates, and everything may be overridden; a
configuration that makes no sense is refused with the first thing that is wrong with it.

Main statement: the configuration of every profile is valid (`validate_ofProfile`).
-/

namespace Stencil

open Policy

/-- How many reports and inclusions are kept, and in how many shards. -/
structure Configuration.CacheSizes where
  reports : Nat := 1024
  inclusions : Nat := 256
  shards : Nat := 16
deriving DecidableEq, Repr

/-- What a renderer is set up with. Without limits of its own those of the profile count, and without a base directory
there are no inclusions. -/
structure Configuration where
  version : Nat
  profile : Profile := .secure
  overrides : Budget.Overrides := {}
  rateLimits : Option RatePolicy := none
  personalDataSeverity : Severity := .warning
  caches : Configuration.CacheSizes := {}
  escape : Markup.EscapeMode := .html
  allowedTags : List Text := []
  baseDirectory : Option Text := none
deriving Repr

namespace Configuration

/-- The version of configurations that is understood. -/
def supportedVersion : Nat := 1

/-- The configuration of a profile without any override. -/
def ofProfile (profile : Profile) : Configuration := { version := supportedVersion, profile }

/-- The action that a render counts as. -/
def renderAction : Text := "render"

/-- The limits of a profile. -/
def defaultRatePolicy : Profile → RatePolicy
  | .basic => [(renderAction, [⟨60, 100⟩, ⟨3600, 1000⟩])]
  | .performance => [(renderAction, [⟨60, 1000⟩, ⟨3600, 20000⟩])]
  | .secure => [(renderAction, [⟨60, 30⟩, ⟨3600, 300⟩])]
  | .enterprise => [(renderAction, [⟨60, 300⟩, ⟨3600, 5000⟩])]

/-- The budget of the profile with its overrides. -/
def budget (c : Configuration) : Budget := (Budget.ofProfile c.profile).override c.overrides

/-- The limits of rates. -/
def ratePolicy (c : Configuration) : RatePolicy := c.rateLimits.getD (defaultRatePolicy c.profile)

/-! ## Validity -/

/-- Refuses limits of an action that list no window, or one that is empty or admits nothing. -/
def checkWindows (action : Text) (windows : List WindowLimit) : Except Fault Unit :=
  if windows.isEmpty then .error (.config (.noWindow action))
  else if windows.any fun w => w.seconds = 0 || w.limit = 0 then .error (.config (.zeroWindow action))
  else .ok ()

/-- The greatest number of shards. -/
def maxShards : Nat := 256

/-- Refuses caches without room, and too many shards or none. -/
def CacheSizes.validate (sizes : CacheSizes) : Except Fault Unit :=
  if sizes.reports = 0 || sizes.inclusions = 0 then .error (.config .zeroCapacity)
  else if sizes.shards = 0 || maxShards < sizes.shards then .error (.config (.shards maxShards))
  else .ok ()

/-- Refuses a tag that is no name or may never be allowed. -/
def checkTag (tag : Text) : Except Fault Unit :=
  if tag.isEmpty || !tag.all Char.isAlphanum then .error (.config (.invalidTag tag))
  else if Markup.forbiddenTags.contains (Text.toLower tag) then .error (.config (.forbiddenTag tag))
  else .ok ()

/-- Refuses a configuration for the first thing that is wrong with it. -/
def validate (c : Configuration) : Except Fault Unit := do
  if c.version ≠ supportedVersion then throw (.config (.unsupportedVersion c.version))
  c.budget.validate
  c.ratePolicy.forM fun (action, windows) => checkWindows action windows
  c.caches.validate
  c.allowedTags.forM checkTag

/-- The configuration of every profile is valid. -/
theorem validate_ofProfile (p : Profile) : (ofProfile p).validate = .ok () := by cases p <;> rfl

end Configuration

end Stencil
