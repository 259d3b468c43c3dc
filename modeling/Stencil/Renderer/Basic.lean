import Stencil.Audit
import Stencil.Configuration.Basic
import Stencil.Files.Confinement
import Stencil.Files.Reading
import Stencil.Markup.Sanitizer
import Stencil.Metrics.Registry
import Stencil.Policy.Permission
import Stencil.Sandbox.Evaluation

/-!
# Renderers

A renderer is what a configuration sets up and no render changes. What renders do change is its state: who may do what,
what users have done, which texts have been inspected and which files read, the metrics, and the audit.
-/

namespace Stencil

open Files Inspection Policy

/-- What renders are made with. -/
structure Renderer where
  budget : Budget
  validator : Validator
  escape : Markup.EscapeMode
  sanitizer : Markup.Sanitizer
  loader : Option Sandbox.Loader

namespace Renderer

/-- The renderer of a valid configuration, for a way to find personal data, to confine paths to a directory, and to read
files. -/
def ofConfiguration (c : Configuration) (detector : PersonalData.Detector) (confine : Text → Text → Option Location)
    (read : Location → Except Fault Text) : Except Fault Renderer := do
  c.validate
  let validator : Validator := ⟨.ofBudget c.budget c.personalDataSeverity c.escape, detector⟩
  return {
    budget := c.budget
    validator
    escape := c.escape
    sanitizer := .ofExtraTags c.allowedTags
    loader := c.baseDirectory.map fun base => ⟨confine base, read, validator, c.budget.parseLimits⟩ }

/-- The renderer of a valid configuration that includes files of a tree, each no longer than a template may be. -/
def ofTree (c : Configuration) (detector : PersonalData.Detector) (tree : Tree) : Except Fault Renderer :=
  ofConfiguration c detector tree.confine? fun l => tree.readText c.budget.maxContentBytes l.text

/-! ## State -/

/-- What renders change. -/
structure State where
  permissions : Permissions
  limiter : RateLimiter
  reports : Cache Text Report
  inclusions : Sandbox.InclusionCache
  metrics : Metrics.Registry
  audit : Audit.Sink

namespace State

/-- The state before any render; nothing if a cache is configured that cannot be made. Inclusions are cached only where
there is a directory to include from. -/
def new? (c : Configuration) (audit : Audit.Sink) : Option State :=
  let canBeMade := Cache.fits c.caches.reports c.caches.shards &&
    (c.baseDirectory.isNone || Cache.fits c.caches.inclusions c.caches.shards)
  if !canBeMade then none
  else some {
    permissions := .none
    limiter := .new c.ratePolicy nanoseconds
    reports := .new Cache.spread c.caches.reports c.caches.shards
    inclusions := .new c.caches.inclusions c.caches.shards
    metrics := .empty
    audit }

/-- The state with other metrics. -/
def measure (st : State) (change : Metrics.Registry → Metrics.Registry) : State :=
  { st with metrics := change st.metrics }

end State

end Renderer

end Stencil
