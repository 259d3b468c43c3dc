import Stencil.Issue
import Stencil.Template.Defect
import Stencil.Text.Quoted

/-!
# Faults

Everything that can go wrong for a caller, as causes. A fault has words for a person (`message`), one of seven stable
codes (`code`), and a reason that is one level finer than the code (`reason`). The words name the category, the limit
or the variable involved, but never the rule that found something harmful.
-/

namespace Stencil

/-- The limits of a render that can be exhausted. -/
inductive Limit where
  | time
  | recursion
  | iterations
  | size
  | includeDepth
  | expressionLength
deriving DecidableEq, Repr

namespace Limit

/-- All limits. -/
def all : List Limit := [.time, .recursion, .iterations, .size, .includeDepth, .expressionLength]

/-- The name of a limit. -/
def name : Limit → Text
  | .time => "timeout"
  | .recursion => "recursion_limit"
  | .iterations => "iteration_limit"
  | .size => "size_limit"
  | .includeDepth => "include_depth_limit"
  | .expressionLength => "expression_length"

/-- The limit of a name. -/
def ofName? (t : Text) : Option Limit := all.find? fun l => l.name = t

end Limit

namespace Fault

/-- Why a file cannot be read. -/
inductive ReadFailure where
  | notFound
  | isDirectory
  | notDirectory
  | tooManyLinks
  | invalidName
  | invalidPath
deriving DecidableEq, Repr

/-- A failure to read, in words. -/
def ReadFailure.message : ReadFailure → Text
  | .notFound => "entity not found"
  | .isDirectory => "is a directory"
  | .notDirectory => "not a directory"
  | .tooManyLinks => "filesystem loop or indirection limit (e.g. symlink loop)"
  | .invalidName => "invalid filename"
  | .invalidPath => "invalid input parameter"

/-- The characters of a name of unknown content that a message shows. -/
def maxShownName : Nat := 64

/-- The beginning of a name of unknown content, escaped. -/
def shownName (name : Text) : Text := Text.escaped (name.take maxShownName)

/-- What is wrong with what a caller supplied. A component outside of the library describes its cause itself. -/
inductive ContextCause where
  | invalidVariableName (name : Text)
  | oversizedVariable (name : Text) (maxBytes : Nat)
  | deepVariable (name : Text)
  | wrongType (name : Text) (typeName : Text)
  | invalidRegionName (name : Text)
  | inclusionsDisabled
  | unreadableInclusion (failure : ReadFailure)
  | undecodableInclusion
  | unknownTemplate (id : Text)
  | unknownPermission (name : Text)
  | described (detail : Text)
deriving DecidableEq, Repr

/-- A wrong context in words. -/
def ContextCause.message : ContextCause → Text
  | .invalidVariableName name => "invalid variable name `" ++ shownName name ++ "`"
  | .oversizedVariable name maxBytes => "variable `" ++ name ++ "` exceeds " ++ Text.ofNat maxBytes ++ " bytes"
  | .deepVariable name => "variable `" ++ name ++ "` is nested too deeply"
  | .wrongType name typeName => "variable `" ++ name ++ "` must be of type " ++ typeName
  | .invalidRegionName name => "invalid section name `" ++ shownName name ++ "`"
  | .inclusionsDisabled => "includes are not enabled"
  | .unreadableInclusion failure => "include not readable: " ++ failure.message
  | .undecodableInclusion => "include is not valid UTF-8"
  | .unknownTemplate id => "unknown template: " ++ id
  | .unknownPermission name => "unknown permission: " ++ name
  | .described detail => detail

/-- What is wrong with a template: a defect on a line, or what a component outside of the library describes. -/
inductive TemplateCause where
  | defect (line : Nat) (defect : Template.Defect)
  | described (detail : Text)
deriving DecidableEq, Repr

/-- A malformed template in words. -/
def TemplateCause.message : TemplateCause → Text
  | .defect line d => "line " ++ Text.ofNat line ++ ": " ++ d.message
  | .described detail => detail

/-- What is wrong with a configuration. -/
inductive ConfigCause where
  | malformedDocument
  | unreadableFile
  | unsupportedVersion (version : Nat)
  | zeroBudget (field : Text)
  | deepRecursion (greatest : Nat)
  | wallTime (greatest : Nat)
  | totalBelowLoop
  | noWindow (action : Text)
  | zeroWindow (action : Text)
  | zeroCapacity
  | shards (greatest : Nat)
  | invalidTag (tag : Text)
  | forbiddenTag (tag : Text)
  | described (detail : Text)
deriving DecidableEq, Repr

/-- A wrong configuration in words. -/
def ConfigCause.message : ConfigCause → Text
  | .malformedDocument => "invalid yaml"
  | .unreadableFile => "read config failed"
  | .unsupportedVersion version => "unsupported config version " ++ Text.ofNat version
  | .zeroBudget field => "budget." ++ field ++ " must be greater than 0"
  | .deepRecursion greatest => "budget.max_recursion_depth must be at most " ++ Text.ofNat greatest
  | .wallTime greatest => "budget.max_wall_time_ms must be between 1 and " ++ Text.ofNat greatest
  | .totalBelowLoop => "budget.max_total_iterations must be >= max_loop_iterations"
  | .noWindow action => "rate_limits." ++ action ++ " must list at least one window"
  | .zeroWindow action => "rate_limits." ++ action ++ ": window_secs and limit must be greater than 0"
  | .zeroCapacity => "cache capacities must be greater than 0"
  | .shards greatest => "cache.shards must be between 1 and " ++ Text.ofNat greatest
  | .invalidTag tag => "output.allowed_tags: invalid tag name `" ++ tag ++ "`"
  | .forbiddenTag tag => "output.allowed_tags: `" ++ tag ++ "` can never be allowed"
  | .described detail => detail

/-- The codes that callers, audit records and metrics see. -/
inductive Code where
  | securityViolation
  | resourceLimit
  | rateLimited
  | permissionDenied
  | renderError
  | config
  | internal
deriving DecidableEq, Repr

/-- The name of a code. -/
def Code.name : Code → Text
  | .securityViolation => "SECURITY_VIOLATION"
  | .resourceLimit => "RESOURCE_LIMIT"
  | .rateLimited => "RATE_LIMITED"
  | .permissionDenied => "PERMISSION_DENIED"
  | .renderError => "RENDER_ERROR"
  | .config => "CONFIG"
  | .internal => "INTERNAL"

end Fault

/-- What went wrong. -/
inductive Fault where
  | violation (category : Category)
  | exhausted (limit : Limit)
  | rateLimited (action : Text)
  | permissionDenied (permission : Text)
  | missingVariables (names : List Text)
  | context (cause : Fault.ContextCause)
  | template (cause : Fault.TemplateCause)
  | config (cause : Fault.ConfigCause)
  | internal (detail : Text)
deriving DecidableEq, Repr

namespace Fault

/-- A fault in words. -/
def message : Fault → Text
  | .violation category => "security violation: " ++ category.name
  | .exhausted limit => "resource limit exceeded: " ++ limit.name
  | .rateLimited action => "rate limit exceeded for action `" ++ action ++ "`"
  | .permissionDenied permission => "permission denied: " ++ permission ++ " required"
  | .missingVariables names => "missing required variables: " ++ Text.join ", " names
  | .context cause => "invalid context: " ++ cause.message
  | .template cause => "template syntax error: " ++ cause.message
  | .config cause => "invalid config: " ++ cause.message
  | .internal detail => "internal: " ++ detail

/-- The code of a fault. -/
def code : Fault → Code
  | .violation _ => .securityViolation
  | .exhausted _ => .resourceLimit
  | .rateLimited _ => .rateLimited
  | .permissionDenied _ => .permissionDenied
  | .missingVariables _ => .renderError
  | .context _ => .renderError
  | .template _ => .renderError
  | .config _ => .config
  | .internal _ => .internal

/-- The reason of a fault, one level finer than its code. -/
def reason : Fault → Text
  | .violation category => category.name
  | .exhausted limit => limit.name
  | .rateLimited _ => "rate_limit"
  | .permissionDenied _ => "permission"
  | .missingVariables _ => "missing_variables"
  | .context _ => "invalid_context"
  | .template _ => "syntax"
  | .config _ => "config"
  | .internal _ => "internal"

/-- The fault of a template that is refused. -/
def ofRefusal : Template.Refusal → Fault
  | .defect line d => .template (.defect line d)
  | .tooLong => .exhausted .expressionLength
  | .tooDeep => .exhausted .recursion

end Fault

end Stencil
