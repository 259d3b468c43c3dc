import Stencil.Cache
import Stencil.Digest.Sha256
import Stencil.Files.Location
import Stencil.Inspection.Validator
import Stencil.Sandbox.Outcome
import Stencil.Template.Outline

/-!
# Inclusions

A template may include other files. The path of a file is confined, and its text inspected and read like that of a
template. Programs that have been read are kept under the location of the file together with the digest of its text, so
a file that has changed is read again.
-/

namespace Stencil.Sandbox

open Files Inspection Template

/-- Where inclusions come from: how paths are confined, what stands at a location, and what texts have to fulfil. -/
structure Loader where
  confine : Text → Option Location
  read : Location → Except Fault Text
  validator : Validator
  limits : Limits

/-- What an inclusion is kept under. -/
abbrev InclusionKey := Location × Text

/-- The programs of inclusions that have been read. -/
abbrev InclusionCache := Cache InclusionKey Program

/-- An empty cache of inclusions. -/
def InclusionCache.new (capacity shards : Nat) : InclusionCache :=
  Cache.new (fun key => Cache.spread key.2) capacity shards

namespace Loader

/-- The location of an inclusion and its text. -/
def fetch (l : Loader) (path : Text) : Except Halt (Location × Text) :=
  match l.confine path with
  | none => .error (.rejected (.ofMatch .pathTraversal .blocking path))
  | some place =>
    match l.read place with
    | .error fault => .error (.aborted fault)
    | .ok content => .ok (place, content)

/-- The program of a text that nothing blocks. -/
def accept (l : Loader) (content : Text) : Except Halt Program :=
  match l.validator.validateContent content with
  | .error fault => .error (.aborted fault)
  | .ok report =>
    match report.firstBlocking? with
    | some issue => .error (.rejected issue)
    | none => (Program.ofSource l.limits content).mapError fun refusal => .aborted (.ofRefusal refusal)

/-- The program of an inclusion, from the cache if it has been read before. -/
def load (l : Loader) (cache : InclusionCache) (path : Text) : Except Halt Program × InclusionCache :=
  match l.fetch path with
  | .error halt => (.error halt, cache)
  | .ok (place, content) =>
    -- the file is read each time, so that one that has changed is not taken from the cache
    let key : InclusionKey := (place, Digest.ofText content)
    match cache.lookup key with
    | (some program, after) => (.ok program, after)
    | (none, after) =>
      match l.accept content with
      | .error halt => (.error halt, after)
      | .ok program => (.ok program, after.store key program)

end Loader

end Stencil.Sandbox
