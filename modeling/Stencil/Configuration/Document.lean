import Stencil.Configuration.Basic
import Stencil.Text.Utf8
import Stencil.Yaml.Field

/-!
# Configurations in writing

A configuration is written as a YAML document: a record of the version and of six optional sections. Nothing is read
leniently; a name that is not known makes the whole document malformed.
-/

namespace Stencil.Configuration

open Policy Yaml Document

/-- A number that may be left out. -/
def count? (field : Option Document) : Option (Option Nat) := defaulted? (optional? (nat? Word.size)) none field

/-- New values for a budget. -/
def overrides? (d : Document) : Option Budget.Overrides := do
  match ← d.fields? ["max_content_bytes", "max_output_bytes", "max_loop_iterations", "max_total_iterations",
      "max_include_depth", "max_recursion_depth", "max_wall_time_ms", "max_expression_length",
      "max_variable_bytes"] with
  | [content, output, loop, total, inclusion, recursion, time, expression, value] =>
    return ⟨← count? content, ← count? output, ← count? loop, ← count? total, ← count? inclusion, ← count? recursion,
      ← count? time, ← count? expression, ← count? value⟩
  | _ => none

/-- A limit within a window. -/
def windowLimit? (d : Document) : Option WindowLimit := do
  match ← d.fields? ["window_secs", "limit"] with
  | [some seconds, some limit] => return ⟨← seconds.nat? Word.size, ← limit.nat? Word.halfSize⟩
  | _ => none

/-- The limits of each action; of an action that stands there twice the last ones count. -/
def ratePolicy? (d : Document) : Option RatePolicy := do
  let entries ← d.entriesOf?
  let limits ← entries.mapM fun (action, windows) => do return (action, ← windows.listOf? windowLimit?)
  return Table.ofEntries limits

/-- The severity of personal data. -/
def severity? (d : Document) : Option Severity := do
  match ← d.fields? ["pii_severity"] with
  | [severity] => defaulted? (name? Severity.ofName?) .warning severity
  | _ => none

/-- The sizes of caches. -/
def cacheSizes? (d : Document) : Option CacheSizes := do
  let default : CacheSizes := {}
  match ← d.fields? ["validation_capacity", "include_capacity", "shards"] with
  | [reports, inclusions, shards] =>
    return ⟨← defaulted? (nat? Word.size) default.reports reports,
      ← defaulted? (nat? Word.size) default.inclusions inclusions, ← defaulted? (nat? Word.size) default.shards shards⟩
  | _ => none

/-- The escape mode of a name. -/
def escapeOfName? (t : Text) : Option Markup.EscapeMode :=
  if t = "html".toList then some .html else if t = "none".toList then some .raw else none

/-- How values are escaped, and the tags that are allowed. -/
def output? (d : Document) : Option (Markup.EscapeMode × List Text) := do
  match ← d.fields? ["escape", "allowed_tags"] with
  | [escape, tags] => return (← defaulted? (name? escapeOfName?) .html escape, ← defaulted? (listOf? text?) [] tags)
  | _ => none

/-- The base directory of inclusions. -/
def baseDirectory? (d : Document) : Option (Option Text) := do
  match ← d.fields? ["base_dir"] with
  | [directory] => defaulted? (optional? text?) none directory
  | _ => none

/-- The configuration that a document holds. -/
def ofDocument? (d : Document) : Option Configuration := do
  match ← d.fields? ["version", "profile", "budget", "rate_limits", "validation", "cache", "output", "includes"] with
  | [some version, profile, budget, limits, validation, cache, output, inclusions] => do
    let version ← version.nat? Word.halfSize
    let profile ← defaulted? (name? Profile.ofName?) .secure profile
    let overrides ← defaulted? overrides? {} budget
    let limits ← defaulted? (optional? ratePolicy?) none limits
    let severity ← defaulted? severity? .warning validation
    let caches ← defaulted? cacheSizes? {} cache
    let (escape, tags) ← defaulted? output? (.html, []) output
    let directory ← defaulted? baseDirectory? none inclusions
    return ⟨version, profile, overrides, limits, severity, caches, escape, tags, directory⟩
  | _ => none

/-- The valid configuration of a text. -/
def read (t : Text) : Except Fault Configuration :=
  match (Document.ofText? t).bind ofDocument? with
  | none => .error (.config .malformedDocument)
  | some c => c.validate.map fun _ => c

/-- The valid configuration of a file; nothing is given if it cannot be read. -/
def readBytes (bytes : Option (List UInt8)) : Except Fault Configuration :=
  match bytes.bind Text.ofUtf8? with
  | none => .error (.config .unreadableFile)
  | some t => read t

end Stencil.Configuration
