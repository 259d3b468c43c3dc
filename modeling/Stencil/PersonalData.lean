import Stencil.Text.Basic

/-!
# Personal data

Finding personal data is the work of a detector that a caller supplies. The library reports the kinds of what it finds,
and masks it: findings are taken from left to right, one that begins inside another or does not fall between characters
is passed over, and each of the others is replaced by a marker with its kind.
-/

namespace Stencil.PersonalData

/-- A stretch of text with personal data: the byte positions of its beginning and its end, and what kind it is of. -/
structure Finding where
  start : Nat
  stop : Nat
  kind : Text
deriving DecidableEq, Repr

/-- What finds personal data in a text. -/
abbrev Detector := Text → List Finding

/-- The detector that finds nothing. -/
def Detector.none : Detector := fun _ => []

/-- The byte positions between the characters of a text that begins at a position, in front of it and behind it. -/
def boundaries (position : Nat) : Text → List Nat
  | [] => [position]
  | c :: rest => position :: boundaries (position + c.utf8Size) rest

/-- The byte positions at which a needle begins, from left to right, none inside another. The text begins at a
position. The empty needle is found wherever a character may begin. -/
def occurrences (needle : Text) (position : Nat) (t : Text) : List Nat :=
  if _hn : needle = [] then boundaries position t
  else
    match _hcut : Text.cutAt? needle t with
    | .none => []
    | some (front, behind) =>
      let start := position + Text.byteLength front
      start :: occurrences needle (start + Text.byteLength needle) behind
termination_by t.length
decreasing_by exact Text.length_lt_of_cutAt?_eq_some _hn _hcut

/-- The detector that looks for needles, each of a kind, and reports some fixed findings behind what it finds. -/
def Detector.ofNeedles (needles : List (Text × Text)) (fixed : List Finding) : Detector := fun t =>
  (needles.flatMap fun (needle, kind) =>
    (occurrences needle 0 t).map fun start => ⟨start, start + Text.byteLength needle, kind⟩) ++ fixed

/-- What stands in place of a finding. -/
def marker (kind : Text) : Text := "[REDACTED:" ++ kind ++ "]"

/-- Whether a finding comes no later than another: it begins in front of it, or with it and ends no later. -/
def Finding.le (a b : Finding) : Bool := a.start < b.start || (a.start == b.start && a.stop ≤ b.stop)

/-- Masks findings in a text that begins at a byte position. -/
def maskFrom (position : Nat) (t : Text) : List Finding → Text
  | [] => t
  | f :: rest =>
    if f.start < position ∨ f.stop ≤ f.start then maskFrom position t rest
    else
      match Text.splitAtByte? (f.start - position) t with
      | none => maskFrom position t rest
      | some (front, back) =>
        match Text.splitAtByte? (f.stop - f.start) back with
        | none => maskFrom position t rest
        | some (_, behind) => front ++ marker f.kind ++ maskFrom f.stop behind rest

/-- A text with every finding masked that begins behind the one before it. -/
def mask (t : Text) (findings : List Finding) : Text := maskFrom 0 t (findings.mergeSort Finding.le)

end Stencil.PersonalData
