import Stencil.Text.Basic

/-!
# Labels

A series of a metric is known by its labels, pairs of a name and a value. Their order does not matter, so a key holds
them in ascending order.
-/

namespace Stencil.Metrics

/-- Names with values. -/
abbrev Labels := List (Text × Text)

namespace Labels

/-- Whether a label stands in front of another, or is the same. -/
def precedes (a b : Text × Text) : Bool := a.1 < b.1 || (a.1 = b.1 && !(b.2 < a.2))

/-- Labels in ascending order. -/
def key (labels : Labels) : Labels := labels.mergeSort precedes

/-- Two lists of the same labels have keys of the same labels. -/
theorem key_perm (labels : Labels) : (key labels).Perm labels := List.mergeSort_perm labels precedes

/-- A character of a value as it is written between quotes. -/
def escapeChar : Char → Text
  | '\\' => ['\\', '\\']
  | '"' => ['\\', '"']
  | '\n' => ['\\', 'n']
  | c => [c]

/-- A label in writing. -/
def labelText (label : Text × Text) : Text := label.1 ++ ['=', '"'] ++ label.2.flatMap escapeChar ++ ['"']

/-- Labels in writing. -/
def text (labels : Labels) : Text := Text.join [','] (labels.map labelText)

/-- Labels in writing between braces. -/
def braced (labels : Text) : Text := '\x7b' :: labels ++ ['\x7d']

end Labels

end Stencil.Metrics
