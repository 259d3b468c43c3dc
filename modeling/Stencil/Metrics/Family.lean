import Stencil.Metrics.Labels
import Stencil.Number.Word
import Stencil.Table

/-!
# Families of series

A family holds a series for every key of labels that has been used. A counter only grows, a gauge goes up and down, and
a histogram counts durations by how long they are. All counts are words of sixty-four bits and wrap around.
-/

namespace Stencil.Metrics

/-- The series of a family by the keys of their labels. -/
abbrev Family (α : Type) := Table Labels α

namespace Family

/-- The series of some labels; one that has not been used is as it starts. -/
def series {α : Type} (f : Family α) (start : α) (labels : Labels) : α := (Table.get? f labels.key).getD start

/-- Changes the series of some labels. -/
def update {α : Type} (f : Family α) (start : α) (labels : Labels) (change : α → α) : Family α :=
  Table.set f labels.key (change (f.series start labels))

/-- The series of some labels is the changed one behind a change, and the others are as they were. -/
theorem series_update {α : Type} (f : Family α) (start : α) (labels others : Labels) (change : α → α) :
    (f.update start labels change).series start others =
      if labels.key = others.key then change (f.series start labels) else f.series start others := by
  simp only [series, update, Table.get?_set]
  split <;> rfl

end Family

/-! ## Counters and gauges -/

/-- Counters by labels. -/
abbrev Counters := Family UInt64

/-- Adds to a counter. -/
def Counters.add (f : Counters) (labels : Labels) (n : UInt64) : Counters := Family.update f 0 labels (· + n)

/-- Adds one to a counter. -/
def Counters.increment (f : Counters) (labels : Labels) : Counters := Counters.add f labels 1

/-- The value of a counter. -/
def Counters.value (f : Counters) (labels : Labels) : UInt64 := Family.series f 0 labels

/-- Gauges by labels. -/
abbrev Gauges := Family Int64

/-- Adds to a gauge. -/
def Gauges.add (f : Gauges) (labels : Labels) (n : Int64) : Gauges := Family.update f 0 labels (· + n)

/-- Adds one to a gauge. -/
def Gauges.increment (f : Gauges) (labels : Labels) : Gauges := Gauges.add f labels 1

/-- Takes one from a gauge. -/
def Gauges.decrement (f : Gauges) (labels : Labels) : Gauges := Gauges.add f labels (-1)

/-- The value of a gauge. -/
def Gauges.value (f : Gauges) (labels : Labels) : Int64 := Family.series f 0 labels

/-! ## Histograms -/

/-- The greatest durations that each bucket counts, in microseconds. -/
def bucketBounds : List Nat := [100, 500, 1000, 5000, 10000, 50000, 100000, 500000, 1000000, 5000000]

/-- The greatest duration that can be told from others. -/
def longest : Nat := Word.size - 1

/-- How many durations there were, their sum, and how many were at most as long as each bound. -/
structure Histogram where
  count : UInt64
  sum : UInt64
  buckets : List UInt64
deriving DecidableEq, Repr

namespace Histogram

/-- A histogram of nothing. -/
def empty : Histogram := ⟨0, 0, bucketBounds.map fun _ => 0⟩

/-- Counts a duration in every bucket that it fits into. -/
def observe (h : Histogram) (microseconds : Nat) : Histogram :=
  let duration := min microseconds longest
  ⟨h.count + 1, h.sum + UInt64.ofNat duration,
    bucketBounds.zipWith (fun bound n => if duration ≤ bound then n + 1 else n) h.buckets⟩

end Histogram

/-- Histograms by labels. -/
abbrev Histograms := Family Histogram

/-- Counts a duration. -/
def Histograms.observe (f : Histograms) (labels : Labels) (microseconds : Nat) : Histograms :=
  Family.update f .empty labels fun h => h.observe microseconds

/-- How many durations were counted. -/
def Histograms.count (f : Histograms) (labels : Labels) : UInt64 := (Family.series f .empty labels).count

/-! ## Exposition -/

/-- Whether a line, or a list of lines, does not come behind another. -/
def notBehind {α : Type} [LT α] [DecidableLT α] (a b : α) : Bool := !(b < a)

/-- A line with a value. -/
def sample (name labels : Text) (value : Int) : Text := name ++ Labels.braced labels ++ ' ' :: Text.ofInt value

/-- The line that tells what kind of family follows. -/
def typeLine (name kind : Text) : Text := "# TYPE ".toList ++ name ++ ' ' :: kind

/-- The lines of counters. -/
def Counters.lines (f : Counters) (name : Text) : List Text :=
  typeLine name "counter" :: (f.map fun (key, n) => sample name key.text n.toNat).mergeSort notBehind

/-- The lines of gauges. -/
def Gauges.lines (f : Gauges) (name : Text) : List Text :=
  typeLine name "gauge" :: (f.map fun (key, n) => sample name key.text n.toInt).mergeSort notBehind

/-- The labels of a bucket in writing. -/
def bucketLabels (labels bound : Text) : Text :=
  (if labels.isEmpty then [] else labels ++ [',']) ++ Labels.labelText ("le".toList, bound)

/-- The lines of a histogram. -/
def Histogram.lines (h : Histogram) (name labels : Text) : List Text :=
  let bucket (bound : Text) (n : UInt64) : Text := sample (name ++ "_bucket".toList) (bucketLabels labels bound) n.toNat
  bucketBounds.zipWith (fun bound n => bucket (Text.ofNat bound) n) h.buckets ++
    [bucket "+Inf" h.count, sample (name ++ "_sum".toList) labels h.sum.toNat,
      sample (name ++ "_count".toList) labels h.count.toNat]

/-- The lines of histograms. -/
def Histograms.lines (f : Histograms) (name : Text) : List Text :=
  typeLine name "histogram" :: ((f.map fun (key, h) => h.lines name key.text).mergeSort notBehind).flatten

end Stencil.Metrics
