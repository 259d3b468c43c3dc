import Mathlib.Data.List.Induction
import Mathlib.Data.UInt
import Stencil.Metrics.Registry

/-!
# What a family of counters adds up to

A family that has been incremented for some labels one after the other (`ofLabels`) holds for each key how often it was
among them (`value_ofLabels`), and over all keys as many as there were (`total_ofLabels`). Counters are words, so this
is so up to whole words; while no more has been counted than a word can hold, it is so of the numbers themselves
(`sum_ofLabels`).
-/

namespace Stencil.Metrics

/-- The key of a single label is the label. -/
lemma Labels.key_singleton (label : Text × Text) : Labels.key [label] = [label] := List.mergeSort_singleton label

/-- A change makes a difference to the labels of its key only. -/
lemma Family.series_update_of_key {α : Type} (f : Family α) (start : α) (labels others : Labels) (change : α → α) :
    (f.update start labels change).series start others =
      if labels.key = others.key then change (f.series start others) else f.series start others := by
  rw [series_update]
  split
  · rename_i hkey
    rw [series, series, hkey]
  · rfl

namespace Counters

/-- The counters behind an increment for each of some labels. -/
def ofLabels (labels : List Labels) : Counters := labels.foldl increment []

/-- All counters of a family together. -/
def total (f : Counters) : UInt64 := (f.map Prod.snd).sum

/-- All counters of a family together, as numbers. -/
def sum (f : Counters) : Nat := (f.map fun series => series.2.toNat).sum

lemma ofLabels_concat (labels : List Labels) (last : Labels) :
    ofLabels (labels ++ [last]) = (ofLabels labels).increment last := by
  rw [ofLabels, List.foldl_append]
  rfl

/-- An increment is counted under its own labels only. -/
lemma value_increment (f : Counters) (labels others : Labels) :
    (f.increment labels).value others = f.value others + if labels.key = others.key then 1 else 0 := by
  have hvalue : (f.increment labels).value others =
      if labels.key = others.key then f.value others + 1 else f.value others :=
    Family.series_update_of_key f 0 labels others (· + 1)
  rw [hvalue]
  split
  · rfl
  · rw [UInt64.add_zero]

/-- A counter holds how often its key was incremented. -/
theorem value_ofLabels (labels : List Labels) (others : Labels) :
    (ofLabels labels).value others = UInt64.ofNat (labels.countP fun l => l.key = others.key) := by
  induction labels using List.reverseRecOn with
  | nil => rfl
  | append_singleton labels last ih =>
    rw [ofLabels_concat, value_increment, ih, List.countP_append, List.countP_singleton, UInt64.ofNat_add]
    by_cases hkey : last.key = others.key
    · rw [if_pos hkey, if_pos (decide_eq_true hkey)]
      rfl
    · rw [if_neg hkey, if_neg (by simpa using hkey)]
      rfl

/-! ## Over all keys -/

/-- Writing one counter changes the sum by it alone. -/
lemma sum_set (f : Counters) (key : Labels) (n : UInt64) :
    sum (Table.set f key n) + ((Table.get? f key).getD 0).toNat = sum f + n.toNat := by
  unfold sum
  induction f with
  | nil => simp [Table.set]
  | cons series rest ih =>
    obtain ⟨key', m⟩ := series
    rw [Table.set, Table.get?]
    by_cases hkey : key' = key
    · rw [if_pos hkey, if_pos hkey]
      simp only [Option.getD_some, List.map_cons, List.sum_cons]
      omega
    · rw [if_neg hkey, if_neg hkey]
      simp only [List.map_cons, List.sum_cons]
      omega

lemma sum_increment_add (f : Counters) (labels : Labels) :
    sum (f.increment labels) + (f.value labels).toNat = sum f + (f.value labels + 1).toNat :=
  sum_set f labels.key (f.value labels + 1)

lemma toNat_value_le_sum (f : Counters) (labels : Labels) : (f.value labels).toNat ≤ sum f := by
  have hzero := sum_set f labels.key 0
  have hvalue : f.value labels = (Table.get? f labels.key).getD 0 := rfl
  rw [← hvalue, UInt64.toNat_zero] at hzero
  omega

lemma total_eq (f : Counters) : total f = UInt64.ofNat (sum f) := by
  unfold total sum
  induction f with
  | nil => rfl
  | cons series rest ih =>
    simp only [List.map_cons, List.sum_cons, ih, UInt64.ofNat_add, UInt64.ofNat_toNat]

/-- An increment raises the total by one. -/
lemma total_increment (f : Counters) (labels : Labels) : total (f.increment labels) = total f + 1 := by
  have hsum := congrArg UInt64.ofNat (sum_increment_add f labels)
  simp only [UInt64.ofNat_add, UInt64.ofNat_toNat] at hsum
  rw [total_eq, total_eq]
  refine (UInt64.add_left_inj (f.value labels)).1 ?_
  rw [hsum]
  ac_rfl

/-- Nothing wraps around while the sum is no greater than a word. -/
lemma sum_increment {f : Counters} (h : sum f + 1 < Word.size) (labels : Labels) :
    sum (f.increment labels) = sum f + 1 := by
  have hsum := sum_increment_add f labels
  have hvalue := toNat_value_le_sum f labels
  -- no counter is greater than the sum, so this one does not wrap around either
  have hnext : (f.value labels + 1).toNat = (f.value labels).toNat + 1 := by
    rw [UInt64.toNat_add]
    exact Nat.mod_eq_of_lt (Nat.lt_of_le_of_lt (Nat.add_le_add_right hvalue 1) h)
  omega

/-- All counters together hold how often they were incremented. -/
theorem total_ofLabels (labels : List Labels) : total (ofLabels labels) = UInt64.ofNat labels.length := by
  induction labels using List.reverseRecOn with
  | nil => rfl
  | append_singleton labels last ih =>
    rw [ofLabels_concat, total_increment, ih, List.length_append, UInt64.ofNat_add]
    rfl

/-- As long as a word can count the labels, their sum is exact. -/
theorem sum_ofLabels {labels : List Labels} (h : labels.length < Word.size) :
    sum (ofLabels labels) = labels.length := by
  induction labels using List.reverseRecOn with
  | nil => rfl
  | append_singleton labels last ih =>
    rw [List.length_append, List.length_singleton] at h ⊢
    have hlabels := ih (Nat.lt_of_succ_lt h)
    rw [ofLabels_concat, sum_increment (by rw [hlabels]; exact h), hlabels]

end Counters

/-! ## Gauges and histograms -/

lemma Gauges.value_add (f : Gauges) (labels others : Labels) (n : Int64) :
    (f.add labels n).value others = if labels.key = others.key then f.value others + n else f.value others :=
  Family.series_update_of_key f 0 labels others (· + n)

/-- What begins and ends leaves a gauge as it was. -/
lemma Gauges.value_decrement_increment (f : Gauges) (labels others : Labels) :
    ((f.increment labels).decrement labels).value others = f.value others := by
  rw [decrement, increment, value_add, value_add]
  split
  · rw [Int64.add_assoc, Int64.add_right_neg, Int64.add_zero]
  · rfl

lemma Histograms.count_observe (f : Histograms) (labels : Labels) (microseconds : Nat) :
    (f.observe labels microseconds).count labels = f.count labels + 1 := by
  have hseries := Family.series_update f .empty labels labels fun h => h.observe microseconds
  rw [if_pos rfl] at hseries
  exact congrArg Histogram.count hseries

end Stencil.Metrics
