import Stencil.Proofs.Metrics.Counting

/-!
# What series hold after any changes

A series is known by its labels, whatever their order: two lists of labels have one key if and only if they hold the
same labels as often (`Labels.key_eq_iff`). So behind any changes of a family, a series is what the changes under its
labels make of it, one after the other (`Family.series_ofUpdates`).

What one duration does to a histogram keeps it in step with the durations it has been told of (`Histogram.Records`,
`Histogram.Records.observe`). A registry under any changes of its five families is put together from this
(`series_run`).
-/

namespace Stencil.Metrics

/-! ## Keys -/

namespace Labels

lemma precedes_iff {a b : Text × Text} : precedes a b = true ↔ a.1 < b.1 ∨ a.1 = b.1 ∧ ¬ b.2 < a.2 := by
  simp [precedes]

/-- The order of labels is transitive. -/
lemma precedes_trans (a b c : Text × Text) (hab : precedes a b = true) (hbc : precedes b c = true) :
    precedes a c = true := by
  rw [precedes_iff] at hab hbc ⊢
  rcases hab with hab | ⟨hab, hab'⟩
  · rcases hbc with hbc | ⟨hbc, -⟩
    · exact .inl (List.lt_trans hab hbc)
    · exact .inl (hbc ▸ hab)
  · rcases hbc with hbc | ⟨hbc, hbc'⟩
    · exact .inl (hab ▸ hbc)
    · have hle := List.le_trans (List.not_lt.1 hab') (List.not_lt.1 hbc')
      exact .inr ⟨hab.trans hbc, List.not_lt.2 hle⟩

/-- Any two labels are ordered one way or the other. -/
lemma precedes_total (a b : Text × Text) : (precedes a b || precedes b a) = true := by
  rw [Bool.or_eq_true, precedes_iff, precedes_iff]
  by_cases hname : a.1 = b.1
  · refine (List.le_total a.2 b.2).imp (fun h => .inr ⟨hname, ?_⟩) fun h => .inr ⟨hname.symm, ?_⟩
    · exact List.not_lt.2 h
    · exact List.not_lt.2 h
  · refine (List.le_total a.1 b.1).imp (fun h => .inl ?_) fun h => .inl ?_
    · exact (List.le_iff_lt_or_eq.1 h).resolve_right hname
    · exact (List.le_iff_lt_or_eq.1 h).resolve_right (Ne.symm hname)

/-- Labels that precede one another are equal. -/
lemma eq_of_precedes {a b : Text × Text} (hab : precedes a b = true) (hba : precedes b a = true) : a = b := by
  rw [precedes_iff] at hab hba
  rcases hab with hab | ⟨hname, hab⟩
  · rcases hba with hba | ⟨hname, -⟩
    · exact absurd hba (List.lt_asymm hab)
    · exact absurd (hname ▸ hab) (List.lt_irrefl _)
  · rcases hba with hba | ⟨-, hba⟩
    · exact absurd (hname ▸ hba) (List.lt_irrefl _)
    · exact Prod.ext hname (List.le_antisymm (List.not_lt.1 hab) (List.not_lt.1 hba))

lemma pairwise_key (labels : Labels) : (key labels).Pairwise fun a b => precedes a b = true :=
  List.pairwise_mergeSort precedes_trans precedes_total labels

/-- Labels have one key if and only if they are the same but for their order. -/
theorem key_eq_iff {labels others : Labels} : key labels = key others ↔ labels.Perm others := by
  constructor
  · intro h
    exact (key_perm labels).symm.trans (h ▸ key_perm others)
  · intro h
    have hperm : (key labels).Perm (key others) := (key_perm labels).trans (h.trans (key_perm others).symm)
    exact hperm.eq_of_pairwise (fun _ _ _ _ => eq_of_precedes) (pairwise_key labels) (pairwise_key others)

/-- Those of some labelled things whose labels are the given ones in any order. -/
def under {β : Type} (labels : Labels) (entries : List (Labels × β)) : List β :=
  (entries.filter fun entry => entry.1.Perm labels).map Prod.snd

/-- A new entry is counted under its own labels only, in whatever order they are given. -/
lemma under_concat {β : Type} (labels : Labels) (entries : List (Labels × β)) (last : Labels × β) :
    labels.under (entries ++ [last]) = labels.under entries ++ if last.1.Perm labels then [last.2] else [] := by
  have hlast : (([last].filter fun entry => entry.1.Perm labels).map Prod.snd) =
      if last.1.Perm labels then [last.2] else [] := by
    by_cases h : last.1.Perm labels <;> simp [h]
  rw [under, List.filter_append, List.map_append, hlast]
  rfl

end Labels

/-! ## Families -/

/-- The family behind changes of its series one after the other. -/
def Family.ofUpdates {α β : Type} (start : α) (change : α → β → α) (entries : List (Labels × β)) : Family α :=
  entries.foldl (fun f entry => f.update start entry.1 (change · entry.2)) []

/-- The last update is made to the family that the others leave. -/
lemma Family.ofUpdates_concat {α β : Type} (start : α) (change : α → β → α) (entries : List (Labels × β))
    (last : Labels × β) :
    ofUpdates start change (entries ++ [last]) =
      (ofUpdates start change entries).update start last.1 (change · last.2) := by
  rw [ofUpdates, List.foldl_append]
  rfl

/-- A series is what the changes under its labels make of it, and no others. -/
theorem Family.series_ofUpdates {α β : Type} (start : α) (change : α → β → α) (entries : List (Labels × β))
    (labels : Labels) :
    (ofUpdates start change entries).series start labels = (labels.under entries).foldl change start := by
  induction entries using List.reverseRecOn with
  | nil => rfl
  | append_singleton entries last ih =>
    rw [ofUpdates_concat, series_update_of_key, ih, Labels.under_concat, List.foldl_append]
    by_cases hlast : last.1.Perm labels
    · rw [if_pos (Labels.key_eq_iff.2 hlast), if_pos hlast]
      rfl
    · rw [if_neg (mt Labels.key_eq_iff.1 hlast), if_neg hlast]
      rfl

/-! ## Sums of words -/

/-- Words that are added up have their sum modulo the size of a word. -/
lemma toNat_foldl_add (amounts : List UInt64) (n : UInt64) :
    (amounts.foldl (· + ·) n).toNat = (n.toNat + (amounts.map UInt64.toNat).sum) % Word.size := by
  induction amounts generalizing n with
  | nil => exact (Nat.mod_eq_of_lt n.toNat_lt).symm
  | cons amount amounts ih =>
    rw [List.foldl_cons, ih, UInt64.toNat_add, List.map_cons, List.sum_cons, ← Nat.add_assoc]
    exact Nat.mod_add_mod _ _ _

/-- Signed words that are added up have their sum, wrapped around to the range of signed words. -/
lemma toInt_foldl_add (amounts : List Int64) (n : Int64) :
    (amounts.foldl (· + ·) n).toInt = (n.toInt + (amounts.map Int64.toInt).sum).bmod Word.size := by
  induction amounts generalizing n with
  | nil =>
    rw [List.foldl_nil, List.map_nil, List.sum_nil, Int.add_zero]
    exact (Int64.toInt_bmod n).symm
  | cons amount amounts ih =>
    rw [List.foldl_cons, ih, Int64.toInt_add, List.map_cons, List.sum_cons, ← Int.add_assoc]
    exact Int.bmod_add_bmod

/-! ## Histograms -/

namespace Histogram

variable {h : Histogram} {durations : List Nat}

/-- What a histogram holds of some durations. It holds words, so the numbers are those of the durations up to whole
words. -/
structure Records (h : Histogram) (durations : List Nat) : Prop where
  count : h.count = UInt64.ofNat durations.length
  sum : h.sum = UInt64.ofNat (durations.map (min · longest)).sum
  buckets : h.buckets = bucketBounds.map fun bound => UInt64.ofNat (durations.countP (· ≤ bound))

/-- The numbers that a histogram holds are those of some durations, and none is greater than one behind it. -/
structure Exact (h : Histogram) (durations : List Nat) : Prop where
  count : h.count.toNat = durations.length
  buckets : h.buckets.map UInt64.toNat = bucketBounds.map fun bound => durations.countP (· ≤ bound)
  ascending : h.buckets.Pairwise (· ≤ ·)
  le_count : ∀ n ∈ h.buckets, n ≤ h.count

lemma records_empty : empty.Records [] := ⟨rfl, rfl, rfl⟩

/-- A duration that is cut short is no longer than a bound only if it was no longer before. -/
lemma min_longest_le_iff {bound : Nat} (hbound : bound ∈ bucketBounds) (microseconds : Nat) :
    min microseconds longest ≤ bound ↔ microseconds ≤ bound := by
  have hlongest : bound < longest := by
    revert bound
    decide
  omega

/-- An observation is recorded behind the earlier ones. -/
theorem Records.observe (hrecords : h.Records durations) (microseconds : Nat) :
    (h.observe microseconds).Records (durations ++ [microseconds]) := by
  constructor
  case count =>
    rw [List.length_append, UInt64.ofNat_add, ← hrecords.count]
    rfl
  case sum =>
    rw [List.map_append, List.sum_append, UInt64.ofNat_add, ← hrecords.sum, List.map_singleton, List.sum_singleton]
    rfl
  case buckets =>
    rw [Histogram.observe, hrecords.buckets, List.zipWith_map_right, List.zipWith_self]
    refine List.map_congr_left fun bound hbound => ?_
    rw [List.countP_append, List.countP_singleton, UInt64.ofNat_add]
    by_cases hfits : microseconds ≤ bound
    · rw [if_pos ((min_longest_le_iff hbound _).2 hfits), if_pos (decide_eq_true hfits)]
      rfl
    · rw [if_neg (mt (min_longest_le_iff hbound _).1 hfits), if_neg (by simpa using hfits)]
      exact (UInt64.add_zero _).symm

/-- A histogram holds what it has been told of. -/
lemma records_foldl (durations : List Nat) : (durations.foldl Histogram.observe empty).Records durations := by
  induction durations using List.reverseRecOn with
  | nil => exact records_empty
  | append_singleton durations last ih =>
    rw [List.foldl_append]
    exact ih.observe last

lemma toNat_ofNat_countP (hlength : durations.length < Word.size) (p : Nat → Bool) :
    (UInt64.ofNat (durations.countP p)).toNat = durations.countP p :=
  UInt64.toNat_ofNat_of_lt' (Nat.lt_of_le_of_lt List.countP_le_length hlength)

/-- Nothing wraps around before a word is full. -/
lemma Records.exact (hrecords : h.Records durations) (hlength : durations.length < Word.size) :
    h.Exact durations := by
  have hcount : h.count.toNat = durations.length := by
    rw [hrecords.count]
    exact UInt64.toNat_ofNat_of_lt' hlength
  constructor
  case count => exact hcount
  case buckets =>
    rw [hrecords.buckets, List.map_map]
    exact List.map_congr_left fun bound _ => toNat_ofNat_countP hlength _
  case ascending =>
    have hbounds : bucketBounds.Pairwise (· ≤ ·) := by decide
    rw [hrecords.buckets, List.pairwise_map]
    refine hbounds.imp fun {lower upper} hle => ?_
    rw [UInt64.le_iff_toNat_le, toNat_ofNat_countP hlength, toNat_ofNat_countP hlength]
    exact List.countP_mono_left fun d _ hd => by simpa using Nat.le_trans (of_decide_eq_true hd) hle
  case le_count =>
    intro n hn
    rw [hrecords.buckets] at hn
    obtain ⟨bound, -, rfl⟩ := List.mem_map.1 hn
    rw [UInt64.le_iff_toNat_le, toNat_ofNat_countP hlength, hcount]
    exact List.countP_le_length

end Histogram

/-! ## The registry -/

/-- The families of counters. -/
inductive CounterFamily where
  | renders
  | rejections
  | cacheEvents
deriving DecidableEq, Repr

/-- A change of one series. -/
inductive Change where
  | increment (family : CounterFamily) (labels : Labels)
  | add (family : CounterFamily) (labels : Labels) (n : UInt64)
  | incrementGauge (labels : Labels)
  | decrementGauge (labels : Labels)
  | addGauge (labels : Labels) (n : Int64)
  | observe (labels : Labels) (microseconds : Nat)
deriving Repr

namespace Change

/-- The labels of the series that a change changes. -/
def labels : Change → Labels
  | increment _ labels => labels
  | add _ labels _ => labels
  | incrementGauge labels => labels
  | decrementGauge labels => labels
  | addGauge labels _ => labels
  | observe labels _ => labels

/-- What a change adds to a family of counters, and under which labels. -/
def counted? (family : CounterFamily) : Change → Option (Labels × UInt64)
  | increment other labels => if other = family then some (labels, 1) else none
  | add other labels n => if other = family then some (labels, n) else none
  | _ => none

/-- What a change adds to the gauges. -/
def moved? : Change → Option (Labels × Int64)
  | incrementGauge labels => some (labels, 1)
  | decrementGauge labels => some (labels, -1)
  | addGauge labels n => some (labels, n)
  | _ => none

/-- The duration that a change tells the histograms of. -/
def observed? : Change → Option (Labels × Nat)
  | observe labels microseconds => some (labels, microseconds)
  | _ => none

/-- A counter is raised under the labels of the change. -/
lemma labels_of_counted? {change : Change} {family : CounterFamily} {entry : Labels × UInt64}
    (h : change.counted? family = some entry) : entry.1 = change.labels := by
  cases change with
  | increment other labels | add other labels n =>
    exact congrArg Prod.fst (Option.some.inj (Option.ite_none_right_eq_some.1 h).2).symm
  | incrementGauge | decrementGauge | addGauge | observe => simp [counted?] at h

lemma labels_of_moved? {change : Change} {entry : Labels × Int64} (h : change.moved? = some entry) :
    entry.1 = change.labels := by
  cases change with
  | incrementGauge labels | decrementGauge labels | addGauge labels n =>
    exact congrArg Prod.fst (Option.some.inj h).symm
  | increment | add | observe => simp [moved?] at h

lemma labels_of_observed? {change : Change} {entry : Labels × Nat} (h : change.observed? = some entry) :
    entry.1 = change.labels := by
  cases change with
  | observe labels microseconds => exact congrArg Prod.fst (Option.some.inj h).symm
  | increment | add | incrementGauge | decrementGauge | addGauge => simp [observed?] at h

end Change

namespace Registry

/-- The counters of a family. -/
def counters (r : Registry) : CounterFamily → Counters
  | .renders => r.renders
  | .rejections => r.rejections
  | .cacheEvents => r.cacheEvents

/-- The registry with the counters of a family changed. -/
def withCounters (r : Registry) (change : Counters → Counters) : CounterFamily → Registry
  | .renders => { r with renders := change r.renders }
  | .rejections => { r with rejections := change r.rejections }
  | .cacheEvents => { r with cacheEvents := change r.cacheEvents }

/-- The registry behind a change. -/
def apply (r : Registry) : Change → Registry
  | .increment family labels => r.withCounters (·.increment labels) family
  | .add family labels n => r.withCounters (·.add labels n) family
  | .incrementGauge labels => { r with underWay := r.underWay.increment labels }
  | .decrementGauge labels => { r with underWay := r.underWay.decrement labels }
  | .addGauge labels n => { r with underWay := r.underWay.add labels n }
  | .observe labels microseconds => { r with durations := r.durations.observe labels microseconds }

/-- The registry behind changes of any of its series. -/
def run (changes : List Change) : Registry := changes.foldl apply empty

lemma run_append (changes more : List Change) : run (changes ++ more) = more.foldl apply (run changes) :=
  List.foldl_append

/-- A change of one family of counters leaves the others. -/
lemma counters_withCounters (r : Registry) (change : Counters → Counters) (other family : CounterFamily) :
    (r.withCounters change other).counters family =
      if other = family then change (r.counters family) else r.counters family := by
  cases other <;> cases family <;> rfl

lemma underWay_withCounters (r : Registry) (change : Counters → Counters) (family : CounterFamily) :
    (r.withCounters change family).underWay = r.underWay := by
  cases family <;> rfl

lemma durations_withCounters (r : Registry) (change : Counters → Counters) (family : CounterFamily) :
    (r.withCounters change family).durations = r.durations := by
  cases family <;> rfl

/-- A change does to the counters of a family what it adds to them. -/
lemma counters_apply (r : Registry) (change : Change) (family : CounterFamily) :
    (r.apply change).counters family =
      (change.counted? family).elim (r.counters family) fun entry => (r.counters family).add entry.1 entry.2 := by
  cases change with
  | increment other labels =>
    rw [apply, counters_withCounters, Change.counted?]
    split <;> rfl
  | add other labels n =>
    rw [apply, counters_withCounters, Change.counted?]
    split <;> rfl
  | incrementGauge | decrementGauge | addGauge | observe => cases family <;> rfl

lemma underWay_apply (r : Registry) (change : Change) :
    (r.apply change).underWay = change.moved?.elim r.underWay fun entry => r.underWay.add entry.1 entry.2 := by
  cases change with
  | increment | add => exact underWay_withCounters r _ _
  | incrementGauge | decrementGauge | addGauge | observe => rfl

/-- A change goes into the histograms only if it has a duration. -/
lemma durations_apply (r : Registry) (change : Change) :
    (r.apply change).durations =
      change.observed?.elim r.durations fun entry => r.durations.observe entry.1 entry.2 := by
  cases change with
  | increment | add => exact durations_withCounters r _ _
  | incrementGauge | decrementGauge | addGauge | observe => rfl

/-- A part of the registry that follows some of the changes is the family behind these. -/
lemma part_run {α β : Type} {start : α} {step : α → β → α} (part : Registry → Family α)
    (effect? : Change → Option (Labels × β)) (hempty : part empty = [])
    (happly : ∀ r change, part (r.apply change) =
      (effect? change).elim (part r) fun entry => (part r).update start entry.1 (step · entry.2))
    (changes : List Change) : part (run changes) = Family.ofUpdates start step (changes.filterMap effect?) := by
  induction changes using List.reverseRecOn with
  | nil => exact hempty
  | append_singleton changes last ih =>
    rw [run_append, List.foldl_cons, List.foldl_nil, happly, ih, List.filterMap_append]
    cases hlast : effect? last with
    | none => simp [hlast]
    | some entry => simp [hlast, Family.ofUpdates_concat]

/-- A family of counters is made of the changes that count for it, in their order. -/
lemma counters_run (changes : List Change) (family : CounterFamily) :
    (run changes).counters family = Family.ofUpdates 0 (· + ·) (changes.filterMap (Change.counted? family)) :=
  part_run (counters · family) (Change.counted? family) (by cases family <;> rfl)
    (fun r change => counters_apply r change family) changes

lemma underWay_run (changes : List Change) :
    (run changes).underWay = Family.ofUpdates 0 (· + ·) (changes.filterMap Change.moved?) :=
  part_run underWay Change.moved? rfl underWay_apply changes

lemma durations_run (changes : List Change) :
    (run changes).durations = Family.ofUpdates .empty Histogram.observe (changes.filterMap Change.observed?) :=
  part_run durations Change.observed? rfl durations_apply changes

/-- After any changes, a counter holds what has been added under its labels in any order, up to whole words, a gauge
too, with a sign, and a histogram the durations under its labels. Up to as many durations as a word can count, the
numbers of durations are exact, and those of the buckets ascend to the number of all. -/
theorem series_run (changes : List Change) (labels : Labels) :
    (∀ family, (((run changes).counters family).value labels).toNat =
      ((labels.under (changes.filterMap (Change.counted? family))).map UInt64.toNat).sum % Word.size) ∧
    ((run changes).underWay.value labels).toInt =
      ((labels.under (changes.filterMap Change.moved?)).map Int64.toInt).sum.bmod Word.size ∧
    (run changes).durations.count labels = ((run changes).durations.series .empty labels).count ∧
    ((run changes).durations.series .empty labels).Records (labels.under (changes.filterMap Change.observed?)) ∧
    ((labels.under (changes.filterMap Change.observed?)).length < Word.size →
      ((run changes).durations.series .empty labels).Exact
        (labels.under (changes.filterMap Change.observed?))) := by
  have hrecords : ((run changes).durations.series .empty labels).Records
      (labels.under (changes.filterMap Change.observed?)) := by
    rw [durations_run, Family.series_ofUpdates]
    exact Histogram.records_foldl _
  refine ⟨fun family => ?_, ?_, rfl, hrecords, hrecords.exact⟩
  · rw [Counters.value, counters_run, Family.series_ofUpdates, toNat_foldl_add, UInt64.toNat_zero, Nat.zero_add]
  · rw [Gauges.value, underWay_run, Family.series_ofUpdates, toInt_foldl_add, Int64.toInt_zero, Int.zero_add]

/-- An event of a cache that is counted with its labels in both orders, beside another event and a duration. -/
def cacheChanges : List Change :=
  [.increment .cacheEvents [("cache".toList, "include".toList), ("result".toList, "hit".toList)],
    .increment .cacheEvents [("result".toList, "hit".toList), ("cache".toList, "include".toList)],
    .increment .cacheEvents [("cache".toList, "include".toList), ("result".toList, "miss".toList)], .observe [] 700]

/-- The order of labels does not split a series, and one duration is within the word that counts it. -/
theorem series_run_cacheChanges :
    (((run cacheChanges).counters .cacheEvents).value (cacheLabels "include" "hit")).toNat = 2 ∧
      (Labels.under [] (cacheChanges.filterMap Change.observed?)).length < Word.size ∧
      ((run cacheChanges).durations.series .empty []).Exact [700] := by
  have hvalue := (series_run cacheChanges (cacheLabels "include" "hit")).1 .cacheEvents
  have hexact := (series_run cacheChanges []).2.2.2.2
  exact ⟨hvalue, by decide, hexact (by decide)⟩

end Registry

end Stencil.Metrics
