import Stencil.Proofs.Json.Reading
import Stencil.Proofs.Metrics.Reading
import Stencil.Proofs.Text.Cutting

/-!
# Every series has lines of its own

A line tells one figure of one series (`Figure`): the value of a counter or of a gauge, and what a histogram holds in a
bucket, altogether and as a sum. Which figure it is, the labels of the series and the number are all told from the line
(`Figure.Distinct.line_inj`). So among the lines of a family there is one for each figure of each series that has been
used, and no other (`Tells`, `Family.tells_figureLines`).
-/

namespace Stencil.Metrics

/-! ## Numbers -/

/-- Integers are told by their digits. -/
lemma ofInt_injective : Function.Injective Text.ofInt := by
  have hnat {m n : Nat} (h : Text.ofNat m = Text.ofNat n) : m = n := by
    rw [← Json.digitsValue_ofNat m, h, Json.digitsValue_ofNat]
  have hsign (m n : Nat) : '-' :: Text.ofNat m ≠ Text.ofNat n := fun h =>
    absurd (Json.isDigit_of_mem_ofNat (h ▸ List.mem_cons_self)) (by decide)
  intro i j h
  unfold Text.ofInt at h
  split at h
  · split at h
    · have := hnat (List.cons.inj h).2
      omega
    · exact absurd h (hsign _ _)
  · split at h
    · exact absurd h.symm (hsign _ _)
    · have := hnat h
      omega

lemma not_mem_ofInt {c : Char} (hminus : c ≠ '-') (hdigit : c.isDigit = false) (i : Int) : c ∉ Text.ofInt i := by
  intro hmem
  rcases Json.mem_ofInt hmem with hc | hc
  · exact hminus hc
  · rw [hdigit] at hc
    exact Bool.false_ne_true hc

/-! ## Lines -/

lemma sample_eq (name labels : Text) (n : Int) :
    sample name labels n = name ++ '\x7b' :: (labels ++ '\x7d' :: ' ' :: Text.ofInt n) := by
  simp [sample, Labels.braced]

/-- A line tells what stands in front of the first brace, the writing of its labels and its value: the last brace of it
is the one behind the labels. -/
lemma sample_inj {name suffix suffix' labels labels' : Text} {n n' : Int} (h : '\x7b' ∉ suffix)
    (h' : '\x7b' ∉ suffix') (heq : sample (name ++ suffix) labels n = sample (name ++ suffix') labels' n') :
    suffix = suffix' ∧ labels = labels' ∧ n = n' := by
  have hbrace (i : Int) : '\x7d' ∉ ' ' :: Text.ofInt i := by
    rw [List.mem_cons, not_or]
    exact ⟨by decide, not_mem_ofInt (by decide) rfl i⟩
  rw [sample_eq, sample_eq, List.append_assoc, List.append_assoc] at heq
  obtain ⟨hsuffix, hbehind⟩ := Text.append_cons_inj_of_first h h' (List.append_cancel_left heq)
  obtain ⟨hlabels, hvalue⟩ := Text.append_cons_inj_of_last (hbrace n) (hbrace n') hbehind
  exact ⟨hsuffix, hlabels, ofInt_injective (List.cons.inj hvalue).2⟩

lemma newline_not_mem_sample {name labels : Text} (hname : '\n' ∉ name) (hlabels : '\n' ∉ labels) (n : Int) :
    '\n' ∉ sample name labels n := by
  have hvalue := not_mem_ofInt (c := '\n') (by decide) rfl n
  simp [sample_eq, hname, hlabels, hvalue]

/-! ## Figures -/

/-- A figure of a series: what stands behind the name of the family in a line that tells it, the labels that stand there
behind those of the series, and the number. -/
structure Figure (α : Type) where
  suffix : Text
  extra : Labels
  value : α → Int

namespace Figure

variable {α : Type} {figures : List (Figure α)} {figure other : Figure α} {name : Text} {labels labels' : Labels}
  {n n' : Int}

/-- The line that tells that the figure of a series is a number. -/
def line (figure : Figure α) (name : Text) (labels : Labels) (n : Int) : Text :=
  sample (name ++ figure.suffix) (Labels.text (labels ++ figure.extra)) n

/-- Figures that can be told from each other by their lines. -/
structure Distinct (figures : List (Figure α)) : Prop where
  nodup : (figures.map fun figure => (figure.suffix, figure.extra)).Nodup
  plain : ∀ figure ∈ figures, '\x7b' ∉ figure.suffix ∧ '\n' ∉ figure.suffix
  named : ∀ figure ∈ figures, figure.extra.Named
  as_many : ∀ figure ∈ figures, ∀ other ∈ figures, figure.suffix = other.suffix →
    figure.extra.length = other.extra.length

/-- A line tells which figure it is about, of which series, and the number. -/
theorem Distinct.line_inj (h : Distinct figures) (hfigure : figure ∈ figures) (hother : other ∈ figures)
    (hlabels : labels.Named) (hlabels' : labels'.Named) (heq : figure.line name labels n = other.line name labels' n') :
    figure = other ∧ labels = labels' ∧ n = n' := by
  obtain ⟨hsuffix, htext, hn⟩ := sample_inj (h.plain _ hfigure).1 (h.plain _ hother).1 heq
  have hall := (Labels.text_inj (hlabels.append (h.named _ hfigure)) (hlabels'.append (h.named _ hother))).1 htext
  obtain ⟨hsame, hextra⟩ := List.append_inj' hall (h.as_many _ hfigure _ hother hsuffix)
  exact ⟨List.inj_on_of_nodup_map h.nodup hfigure hother (Prod.ext hsuffix hextra), hsame, hn⟩

/-- The line of a figure has no newline in it. -/
lemma Distinct.newline_not_mem_line (h : Distinct figures) (hfigure : figure ∈ figures) (hlabels : labels.Named)
    (hname : '\n' ∉ name) (n : Int) : '\n' ∉ figure.line name labels n := by
  have hfront : '\n' ∉ name ++ figure.suffix := by
    rw [List.mem_append, not_or]
    exact ⟨hname, (h.plain _ hfigure).2⟩
  exact newline_not_mem_sample hfront (Labels.newline_not_mem_text (hlabels.append (h.named _ hfigure))) n

/-- The only figure of a counter or of a gauge. -/
def ofValue (value : α → Int) : List (Figure α) := [⟨[], [], value⟩]

lemma line_value (value : α → Int) (name : Text) (labels : Labels) (n : Int) :
    line ⟨[], [], value⟩ name labels n = sample name labels.text n := by
  rw [line, List.append_nil, List.append_nil]

lemma distinct_ofValue (value : α → Int) : Distinct (ofValue value) := by
  constructor <;> simp [ofValue, Labels.Named]

/-- The figures of a histogram: those of its buckets, how many durations there were twice, and their sum. -/
def ofHistogram : List (Figure Histogram) :=
  (bucketBounds.zipIdx.map fun (bound, i) =>
    ⟨"_bucket".toList, [("le".toList, Text.ofNat bound)], fun h => (h.buckets.getD i 0).toNat⟩) ++
  [⟨"_bucket".toList, [("le".toList, "+Inf".toList)], fun h => h.count.toNat⟩,
    ⟨"_sum".toList, [], fun h => h.sum.toNat⟩, ⟨"_count".toList, [], fun h => h.count.toNat⟩]

lemma distinct_ofHistogram : Distinct ofHistogram where
  nodup := by decide +kernel
  plain := by decide +kernel
  named := by unfold Labels.Named; decide +kernel
  as_many := by decide +kernel

end Figure

/-- Whether labels are, in any order, those of one of some labelled things. -/
def Labels.UsedIn {β : Type} (entries : List (Labels × β)) (labels : Labels) : Prop :=
  ∃ entry ∈ entries, entry.1.Perm labels

/-- Lines that tell figures of the series that have been used: no two are the same and none is broken in two, each is
about a figure of such a series, and of all lines about a figure of a series, there is the one that tells the number. -/
structure Tells {α : Type} (lines : List Text) (name : Text) (figures : List (Figure α)) (used : Labels → Prop)
    (series : Labels → α) : Prop where
  nodup : lines.Nodup
  unbroken : ∀ line ∈ lines, '\n' ∉ line
  only : ∀ line ∈ lines, ∃ labels : Labels, labels.Named ∧ used labels ∧ ∃ figure ∈ figures,
    line = figure.line name labels.key (figure.value (series labels))
  mem_iff : ∀ figure ∈ figures, ∀ labels : Labels, labels.Named → ∀ n,
    figure.line name labels.key n ∈ lines ↔ used labels ∧ n = figure.value (series labels)

/-- Lines tell the series in whatever order they stand. -/
lemma Tells.of_perm {α : Type} {lines others : List Text} {name : Text} {figures : List (Figure α)}
    {used : Labels → Prop} {series : Labels → α} (h : Tells lines name figures used series)
    (hperm : others.Perm lines) : Tells others name figures used series where
  nodup := hperm.nodup_iff.2 h.nodup
  unbroken line hline := h.unbroken line (hperm.mem_iff.1 hline)
  only line hline := h.only line (hperm.mem_iff.1 hline)
  mem_iff figure hfigure labels hlabels n := hperm.mem_iff.trans (h.mem_iff figure hfigure labels hlabels n)

/-! ## Families -/

namespace Family

variable {α β : Type} {start : α} {change : α → β → α} {entries : List (Labels × β)} {figures : List (Figure α)}
  {name : Text}

/-- The keys of a family are those of the labels that have been used, each once. -/
lemma keys_ofUpdates (start : α) (change : α → β → α) (entries : List (Labels × β)) :
    ((ofUpdates start change entries).map Prod.fst).Nodup ∧
      ∀ key, key ∈ (ofUpdates start change entries).map Prod.fst ↔ ∃ entry ∈ entries, entry.1.key = key := by
  -- by induction from behind: the last update finds its key or appends it
  induction entries using List.reverseRecOn with
  | nil => exact ⟨List.nodup_nil, by simp [ofUpdates]⟩
  | append_singleton entries last ih =>
    obtain ⟨hnodup, hmem⟩ := ih
    rw [ofUpdates_concat, update, Table.map_fst_set]
    split
    · rename_i hold
      refine ⟨hnodup, fun key => ?_⟩
      rw [hmem]
      simp only [List.mem_append, List.mem_singleton]
      constructor
      · rintro ⟨entry, hentry, rfl⟩
        exact ⟨entry, .inl hentry, rfl⟩
      · rintro ⟨entry, hentry | rfl, rfl⟩
        · exact ⟨entry, hentry, rfl⟩
        · exact (hmem _).1 hold
    · rename_i hnew
      refine ⟨List.nodup_append.2 ⟨hnodup, List.nodup_singleton _, ?_⟩, fun key => ?_⟩
      · rintro key hkey other hother rfl
        exact hnew (List.mem_singleton.1 hother ▸ hkey)
      · rw [List.mem_append, hmem, List.mem_singleton]
        simp only [List.mem_append, List.mem_singleton, or_and_right, exists_or, exists_eq_left]
        exact or_congr Iff.rfl eq_comm

/-- What is in the table is the series of the labels that have been used, under their keys. -/
lemma mem_ofUpdates_iff {key : Labels} {a : α} :
    (key, a) ∈ ofUpdates start change entries ↔
      ∃ entry ∈ entries, entry.1.key = key ∧ (ofUpdates start change entries).series start entry.1 = a := by
  obtain ⟨hnodup, hkeys⟩ := keys_ofUpdates start change entries
  have hseries {labels : Labels} {a : α} (h : (labels.key, a) ∈ ofUpdates start change entries) :
      (ofUpdates start change entries).series start labels = a := by
    rw [series, (Table.get?_eq_some_iff_of_nodup hnodup).2 h, Option.getD_some]
  constructor
  · intro h
    obtain ⟨entry, hentry, rfl⟩ := (hkeys key).1 (List.mem_map_of_mem h)
    exact ⟨entry, hentry, rfl, hseries h⟩
  · rintro ⟨entry, hentry, rfl, rfl⟩
    obtain ⟨⟨key, a⟩, hmem, hkey⟩ := List.mem_map.1 ((hkeys entry.1.key).2 ⟨entry, hentry, rfl⟩)
    obtain rfl : key = entry.1.key := hkey
    exact hseries hmem ▸ hmem

/-- Lists of labels with one key have one series. -/
lemma series_eq_of_perm (f : Family α) (start : α) {labels others : Labels} (h : labels.Perm others) :
    f.series start labels = f.series start others := by
  rw [series, series, Labels.key_eq_iff.2 h]

/-- The lines about the figures of the series of a family, in the order of the table. -/
def figureLines (f : Family α) (name : Text) (figures : List (Figure α)) : List Text :=
  f.flatMap fun (key, a) => figures.map fun figure => figure.line name key (figure.value a)

/-- A line stands in the text if and only if it is one of a figure of a series in use. -/
lemma mem_figureLines {line : Text} :
    line ∈ (ofUpdates start change entries).figureLines name figures ↔
      ∃ entry ∈ entries, ∃ figure ∈ figures,
        figure.line name entry.1.key (figure.value ((ofUpdates start change entries).series start entry.1)) = line := by
  constructor
  · intro hline
    obtain ⟨series, hseries, hline⟩ := List.mem_flatMap.1 hline
    obtain ⟨figure, hfigure, rfl⟩ := List.mem_map.1 hline
    obtain ⟨entry, hentry, hkey, hvalue⟩ := mem_ofUpdates_iff.1 hseries
    exact ⟨entry, hentry, figure, hfigure, by rw [hkey, hvalue]⟩
  · rintro ⟨entry, hentry, figure, hfigure, rfl⟩
    exact List.mem_flatMap.2 ⟨_, mem_ofUpdates_iff.2 ⟨entry, hentry, rfl, rfl⟩, List.mem_map_of_mem hfigure⟩

/-- No line stands in the text twice. -/
lemma nodup_figureLines (hdistinct : Figure.Distinct figures) (hnamed : ∀ entry ∈ entries, entry.1.Named) :
    ((ofUpdates start change entries).figureLines name figures).Nodup := by
  have hkey {key : Labels} {a : α} (h : (key, a) ∈ ofUpdates start change entries) : key.Named := by
    obtain ⟨entry, hentry, rfl, -⟩ := mem_ofUpdates_iff.1 h
    exact (hnamed entry hentry).key
  refine List.nodup_flatMap.2 ⟨fun series hseries => ?_, ?_⟩
  · refine List.Nodup.map_on (fun figure hfigure other hother heq => ?_) (List.Nodup.of_map _ hdistinct.nodup)
    exact (hdistinct.line_inj hfigure hother (hkey hseries) (hkey hseries) heq).1
  · -- the keys differ, and a line tells the key
    have hkeys := List.pairwise_map.1 (keys_ofUpdates start change entries).1
    refine hkeys.imp_of_mem fun {one two} hone htwo hne line hline hline' => hne ?_
    obtain ⟨figure, hfigure, rfl⟩ := List.mem_map.1 hline
    obtain ⟨other, hother, heq⟩ := List.mem_map.1 hline'
    exact (hdistinct.line_inj hother hfigure (hkey htwo) (hkey hone) heq).2.1.symm

/-- The lines of a family tell the figures of the series whose labels have been used. -/
theorem tells_figureLines (hdistinct : Figure.Distinct figures) (hnamed : ∀ entry ∈ entries, entry.1.Named)
    (hname : '\n' ∉ name) :
    Tells ((ofUpdates start change entries).figureLines name figures) name figures (Labels.UsedIn entries)
      ((ofUpdates start change entries).series start) := by
  constructor
  case nodup => exact nodup_figureLines hdistinct hnamed
  case unbroken =>
    intro line hline
    obtain ⟨entry, hentry, figure, hfigure, rfl⟩ := mem_figureLines.1 hline
    exact hdistinct.newline_not_mem_line hfigure (hnamed entry hentry).key hname _
  case only =>
    intro line hline
    obtain ⟨entry, hentry, figure, hfigure, rfl⟩ := mem_figureLines.1 hline
    exact ⟨entry.1, hnamed entry hentry, ⟨entry, hentry, List.Perm.refl _⟩, figure, hfigure, rfl⟩
  case mem_iff =>
    intro figure hfigure labels hlabels n
    rw [mem_figureLines]
    constructor
    · rintro ⟨entry, hentry, other, hother, heq⟩
      -- equal lines are of the same figure and of labels with the same key
      obtain ⟨rfl, hkey, rfl⟩ := hdistinct.line_inj hother hfigure (hnamed entry hentry).key hlabels.key heq
      have hperm := Labels.key_eq_iff.1 hkey
      exact ⟨⟨entry, hentry, hperm⟩, by rw [series_eq_of_perm _ start hperm]⟩
    · rintro ⟨⟨entry, hentry, hperm⟩, rfl⟩
      refine ⟨entry, hentry, figure, hfigure, ?_⟩
      rw [Labels.key_eq_iff.2 hperm, series_eq_of_perm _ start hperm]

/-- The lines of counters and of gauges, in their order, are those about their values. -/
lemma perm_figureLines_ofValue (f : Family α) (name : Text) (value : α → Int) :
    ((f.map fun series => sample name series.1.text (value series.2)).mergeSort notBehind).Perm
      (f.figureLines name (Figure.ofValue value)) := by
  have hlines : f.figureLines name (Figure.ofValue value) =
      f.map fun series => sample name series.1.text (value series.2) := by
    rw [figureLines, List.map_eq_flatMap]
    exact List.flatMap_congr fun series _ =>
      congrArg ([·]) (Figure.line_value value name series.1 (value series.2))
  rw [hlines]
  exact List.mergeSort_perm _ _

end Family

/-! ## Histograms -/

/-- The bound of a bucket is written as one label more. -/
lemma bucketLabels_text (labels : Labels) (bound : Text) :
    bucketLabels labels.text bound = Labels.text (labels ++ [("le".toList, bound)]) := by
  by_cases hne : labels = []
  · rw [hne]
    rfl
  · have hempty : labels.text.isEmpty = false := List.isEmpty_eq_false_iff.2 (mt Labels.text_eq_nil_iff.1 hne)
    rw [bucketLabels, hempty, if_neg Bool.false_ne_true, Labels.text_concat hne, List.append_assoc]
    rfl

/-- The lines of a histogram are those of its figures. -/
lemma Histogram.lines_eq {h : Histogram} (hlength : h.buckets.length = bucketBounds.length) (name : Text)
    (labels : Labels) :
    h.lines name labels.text = Figure.ofHistogram.map fun figure => figure.line name labels (figure.value h) := by
  have hbuckets (write : Nat → UInt64 → Text) :
      bucketBounds.zipWith write h.buckets =
        bucketBounds.zipIdx.map fun (bound, i) => write bound (h.buckets.getD i 0) := by
    refine List.ext_getElem (by simp [hlength]) fun i hi hi' => ?_
    have hlt : i < h.buckets.length := by
      rw [List.length_zipWith] at hi
      omega
    simp [List.getElem?_eq_getElem hlt]
  rw [Figure.ofHistogram, List.map_append, List.map_map, Histogram.lines, hbuckets]
  simp only [bucketLabels_text]
  simp [Figure.line, Function.comp_def]

/-- The lines of histograms, in their order, are those about their figures. -/
lemma Histograms.perm_figureLines (f : Histograms) (name : Text)
    (hlength : ∀ series ∈ f, series.2.buckets.length = bucketBounds.length) :
    ((f.map fun series => series.2.lines name series.1.text).mergeSort notBehind).flatten.Perm
      (Family.figureLines f name Figure.ofHistogram) := by
  have hlines : Family.figureLines f name Figure.ofHistogram =
      (f.map fun series => series.2.lines name series.1.text).flatten := by
    rw [← List.flatMap_def, Family.figureLines]
    exact List.flatMap_congr fun series hseries => (Histogram.lines_eq (hlength series hseries) name series.1).symm
  rw [hlines]
  exact (List.mergeSort_perm _ _).flatten

/-- Behind any durations a histogram has a bucket for each bound. -/
lemma Histogram.length_buckets_of_mem {entries : List (Labels × Nat)} :
    ∀ series ∈ Family.ofUpdates empty Histogram.observe entries, series.2.buckets.length = bucketBounds.length := by
  rintro ⟨key, h⟩ hseries
  obtain ⟨entry, -, -, rfl⟩ := Family.mem_ofUpdates_iff.1 hseries
  rw [Family.series_ofUpdates, (records_foldl _).buckets, List.length_map]

/-! ## The registry -/

/-- The entries of named changes are named. -/
lemma Change.named_filterMap {β : Type} {effect? : Change → Option (Labels × β)} {changes : List Change}
    (heffect? : ∀ change entry, effect? change = some entry → entry.1 = change.labels)
    (hnamed : ∀ change ∈ changes, change.labels.Named) : ∀ entry ∈ changes.filterMap effect?, entry.1.Named := by
  intro entry hentry
  obtain ⟨change, hchange, hsome⟩ := List.mem_filterMap.1 hentry
  exact heffect? change entry hsome ▸ hnamed change hchange

open Labels in
/-- The writing of labels tells what labels they are, and no line ends in it, so labels are read back from it. After any
changes under labels with names, the lines of each family of counters, of the gauges and of the histograms tell the
figures of the series that have been used, each in one line of its own. -/
theorem text_tells_labels :
    (∀ labels others : Labels, labels.Named → others.Named →
      (text (key labels) = text (key others) ↔ labels.Perm others)) ∧
    (∀ labels : Labels, labels.Named → '\n' ∉ text (key labels) ∧ read? (text (key labels)) = some (key labels)) ∧
    ∀ (changes : List Change) (name : Text), (∀ change ∈ changes, change.labels.Named) → '\n' ∉ name →
      (∀ family, ∃ lines, ((Registry.run changes).counters family).lines name = typeLine name "counter" :: lines ∧
        Tells lines name (Figure.ofValue fun n => n.toNat) (UsedIn (changes.filterMap (Change.counted? family)))
          ((Registry.run changes).counters family).value) ∧
      (∃ lines, (Registry.run changes).underWay.lines name = typeLine name "gauge" :: lines ∧
        Tells lines name (Figure.ofValue Int64.toInt) (UsedIn (changes.filterMap Change.moved?))
          (Registry.run changes).underWay.value) ∧
      ∃ lines, (Registry.run changes).durations.lines name = typeLine name "histogram" :: lines ∧
        Tells lines name Figure.ofHistogram (UsedIn (changes.filterMap Change.observed?))
          ((Registry.run changes).durations.series .empty) := by
  refine ⟨fun _ _ => text_key_eq_iff, fun labels hlabels => ?_, fun changes name hnamed hname => ?_⟩
  · exact ⟨newline_not_mem_text hlabels.key, read?_text hlabels.key⟩
  -- each family is made of the changes that are about it, and its lines are those of its figures in some order
  refine ⟨fun family => ?_, ?_, ?_⟩
  · have hentries := Change.named_filterMap (fun change => @Change.labels_of_counted? change family) hnamed
    rw [Registry.counters_run]
    refine ⟨_, rfl, Tells.of_perm ?_ (Family.perm_figureLines_ofValue _ name fun n : UInt64 => n.toNat)⟩
    exact Family.tells_figureLines (Figure.distinct_ofValue _) hentries hname
  · have hentries := Change.named_filterMap (fun _ _ => Change.labels_of_moved?) hnamed
    rw [Registry.underWay_run]
    refine ⟨_, rfl, Tells.of_perm ?_ (Family.perm_figureLines_ofValue _ name Int64.toInt)⟩
    exact Family.tells_figureLines (Figure.distinct_ofValue _) hentries hname
  · have hentries := Change.named_filterMap (fun _ _ => Change.labels_of_observed?) hnamed
    rw [Registry.durations_run]
    refine ⟨_, rfl, Tells.of_perm ?_ (Histograms.perm_figureLines _ name Histogram.length_buckets_of_mem)⟩
    exact Family.tells_figureLines Figure.distinct_ofHistogram hentries hname

/-- One label whose value looks like the end of it and another label. -/
def quotedLabel : Labels := [("a".toList, "x\",b=\"y".toList)]

/-- The two labels that it looks like. -/
def plainLabels : Labels := [("a".toList, "x".toList), ("b".toList, "y".toList)]

/-- Counters under both. -/
def lookingAlike : List Change := [.increment .renders quotedLabel, .add .renders plainLabels 2]

/-- A label is not taken for two by what its value is, it is read back, and its counter has a line of its own. -/
theorem text_tells_quotedLabel :
    quotedLabel.Named ∧ plainLabels.Named ∧ '\n' ∉ ['m'] ∧
      Labels.text (Labels.key quotedLabel) ≠ Labels.text (Labels.key plainLabels) ∧
      Labels.read? (Labels.text (Labels.key quotedLabel)) = some (Labels.key quotedLabel) ∧
      ∃ lines, ((Registry.run lookingAlike).counters .renders).lines ['m'] = typeLine ['m'] "counter" :: lines ∧
        sample ['m'] (Labels.text (Labels.key quotedLabel)) 1 ∈ lines := by
  have hquoted : quotedLabel.Named := by unfold Labels.Named; decide
  have hplain : plainLabels.Named := by unfold Labels.Named; decide
  have hnamed : ∀ change ∈ lookingAlike, change.labels.Named :=
    List.forall_mem_cons.2 ⟨hquoted, List.forall_mem_singleton.2 hplain⟩
  obtain ⟨hinjective, hread, hlines⟩ := text_tells_labels
  obtain ⟨lines, heq, htells⟩ := (hlines lookingAlike ['m'] hnamed (by decide)).1 .renders
  refine ⟨hquoted, hplain, by decide, fun hsame => ?_, (hread quotedLabel hquoted).2, lines, heq, ?_⟩
  · exact absurd ((hinjective quotedLabel plainLabels hquoted hplain).1 hsame).length_eq (by decide)
  · have hused : Labels.UsedIn (lookingAlike.filterMap (Change.counted? .renders)) quotedLabel :=
      ⟨_, List.mem_cons_self, List.Perm.refl _⟩
    have hvalue : ((Registry.run lookingAlike).counters .renders).value quotedLabel = 1 := by
      rw [Counters.value, Registry.counters_run, Family.series_ofUpdates]
      decide +kernel
    rw [← Figure.line_value fun n : UInt64 => n.toNat]
    exact (htells.mem_iff _ List.mem_cons_self quotedLabel hquoted 1).2 ⟨hused, by rw [hvalue]; rfl⟩

end Stencil.Metrics
