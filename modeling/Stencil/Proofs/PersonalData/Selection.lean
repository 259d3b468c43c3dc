import Mathlib.Data.List.Basic
import Stencil.PersonalData
import Stencil.Proofs.Text.Cutting

/-!
# Which findings are masked

A detector reports what it likes: findings in any order, that overlap, are empty, fall inside a character or lie behind
the end of the text. Those that are none of the last three are looked at from left to right (`Finding.InOrder`), and
each one is masked that begins no earlier than the end of the last one masked (`selectFrom`).

One finding at a time is looked at, and is either passed over or cut out of the text (`Finding.looked_at`). So every cut
is made between two characters of the text, and nothing is changed but the stretches cut out (`mask_spec`).
-/

namespace Stencil.PersonalData

/-! ## Findings of a text -/

namespace Finding

/-- A finding that a text can have: it is not empty, and begins and ends between characters of the text. -/
structure WellFormed (t : Text) (f : Finding) : Prop where
  nonempty : f.start < f.stop
  start : t.IsBoundary f.start
  stop : t.IsBoundary f.stop

instance (t : Text) (f : Finding) : Decidable (f.WellFormed t) :=
  decidable_of_iff (f.start < f.stop ∧ t.IsBoundary f.start ∧ t.IsBoundary f.stop)
    ⟨fun h => ⟨h.1, h.2.1, h.2.2⟩, fun h => ⟨h.nonempty, h.start, h.stop⟩⟩

/-- Whether a finding is about the stretch between two positions. -/
def isAbout (start stop : Nat) (f : Finding) : Bool := f.start == start && f.stop == stop

/-- Whether one finding is not behind another: it begins in front of it, or with it and ends no later. -/
def Precedes (f g : Finding) : Prop := f.start < g.start ∨ f.start = g.start ∧ f.stop ≤ g.stop

instance (f g : Finding) : Decidable (f.Precedes g) := inferInstanceAs (Decidable (_ ∨ _))

/-- A row of findings in the order in which they are looked at: from left to right, of those that begin together the
one that ends first, and those about one stretch as they were reported. -/
structure InOrder (findings row : List Finding) : Prop where
  ascending : row.Pairwise Precedes
  reported : ∀ start stop, row.filter (isAbout start stop) = findings.filter (isAbout start stop)

lemma le_iff {f g : Finding} : le f g = true ↔ f.Precedes g := by
  simp [le, Precedes]

lemma le_trans (f g h : Finding) (hfg : le f g = true) (hgh : le g h = true) : le f h = true := by
  rw [le_iff, Precedes] at *
  omega

lemma le_total (f g : Finding) : (le f g || le g f) = true := by
  rw [Bool.or_eq_true, le_iff, le_iff, Precedes, Precedes]
  omega

/-- Sorting leaves the findings about one stretch as they are. -/
lemma filter_isAbout_mergeSort (findings : List Finding) (start stop : Nat) :
    (findings.mergeSort le).filter (isAbout start stop) = findings.filter (isAbout start stop) := by
  have hpairwise : (findings.filter (isAbout start stop)).Pairwise fun f g => le f g = true := by
    refine List.pairwise_of_forall_mem_list fun f hf g hg => ?_
    have hf := List.of_mem_filter hf
    have hg := List.of_mem_filter hg
    simp only [isAbout, Bool.and_eq_true, beq_iff_eq] at hf hg
    rw [le_iff, Precedes]
    omega
  have hsublist := (List.sublist_mergeSort le_trans le_total hpairwise List.filter_sublist).filter (isAbout start stop)
  simp only [List.filter_filter, Bool.and_self] at hsublist
  exact (hsublist.eq_of_length ((List.mergeSort_perm findings le).filter _).length_eq.symm).symm

/-- Sorting brings findings in order, and those of them that have some property. -/
lemma inOrder_mergeSort (findings : List Finding) (p : Finding → Bool) :
    InOrder (findings.filter p) ((findings.mergeSort le).filter p) where
  ascending := ((List.pairwise_mergeSort le_trans le_total findings).filter p).imp le_iff.1
  reported start stop := by
    rw [List.filter_comm, filter_isAbout_mergeSort, List.filter_comm]

namespace InOrder

variable {findings row other : List Finding}

lemma count_eq (h : InOrder findings row) (f : Finding) : row.count f = findings.count f := by
  have habout : isAbout f.start f.stop f = true := by simp [isAbout]
  rw [← List.count_filter habout, h.reported, List.count_filter habout]

lemma mem_iff (h : InOrder findings row) {f : Finding} : f ∈ row ↔ f ∈ findings := by
  rw [← List.count_pos_iff, h.count_eq, List.count_pos_iff]

/-- There is only one order. -/
lemma unique (h : InOrder findings row) (h' : InOrder findings other) : row = other := by
  induction row generalizing findings other with
  | nil =>
    refine (List.eq_nil_iff_forall_not_mem.2 fun f hf => ?_).symm
    exact List.not_mem_nil (h.mem_iff.2 (h'.mem_iff.1 hf))
  | cons f row ih =>
    cases other with
    | nil => exact absurd (h'.mem_iff.2 (h.mem_iff.1 List.mem_cons_self)) List.not_mem_nil
    | cons g other =>
      -- neither of the first two comes before the other, so they are about one stretch
      have hstretch : f.start = g.start ∧ f.stop = g.stop := by
        have hg : g ∈ f :: row := h.mem_iff.2 (h'.mem_iff.1 List.mem_cons_self)
        have hf : f ∈ g :: other := h'.mem_iff.2 (h.mem_iff.1 List.mem_cons_self)
        rcases List.mem_cons.1 hg with rfl | hg
        · exact ⟨rfl, rfl⟩
        rcases List.mem_cons.1 hf with rfl | hf
        · exact ⟨rfl, rfl⟩
        have hfg := (List.pairwise_cons.1 h.ascending).1 g hg
        have hgf := (List.pairwise_cons.1 h'.ascending).1 f hf
        unfold Precedes at hfg hgf
        omega
      have hsame : f = g := by
        have hreported := (h.reported f.start f.stop).trans (h'.reported f.start f.stop).symm
        rw [List.filter_cons_of_pos (by simp [isAbout]), List.filter_cons_of_pos (by simp [isAbout, hstretch])]
          at hreported
        exact (List.cons.inj hreported).1
      subst hsame
      have hrest : ∀ start stop, row.filter (isAbout start stop) = other.filter (isAbout start stop) := by
        intro start stop
        have hreported := (h.reported start stop).trans (h'.reported start stop).symm
        rw [List.filter_cons, List.filter_cons] at hreported
        split at hreported
        · exact (List.cons.inj hreported).2
        · exact hreported
      rw [ih ⟨(List.pairwise_cons.1 h.ascending).2, hrest⟩ ⟨(List.pairwise_cons.1 h'.ascending).2, fun _ _ => rfl⟩]

end InOrder

end Finding

/-! ## Selecting and masking -/

/-- The findings of a row that are masked: each that begins no earlier than the end of the last one masked. -/
def selectFrom : Nat → List Finding → List Finding
  | _, [] => []
  | position, f :: rest => if position ≤ f.start then f :: selectFrom f.stop rest else selectFrom position rest

/-- The findings of a text that are masked. -/
def selected (t : Text) (findings : List Finding) : List Finding :=
  selectFrom 0 ((findings.mergeSort Finding.le).filter (·.WellFormed t))

/-- A text that begins at a byte position, with the stretches of some findings replaced by their markers and all else
kept. -/
inductive Masked : Nat → Text → List Finding → Text → Prop
  | rest (position : Nat) (t : Text) : Masked position t [] t
  | finding {position : Nat} {front hidden behind out : Text} {f : Finding} {later : List Finding} :
      position + Text.byteLength front = f.start → f.start + Text.byteLength hidden = f.stop →
      Masked f.stop behind later out →
      Masked position (front ++ hidden ++ behind) (f :: later) (front ++ marker f.kind ++ out)

/-- Masking as one pass along a text, with a place up to which the text is done. What is kept is cut out of the whole
text; nothing comes of it if a cut were to fall inside a character, behind the end or in front of the place. -/
def cutting? (t : Text) : Nat → List Finding → Option Text
  | place, [] => Text.slice? place (Text.byteLength t) t
  | place, f :: rest =>
    if place ≤ f.start ∧ f.WellFormed t then do
      let front ← Text.slice? place f.start t
      let later ← cutting? t f.stop rest
      return front ++ marker f.kind ++ later
    else cutting? t place rest

section

variable {position : Nat} {row : List Finding}

/-- The selected findings are some of the row, in its order. -/
lemma selectFrom_sublist : (selectFrom position row).Sublist row := by
  induction row generalizing position with
  | nil => exact List.Sublist.slnil
  | cons f row ih =>
    rw [selectFrom]
    split
    · exact ih.cons_cons f
    · exact ih.cons f

/-- No finding is selected that starts before the place that was reached. -/
lemma le_start_of_mem_selectFrom (hrow : ∀ f ∈ row, f.start < f.stop) :
    ∀ f ∈ selectFrom position row, position ≤ f.start := by
  induction row generalizing position with
  | nil => simp [selectFrom]
  | cons g row ih =>
    obtain ⟨hg, hrow⟩ := List.forall_mem_cons.1 hrow
    rw [selectFrom]
    split
    · rename_i hbehind
      refine List.forall_mem_cons.2 ⟨hbehind, fun f hf => ?_⟩
      have := ih hrow f hf
      omega
    · exact ih hrow

/-- What is masked lies apart, from left to right. -/
lemma pairwise_selectFrom (hrow : ∀ f ∈ row, f.start < f.stop) :
    (selectFrom position row).Pairwise fun f g => f.stop ≤ g.start := by
  induction row generalizing position with
  | nil => exact List.Pairwise.nil
  | cons f row ih =>
    have hrest := (List.forall_mem_cons.1 hrow).2
    rw [selectFrom]
    split
    · exact List.pairwise_cons.2 ⟨le_start_of_mem_selectFrom hrest, ih hrest⟩
    · exact ih hrest

end

/-! ## One finding at a time -/

section

variable (before t : Text) (f : Finding) (rest : List Finding)

/-- What becomes of a finding: it is passed over if the text cannot have it or if it begins too early, and otherwise it
is cut out of the text. -/
theorem Finding.looked_at :
    (¬ (Text.byteLength before ≤ f.start ∧ f.WellFormed (before ++ t)) ∧
      maskFrom (Text.byteLength before) t (f :: rest) = maskFrom (Text.byteLength before) t rest) ∨
    ∃ front hidden behind, t = front ++ hidden ++ behind ∧ Text.byteLength (before ++ front) = f.start ∧
      Text.byteLength (before ++ front ++ hidden) = f.stop ∧ f.start < f.stop ∧
      maskFrom (Text.byteLength before) t (f :: rest) = front ++ marker f.kind ++ maskFrom f.stop behind rest := by
  -- a finding is passed over for one of three reasons: it begins too early, or one of its ends is no boundary
  rw [maskFrom]
  split
  · rename_i hout
    exact .inl ⟨fun h => by have := h.2.nonempty; omega, rfl⟩
  rename_i hin
  split
  · rename_i hcut
    refine .inl ⟨fun h => ?_, rfl⟩
    have hstart := h.2.start
    rw [← Nat.add_sub_cancel' h.1, Text.isBoundary_append] at hstart
    exact Text.splitAtByte?_eq_none_iff.1 hcut hstart
  rename_i front back hfront
  obtain ⟨rfl, hlength⟩ := Text.splitAtByte?_eq_some_iff.1 hfront
  have hstart : Text.byteLength (before ++ front) = f.start := by
    rw [Text.byteLength_append]
    omega
  split
  · rename_i hcut
    refine .inl ⟨fun h => ?_, rfl⟩
    have hstop := h.2.stop
    rw [← List.append_assoc, ← Nat.add_sub_cancel' h.2.nonempty.le, ← hstart, Text.isBoundary_append] at hstop
    rw [← hstart] at hcut
    exact Text.splitAtByte?_eq_none_iff.1 hcut hstop
  rename_i hidden behind hhidden
  obtain ⟨rfl, hlength'⟩ := Text.splitAtByte?_eq_some_iff.1 hhidden
  refine .inr ⟨front, hidden, behind, (List.append_assoc ..).symm, hstart, ?_, by omega, rfl⟩
  rw [Text.byteLength_append]
  omega

end

lemma Finding.wellFormed_of_cut {before front hidden behind : Text} {f : Finding}
    (hstart : Text.byteLength (before ++ front) = f.start)
    (hstop : Text.byteLength (before ++ front ++ hidden) = f.stop)
    (hne : f.start < f.stop) : f.WellFormed (before ++ (front ++ hidden ++ behind)) where
  nonempty := hne
  start := ⟨before ++ front, hidden ++ behind, by simp only [List.append_assoc], hstart⟩
  stop := ⟨before ++ front ++ hidden, behind, by simp only [List.append_assoc], hstop⟩

/-- Masking replaces what is selected among the findings that the text can have. -/
lemma masked_maskFrom (before t : Text) (row : List Finding) :
    Masked (Text.byteLength before) t (selectFrom (Text.byteLength before) (row.filter (·.WellFormed (before ++ t))))
      (maskFrom (Text.byteLength before) t row) := by
  induction row generalizing before t with
  | nil => exact .rest _ t
  | cons f row ih =>
    rcases Finding.looked_at before t f row with ⟨hout, hmask⟩ | ⟨front, hidden, behind, rfl, hstart, hstop, hne, hmask⟩
    · have hselect : selectFrom (Text.byteLength before) ((f :: row).filter (·.WellFormed (before ++ t))) =
          selectFrom (Text.byteLength before) (row.filter (·.WellFormed (before ++ t))) := by
        rw [List.filter_cons]
        split
        · rename_i hf
          rw [selectFrom, if_neg fun hbehind => hout ⟨hbehind, of_decide_eq_true hf⟩]
        · rfl
      rw [hmask, hselect]
      exact ih before t
    · have hf : f.WellFormed (before ++ (front ++ hidden ++ behind)) := Finding.wellFormed_of_cut hstart hstop hne
      have hlater := ih (before ++ front ++ hidden) behind
      rw [Text.byteLength_append] at hstart
      rw [hmask, List.filter_cons_of_pos (by simpa using hf), selectFrom, if_pos (by omega)]
      rw [hstop, List.append_assoc, List.append_assoc, ← List.append_assoc front] at hlater
      refine .finding hstart ?_ hlater
      rw [Text.byteLength_append, Text.byteLength_append] at hstop
      omega

/-- Every cut falls between characters, and none goes back. -/
lemma cutting?_eq_some (before t : Text) (row : List Finding) :
    cutting? (before ++ t) (Text.byteLength before) row = some (maskFrom (Text.byteLength before) t row) := by
  induction row generalizing before t with
  | nil =>
    have hslice := Text.slice?_append before t []
    rwa [List.append_nil] at hslice
  | cons f row ih =>
    rcases Finding.looked_at before t f row with ⟨hout, hmask⟩ | ⟨front, hidden, behind, rfl, hstart, hstop, hne, hmask⟩
    · rw [cutting?, if_neg hout, hmask]
      exact ih before t
    · have hf : f.WellFormed (before ++ (front ++ hidden ++ behind)) := Finding.wellFormed_of_cut hstart hstop hne
      have hfront := Text.slice?_append before front (hidden ++ behind)
      have hlater := ih (before ++ front ++ hidden) behind
      rw [hstart] at hfront
      rw [hstop] at hlater
      rw [cutting?, if_pos ⟨by rw [Text.byteLength_append] at hstart; omega, hf⟩, hmask]
      simp only [List.append_assoc] at hfront hlater ⊢
      rw [hfront, hlater]
      rfl

/-- Masking ends for every text and whatever is reported, without a cut inside a character or outside of the text. There
is one order in which the findings that the text can have are looked at, and those selected in this order from left to
right lie apart and are replaced by their markers, with all else kept. -/
theorem mask_spec (t : Text) (findings : List Finding) :
    cutting? t 0 (findings.mergeSort Finding.le) = some (mask t findings) ∧
    ∃ row, (∀ other, Finding.InOrder (findings.filter (·.WellFormed t)) other ↔ other = row) ∧
      (∀ f ∈ selectFrom 0 row, f ∈ findings ∧ f.WellFormed t) ∧
      (selectFrom 0 row).Pairwise (fun f g => f.stop ≤ g.start) ∧
      Masked 0 t (selectFrom 0 row) (mask t findings) := by
  have horder := Finding.inOrder_mergeSort findings (·.WellFormed t)
  have hrow : ∀ f ∈ (findings.mergeSort Finding.le).filter (·.WellFormed t), f ∈ findings ∧ f.WellFormed t := by
    intro f hf
    obtain ⟨hmem, hwell⟩ := List.mem_filter.1 (horder.mem_iff.1 hf)
    exact ⟨hmem, of_decide_eq_true hwell⟩
  refine ⟨cutting?_eq_some [] t _, _, fun other => ⟨fun h => h.unique horder, fun h => h ▸ horder⟩, fun f hf => ?_, ?_,
    masked_maskFrom [] t _⟩
  · exact hrow f (selectFrom_sublist.subset hf)
  · exact pairwise_selectFrom fun f hf => (hrow f hf).2.nonempty

end Stencil.PersonalData
