import Stencil.Proofs.PersonalData.Selection

/-!
# What a masked text shows

Of a text that is masked, just those characters are shown that no selected finding covers (`Masked.shows`). A finding
that begins inside a selected one is passed over as a whole, so what it covers behind the end of that one is shown
(`exists_covered_shown`). Nothing is shown that any finding covers if the selected ones cover as much as all of them do;
so it is if of any two that overlap the one that comes first reaches as far as the other (`Nested`).

Main statement: what is shown of a text (`shows_mask`).
-/

namespace Stencil.PersonalData

/-! ## What is covered -/

/-- Whether a byte of a text lies in one of some findings. -/
def covered (findings : List Finding) (byte : Nat) : Bool := findings.any fun f => f.start ≤ byte && byte < f.stop

/-- Whether of any two findings that overlap the one that is not behind the other reaches as far. -/
def Nested (findings : List Finding) : Prop :=
  ∀ f ∈ findings, ∀ g ∈ findings, f.Precedes g → g.start < f.stop → g.stop ≤ f.stop

instance (findings : List Finding) : Decidable (Nested findings) :=
  inferInstanceAs (Decidable (∀ f ∈ findings, ∀ g ∈ findings, f.Precedes g → g.start < f.stop → g.stop ≤ f.stop))

lemma covered_eq_true_iff {findings : List Finding} {byte : Nat} :
    covered findings byte = true ↔ ∃ f ∈ findings, f.start ≤ byte ∧ byte < f.stop := by
  simp [covered]

lemma covered_eq_false_iff {findings : List Finding} {byte : Nat} :
    covered findings byte = false ↔ ∀ f ∈ findings, byte < f.start ∨ f.stop ≤ byte := by
  rw [← Bool.not_eq_true, covered_eq_true_iff]
  simp only [not_exists, not_and, Nat.not_lt]
  exact forall₂_congr fun f _ => by omega

/-- The characters of a text that begins at a byte position, each with its position. -/
def placed (position : Nat) : Text → List (Nat × Char)
  | [] => []
  | c :: rest => (position, c) :: placed (position + c.utf8Size) rest

/-- The characters of a text that begins at a byte position of which no byte lies in a finding. -/
def uncovered (findings : List Finding) (position : Nat) (t : Text) : List (Nat × Char) :=
  (placed position t).filter fun (place, c) => (List.range c.utf8Size).all fun i => !covered findings (place + i)

lemma placed_append (position : Nat) (s t : Text) :
    placed position (s ++ t) = placed position s ++ placed (position + Text.byteLength s) t := by
  induction s generalizing position with
  | nil => rfl
  | cons c s ih => rw [List.cons_append, placed, ih, placed, Text.byteLength_cons, Nat.add_assoc, List.cons_append]

/-- Every placed character lies within the bytes of the text. -/
lemma bounds_of_mem_placed {position place : Nat} {t : Text} {c : Char} (h : (place, c) ∈ placed position t) :
    position ≤ place ∧ place + c.utf8Size ≤ position + Text.byteLength t := by
  induction t generalizing position with
  | nil => simp [placed] at h
  | cons d t ih =>
    rw [Text.byteLength_cons]
    rcases List.mem_cons.1 h with heq | h
    · obtain ⟨rfl, rfl⟩ := Prod.mk.inj heq
      omega
    · have := ih h
      omega

section

variable {findings : List Finding} {f : Finding} {position : Nat} {t : Text}

/-- What is uncovered in two texts is what is uncovered in each of them. -/
lemma uncovered_append (findings : List Finding) (position : Nat) (s t : Text) :
    uncovered findings position (s ++ t) =
      uncovered findings position s ++ uncovered findings (position + Text.byteLength s) t := by
  rw [uncovered, placed_append, List.filter_append]
  rfl

/-- Nothing is covered of a text that no finding reaches into. -/
lemma uncovered_eq_placed (h : ∀ f ∈ findings, position + Text.byteLength t ≤ f.start ∨ f.stop ≤ position) :
    uncovered findings position t = placed position t := by
  refine List.filter_eq_self.2 fun placing hmem => ?_
  obtain ⟨place, c⟩ := placing
  have hbounds := bounds_of_mem_placed hmem
  simp only [List.all_eq_true, List.mem_range, Bool.not_eq_true']
  intro i hi
  refine covered_eq_false_iff.2 fun f hf => ?_
  have := h f hf
  omega

/-- Everything is covered of a text that lies in a finding. -/
lemma uncovered_eq_nil (hf : f ∈ findings) (hstart : f.start ≤ position)
    (hstop : position + Text.byteLength t ≤ f.stop) : uncovered findings position t = [] := by
  refine List.filter_eq_nil_iff.2 fun placing hmem hnone => ?_
  obtain ⟨place, c⟩ := placing
  have hbounds := bounds_of_mem_placed hmem
  have hsize := c.utf8Size_pos
  have hfirst := List.all_eq_true.1 hnone 0 (List.mem_range.2 hsize)
  rw [Bool.not_eq_true', covered_eq_false_iff] at hfirst
  have := hfirst f hf
  omega

/-- A finding that ends in front of a text covers nothing of it. -/
lemma uncovered_cons (h : f.stop ≤ position) :
    uncovered (f :: findings) position t = uncovered findings position t := by
  refine List.filter_congr fun placing hmem => ?_
  obtain ⟨place, c⟩ := placing
  have hbounds := bounds_of_mem_placed hmem
  have hbehind : ∀ i, covered (f :: findings) (place + i) = covered findings (place + i) := by
    intro i
    have hnone : (decide (f.start ≤ place + i) && decide (place + i < f.stop)) = false := by simp; omega
    rw [covered, List.any_cons, hnone, Bool.false_or]
    rfl
  simp only [hbehind]

end

/-! ## What is shown -/

/-- What a masked text is made of: characters of the text, with their positions, and markers. -/
inductive Item where
  | kept (position : Nat) (c : Char)
  | marker (f : Finding)

namespace Item

/-- An item as it is shown. -/
def shown : Item → Text
  | .kept _ c => [c]
  | .marker f => PersonalData.marker f.kind

/-- The character of the text that an item shows, with its position. -/
def kept? : Item → Option (Nat × Char)
  | .kept position c => some (position, c)
  | .marker _ => none

/-- The finding whose marker an item is. -/
def marker? : Item → Option Finding
  | .kept _ _ => none
  | .marker f => some f

/-- Text that is kept as it is. -/
def keep (position : Nat) (t : Text) : List Item := (placed position t).map fun (place, c) => .kept place c

lemma flatMap_shown_keep (position : Nat) (t : Text) : (keep position t).flatMap shown = t := by
  induction t generalizing position with
  | nil => rfl
  | cons c t ih =>
    rw [keep, placed, List.map_cons, List.flatMap_cons]
    exact congrArg _ (ih _)

lemma filterMap_kept?_keep (position : Nat) (t : Text) : (keep position t).filterMap kept? = placed position t := by
  rw [keep, List.filterMap_map]
  exact List.filterMap_some

lemma filterMap_marker?_keep (position : Nat) (t : Text) : (keep position t).filterMap marker? = [] := by
  rw [keep, List.filterMap_map]
  exact List.filterMap_eq_nil_iff.2 fun _ _ => rfl

end Item

/-- Whether a masked text shows, of a text that begins at a byte position, just the characters that some findings do
not cover, in their order, and the markers of findings. -/
def Shows (covering marked : List Finding) (position : Nat) (t out : Text) : Prop :=
  ∃ items : List Item, items.flatMap Item.shown = out ∧ items.filterMap Item.kept? = uncovered covering position t ∧
    items.filterMap Item.marker? = marked

section

variable {position : Nat} {t out : Text} {chosen findings : List Finding}

/-- What is masked starts at the place where the masking stands or behind it. -/
lemma Masked.le_start (h : Masked position t chosen out) : ∀ f ∈ chosen, position ≤ f.start := by
  induction h with
  | rest => simp
  | finding hstart hstop _ ih =>
    refine List.forall_mem_cons.2 ⟨by omega, fun g hg => ?_⟩
    have := ih g hg
    omega

/-- What is not covered by a finding that is replaced is shown, and nothing else. -/
theorem Masked.shows (h : Masked position t chosen out) : Shows chosen chosen position t out := by
  induction h with
  | rest position t =>
    refine ⟨Item.keep position t, Item.flatMap_shown_keep position t, ?_, Item.filterMap_marker?_keep position t⟩
    rw [Item.filterMap_kept?_keep, uncovered_eq_placed (by simp)]
  | @finding position front hidden behind out f later hstart hstop hlater ih =>
    obtain ⟨items, rfl, hkept, hmarked⟩ := ih
    have hbehind : ∀ g ∈ later, f.stop ≤ g.start := hlater.le_start
    refine ⟨Item.keep position front ++ .marker f :: items, ?_, ?_, ?_⟩
    · rw [List.flatMap_append, Item.flatMap_shown_keep, List.flatMap_cons, List.append_assoc]
      rfl
    · have hfront : uncovered (f :: later) position front = placed position front := by
        refine uncovered_eq_placed (List.forall_mem_cons.2 ⟨by omega, fun g hg => ?_⟩)
        have := hbehind g hg
        omega
      have hhidden : uncovered (f :: later) f.start hidden = [] :=
        uncovered_eq_nil List.mem_cons_self (Nat.le_refl _) (by omega)
      rw [uncovered_append, uncovered_append, Text.byteLength_append, ← Nat.add_assoc, hstart, hstop, hfront, hhidden,
        uncovered_cons (Nat.le_refl _), ← hkept, List.append_nil, List.filterMap_append, Item.filterMap_kept?_keep]
      rfl
    · rw [List.filterMap_append, Item.filterMap_marker?_keep, ← hmarked]
      rfl

/-- What is shown hangs on nothing but the bytes that are covered. -/
lemma Shows.of_covered_eq {covering other marked : List Finding} (h : Shows covering marked position t out)
    (hsame : ∀ byte, covered covering byte = covered other byte) : Shows other marked position t out := by
  obtain ⟨items, hshown, hkept, hmarked⟩ := h
  refine ⟨items, hshown, hkept.trans ?_, hmarked⟩
  simp only [uncovered, hsame]

/-! ## Findings that reach as far as what they overlap -/

/-- In a row in which no finding reaches beyond one in front of it that it overlaps, and none beyond a position that it
begins in front of, what is covered behind the position is covered by what is selected. -/
lemma covered_selectFrom {row : List Finding} {byte : Nat} (hrow : row.Pairwise Finding.Precedes)
    (hnested : Nested row) (hposition : ∀ f ∈ row, f.start < position → f.stop ≤ position)
    (hcovered : covered row byte = true) : byte < position ∨ covered (selectFrom position row) byte = true := by
  -- by induction on the row; what begins in front of the position ends in front of it, which nesting keeps true
  induction row generalizing position with
  | nil => simp [covered] at hcovered
  | cons f row ih =>
    obtain ⟨hfirst, hrest⟩ := List.pairwise_cons.1 hrow
    obtain ⟨hfposition, hrestposition⟩ := List.forall_mem_cons.1 hposition
    have hrestnested : Nested row := fun g hg g' hg' =>
      hnested g (List.mem_cons_of_mem _ hg) g' (List.mem_cons_of_mem _ hg')
    rw [covered, List.any_cons, Bool.or_eq_true, Bool.and_eq_true, decide_eq_true_eq, decide_eq_true_eq] at hcovered
    rw [selectFrom]
    split
    · -- a finding that begins inside the one selected ends inside of it
      rename_i hbehind
      have hinside : ∀ g ∈ row, g.start < f.stop → g.stop ≤ f.stop := fun g hg =>
        hnested f List.mem_cons_self g (List.mem_cons_of_mem _ hg) (hfirst g hg)
      have hlater : covered row byte = true → byte < f.stop ∨ covered (selectFrom f.stop row) byte = true :=
        ih hrest hrestnested hinside
      rw [covered, List.any_cons, Bool.or_eq_true, Bool.and_eq_true, decide_eq_true_eq, decide_eq_true_eq]
      rcases hcovered with hf | hrow
      · exact .inr (.inl hf)
      · rcases hlater hrow with hbefore | hselected
        · obtain ⟨g, hg, hstart, -⟩ := covered_eq_true_iff.1 hrow
          have hprecedes := hfirst g hg
          unfold Finding.Precedes at hprecedes
          exact .inr (.inl ⟨by omega, hbefore⟩)
        · exact .inr (.inr hselected)
    · rename_i hinside
      rcases hcovered with hf | hrow
      · have := hfposition (by omega)
        exact .inl (by omega)
      · exact ih hrest hrestnested hrestposition hrow

end

variable {t : Text} {findings : List Finding}

lemma covered_of_covered_selected {byte : Nat} (h : covered (selected t findings) byte = true) :
    covered findings byte = true := by
  obtain ⟨f, hf, hbyte⟩ := covered_eq_true_iff.1 h
  have hmem := List.mem_of_mem_filter (selectFrom_sublist.subset hf)
  exact covered_eq_true_iff.2 ⟨f, List.mem_mergeSort.1 hmem, hbyte⟩

/-- If findings overlap only by nesting, the selected ones cover all that is covered. -/
lemma covered_selected_of_nested (hwell : ∀ f ∈ findings, f.WellFormed t) (hnested : Nested findings) {byte : Nat}
    (h : covered findings byte = true) : covered (selected t findings) byte = true := by
  have horder := Finding.inOrder_mergeSort findings (·.WellFormed t)
  have hmem : ∀ f, f ∈ (findings.mergeSort Finding.le).filter (·.WellFormed t) ↔ f ∈ findings := by
    intro f
    rw [horder.mem_iff, List.mem_filter, decide_eq_true_eq]
    exact and_iff_left_of_imp (hwell f)
  have hrow : covered ((findings.mergeSort Finding.le).filter (·.WellFormed t)) byte = true := by
    simpa only [covered_eq_true_iff, hmem] using h
  have hselected := covered_selectFrom horder.ascending
    (fun f hf g hg => hnested f ((hmem f).1 hf) g ((hmem g).1 hg))
    (fun _ _ hbefore => absurd hbefore (Nat.not_lt_zero _))
    hrow
  exact hselected.resolve_left (Nat.not_lt_zero _)

/-- Of a text whose findings lie in it, just what no selected finding covers is shown, and the markers of the selected
ones. So nothing is shown that any finding covers if the selected ones cover as much as all of them do, and they do if
of any two that overlap the one that comes first reaches as far as the other. -/
theorem shows_mask (hwell : ∀ f ∈ findings, f.WellFormed t) :
    Shows (selected t findings) (selected t findings) 0 t (mask t findings) ∧
    ((∀ byte, covered findings byte = true → covered (selected t findings) byte = true) →
      Shows findings (selected t findings) 0 t (mask t findings)) ∧
    (Nested findings → Shows findings (selected t findings) 0 t (mask t findings)) := by
  have hshows : Shows (selected t findings) (selected t findings) 0 t (mask t findings) :=
    (masked_maskFrom [] t (findings.mergeSort Finding.le)).shows
  have hall (hcovers : ∀ byte, covered findings byte = true → covered (selected t findings) byte = true) :
      Shows findings (selected t findings) 0 t (mask t findings) := by
    refine hshows.of_covered_eq fun byte => ?_
    rw [Bool.eq_iff_iff]
    exact ⟨covered_of_covered_selected, hcovers byte⟩
  exact ⟨hshows, hall, fun hnested => hall fun _ => covered_selected_of_nested hwell hnested⟩

/-- A text with an address and a number. -/
def contact : Text := "bob@x.io or 555-1234"

/-- Findings in it, one of them inside of another, and not from left to right. -/
def contactFindings : List Finding := [⟨12, 20, "phone"⟩, ⟨4, 8, "domain"⟩, ⟨0, 8, "email"⟩]

/-- All that they cover is masked. -/
theorem shows_contact :
    (∀ f ∈ contactFindings, f.WellFormed contact) ∧ Nested contactFindings ∧
      mask contact contactFindings = "[REDACTED:email] or [REDACTED:phone]".toList ∧
      Shows contactFindings (selected contact contactFindings) 0 contact (mask contact contactFindings) := by
  have hwell : ∀ f ∈ contactFindings, f.WellFormed contact := by decide +kernel
  have hnested : Nested contactFindings := by decide +kernel
  have hsorted : contactFindings.mergeSort Finding.le = [⟨0, 8, "email"⟩, ⟨4, 8, "domain"⟩, ⟨12, 20, "phone"⟩] := by
    simp [contactFindings, List.mergeSort, Finding.le]
  refine ⟨hwell, hnested, ?_, (shows_mask hwell).2.2 hnested⟩
  rw [mask, hsorted]
  decide +kernel

/-- Findings of which one begins inside of another and ends behind it. -/
def crossing : List Finding := [⟨0, 8, "email"⟩, ⟨4, 20, "contact"⟩]

/-- What the second one covers behind the first is shown, though it is a finding of the text. -/
theorem exists_covered_shown :
    (∀ f ∈ crossing, f.WellFormed contact) ∧ mask contact crossing = "[REDACTED:email] or 555-1234".toList ∧
      ¬ ∃ marked, (∀ f ∈ marked, f ∈ crossing) ∧ Shows crossing marked 0 contact (mask contact crossing) := by
  have hmask : mask contact crossing = "[REDACTED:email] or 555-1234".toList := by
    rw [mask, List.mergeSort_of_pairwise (by decide +kernel)]
    decide +kernel
  refine ⟨by decide +kernel, hmask, ?_⟩
  rintro ⟨marked, hmarked, items, hshown, hkept, hmarkers⟩
  -- a digit that is shown comes from the text or from a marker
  have hdigit : '5' ∈ items.flatMap Item.shown := by
    rw [hshown, hmask]
    decide +kernel
  obtain ⟨item, hitem, hin⟩ := List.mem_flatMap.1 hdigit
  cases item with
  | kept position c =>
    have hmem : (position, c) ∈ uncovered crossing 0 contact := by
      rw [← hkept]
      exact List.mem_filterMap.2 ⟨_, hitem, rfl⟩
    have hnone : uncovered crossing 0 contact = [] := by decide +kernel
    rw [hnone] at hmem
    exact List.not_mem_nil hmem
  | marker f =>
    have hmem : f ∈ crossing := by
      refine hmarked f ?_
      rw [← hmarkers]
      exact List.mem_filterMap.2 ⟨_, hitem, rfl⟩
    have hnone : ∀ f ∈ crossing, '5' ∉ marker f.kind := by decide +kernel
    exact hnone f hmem hin

end Stencil.PersonalData
