import Mathlib.Data.List.Basic
import Mathlib.Data.Nat.Find
import Stencil.Proofs.Policy.Queue

/-!
# How many calls a window admits

A limit is meant to bound how many admitted calls have a stamp in any window of its length. It does so while the stamps
of the admitted calls never decrease (`bounded_append_admittedFrom`). They may decrease, since a call takes its stamp
before it waits for its queue: an old stamp behind a young one then ends the count, and the young one is not seen any
more (`admittedFrom_backwards`). Which limits hold nevertheless, whatever the order of the stamps, can be told from
their numbers (`Tame`).
-/

namespace Stencil.Policy

/-- Of some stamps, no window of a limit holds more than the limit allows. The window that ends at an instant holds the
instant itself, and not the one at its other end. -/
def Bounded (limits : List Quota) (stamps : List Nat) : Prop :=
  ∀ w ∈ limits, ∀ instant, (stamps.countP fun t => t ≤ instant ∧ instant < t + w.length) ≤ w.limit

/-- Limits that forbid everything, that leave at least the length of a window between two calls, or that have only empty
windows. -/
def Tame (limits : List Quota) : Prop :=
  (∃ w ∈ limits, w.limit = 0) ∨ (∃ w ∈ limits, 0 < w.length ∧ w.limit = 1) ∨ ∀ w ∈ limits, w.length = 0

namespace Stamps

variable {limits : List Quota}

/-- The calls at some times that are admitted behind a queue. -/
def admittedFrom (limits : List Quota) : List Nat → List Nat → List Nat
  | _, [] => []
  | queue, now :: rest =>
    if admits limits queue now then now :: admittedFrom limits (after limits queue now) rest
    else admittedFrom limits (after limits queue now) rest

/-! ## Stamps in order -/

/-- A queue holds what matters of the stamps admitted so far: those that it has lost lie behind every window of a call
that may still be admitted and is not earlier than they are. -/
def Faithful (limits : List Quota) (admitted queue : List Nat) : Prop :=
  ∃ old, admitted = old ++ queue ∧ ∀ t ∈ old, ∀ now, admits limits queue now = true → (∀ s ∈ admitted, s ≤ now) →
    t + RateLimiter.horizon limits ≤ now

/-- A call that may be admitted is behind the windows of the stamps that it prunes itself, too. -/
lemma Faithful.exists_old {admitted queue : List Nat} {now : Nat} (h : Faithful limits admitted queue)
    (hadmits : admits limits queue now = true) (hlate : ∀ s ∈ admitted, s ≤ now) :
    ∃ old, admitted = old ++ prune queue now (RateLimiter.horizon limits) ∧
      ∀ t ∈ old, t + RateLimiter.horizon limits ≤ now := by
  obtain ⟨old, heq, hold⟩ := h
  obtain ⟨pruned, hqueue, hpruned⟩ := exists_pruned queue now (RateLimiter.horizon limits)
  refine ⟨old ++ pruned, by rw [heq, List.append_assoc, ← hqueue], fun t ht => ?_⟩
  -- a stamp is lost before the call or at it
  rcases List.mem_append.1 ht with ht | ht
  · exact hold t ht now hadmits hlate
  · have hmem : t ∈ admitted := by
      rw [heq, hqueue]
      exact List.mem_append_right _ (List.mem_append_left _ ht)
    have hage := hpruned t ht
    have hle := hlate t hmem
    omega

/-- A stamp that is admitted is recorded, and the queue stays faithful. -/
lemma Faithful.after_admitted {admitted queue : List Nat} {now : Nat} (h : Faithful limits admitted queue)
    (hadmits : admits limits queue now = true) (hlate : ∀ s ∈ admitted, s ≤ now) :
    Faithful limits (admitted ++ [now]) (after limits queue now) := by
  obtain ⟨old, heq, hold⟩ := h.exists_old hadmits hlate
  rw [after, if_pos hadmits]
  refine ⟨old, by rw [← List.append_assoc, ← heq], fun t ht later _ hlater => ?_⟩
  have hle := hlater now (List.mem_append_right _ (List.mem_singleton_self now))
  have := hold t ht
  omega

/-- A refused call may prune stamps, but only the calls behind it can be admitted. -/
lemma Faithful.after_refused {admitted queue : List Nat} {now : Nat} (h : Faithful limits admitted queue)
    (hrefuses : admits limits queue now = false) : Faithful limits admitted (after limits queue now) := by
  obtain ⟨old, heq, hold⟩ := h
  obtain ⟨pruned, hqueue, hpruned⟩ := exists_pruned queue now (RateLimiter.horizon limits)
  rw [after, if_neg (by rw [hrefuses]; exact Bool.false_ne_true)]
  refine ⟨old ++ pruned, by rw [heq, List.append_assoc, ← hqueue], fun t ht later hadmits hlate => ?_⟩
  -- up to the refused call everything is refused
  have hlater : now < later := by
    by_contra hle
    rw [admits_prune_eq_false hrefuses (Nat.le_of_not_lt hle)] at hadmits
    exact Bool.false_ne_true hadmits
  rcases List.mem_append.1 ht with ht | ht
  · rw [admits_prune hlater.le] at hadmits
    exact hold t ht later hadmits hlate
  · have hmem : t ∈ admitted := by
      rw [heq, hqueue]
      exact List.mem_append_right _ (List.mem_append_left _ ht)
    have hage := hpruned t ht
    have hle := hlate t hmem
    omega

/-- One more call in order keeps the bound. -/
lemma Faithful.bounded_concat {admitted queue : List Nat} {now : Nat} (h : Faithful limits admitted queue)
    (hadmits : admits limits queue now = true) (hordered : (admitted ++ [now]).Pairwise (· ≤ ·))
    (hbounded : Bounded limits admitted) : Bounded limits (admitted ++ [now]) := by
  intro w hw instant
  have hlate : ∀ s ∈ admitted, s ≤ now := fun s hs =>
    (List.pairwise_append.1 hordered).2.2 s hs now (List.mem_singleton_self now)
  rw [List.countP_append, List.countP_singleton]
  by_cases hin : now ≤ instant ∧ instant < now + w.length
  · -- what else is in the window is young at the call, so the call has seen it
    obtain ⟨old, heq, hold⟩ := h.exists_old hadmits hlate
    have hkept : (prune queue now (RateLimiter.horizon limits)).Pairwise (· ≤ ·) := by
      have hsorted := (List.pairwise_append.1 hordered).1
      rw [heq] at hsorted
      exact (List.pairwise_append.1 hsorted).2.1
    have hseen := admits_iff.1 hadmits w hw
    rw [inWindow_eq_countP hkept] at hseen
    have hwindow := RateLimiter.window_le_horizon hw
    -- the stamps lost lie behind every window
    have hcount : (admitted.countP fun t => t ≤ instant ∧ instant < t + w.length) ≤
        (prune queue now (RateLimiter.horizon limits)).countP fun t => now - t < w.length := by
      rw [heq, List.countP_append, List.countP_eq_zero.2, Nat.zero_add]
      · refine List.countP_mono_left fun t ht hwin => ?_
        rw [decide_eq_true_eq] at hwin ⊢
        have hle := hlate t (heq ▸ List.mem_append_right _ ht)
        omega
      · intro t ht hwin
        rw [decide_eq_true_eq] at hwin
        have := hold t ht
        omega
    rw [if_pos (by simpa using hin)]
    omega
  · rw [if_neg (by simpa using hin)]
    exact hbounded w hw instant

/-- The bounds hold of every run whose admitted calls are in order. -/
theorem bounded_append_admittedFrom (nows : List Nat) {admitted queue : List Nat} (h : Faithful limits admitted queue)
    (hbounded : Bounded limits admitted)
    (hordered : (admitted ++ admittedFrom limits queue nows).Pairwise (· ≤ ·)) :
    Bounded limits (admitted ++ admittedFrom limits queue nows) := by
  induction nows generalizing admitted queue with
  | nil => rwa [admittedFrom, List.append_nil]
  | cons now nows ih =>
    rw [admittedFrom] at hordered ⊢
    by_cases hadmits : admits limits queue now = true
    · rw [if_pos hadmits, List.append_cons] at hordered ⊢
      have hprefix := (List.pairwise_append.1 hordered).1
      have hlate : ∀ s ∈ admitted, s ≤ now := fun s hs =>
        (List.pairwise_append.1 hprefix).2.2 s hs now (List.mem_singleton_self now)
      exact ih (h.after_admitted hadmits hlate) (h.bounded_concat hadmits hprefix hbounded) hordered
    · rw [if_neg hadmits] at hordered ⊢
      exact ih (h.after_refused (Bool.not_eq_true _ ▸ hadmits)) hbounded hordered

lemma bounded_admittedFrom (nows : List Nat) (hordered : (admittedFrom limits [] nows).Pairwise (· ≤ ·)) :
    Bounded limits (admittedFrom limits [] nows) := by
  have hfaithful : Faithful limits [] [] := ⟨[], rfl, fun t ht => absurd ht List.not_mem_nil⟩
  have hbounded : Bounded limits [] := fun w _ instant => Nat.zero_le _
  exact bounded_append_admittedFrom nows hfaithful hbounded hordered

/-! ## Tame limits -/

/-- A limit of zero admits nothing. -/
lemma admittedFrom_eq_nil {w : Quota} (hw : w ∈ limits) (hzero : w.limit = 0) (queue nows : List Nat) :
    admittedFrom limits queue nows = [] := by
  induction nows generalizing queue with
  | nil => rfl
  | cons now nows ih =>
    have hrefuses : ¬ admits limits queue now = true := fun h => by
      have := admits_iff.1 h w hw
      omega
    rw [admittedFrom, if_neg hrefuses, ih]

/-- Where a window allows one call only, the last stamp of a queue is older than a call that is admitted. -/
lemma lt_of_admits {w : Quota} (hw : w ∈ limits) (hpos : 0 < w.length) (hone : w.limit = 1) {queue : List Nat}
    {last now : Nat} (hlast : queue.getLast? = some last) (h : admits limits queue now = true) : last < now := by
  obtain ⟨pruned, hqueue, hpruned⟩ := exists_pruned queue now (RateLimiter.horizon limits)
  have hwindow := RateLimiter.window_le_horizon hw
  -- either all stamps are too old, or the last one is outside of the window that allows one call
  rcases List.eq_nil_or_concat' (prune queue now (RateLimiter.horizon limits)) with hnil | ⟨kept, t, hkept⟩
  · rw [hnil, List.append_nil] at hqueue
    rw [hqueue] at hlast
    have := hpruned last (List.mem_of_getLast? hlast)
    omega
  · rw [hqueue, hkept, ← List.append_assoc, List.getLast?_concat] at hlast
    obtain rfl := Option.some.inj hlast
    have hseen := admits_iff.1 h w hw
    rw [hkept, hone, inWindow, List.reverse_append, List.reverse_singleton, List.singleton_append] at hseen
    by_cases hyoung : now - t < w.length
    · rw [List.takeWhile_cons_of_pos (by simpa using hyoung), List.length_cons] at hseen
      omega
    · omega

/-- Where a window allows one call only and no limit forbids everything, the stamps of the admitted calls increase. -/
lemma pairwise_admittedFrom {w : Quota} (hw : w ∈ limits) (hpos : 0 < w.length) (hone : w.limit = 1)
    (hlimits : ∀ w ∈ limits, w.limit ≠ 0) (queue nows : List Nat) :
    (∀ last, queue.getLast? = some last → ∀ t ∈ admittedFrom limits queue nows, last < t) ∧
      (admittedFrom limits queue nows).Pairwise (· < ·) := by
  induction nows generalizing queue with
  | nil => exact ⟨fun _ _ t ht => absurd ht List.not_mem_nil, List.Pairwise.nil⟩
  | cons now nows ih =>
    obtain ⟨hbehind, hincreasing⟩ := ih (after limits queue now)
    rw [admittedFrom]
    by_cases hadmits : admits limits queue now = true
    · have hnow : (after limits queue now).getLast? = some now := by
        rw [after, if_pos hadmits, List.getLast?_concat]
      rw [if_pos hadmits]
      refine ⟨fun last hlast t ht => ?_, List.pairwise_cons.2 ⟨hbehind now hnow, hincreasing⟩⟩
      have hlt := lt_of_admits hw hpos hone hlast hadmits
      rcases List.mem_cons.1 ht with rfl | ht
      · exact hlt
      · exact hlt.trans (hbehind now hnow t ht)
    · rw [if_neg hadmits]
      refine ⟨fun last hlast => hbehind last ?_, hincreasing⟩
      -- a refused call has left a stamp, hence the last one
      obtain ⟨pruned, hqueue, -⟩ := exists_pruned queue now (RateLimiter.horizon limits)
      have hne : prune queue now (RateLimiter.horizon limits) ≠ [] :=
        fun hnil => hadmits (admits_of_prune_eq_nil hlimits hnil)
      rw [hqueue, List.getLast?_append, List.getLast?_eq_some_getLast hne, Option.some_or] at hlast
      rw [after, if_neg hadmits, List.getLast?_eq_some_getLast hne, hlast]

/-- Tame limits bound what they admit, in whatever order it comes. -/
lemma bounded_admittedFrom_of_tame (h : Tame limits) (nows : List Nat) :
    Bounded limits (admittedFrom limits [] nows) := by
  by_cases hlimits : ∀ w ∈ limits, w.limit ≠ 0
  · obtain ⟨w, hw, hzero⟩ | ⟨w, hw, hlength, hone⟩ | hempty := h
    · exact absurd hzero (hlimits w hw)
    · have hincreasing := (pairwise_admittedFrom hw hlength hone hlimits [] nows).2
      exact bounded_admittedFrom nows (hincreasing.imp Nat.le_of_lt)
    · intro w hw instant
      rw [List.countP_eq_zero.2]
      · exact Nat.zero_le _
      · intro t _ hwin
        rw [decide_eq_true_eq, hempty w hw] at hwin
        omega
  · push Not at hlimits
    obtain ⟨w, hw, hzero⟩ := hlimits
    rw [admittedFrom_eq_nil hw hzero]
    exact fun w _ instant => Nat.zero_le _

/-! ## A stamp out of order -/

/-- Behind a stamp that is too old for every window, as many calls at one time are admitted as the limits allow,
whatever stands in front of it. -/
lemma admittedFrom_replicate (hlimits : ∀ w ∈ limits, w.limit ≠ 0) {horizon : Nat}
    (hhorizon : RateLimiter.horizon limits = horizon) (hpos : 0 < horizon) (m k : Nat)
    (hm : ∀ w ∈ limits, 0 < w.length → k + m ≤ w.limit) :
    admittedFrom limits ([horizon, 0] ++ List.replicate k horizon) (List.replicate m horizon) =
      List.replicate m horizon := by
  induction m generalizing k with
  | zero => rfl
  | succ m ih =>
    -- the young stamp at the front keeps the old one behind it from being pruned
    have hprune : prune ([horizon, 0] ++ List.replicate k horizon) horizon horizon =
        [horizon, 0] ++ List.replicate k horizon := by
      have hyoung : ¬ horizon ≤ horizon - horizon := by omega
      rw [prune, List.cons_append, List.dropWhile_cons_of_neg (by simpa using hyoung)]
    have hadmits : admits limits ([horizon, 0] ++ List.replicate k horizon) horizon = true := by
      refine admits_iff.2 fun w hw => ?_
      have hwindow := RateLimiter.window_le_horizon hw
      rw [hhorizon, hprune]
      by_cases hlength : 0 < w.length
      · have hyoung : ∀ t ∈ List.replicate k horizon, horizon - t < w.length := fun t ht => by
          rw [List.eq_of_mem_replicate ht]
          omega
        show inWindow ([horizon] ++ 0 :: List.replicate k horizon) horizon w.length < w.limit
        rw [inWindow_append_cons (by omega) hyoung, List.length_replicate]
        have := hm w hw hlength
        omega
      · rw [Nat.eq_zero_of_not_pos hlength, inWindow_zero]
        exact Nat.pos_of_ne_zero (hlimits w hw)
    rw [List.replicate_succ, admittedFrom, if_pos hadmits, after, if_pos hadmits, hhorizon, hprune, List.append_assoc,
      ← List.replicate_succ', ih (k + 1) fun w hw hlength => by have := hm w hw hlength; omega]

/-- A stamp that goes back by the longest window hides the ones in front of it: as many calls as the limits allow are
admitted behind it, though there is one already. -/
theorem admittedFrom_backwards (hlimits : ∀ w ∈ limits, w.limit ≠ 0)
    (htwo : ∀ w ∈ limits, 0 < w.length → 2 ≤ w.limit) {horizon : Nat}
    (hhorizon : RateLimiter.horizon limits = horizon) (hpos : 0 < horizon) (m : Nat)
    (hm : ∀ w ∈ limits, 0 < w.length → m ≤ w.limit) :
    admittedFrom limits [] (horizon :: 0 :: List.replicate m horizon) =
      horizon :: 0 :: List.replicate m horizon := by
  have hfirst : admits limits [] horizon = true := admits_of_prune_eq_nil hlimits rfl
  have hstart : after limits [] horizon = [horizon] := by
    rw [after, if_pos hfirst]
    rfl
  -- the clock has gone back, so the first stamp is young again and stays
  have hprune : prune [horizon] 0 horizon = [horizon] := by
    have hyoung : ¬ horizon ≤ 0 - horizon := by omega
    rw [prune, List.dropWhile_cons_of_neg (by simpa using hyoung)]
  have hsecond : admits limits [horizon] 0 = true := by
    refine admits_iff.2 fun w hw => ?_
    rw [hhorizon, hprune]
    have hone : inWindow [horizon] 0 w.length ≤ 1 := (List.takeWhile_prefix _).length_le
    by_cases hlength : 0 < w.length
    · have := htwo w hw hlength
      omega
    · rw [Nat.eq_zero_of_not_pos hlength, inWindow_zero]
      exact Nat.pos_of_ne_zero (hlimits w hw)
  -- now the queue ends with a stamp that is too old, behind which no count looks
  have hqueue : after limits [horizon] 0 = [horizon, 0] ++ List.replicate 0 horizon := by
    rw [after, if_pos hsecond, hhorizon, hprune]
    rfl
  rw [admittedFrom, if_pos hfirst, hstart, admittedFrom, if_pos hsecond, hqueue,
    admittedFrom_replicate hlimits hhorizon hpos m 0 (by simpa using hm)]

/-- Limits that are not tame admit too much at some times. -/
lemma exists_not_bounded_of_not_tame (h : ¬ Tame limits) :
    ∃ nows, ¬ Bounded limits (admittedFrom limits [] nows) := by
  unfold Tame at h
  push Not at h
  obtain ⟨hlimits, hone, v, hv, hlength⟩ := h
  have htwo : ∀ w ∈ limits, 0 < w.length → 2 ≤ w.limit := by
    intro w hw hpos
    have := hlimits w hw
    have := hone w hw hpos
    omega
  -- the least limit of a window that is not empty is the first to be passed
  have hexists : ∃ n, ∃ w ∈ limits, 0 < w.length ∧ w.limit = n := ⟨v.limit, v, hv, Nat.pos_of_ne_zero hlength, rfl⟩
  obtain ⟨w, hw, hpos, hlimit⟩ := Nat.find_spec hexists
  have hleast : ∀ u ∈ limits, 0 < u.length → w.limit ≤ u.limit := by
    intro u hu hu'
    rw [hlimit]
    exact Nat.find_min' hexists ⟨u, hu, hu', rfl⟩
  have hwindow := RateLimiter.window_le_horizon hw
  refine ⟨RateLimiter.horizon limits :: 0 :: List.replicate w.limit (RateLimiter.horizon limits), fun hbounded => ?_⟩
  have hrun := admittedFrom_backwards hlimits htwo rfl (hpos.trans_le hwindow) w.limit hleast
  rw [hrun] at hbounded
  have hcount := hbounded w hw (RateLimiter.horizon limits)
  have hin : RateLimiter.horizon limits < RateLimiter.horizon limits + w.length := by omega
  simp only [List.countP_cons, List.countP_replicate, Nat.le_refl, hin, true_and, decide_true, if_true] at hcount
  omega

end Stamps

/-! ## The calls of a limiter -/

/-- A call that a limiter gets: whose, for what, and its stamp. -/
structure Call where
  user : Text
  action : Text
  now : Nat

namespace RateLimiter

/-- The stamps of the calls of a user for an action that a limiter admits, in the order in which it gets them. -/
def admitted (user action : Text) : RateLimiter → List Call → List Nat
  | _, [] => []
  | l, call :: rest =>
    let (answer, after) := l.check call.user call.action call.now
    if (call.user, call.action) = (user, action) ∧ answer.isOk = true then
      call.now :: admitted user action after rest
    else admitted user action after rest

/-- The stamps of the calls of a user for an action. -/
def times (user action : Text) (calls : List Call) : List Nat :=
  (calls.filter fun call => (call.user, call.action) = (user, action)).map Call.now

/-- The calls of a user for an action are admitted as if there were no others. -/
lemma admitted_eq {l : RateLimiter} {user action : Text} (h : l.limits action ≠ []) (calls : List Call) :
    l.admitted user action calls =
      Stamps.admittedFrom (l.limits action) (l.stamps user action) (times user action calls) := by
  induction calls generalizing l with
  | nil => rfl
  | cons call calls ih =>
    have hlimits := l.limits_check call.user call.action call.now action
    have hafter := ih (l := (l.check call.user call.action call.now).2) (hlimits ▸ h)
    rw [hlimits] at hafter
    rw [admitted]
    dsimp only
    rw [hafter]
    by_cases hkey : (call.user, call.action) = (user, action)
    · obtain ⟨huser, haction⟩ := Prod.mk.inj hkey
      have htimes : times user action (call :: calls) = call.now :: times user action calls := by
        simp [times, huser, haction]
      rw [htimes, Stamps.admittedFrom, isOk_check, huser, haction, stamps_check l user action call.now h]
      simp only [true_and]
    · have htimes : times user action (call :: calls) = times user action calls := by
        rw [times, List.filter_cons_of_neg (by simpa using hkey)]
        rfl
      rw [htimes, if_neg (fun hboth => hkey hboth.1), stamps_check_of_ne _ _ _ _ (Ne.symm hkey)]

lemma times_map_mk (user action : Text) (nows : List Nat) :
    times user action (nows.map fun now => ⟨user, action, now⟩) = nows := by
  simp [times, List.filter_map, Function.comp_def]

/-- Whether a limiter keeps all the bounds of an action in every run, in whatever order the stamps come, is a question
of the limits. A run in which the stamps of the admitted calls never decrease keeps them under any limits. Neither
depends on how many instants a second has. -/
theorem bounded_admitted_iff_tame (policy : RatePolicy) (perSecond : Nat) (user action : Text) :
    ((∀ calls, Bounded ((new policy perSecond).limits action) ((new policy perSecond).admitted user action calls)) ↔
      Tame ((new policy perSecond).limits action)) ∧
    ∀ calls, ((new policy perSecond).admitted user action calls).Pairwise (· ≤ ·) →
      Bounded ((new policy perSecond).limits action) ((new policy perSecond).admitted user action calls) := by
  -- without limits everything holds, and with limits the run is one of a single queue
  by_cases h : (new policy perSecond).limits action = []
  · have hbounded : ∀ stamps, Bounded ((new policy perSecond).limits action) stamps := by
      rw [h]
      exact fun _ w hw => absurd hw List.not_mem_nil
    have htame : Tame ((new policy perSecond).limits action) := by
      rw [h]
      exact .inr (.inr fun w hw => absurd hw List.not_mem_nil)
    exact ⟨⟨fun _ => htame, fun _ _ => hbounded _⟩, fun _ _ => hbounded _⟩
  · have hrun : ∀ calls, (new policy perSecond).admitted user action calls =
        Stamps.admittedFrom ((new policy perSecond).limits action) [] (times user action calls) := admitted_eq h
    refine ⟨⟨fun hbounded => ?_, fun htame calls => ?_⟩, fun calls hordered => ?_⟩
    · -- the run that breaks a bound is one of a single user
      by_contra htame
      obtain ⟨nows, hnot⟩ := Stamps.exists_not_bounded_of_not_tame htame
      have hcalls := hbounded (nows.map fun now => ⟨user, action, now⟩)
      rw [hrun, times_map_mk] at hcalls
      exact hnot hcalls
    · rw [hrun]
      exact Stamps.bounded_admittedFrom_of_tame htame _
    · rw [hrun] at hordered ⊢
      exact Stamps.bounded_admittedFrom _ hordered

end RateLimiter

end Stencil.Policy
