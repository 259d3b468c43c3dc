import Mathlib.Data.List.Basic
import Stencil.Proofs.Policy.Queue

/-!
# What a limiter remembers

A queue forgets stamps that are too old, and it is counted from its end up to the first stamp that is. While the checks
of a user and action come in order of time, it tells as much nevertheless as all stamps admitted since the last reset
(`Stamps.Tracks`). So a check is decided by this history alone (`RateLimiter.isOk_check_iff_history`): neither refused
checks nor other users nor other actions have a say in it.
-/

namespace Stencil.Policy

/-! ## Runs -/

/-- What a limiter is asked to do. -/
inductive Step where
  | check (user action : Text) (now : Nat)
  | reset (user action : Text)
  | usage (user action : Text)

namespace Step

/-- The time of a step that is a check of a user and action. -/
def time? (key : Text × Text) : Step → Option Nat
  | check user action now => if (user, action) = key then some now else none
  | reset .. | usage .. => none

/-- The stamps admitted since the last reset, behind a step that counts. -/
def note (past : List Nat) : Step → List Nat
  | check _ _ now => past ++ [now]
  | reset .. | usage .. => []

/-- The times of the checks of a user and action. -/
def times (key : Text × Text) (steps : List Step) : List Nat := steps.filterMap (time? key)

end Step

namespace RateLimiter

/-- A limiter behind a step. To tell the usage changes nothing. -/
def perform (l : RateLimiter) : Step → RateLimiter
  | .check user action now => (l.check user action now).2
  | .reset user action => l.reset user action
  | .usage .. => l

/-- A limiter behind some steps. -/
def run (l : RateLimiter) (steps : List Step) : RateLimiter := steps.foldl perform l

/-- Whether a step is a reset of a user and action, or a check of theirs that is admitted. -/
def counts (l : RateLimiter) (key : Text × Text) : Step → Bool
  | .check user action now => (user, action) = key ∧ (l.check user action now).1.isOk
  | .reset user action => (user, action) = key
  | .usage .. => false

/-- The stamps admitted since the last reset, behind one more step. -/
def pastBehind (l : RateLimiter) (key : Text × Text) (past : List Nat) (step : Step) : List Nat :=
  if l.counts key step then step.note past else past

/-- The stamps of the checks of a user and action that are admitted and behind which there is no reset of theirs, if so
many are there already. -/
def historyFrom (key : Text × Text) : RateLimiter → List Nat → List Step → List Nat
  | _, past, [] => past
  | l, past, step :: rest => historyFrom key (l.perform step) (l.pastBehind key past step) rest

/-- The stamps of the checks of a user and action that are admitted and behind which there is no reset of theirs. -/
def history (l : RateLimiter) (key : Text × Text) (steps : List Step) : List Nat := historyFrom key l [] steps

/-- The steps without the refused checks and all that concerns others. -/
def essential (key : Text × Text) : RateLimiter → List Step → List Step
  | _, [] => []
  | l, step :: rest =>
    if l.counts key step then step :: essential key (l.perform step) rest else essential key (l.perform step) rest

/-- The last step changes the past that the others have left. -/
lemma historyFrom_concat (key : Text × Text) (l : RateLimiter) (past : List Nat) (steps : List Step) (step : Step) :
    historyFrom key l past (steps ++ [step]) = (l.run steps).pastBehind key (historyFrom key l past steps) step := by
  induction steps generalizing l past with
  | nil => rfl
  | cons first rest ih => exact ih (l.perform first) (l.pastBehind key past first)

lemma history_concat (l : RateLimiter) (key : Text × Text) (steps : List Step) (step : Step) :
    l.history key (steps ++ [step]) = (l.run steps).pastBehind key (l.history key steps) step :=
  historyFrom_concat key l [] steps step

lemma run_concat (l : RateLimiter) (steps : List Step) (step : Step) :
    l.run (steps ++ [step]) = (l.run steps).perform step := by
  rw [run, List.foldl_append]
  rfl

/-- The last step is essential if it counts where the others have led to. -/
lemma essential_concat (key : Text × Text) (l : RateLimiter) (steps : List Step) (step : Step) :
    essential key l (steps ++ [step]) =
      essential key l steps ++ if (l.run steps).counts key step then [step] else [] := by
  induction steps generalizing l with
  | nil => rfl
  | cons first rest ih =>
    have hrest := ih (l.perform first)
    rw [List.cons_append, essential, essential, hrest]
    split
    · rfl
    · rfl

/-- The essential steps are some of the steps, in their order. -/
lemma essential_sublist (key : Text × Text) (l : RateLimiter) (steps : List Step) :
    (essential key l steps).Sublist steps := by
  induction steps generalizing l with
  | nil => exact List.Sublist.slnil
  | cons first rest ih =>
    rw [essential]
    split
    · exact (ih (l.perform first)).cons_cons first
    · exact (ih (l.perform first)).cons first

end RateLimiter

/-! ## One queue -/

namespace Stamps

/-- In a queue in order, nothing is left behind a stamp that is young enough but what is younger. -/
lemma lt_of_mem_prune {stamps : List Nat} {now horizon : Nat} (h : stamps.Pairwise (· ≤ ·)) {t : Nat}
    (ht : t ∈ prune stamps now horizon) : now - t < horizon := by
  induction stamps with
  | nil => exact absurd ht List.not_mem_nil
  | cons first rest ih =>
    obtain ⟨hfirst, hrest⟩ := List.pairwise_cons.1 h
    by_cases hold : horizon ≤ now - first
    · rw [prune, List.dropWhile_cons_of_pos (by simpa using hold)] at ht
      exact ih hrest ht
    · rw [prune, List.dropWhile_cons_of_neg (by simpa using hold)] at ht
      rcases List.mem_cons.1 ht with rfl | ht
      · omega
      · have hle := hfirst t ht
        omega

/-- From some time on, a queue is counted as the stamps admitted so far would be. -/
structure Tracks (limits : List Quota) (time : Nat) (past queue : List Nat) : Prop where
  sorted : queue.Pairwise (· ≤ ·)
  le_time : ∀ t ∈ queue, t ≤ time
  countP_eq : ∀ now, time ≤ now → ∀ w ∈ limits,
    (queue.countP fun t => now - t < w.length) = past.countP fun t => now - t < w.length
  length_le : ∀ w ∈ limits, w.length = RateLimiter.horizon limits → queue.length ≤ w.limit

namespace Tracks

variable {limits : List Quota} {time now : Nat} {past queue : List Nat}

/-- An empty queue tracks an empty past. -/
lemma nil (limits : List Quota) (time : Nat) : Tracks limits time [] [] where
  sorted := List.Pairwise.nil
  le_time := fun _ ht => absurd ht List.not_mem_nil
  countP_eq := fun _ _ _ _ => rfl
  length_le := fun _ _ _ => Nat.zero_le _

/-- A queue that tracks a past up to some time tracks it up to any later one. -/
lemma later (h : Tracks limits time past queue) (hle : time ≤ now) : Tracks limits now past queue where
  sorted := h.sorted
  le_time := fun t ht => (h.le_time t ht).trans hle
  countP_eq := fun instant hinstant => h.countP_eq instant (hle.trans hinstant)
  length_le := h.length_le

/-- What is pruned is in no window any more. -/
lemma prune (h : Tracks limits time past queue) (hle : time ≤ now) :
    Tracks limits now past (Stamps.prune queue now (RateLimiter.horizon limits)) := by
  obtain ⟨old, hqueue, hold⟩ := exists_pruned queue now (RateLimiter.horizon limits)
  have hsuffix := prune_suffix queue now (RateLimiter.horizon limits)
  refine ⟨h.sorted.sublist hsuffix.sublist, fun t ht => ?_, fun instant hinstant w hw => ?_, fun w hw hlongest => ?_⟩
  · exact (h.le_time t (hsuffix.mem ht)).trans hle
  · have hnone : (old.countP fun t => instant - t < w.length) = 0 := by
      refine List.countP_eq_zero.2 fun t ht hyoung => ?_
      have hage := hold t ht
      have hwindow := RateLimiter.window_le_horizon hw
      rw [decide_eq_true_eq] at hyoung
      omega
    have hall := h.countP_eq instant (hle.trans hinstant) w hw
    rwa [hqueue, List.countP_append, hnone, Nat.zero_add] at hall
  · exact hsuffix.length_le.trans (h.length_le w hw hlongest)

lemma inWindow_eq (h : Tracks limits time past queue) (hle : time ≤ now) {w : Quota} (hw : w ∈ limits) :
    inWindow (Stamps.prune queue now (RateLimiter.horizon limits)) now w.length =
      past.countP fun t => now - t < w.length := by
  rw [inWindow_eq_countP (h.prune hle).sorted, (h.prune hle).countP_eq now (Nat.le_refl now) w hw]

/-- A check is decided by what has been admitted. -/
lemma admits_iff (h : Tracks limits time past queue) (hle : time ≤ now) :
    admits limits queue now = true ↔ ∀ w ∈ limits, (past.countP fun t => now - t < w.length) < w.limit := by
  rw [Stamps.admits_iff]
  refine forall₂_congr fun w hw => ?_
  rw [h.inWindow_eq hle hw]

/-- An admitted check leaves its stamp in the queue and in the history. -/
lemma concat (h : Tracks limits time past queue) (hle : time ≤ now) (hadmits : admits limits queue now = true) :
    Tracks limits now (past ++ [now]) (Stamps.prune queue now (RateLimiter.horizon limits) ++ [now]) := by
  have hkept := h.prune hle
  refine ⟨?_, fun t ht => ?_, fun instant hinstant w hw => ?_, fun w hw hlongest => ?_⟩
  · refine List.pairwise_append.2 ⟨hkept.sorted, List.pairwise_singleton _ _, fun s hs t ht => ?_⟩
    rw [List.mem_singleton.1 ht]
    exact hkept.le_time s hs
  · rcases List.mem_append.1 ht with ht | ht
    · exact hkept.le_time t ht
    · rw [List.mem_singleton.1 ht]
  · rw [List.countP_append, List.countP_append, hkept.countP_eq instant hinstant w hw]
  · -- whatever has not been pruned lies in the longest window
    have hlt := (h.admits_iff hle).1 hadmits w hw
    rw [← h.inWindow_eq hle hw, inWindow_eq_countP hkept.sorted, List.countP_eq_length.2] at hlt
    · rw [List.length_append, List.length_singleton]
      exact hlt
    · intro t ht
      have hyoung := lt_of_mem_prune h.sorted ht
      rw [← hlongest] at hyoung
      simpa using hyoung

/-- Behind a check, the queue tracks the past with the stamp of this check, if it was admitted. -/
lemma after (h : Tracks limits time past queue) (hle : time ≤ now) :
    Tracks limits now (if admits limits queue now then past ++ [now] else past) (Stamps.after limits queue now) := by
  rw [Stamps.after]
  split
  · rename_i hadmits
    exact h.concat hle hadmits
  · exact h.prune hle

end Tracks

end Stamps

/-! ## All queues of a limiter -/

namespace RateLimiter

variable {l : RateLimiter} {key : Text × Text} {time now : Nat} {past : List Nat}

/-- A limiter remembers of a user and action what is needed from some time on. -/
def Remembers (l : RateLimiter) (key : Text × Text) (time : Nat) (past : List Nat) : Prop :=
  Stamps.Tracks (l.limits key.2) time past (l.stamps key.1 key.2)

lemma limits_perform (l : RateLimiter) (step : Step) (action : Text) :
    (l.perform step).limits action = l.limits action := by
  cases step with
  | check user action' now => exact l.limits_check user action' now action
  | reset | usage => rfl

lemma limits_run (l : RateLimiter) (steps : List Step) (action : Text) :
    (l.run steps).limits action = l.limits action := by
  induction steps generalizing l with
  | nil => rfl
  | cons step rest ih => exact (ih (l.perform step)).trans (l.limits_perform step action)

lemma remembers_new (policy : RatePolicy) (perSecond : Nat) (key : Text × Text) (time : Nat) :
    (new policy perSecond).Remembers key time [] :=
  Stamps.Tracks.nil _ time

/-- A check is admitted if and only if, of the past that is remembered, each window has fewer stamps than its limit. -/
lemma Remembers.isOk_check_iff (h : l.Remembers key time past) (hle : time ≤ now) :
    (l.check key.1 key.2 now).1.isOk = true ↔
      ∀ w ∈ l.limits key.2, (past.countP fun t => now - t < w.length) < w.limit := by
  rw [isOk_check]
  exact h.admits_iff hle

/-- A check of the user and action themselves. -/
lemma Remembers.check (h : l.Remembers key time past) (hle : time ≤ now) :
    (l.perform (.check key.1 key.2 now)).Remembers key now (l.pastBehind key past (.check key.1 key.2 now)) := by
  have hpast : l.pastBehind key past (.check key.1 key.2 now) =
      if Stamps.admits (l.limits key.2) (l.stamps key.1 key.2) now then past ++ [now] else past := by
    simp [pastBehind, counts, isOk_check, Step.note]
  rw [Remembers, limits_perform, hpast, perform]
  by_cases hlimits : l.limits key.2 = []
  · -- without limits no stamp is kept, and none is needed
    have hqueue := h.later hle
    rw [check_of_limits_eq_nil l key.1 key.2 now hlimits]
    rw [hlimits] at hqueue ⊢
    exact ⟨hqueue.sorted, hqueue.le_time, fun _ _ _ hw => absurd hw List.not_mem_nil, hqueue.length_le⟩
  · rw [stamps_check l key.1 key.2 now hlimits]
    exact Stamps.Tracks.after h hle

lemma stamps_reset (l : RateLimiter) (user action : Text) : (l.reset user action).stamps user action = [] := by
  rw [stamps, reset, Table.get?_erase, if_pos rfl]
  rfl

lemma stamps_reset_of_ne {user action user' action' : Text} (h : (user', action') ≠ (user, action)) :
    (l.reset user action).stamps user' action' = l.stamps user' action' := by
  rw [stamps, reset, Table.get?_erase, if_neg (Ne.symm h)]
  rfl

/-- A step that is about others, or only tells the usage. -/
lemma Remembers.perform_of_stamps_eq {step : Step} (h : l.Remembers key time past)
    (hstamps : (l.perform step).stamps key.1 key.2 = l.stamps key.1 key.2) :
    (l.perform step).Remembers key time past := by
  rw [Remembers, limits_perform, hstamps]
  exact h

/-- Every step, if a check of the user and action is not earlier than what is remembered. -/
lemma Remembers.perform (h : l.Remembers key time past) (step : Step) (hle : ∀ now ∈ step.time? key, time ≤ now) :
    (l.perform step).Remembers key ((step.time? key).getD time) (l.pastBehind key past step) := by
  cases step with
  | check user action now =>
    by_cases hkey : (user, action) = key
    · subst hkey
      rw [Step.time?, if_pos rfl] at hle ⊢
      exact h.check (hle now rfl)
    · have hother : l.pastBehind key past (.check user action now) = past := by simp [pastBehind, counts, hkey]
      rw [Step.time?, if_neg hkey, hother]
      exact h.perform_of_stamps_eq (l.stamps_check_of_ne user action now (Ne.symm hkey))
  | reset user action =>
    by_cases hkey : (user, action) = key
    · subst hkey
      have hforgets : l.pastBehind (user, action) past (.reset user action) = [] := by
        simp [pastBehind, counts, Step.note]
      rw [hforgets, Remembers, RateLimiter.perform, stamps_reset]
      exact Stamps.Tracks.nil _ _
    · have hother : l.pastBehind key past (.reset user action) = past := by simp [pastBehind, counts, hkey]
      rw [hother]
      exact h.perform_of_stamps_eq (stamps_reset_of_ne (Ne.symm hkey))
  | usage user action => exact h

/-! ## Runs in order of time -/

/-- The times of a key with those of the last step behind them. -/
lemma times_concat (key : Text × Text) (steps : List Step) (step : Step) :
    Step.times key (steps ++ [step]) = Step.times key steps ++ (step.time? key).toList := by
  rw [Step.times, List.filterMap_append]
  cases htime : step.time? key with
  | none => rw [List.filterMap_cons_none htime]; rfl
  | some now => rw [List.filterMap_cons_some htime]; rfl

/-- A run in order of time remembers what counts, from the last check of the user and action on. -/
lemma remembers_run (policy : RatePolicy) (perSecond : Nat) {steps : List Step}
    (hordered : (Step.times key steps).Pairwise (· ≤ ·))
    (hlate : ∀ t ∈ Step.times key steps, t ≤ time) :
    ((new policy perSecond).run steps).Remembers key time ((new policy perSecond).history key steps) := by
  induction steps using List.reverseRecOn generalizing time with
  | nil => exact remembers_new policy perSecond key time
  | append_singleton steps step ih =>
    rw [times_concat] at hordered hlate
    obtain ⟨hsteps, -, hstep⟩ := List.pairwise_append.1 hordered
    rw [run_concat, history_concat]
    cases htime : step.time? key with
    | none =>
      have hbefore := ih hsteps fun t ht => hlate t (List.mem_append_left _ ht)
      have hafter := hbefore.perform step (by simp [htime])
      rwa [htime] at hafter
    | some now =>
      rw [htime] at hlate hstep
      have hbefore := ih hsteps fun t ht => hstep t ht now (List.mem_singleton_self now)
      have hafter := hbefore.perform step (by simp [htime])
      rw [htime] at hafter
      exact hafter.later (hlate now (List.mem_append_right _ (List.mem_singleton_self now)))

lemma times_sublist {steps steps' : List Step} (h : steps.Sublist steps') (key : Text × Text) :
    (Step.times key steps).Sublist (Step.times key steps') :=
  h.filterMap _

/-- Two limiters that remember the same count the same steps. -/
lemma counts_eq {l' : RateLimiter} (h : l.Remembers key time past) (h' : l'.Remembers key time past)
    (hlimits : l'.limits key.2 = l.limits key.2) {step : Step} (hle : ∀ now ∈ step.time? key, time ≤ now) :
    l'.counts key step = l.counts key step := by
  cases step with
  | check user action now =>
    by_cases hkey : (user, action) = key
    · subst hkey
      have hnow : time ≤ now := hle now (by simp [Step.time?])
      have hiff := (h'.isOk_check_iff hnow).trans (hlimits ▸ (h.isOk_check_iff hnow).symm)
      simp only [counts, Bool.decide_and, Bool.eq_iff_iff.2 hiff]
    · simp [counts, hkey]
  | reset | usage => rfl

/-- Between the times of the earlier steps and that of the last one lies some time. -/
lemma exists_time {steps : List Step} {step : Step}
    (hordered : (Step.times key (steps ++ [step])).Pairwise (· ≤ ·)) :
    ∃ time, (∀ t ∈ Step.times key steps, t ≤ time) ∧ ∀ now ∈ step.time? key, time ≤ now := by
  rw [times_concat] at hordered
  cases htime : step.time? key with
  | none => exact ⟨(Step.times key steps).foldl max 0, (le_foldl_max _ 0).2, by simp⟩
  | some now =>
    rw [htime] at hordered
    refine ⟨now, fun t ht => ?_, by simp⟩
    exact (List.pairwise_append.1 hordered).2.2 t ht now (List.mem_singleton_self now)

/-- The history is one of the steps that count. -/
lemma history_essential (policy : RatePolicy) (perSecond : Nat) {steps : List Step}
    (hordered : (Step.times key steps).Pairwise (· ≤ ·)) :
    (new policy perSecond).history key (essential key (new policy perSecond) steps) =
      (new policy perSecond).history key steps := by
  induction steps using List.reverseRecOn with
  | nil => rfl
  | append_singleton steps step ih =>
    obtain ⟨time, hlate, hle⟩ := exists_time hordered
    have hsublist := times_sublist (essential_sublist key (new policy perSecond) steps) key
    rw [times_concat] at hordered
    have hsteps := (List.pairwise_append.1 hordered).1
    rw [essential_concat, history_concat]
    by_cases hcounts : ((new policy perSecond).run steps).counts key step = true
    · -- both runs remember the same, so the step counts in both
      have hrun := remembers_run policy perSecond hsteps hlate
      have hessential := remembers_run policy perSecond (hsteps.sublist hsublist) fun t ht => hlate t (hsublist.mem ht)
      rw [ih hsteps] at hessential
      have hboth := counts_eq hrun hessential (by rw [limits_run, limits_run]) hle
      rw [if_pos hcounts, history_concat, ih hsteps, pastBehind, pastBehind, hboth]
    · rw [if_neg hcounts, List.append_nil, ih hsteps, pastBehind, if_neg hcounts]

/-- While the checks of a user and action come in order of time, one of them is admitted if, for every limit, fewer
admitted since the last reset lie in the window than it allows. It is the same behind the steps that count alone:
without the refused checks, other users and other actions. The queue stays in order and no longer than the limits of the
longest window allow. How many instants a second has does not matter. -/
theorem isOk_check_iff_history (policy : RatePolicy) (perSecond : Nat) (user action : Text) (steps : List Step)
    (hordered : (Step.times (user, action) steps).Pairwise (· ≤ ·)) :
    (∀ now, (∀ t ∈ Step.times (user, action) steps, t ≤ now) →
      ((((new policy perSecond).run steps).check user action now).1.isOk = true ↔
        ∀ w ∈ (new policy perSecond).limits action,
          (((new policy perSecond).history (user, action) steps).countP fun t => now - t < w.length) < w.limit) ∧
      (((new policy perSecond).run (essential (user, action) (new policy perSecond) steps)).check
          user action now).1.isOk =
        (((new policy perSecond).run steps).check user action now).1.isOk) ∧
    (((new policy perSecond).run steps).stamps user action).Pairwise (· ≤ ·) ∧
    ∀ w ∈ (new policy perSecond).limits action, w.length = horizon ((new policy perSecond).limits action) →
      ((new policy perSecond).run steps).usage user action ≤ w.limit := by
  have hlimits := limits_run (new policy perSecond)
  refine ⟨fun now hlate => ?_, ?_⟩
  · have hsublist := times_sublist (essential_sublist (user, action) (new policy perSecond) steps) (user, action)
    have hrun := (remembers_run policy perSecond hordered hlate).isOk_check_iff (Nat.le_refl now)
    -- the essential steps have the same history, and the limits do not change
    have hessential := (remembers_run policy perSecond (hordered.sublist hsublist) fun t ht =>
      hlate t (hsublist.mem ht)).isOk_check_iff (Nat.le_refl now)
    rw [history_essential policy perSecond hordered] at hessential
    rw [hlimits] at hrun hessential
    exact ⟨hrun, Bool.eq_iff_iff.2 (hessential.trans hrun.symm)⟩
  · have hremembers := remembers_run policy perSecond hordered (le_foldl_max _ 0).2
    refine ⟨hremembers.sorted, fun w hw hlongest => ?_⟩
    rw [← hlimits steps action] at hw hlongest
    exact hremembers.length_le w hw hlongest

/-- Two renders a second and three a minute. -/
def twoWindows : RatePolicy := [("render", [⟨1, 2⟩, ⟨60, 3⟩])]

/-- Two users; the fourth check is refused, since two lie in the second before it. -/
def twoUsers : List Step :=
  [.check "u" "render" 0, .check "v" "render" 0, .check "u" "render" 500, .check "u" "render" 900, .usage "u" "render",
    .check "u" "render" 1000]

/-- The check that was refused does not count, but the other three fill the minute. -/
theorem refused_twoUsers :
    (Step.times ("u", "render") twoUsers).Pairwise (· ≤ ·) ∧
      (new twoWindows).history ("u", "render") twoUsers = [0, 500, 1000] ∧
      (((new twoWindows).run twoUsers).check "u" "render" 3000).1.isOk ≠ true := by
  have hordered : (Step.times ("u", "render") twoUsers).Pairwise (· ≤ ·) := by decide
  have hhistory : (new twoWindows).history ("u", "render") twoUsers = [0, 500, 1000] := by decide
  refine ⟨hordered, hhistory, fun hok => ?_⟩
  have hchecks := (isOk_check_iff_history twoWindows 1000 "u" "render" twoUsers hordered).1
  have hcount := (hchecks 3000 (by decide)).1.1 hok ⟨60000, 3⟩ (by decide)
  rw [hhistory] at hcount
  exact absurd hcount (by decide)

end RateLimiter

end Stencil.Policy
