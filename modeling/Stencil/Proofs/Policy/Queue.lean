import Mathlib.Data.List.Induction
import Mathlib.Data.List.TakeWhile
import Stencil.Policy.Rate

/-!
# The queue of one user and action

What a check does to the stamps of the user and action it is for, and that it does nothing to any others
(`RateLimiter.stamps_check`, `RateLimiter.stamps_check_of_ne`).

Both `prune` and `inWindow` stop at the first stamp that does not fit. On stamps in order of time nothing is missed by
this (`inWindow_eq_countP`). In any order, a call that is refused makes sure that every call with an earlier stamp is
refused as well (`admits_prune_eq_false`), so forgetting stamps at it does no harm.
-/

namespace Stencil.Policy

namespace Stamps

variable {limits : List Quota} {stamps : List Nat} {now earlier later : Nat}

/-! ## Counting from the back -/

/-- If a predicate holds up to the end from where it first holds, it holds for as many elements as are counted from the
back. -/
lemma length_takeWhile_reverse {p : Nat → Bool} (h : stamps.Pairwise fun s t => p s = true → p t = true) :
    (stamps.reverse.takeWhile p).length = stamps.countP p := by
  induction stamps using List.reverseRecOn with
  | nil => rfl
  | append_singleton stamps t ih =>
    obtain ⟨hstamps, -, hlast⟩ := List.pairwise_append.1 h
    rw [List.reverse_append, List.reverse_singleton, List.singleton_append, List.countP_append, List.countP_singleton]
    by_cases ht : p t = true
    · rw [List.takeWhile_cons_of_pos ht, List.length_cons, ih hstamps, if_pos ht]
    · have hnone : ∀ s ∈ stamps, ¬ p s = true := fun s hs hp => ht (hlast s hs t (List.mem_singleton_self t) hp)
      rw [List.takeWhile_cons_of_neg ht, List.countP_eq_zero.2 hnone, if_neg ht]
      rfl

theorem inWindow_eq_countP (h : stamps.Pairwise (· ≤ ·)) (now window : Nat) :
    inWindow stamps now window = stamps.countP fun t => now - t < window := by
  refine length_takeWhile_reverse (h.imp fun {s t} hst hs => ?_)
  rw [decide_eq_true_eq] at hs ⊢
  omega

/-- A wider condition takes at least as many. -/
lemma length_takeWhile_le_of_imp {p q : Nat → Bool} (h : ∀ t, p t = true → q t = true) (stamps : List Nat) :
    (stamps.takeWhile p).length ≤ (stamps.takeWhile q).length := by
  induction stamps with
  | nil => exact Nat.le_refl _
  | cons t stamps ih =>
    by_cases ht : p t = true
    · rw [List.takeWhile_cons_of_pos ht, List.takeWhile_cons_of_pos (h t ht), List.length_cons, List.length_cons]
      omega
    · rw [List.takeWhile_cons_of_neg ht]
      exact Nat.zero_le _

/-- An empty window holds no stamp. -/
lemma inWindow_zero (stamps : List Nat) (now : Nat) : inWindow stamps now 0 = 0 := by
  unfold inWindow
  cases stamps.reverse with
  | nil => rfl
  | cons t stamps => rw [List.takeWhile_cons_of_neg (by simp), List.length_nil]

/-- The count ends at a stamp that is too old, whatever stands in front of it. -/
lemma inWindow_append_cons {stamps recent : List Nat} {old now window : Nat} (hold : window ≤ now - old)
    (hrecent : ∀ t ∈ recent, now - t < window) : inWindow (stamps ++ old :: recent) now window = recent.length := by
  have hall : ∀ t ∈ recent.reverse, decide (now - t < window) = true := fun t ht => by
    simpa using hrecent t (List.mem_reverse.1 ht)
  rw [inWindow, List.reverse_append, List.reverse_cons, List.append_assoc, List.takeWhile_append_of_pos hall,
    List.singleton_append, List.takeWhile_cons_of_neg (by simpa using hold), List.append_nil, List.length_reverse]

/-- The later it is, the fewer stamps are in a window. -/
lemma inWindow_anti (h : earlier ≤ later) (stamps : List Nat) (window : Nat) :
    inWindow stamps later window ≤ inWindow stamps earlier window := by
  refine length_takeWhile_le_of_imp (fun t ht => ?_) stamps.reverse
  rw [decide_eq_true_eq] at ht ⊢
  omega

/-! ## Pruning -/

lemma exists_pruned (stamps : List Nat) (now horizon : Nat) :
    ∃ old, stamps = old ++ prune stamps now horizon ∧ ∀ t ∈ old, horizon ≤ now - t := by
  refine ⟨stamps.takeWhile fun t => horizon ≤ now - t, List.takeWhile_append_dropWhile.symm, fun t ht => ?_⟩
  simpa using List.mem_takeWhile_imp ht

/-- Pruning again at an earlier time does nothing. -/
lemma prune_prune_of_ge (h : earlier ≤ later) (stamps : List Nat) (horizon : Nat) :
    prune (prune stamps later horizon) earlier horizon = prune stamps later horizon := by
  unfold prune
  induction stamps with
  | nil => rfl
  | cons t stamps ih =>
    by_cases ht : horizon ≤ later - t
    · rw [List.dropWhile_cons_of_pos (by simpa using ht), ih]
    · have hearlier : ¬ horizon ≤ earlier - t := by omega
      rw [List.dropWhile_cons_of_neg (by simpa using ht), List.dropWhile_cons_of_neg (by simpa using hearlier)]

/-- What is pruned at an earlier time would be pruned at a later one. -/
lemma prune_prune_of_le (h : earlier ≤ later) (stamps : List Nat) (horizon : Nat) :
    prune (prune stamps earlier horizon) later horizon = prune stamps later horizon := by
  unfold prune
  induction stamps with
  | nil => rfl
  | cons t stamps ih =>
    by_cases ht : horizon ≤ earlier - t
    · have hlater : horizon ≤ later - t := by omega
      rw [List.dropWhile_cons_of_pos (by simpa using ht), ih, List.dropWhile_cons_of_pos (by simpa using hlater)]
    · rw [List.dropWhile_cons_of_neg (by simpa using ht)]

/-! ## Checks -/

/-- Whether a call is admitted behind the stamps in a queue. -/
def admits (limits : List Quota) (stamps : List Nat) (now : Nat) : Bool :=
  !limits.any (exhausts (prune stamps now (RateLimiter.horizon limits)) now)

/-- The queue behind a call. -/
def after (limits : List Quota) (stamps : List Nat) (now : Nat) : List Nat :=
  if admits limits stamps now then prune stamps now (RateLimiter.horizon limits) ++ [now]
  else prune stamps now (RateLimiter.horizon limits)

lemma admits_iff : admits limits stamps now = true ↔
    ∀ w ∈ limits, inWindow (prune stamps now (RateLimiter.horizon limits)) now w.length < w.limit := by
  simp [admits, exhausts]

/-- Nothing stands in the way of a call if no stamps are left. -/
lemma admits_of_prune_eq_nil (hlimits : ∀ w ∈ limits, w.limit ≠ 0)
    (h : prune stamps now (RateLimiter.horizon limits) = []) : admits limits stamps now = true := by
  refine admits_iff.2 fun w hw => ?_
  rw [h]
  exact Nat.pos_of_ne_zero (hlimits w hw)

/-- What a refused call leaves behind refuses the calls that are earlier. -/
theorem admits_prune_eq_false (h : admits limits stamps later = false) (hle : earlier ≤ later) :
    admits limits (prune stamps later (RateLimiter.horizon limits)) earlier = false := by
  rw [← Bool.not_eq_true, admits_iff] at h ⊢
  intro hadmits
  refine h fun w hw => ?_
  have hearlier := hadmits w hw
  rw [prune_prune_of_ge hle] at hearlier
  exact Nat.lt_of_le_of_lt (inWindow_anti hle _ _) hearlier

/-- What a call prunes does not matter to later ones. -/
lemma admits_prune (hle : earlier ≤ later) :
    admits limits (prune stamps earlier (RateLimiter.horizon limits)) later = admits limits stamps later := by
  unfold admits
  rw [prune_prune_of_le hle]

end Stamps

/-! ## The queues of a limiter -/

namespace RateLimiter

lemma le_foldl_max (windows : List Nat) (n : Nat) :
    n ≤ windows.foldl max n ∧ ∀ w ∈ windows, w ≤ windows.foldl max n := by
  induction windows generalizing n with
  | nil => exact ⟨Nat.le_refl n, fun w hw => absurd hw List.not_mem_nil⟩
  | cons v windows ih =>
    obtain ⟨hmax, hwindows⟩ := ih (max n v)
    rw [List.foldl_cons]
    refine ⟨by omega, fun w hw => ?_⟩
    rcases List.mem_cons.1 hw with rfl | hw
    · omega
    · exact hwindows w hw

lemma window_le_horizon {limits : List Quota} {w : Quota} (h : w ∈ limits) :
    w.length ≤ horizon limits :=
  (le_foldl_max _ 0).2 _ (List.mem_map_of_mem h)

variable (l : RateLimiter) (user action : Text) (now : Nat)

lemma check_of_limits_eq_nil (h : l.limits action = []) : l.check user action now = (.ok (), l) := by
  rw [check, h]

/-- A check is one of the queue of its user and action. -/
lemma check_of_limits_ne_nil (h : l.limits action ≠ []) :
    l.check user action now =
      (if Stamps.admits (l.limits action) (l.stamps user action) now then .ok () else .error (.rateLimited action),
        { l with
          queues := l.queues.set (user, action) (Stamps.after (l.limits action) (l.stamps user action) now) }) := by
  rw [check, Stamps.after, Stamps.admits]
  split
  · rename_i hnil
    exact absurd hnil h
  · by_cases hany : (l.limits action).any
        (Stamps.exhausts (Stamps.prune (l.stamps user action) now (horizon (l.limits action))) now) = true
    · simp [hany]
    · simp [hany]

/-- A check answers what the queue of its key admits. -/
lemma isOk_check : (l.check user action now).1.isOk = Stamps.admits (l.limits action) (l.stamps user action) now := by
  by_cases h : l.limits action = []
  · rw [check_of_limits_eq_nil l user action now h, h]
    rfl
  · rw [check_of_limits_ne_nil l user action now h]
    dsimp only
    split
    · rename_i hadmits
      rw [hadmits]
      rfl
    · rename_i hrefuses
      rw [Bool.not_eq_true] at hrefuses
      rw [hrefuses]
      rfl

/-- Behind a check, the queue of its key is the one behind the stamp. -/
theorem stamps_check (h : l.limits action ≠ []) :
    (l.check user action now).2.stamps user action =
      Stamps.after (l.limits action) (l.stamps user action) now := by
  rw [check_of_limits_ne_nil l user action now h]
  dsimp only [stamps]
  rw [Table.get?_set, if_pos rfl, Option.getD_some]

/-- A check leaves the queues of other keys. -/
theorem stamps_check_of_ne {user' action' : Text} (h : (user', action') ≠ (user, action)) :
    (l.check user action now).2.stamps user' action' = l.stamps user' action' := by
  by_cases hlimits : l.limits action = []
  · rw [check_of_limits_eq_nil l user action now hlimits]
  · rw [check_of_limits_ne_nil l user action now hlimits]
    dsimp only [stamps]
    rw [Table.get?_set, if_neg (Ne.symm h)]

lemma limits_check (action' : Text) : (l.check user action now).2.limits action' = l.limits action' := by
  by_cases hlimits : l.limits action = []
  · rw [check_of_limits_eq_nil l user action now hlimits]
  · rw [check_of_limits_ne_nil l user action now hlimits]
    rfl

/-- A check that is refused adds no stamp to any queue. -/
lemma stamps_check_suffix (h : (l.check user action now).1.isOk = false) (user' action' : Text) :
    (l.check user action now).2.stamps user' action' <:+ l.stamps user' action' := by
  by_cases hkey : (user', action') = (user, action)
  · obtain ⟨rfl, rfl⟩ := Prod.mk.inj hkey
    rw [isOk_check] at h
    by_cases hlimits : l.limits action' = []
    · simp [check_of_limits_eq_nil l user' action' now hlimits]
    · rw [stamps_check l user' action' now hlimits, Stamps.after, if_neg (by simp [h])]
      exact Stamps.prune_suffix _ _ _
  · simp [stamps_check_of_ne l user action now hkey]

/-- A check that is admitted adds one stamp to its queue, unless the action is free. -/
lemma stamps_check_of_isOk (h : (l.check user action now).1.isOk = true) (hlimits : l.limits action ≠ []) :
    (l.check user action now).2.stamps user action =
      Stamps.prune (l.stamps user action) now (horizon (l.limits action)) ++ [now] := by
  rw [isOk_check] at h
  rw [stamps_check l user action now hlimits, Stamps.after, if_pos h]

end RateLimiter

end Stencil.Policy
