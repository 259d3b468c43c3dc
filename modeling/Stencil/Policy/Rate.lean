import Stencil.Fault
import Stencil.Table

/-!
# Limits on how often a user may act

A policy bounds how often an action may be done within windows of time that end now. What a user has done is a queue of
stamps, in the order in which the actions were admitted. Time may run backwards between calls, and a stamp of the future
counts as one of now.

A limiter counts time in instants, so many to a second, and measures the windows of its policy in them (`Quota`). It is
the same limiter for every length of an instant.
-/

namespace Stencil.Policy

/-- At most so many actions within so many seconds. -/
structure WindowLimit where
  seconds : Nat
  limit : Nat
deriving DecidableEq, Repr

/-- The instants of a second for a clock that counts nanoseconds. -/
def nanoseconds : Nat := 1000000000

/-- The length of a window in instants, in milliseconds if nothing else is said. -/
def WindowLimit.window (w : WindowLimit) (perSecond : Nat := 1000) : Nat := perSecond * w.seconds

/-- At most so many stamps within so many instants. -/
structure Quota where
  length : Nat
  limit : Nat
deriving DecidableEq, Repr

/-- A limit with its window measured in instants. -/
def WindowLimit.quota (perSecond : Nat) (w : WindowLimit) : Quota := ⟨w.window perSecond, w.limit⟩

/-- The limits of each action; an action that is not in it is free. -/
abbrev RatePolicy := Table Text (List WindowLimit)

namespace Stamps

/-- The stamps without those at the front that are as old as the horizon. -/
def prune (stamps : List Nat) (now horizon : Nat) : List Nat := stamps.dropWhile fun t => horizon ≤ now - t

/-- How many of the latest stamps are younger than a window, up to the first that is not. -/
def inWindow (stamps : List Nat) (now window : Nat) : Nat :=
  (stamps.reverse.takeWhile fun t => now - t < window).length

/-- Whether a limit forbids one more action. -/
def exhausts (stamps : List Nat) (now : Nat) (w : Quota) : Bool := w.limit ≤ inWindow stamps now w.length

/-- Pruning keeps a final part of the stamps. -/
theorem prune_suffix (stamps : List Nat) (now horizon : Nat) : prune stamps now horizon <:+ stamps :=
  List.dropWhile_suffix _

end Stamps

/-- A policy and what each user has done under it, in instants of which there are so many to a second. -/
structure RateLimiter where
  policy : RatePolicy
  perSecond : Nat
  queues : Table (Text × Text) (List Nat)
deriving Repr

namespace RateLimiter

/-- A limiter before any action. -/
def new (policy : RatePolicy) (perSecond : Nat := 1000) : RateLimiter := ⟨policy, perSecond, []⟩

/-- The limits of an action. -/
def limits (l : RateLimiter) (action : Text) : List Quota :=
  ((Table.get? l.policy action).getD []).map (WindowLimit.quota l.perSecond)

/-- The stamps of a user's actions of a kind. -/
def stamps (l : RateLimiter) (user action : Text) : List Nat := (Table.get? l.queues (user, action)).getD []

/-- How many stamps are kept of a user's actions of a kind. -/
def usage (l : RateLimiter) (user action : Text) : Nat := (l.stamps user action).length

/-- Forgets a user's actions of a kind. -/
def reset (l : RateLimiter) (user action : Text) : RateLimiter := { l with queues := l.queues.erase (user, action) }

/-- The longest of the windows. -/
def horizon (limits : List Quota) : Nat := (limits.map Quota.length).foldl max 0

/-- Admits an action and keeps its stamp, or refuses it. An action without windows is admitted and leaves no stamp. -/
def check (l : RateLimiter) (user action : Text) (now : Nat) : Except Fault Unit × RateLimiter :=
  match l.limits action with
  | [] => (.ok (), l)
  | limits =>
    let kept := Stamps.prune (l.stamps user action) now (horizon limits)
    -- a refused action leaves no stamp, but what was too old is forgotten
    if limits.any (Stamps.exhausts kept now) then
      (.error (.rateLimited action), { l with queues := l.queues.set (user, action) kept })
    else (.ok (), { l with queues := l.queues.set (user, action) (kept ++ [now]) })

end RateLimiter

end Stencil.Policy
