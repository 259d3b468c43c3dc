import Stencil.Stored

/-!
# Audit

Every attempt to render leaves one event: who, what, how it ended, and in a few words why. Events go to a sink, which
keeps all of them, holds a bounded number for a receiver, or only writes them to a log. A sink never blocks: an event
that finds no room is lost.
-/

namespace Stencil.Audit

open Json

/-- An attempt to render. -/
structure Event where
  user : Text
  resource : Text
  outcome : Text
  details : Text
deriving DecidableEq, Repr

/-- The outcome of a render that has succeeded. -/
def successOutcome : Text := "success"

namespace Event

/-- The type of events about renders. -/
def renderType : Text := "template_render"

/-- Whether an event tells of a success. -/
def isSuccess (e : Event) : Bool := e.outcome = successOutcome

/-- An event as it is stored, without its time. -/
def toJson (e : Event) : Value :=
  .ofMembers [("event_type".toList, .string renderType), ("user".toList, .string e.user),
    ("resource_id".toList, .string e.resource), ("outcome".toList, .string e.outcome),
    ("details".toList, .string e.details)]

end Event

/-! ## Channels -/

/-- The events that wait for a receiver, as long as there is one. -/
structure Channel where
  capacity : Nat
  waiting : List Event
  isOpen : Bool
deriving Repr

namespace Channel

/-- The most events that a channel can count, in the sixty-one bits that a word leaves for them. -/
def maxCapacity : Nat := 0x1fffffffffffffff

/-- A channel without events, if it can count as many as asked for. It has room for one at least. -/
def new? (capacity : Nat) : Option Channel :=
  if capacity ≤ maxCapacity then some ⟨max 1 capacity, [], true⟩ else none

/-- Sends an event, if somebody may receive it and there is room. -/
def send (c : Channel) (e : Event) : Channel :=
  if c.isOpen && c.waiting.length < c.capacity then { c with waiting := c.waiting ++ [e] } else c

/-- The event that has waited longest, and the channel without it. -/
def receive (c : Channel) : Option Event × Channel := (c.waiting.head?, { c with waiting := c.waiting.drop 1 })

/-- All waiting events, and the channel without them. -/
def drain (c : Channel) : List Event × Channel := (c.waiting, { c with waiting := [] })

/-- The channel when its receiver is gone, and the waiting events with it. -/
def close (c : Channel) : Channel := { c with waiting := [], isOpen := false }

/-- There never wait more events than there is room for. -/
theorem length_send_le {c : Channel} (h : c.waiting.length ≤ c.capacity) (e : Event) :
    (c.send e).waiting.length ≤ (c.send e).capacity := by
  unfold send
  split
  · rename_i hroom
    simp only [Bool.and_eq_true, decide_eq_true_eq] at hroom
    simp only [List.length_append, List.length_singleton]
    omega
  · exact h

end Channel

/-! ## Sinks -/

/-- Where events go. -/
inductive Sink where
  | memory (events : List Event)
  | channel (channel : Channel)
  | log
deriving Repr

/-- Hands an event to a sink. -/
def Sink.emit (s : Sink) (e : Event) : Sink :=
  match s with
  | memory events => memory (events ++ [e])
  | channel c => channel (c.send e)
  | log => log

end Stencil.Audit
