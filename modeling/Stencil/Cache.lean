import Stencil.Number.Word
import Stencil.Table

/-!
# Bounded caches

A cache keeps the entries used last. It is cut into shards, each with a bound of its own, and a key belongs to one shard
for good. A shard holds its entries latest use first, so that the entry to go is the last one.

Main statement: what was stored under a key is what its shard holds under it (`Shard.get?_store`), as long as the shard
has room.
-/

namespace Stencil

/-- A part of a cache: entries with the latest used first. -/
abbrev Shard (κ α : Type) := Table κ α

namespace Shard

variable {κ α : Type} [DecidableEq κ]

/-- Moves the entry of a key to the front. -/
def touch (shard : Shard κ α) (k : κ) (v : α) : Shard κ α := (k, v) :: Table.erase shard k

/-- Puts an entry in front, in the place of an older one of the key, and drops what is beyond the bound. -/
def store (capacity : Nat) (shard : Shard κ α) (k : κ) (v : α) : Shard κ α := (touch shard k v).take capacity

/-- What is stored last is found, if there is room at all. -/
theorem get?_store {capacity : Nat} (h : 0 < capacity) (shard : Shard κ α) (k : κ) (v : α) :
    Table.get? (store capacity shard k v) k = some v := by
  obtain ⟨n, rfl⟩ := Nat.exists_eq_succ_of_ne_zero (Nat.ne_of_gt h)
  simp [store, touch, Table.get?]

/-- A shard never holds more than its bound. -/
theorem length_store_le (capacity : Nat) (shard : Shard κ α) (k : κ) (v : α) :
    (store capacity shard k v).length ≤ capacity := by
  simp only [store, List.length_take]
  omega

end Shard

/-- A bounded cache. It counts how often a key was found in it and how often not, in words that wrap around. -/
structure Cache (κ α : Type) where
  shardOf : κ → Nat
  shardCapacity : Nat
  shards : List (Shard κ α)
  found : UInt64
  missed : UInt64

namespace Cache

variable {κ α : Type} [DecidableEq κ]

/-- The share of a capacity that each of some shards has: rounded up, so that together they hold the capacity at least,
and never nothing. -/
def share (capacity shards : Nat) : Nat := max 1 ((capacity + shards - 1) / shards)

/-- An empty cache whose capacity is divided evenly among its shards, of which there is at least one. -/
def new (shardOf : κ → Nat) (capacity shards : Nat) : Cache κ α :=
  let count := max 1 shards
  ⟨shardOf, share capacity count, List.replicate count [], 0, 0⟩

/-- The shards that can be addressed together: each takes seventy-two bytes of the 2^63 that there are. -/
def maxShards : Nat := 0x7fffffffffffffff / 72

/-- The entries that a shard can be made for. Its room is a power of two of which at most seven eighths are filled, and
with seventeen bytes for an entry 2^58 is the last such power that can be addressed. -/
def maxShardCapacity : Nat := 7 * 0x80000000000000

/-- Whether a cache can be made at all, since the room for all of its entries is taken in advance. -/
def fits (capacity shards : Nat) : Bool :=
  max 1 shards ≤ maxShards && share capacity (max 1 shards) ≤ maxShardCapacity

/-- An empty cache, if it can be made. -/
def new? (shardOf : κ → Nat) (capacity shards : Nat) : Option (Cache κ α) :=
  if fits capacity shards then some (new shardOf capacity shards) else none

/-- The place of a key's shard. -/
def shardIndex (c : Cache κ α) (k : κ) : Nat := c.shardOf k % c.shards.length

/-- The shard of a key. -/
def shard (c : Cache κ α) (k : κ) : Shard κ α := c.shards.getD (c.shardIndex k) []

/-- The cache with another shard for a key. -/
def withShard (c : Cache κ α) (k : κ) (shard : Shard κ α) : Cache κ α :=
  { c with shards := c.shards.set (c.shardIndex k) shard }

/-- Looks a key up, which counts as a use of its entry. -/
def lookup (c : Cache κ α) (k : κ) : Option α × Cache κ α :=
  match Table.get? (c.shard k) k with
  | some v => (some v, { c.withShard k ((c.shard k).touch k v) with found := c.found + 1 })
  | none => (none, { c with missed := c.missed + 1 })

/-- Stores a value under a key. -/
def store (c : Cache κ α) (k : κ) (v : α) : Cache κ α := c.withShard k ((c.shard k).store c.shardCapacity k v)

/-- How often a key was found, as far as a word counts. -/
def hits (c : Cache κ α) : Nat := c.found.toNat

/-- How often a key was not found, as far as a word counts. -/
def misses (c : Cache κ α) : Nat := c.missed.toNat

/-- Drops all entries. -/
def clear (c : Cache κ α) : Cache κ α := { c with shards := c.shards.map fun _ => [] }

/-- How many entries there are. -/
def size (c : Cache κ α) : Nat := c.shards.flatten.length

/-- Whether there is no entry. -/
def isEmpty (c : Cache κ α) : Bool := c.size = 0

/-! ## Spreading texts over shards -/

/-- A word for a text, mixed from its characters one by one so that similar texts lie apart. -/
def spread (t : Text) : Nat :=
  t.foldl (fun h c => ((h ^^^ c.toNat) * 0x100000001b3) % Word.size) 0xcbf29ce484222325

end Cache

end Stencil
