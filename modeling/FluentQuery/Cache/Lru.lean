import FluentQuery.Json.Value

/-!
# A cache that forgets what was used longest ago

Entries are found by key in a map, and a second list holds the keys in the order of their last use,
the latest first.  When there are more entries than the capacity allows, those at the end of that
list are evicted one by one.  A cache that is switched off or has no capacity holds nothing and
counts nothing.
-/

namespace FluentQuery

set_option autoImplicit false

structure CacheConfig where
  enabled : Bool := true
  /-- How many entries are kept. -/
  capacity : Nat := 1024
deriving DecidableEq, Repr, Inhabited

namespace CacheConfig

/-- Whether anything is kept. -/
def isActive (c : CacheConfig) : Bool :=
  c.enabled && 0 < c.capacity

def toJson (c : CacheConfig) : Json :=
  .object [("enabled", .bool c.enabled), ("capacity", .int c.capacity)]

end CacheConfig

/-- What happened since the statistics were last reset, and how many entries are kept. -/
structure CacheStats where
  hits : Nat := 0
  misses : Nat := 0
  insertions : Nat := 0
  evictions : Nat := 0
  size : Nat := 0
deriving DecidableEq, Repr, Inhabited

/-- A bounded cache. -/
structure Cache (α : Type) where
  config : CacheConfig := {}
  entries : Assoc α := []
  /-- The keys, the one used last first. -/
  recency : List String := []
  stats : CacheStats := {}
deriving Inhabited

namespace Cache

variable {α : Type}

/-- How many entries there are. -/
def size (c : Cache α) : Nat :=
  c.entries.length

/-- The list of keys with one of them moved to the front. -/
def touch (key : String) (recency : List String) : List String :=
  key :: recency.erase key

/-- The cache with the number of its entries noted in the statistics. -/
def recount (c : Cache α) : Cache α :=
  { c with stats := { c.stats with size := c.size } }

/-- Drops entries while there are more than the capacity allows.  The keys are given in the order of
their last use, the oldest first. -/
def dropOldest (c : Cache α) : List String → Cache α
  | [] => c
  | oldest :: newer =>
    if c.config.capacity < c.size then
      dropOldest
        { c with
          entries := c.entries.erase oldest
          recency := newer.reverse
          stats := { c.stats with evictions := c.stats.evictions + 1 } }
        newer
    else c

/-- Drops the entries used longest ago until the capacity is met. -/
def evict (c : Cache α) : Cache α :=
  (c.dropOldest c.recency.reverse).recount

/-- The entry under a key; finding it makes it the one used last. -/
def get (c : Cache α) (key : String) : Option α × Cache α :=
  if c.config.isActive then
    match c.entries.find? key with
    | some value =>
      (some value,
        { c with
          recency := touch key c.recency
          stats := { c.stats with hits := c.stats.hits + 1 } })
    | none => (none, { c with stats := { c.stats with misses := c.stats.misses + 1 } })
  else (none, c)

/-- Stores an entry as the one used last. -/
def set (c : Cache α) (key : String) (value : α) : Cache α :=
  if c.config.isActive then
    if c.entries.contains key then
      { c with entries := c.entries.insert key value, recency := touch key c.recency }
    else
      evict
        { c with
          entries := c.entries.insert key value
          recency := key :: c.recency
          stats := { c.stats with insertions := c.stats.insertions + 1 } }
  else c

/-- Forgets all entries. -/
def clear (c : Cache α) : Cache α :=
  recount { c with entries := [], recency := [] }

/-- Sets all counts back to zero, but for that of the entries. -/
def resetStats (c : Cache α) : Cache α :=
  recount { c with stats := {} }

/-- Changes the configuration; entries that no longer fit are dropped. -/
def setConfig (c : Cache α) (config : CacheConfig) : Cache α :=
  let c := { c with config }
  if config.isActive then c.evict else c.clear

/-- The share of look-ups that found an entry. -/
def hitRate (c : Cache α) : Double :=
  .ofRatio false c.stats.hits (c.stats.hits + c.stats.misses)

/-- The description of the statistics. -/
def statsJson (c : Cache α) : Json :=
  .object
    [("hits", .int c.stats.hits), ("misses", .int c.stats.misses),
      ("insertions", .int c.stats.insertions), ("evictions", .int c.stats.evictions),
      ("size", .int c.stats.size), ("hit_rate", .double c.hitRate)]

end Cache

end FluentQuery
