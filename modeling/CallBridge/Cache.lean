import CallBridge.Collection.Ordered
import CallBridge.Config.Basic
import CallBridge.Digest.Sha256
import CallBridge.Text.Units

/-!
# The transform cache

Results by source and mode. The cache knows a source by its digest. It holds at most `capacity`
results; the oldest one makes room, and a result set again keeps its age.
-/

namespace CallBridge

open Collection

/-- What a transform gives. -/
structure TransformResult where
  generatedText : String
  sourceMap : Option String
  dependencies : List String
  deriving DecidableEq, Repr

/-- The digest of a source and the mode. -/
abbrev CacheKey := String × Mode

/-- The results that are kept, and the order they came in. -/
structure Cache where
  capacity : Nat
  entries : Ordered CacheKey TransformResult
  /-- The keys by age, the oldest first. -/
  order : List CacheKey
  deriving Repr

namespace Cache

def empty (capacity : Nat) : Cache := ⟨capacity, [], []⟩

/-- The cache without a capacity of its own. -/
def standard : Cache := empty 100

/-- A source is known by the digest of its bytes. -/
def hash (source : String) : String := Digest.sha256 (Text.encodeBytes source.toList)

def key (source : String) (mode : Mode) : CacheKey := (hash source, mode)

/-- The result for a source in a mode, whatever file it came from. -/
def get? (c : Cache) (source : String) (mode : Mode) : Option TransformResult :=
  c.entries.get? (key source mode)

def size (c : Cache) : Nat := c.entries.length

/-- Drops all results. The capacity stays. -/
def clear (c : Cache) : Cache := { c with entries := [], order := [] }

/-- Drops the oldest entry of the queue as long as there are too many. -/
def evict (capacity : Nat) (entries : Ordered CacheKey TransformResult) : List CacheKey → Cache
  | [] => ⟨capacity, entries, []⟩
  | oldest :: rest =>
    if capacity < (oldest :: rest).length then
      evict capacity (entries.filter (·.1 != oldest)) rest
    else ⟨capacity, entries, oldest :: rest⟩

/-- Makes room for what has just been added. -/
def trim (c : Cache) : Cache := evict c.capacity c.entries c.order

/-- Keeps a result. Without a capacity nothing is kept, and a key that is known stays where it is in
the queue. -/
def set (c : Cache) (source : String) (mode : Mode) (r : TransformResult) : Cache :=
  let k := key source mode
  if c.capacity = 0 then c
  else
    let known := (c.entries.get? k).isSome
    let c := { c with entries := c.entries.set k r }
    if known then c else trim { c with order := c.order ++ [k] }

end Cache

end CallBridge
