import IndexedStore.Cbor.Item
import IndexedStore.Collection.Dict
import IndexedStore.Key.Segment

/-! # Stored content

The backing store is an ordered map from keys to bytes. A prefix scan walks from
the first key not below the prefix and stops at the first key that does not start
with it. A batch of writes takes effect as a whole, in order.
-/

namespace IndexedStore

/-- The new bytes of a key, or none to remove it. -/
abbrev Write := String × Option Bytes

abbrev Content := Dict Bytes

namespace Content

def scan (c : Content) (start : String) : List (String × Bytes) :=
  (c.entries.dropWhile fun e => e.1 < start).takeWhile fun e => Key.hasPrefix start e.1

def write (c : Content) : Write → Content
  | (k, some b) => c.insert k b
  | (k, none) => c.erase k

def apply (c : Content) (writes : List Write) : Content := writes.foldl write c

end Content

end IndexedStore
