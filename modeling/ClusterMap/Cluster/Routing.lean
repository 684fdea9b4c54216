import ClusterMap.Key.Basic
import ClusterMap.Text.Utf8

/-!
# Routing

Every entry belongs to one partition, found by a checksum of the name of its map and its key. Main
statement: `partitionOf_lt`.
-/

namespace ClusterMap

/-- One bit of the cyclic redundancy check, least significant bit first. -/
def checksumBit (sum : UInt32) : UInt32 :=
  if sum &&& 1 = 1 then (sum >>> 1) ^^^ 0xEDB88320 else sum >>> 1

/-- One byte of the cyclic redundancy check. -/
def checksumByte (sum : UInt32) (b : UInt8) : UInt32 :=
  Nat.repeat checksumBit 8 (sum ^^^ b.toUInt32)

/-- The cyclic redundancy check of 32 bits with the polynomial of Ethernet. -/
def checksum (b : Bytes) : UInt32 := ~~~ b.foldl checksumByte 0xFFFFFFFF

/-- The partition, of so many, that holds the entry under a key of a map: the checksum of both names
with a zero byte between. -/
def partitionOf (count : Nat) (map : String) (key : Key) : Nat :=
  (checksum (Text.utf8 map ++ 0 :: Text.utf8 key.text)).toNat % count

/-- Every entry belongs to one of the partitions. -/
theorem partitionOf_lt {count : Nat} (h : 0 < count) (map : String) (key : Key) :
    partitionOf count map key < count := Nat.mod_lt _ h

end ClusterMap
