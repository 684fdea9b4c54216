import ClusterMap.Error
import ClusterMap.Text.Blank

/-!
# Configuration

The settings of a client and of the cluster it starts, and the check that they can be run with.
-/

namespace ClusterMap

/-- The settings of a client. -/
structure Config where
  /-- The name that log lines and delivery workers carry. -/
  clientName : String := "gridmap"
  /-- The number of partitions of the cluster; every key belongs to exactly one. -/
  partitionCount : Nat := 16
  /-- What the names of listener workers start with. -/
  listenerPrefix : String := "gridmap-listener"
  /-- How long to wait for events by default, in milliseconds. -/
  eventWaitMillis : Nat := 5000
  deriving DecidableEq, Repr

/-- A span of time: whole seconds, and the nanoseconds of the rest. -/
structure Duration where
  seconds : Nat
  nanos : Nat
  deriving DecidableEq, Repr

/-- The span of so many milliseconds. -/
def Duration.ofMillis (n : Nat) : Duration := ⟨n / 1000, n % 1000 * 1000000⟩

namespace Config

/-- How long to wait for events by default. -/
def eventWait (c : Config) : Duration := .ofMillis c.eventWaitMillis

/-- Refuses a cluster without partitions, and then a name of nothing but white space. -/
def validate (c : Config) : Except Error Unit :=
  if c.partitionCount = 0 then .error (.config "partition_count must be at least 1")
  else if Text.trim c.clientName.toList = [] then .error (.config "client_name must not be empty")
  else .ok ()

end Config

end ClusterMap
