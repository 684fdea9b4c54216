import ClusterMap.Client.MapHandle
import ClusterMap.Cluster.Grid

/-!
# Clients

A client has its settings, its rules for keys and its own event bus, which is subscribed to the
cluster that it shares with others.
-/

namespace ClusterMap

/-- A client of a cluster. -/
structure Client (κ : Type) where
  config : Config
  codec : KeyCodec κ
  /-- The place of the client's bus among the subscribers of the cluster. -/
  bus : Nat

namespace Client

variable {κ : Type}

/-- Connects a client to a cluster, subscribing a new bus for it. -/
def connect (config : Config) (codec : KeyCodec κ) (g : Grid Bus) :
    Except Error (Client κ × Grid Bus) :=
  match config.validate with
  | .ok () => .ok (⟨config, codec, g.subscribers.length⟩, g.subscribe {})
  | .error e => .error e

/-- Starts a cluster of its own for a client without rules for keys. -/
def startLocal (config : Config) : Except Error (Client κ × Grid Bus) :=
  match Cluster.start config with
  | .ok cluster => connect config .empty ⟨cluster, []⟩
  | .error e => .error e

/-- The handle of the map of a name. -/
def map (client : Client κ) (name : String) : MapHandle κ := ⟨name, client.codec⟩

end Client

end ClusterMap
