import Mathlib.Data.List.Forall2
import ClusterMap.Proofs.Client.Failure

/-!
# Other spellings of a key

An operation looks at its key once, to bring it into canonical form. So it makes no difference
whether a client names an entry by an integer, a symbol, a key type of its own or the canonical key.
`Operation.withKey` gives an operation another key, and `Move.Respelled` says that the other key has
the same canonical form. Main statements: `Operation.perform_withKey`, one operation;
`respelled_agrees`, a session of any clients among whatever else happens to the cluster.
-/

namespace ClusterMap

variable {κ : Type} [CustomKey κ]

/-! ## One operation -/

/-- A handle brings keys into the canonical form of its codec. -/
theorem MapHandle.key_of_canonicalize {m : MapHandle κ} {k : KeyInput κ} {key : Key}
    (h : m.codec.canonicalize k = .ok key) : m.key k = .ok key := by
  simp [MapHandle.key, h]

namespace Operation

variable {m : MapHandle κ} {op : Operation κ} {k k' : KeyInput κ}

omit [CustomKey κ] in
/-- The operation with another key. -/
def withKey (k' : KeyInput κ) : Operation κ → Operation κ
  | get _ => get k'
  | put _ v => put k' v
  | remove _ => remove k'
  | evict _ => evict k'
  | contains _ => contains k'
  | op => op

/-- An operation does the same under another key that is accepted as the same one or refused for the
same reason. -/
theorem perform_withKey (h : op.key? = some k) (hkey : m.key k' = m.key k) (c : Cluster) :
    (op.withKey k').perform m c = op.perform m c := by
  cases op with
  | get _ => cases h; simp only [withKey, perform, MapHandle.get, hkey]
  | put _ v => cases h; simp only [withKey, perform, MapHandle.put, hkey]
  | remove _ => cases h; simp only [withKey, perform, MapHandle.remove, hkey]
  | evict _ => cases h; simp only [withKey, perform, MapHandle.evict, hkey]
  | contains _ => cases h; simp only [withKey, perform, MapHandle.contains, hkey]
  | _ => rfl

/-- The operation with its key in canonical form, if it has a key that is accepted. -/
def canonical (codec : KeyCodec κ) (op : Operation κ) : Operation κ :=
  match op.key?.map codec.canonicalize with
  | some (.ok key) => op.withKey (.ofKey key)
  | _ => op

end Operation

/-! ## Sessions -/

namespace Relay

/-- What may happen in a session: a client performs an operation, or anything else happens to the
cluster and its subscribers. -/
inductive Move (κ τ : Type) where
  | perform (m : MapHandle κ) (op : Operation κ)
  | turn (t : Turn τ)

namespace Move

variable {τ : Type}

/-- The same move, or the same operation under a key of the same canonical form. -/
inductive Respelled : Move κ τ → Move κ τ → Prop
  | same (move : Move κ τ) : Respelled move move
  | key {m : MapHandle κ} {op : Operation κ} {k k' : KeyInput κ} {key : Key}
      (key?_eq : op.key? = some k)
    (canonicalize_eq : m.codec.canonicalize k = .ok key)
    (canonicalize_eq' : m.codec.canonicalize k' = .ok key) :
    Respelled (.perform m op) (.perform m (op.withKey k'))

/-- The move with its key in canonical form. -/
def canonical : Move κ τ → Move κ τ
  | perform m op => perform m (op.canonical m.codec)
  | turn t => turn t

/-- A canonical key is its own canonical form, so naming an entry by it is one more spelling. -/
theorem respelled_canonical (move : Move κ τ) : Respelled move move.canonical := by
  cases move with
  | turn t => exact .same _
  | perform m op =>
    rw [canonical, Operation.canonical]
    split
    · next key h =>
      obtain ⟨k, hk, hcanonicalize⟩ := Option.map_eq_some_iff.1 h
      exact .key hk hcanonicalize (KeyCodec.canonicalize_ofKey _ key)
    · exact .same _

end Move

variable {σ τ : Type} [Subscriber σ] [Inhabited σ] (act : σ → τ → σ)

/-- What is left behind by a move. -/
def move (r : Relay σ) : Move κ τ → Relay σ
  | .perform m op => (r.perform m op).2
  | .turn t => r.turn act t

/-- What is left behind by a list of moves. -/
def moves (r : Relay σ) (session : List (Move κ τ)) : Relay σ := session.foldl (move act) r

omit [Subscriber σ] [Inhabited σ] in
/-- What a move is answered, if it is an operation. -/
def answer? (r : Relay σ) : Move κ τ → Option (Except Error Answer)
  | .perform m op => some (r.perform m op).1
  | .turn _ => none

/-- What the operations of a session are answered, in turn. -/
def answers (r : Relay σ) : List (Move κ τ) → List (Except Error Answer)
  | [] => []
  | move :: rest => (r.answer? move).toList ++ (r.move act move).answers rest

variable {act} {first other : Move κ τ}

omit [Subscriber σ] [Inhabited σ] in
/-- An operation answers the same under another spelling of its key, and leaves the same. -/
theorem perform_withKey {m : MapHandle κ} {op : Operation κ} {k k' : KeyInput κ} {key : Key}
    (hop : op.key? = some k) (h : m.codec.canonicalize k = .ok key)
    (h' : m.codec.canonicalize k' = .ok key) (r : Relay σ) :
    r.perform m (op.withKey k') = r.perform m op := by
  have hkey : m.key k' = m.key k := by
    rw [MapHandle.key_of_canonicalize h, MapHandle.key_of_canonicalize h']
  simp only [perform, Operation.perform_withKey hop hkey]

omit [Subscriber σ] [Inhabited σ] in
/-- A move is answered the same in another spelling. -/
theorem answer?_of_respelled (h : first.Respelled other) (r : Relay σ) :
    r.answer? other = r.answer? first := by
  cases h with
  | same => rfl
  | key hop h h' => simp only [answer?, perform_withKey hop h h']

/-- A move leaves the same in another spelling. -/
theorem move_of_respelled (h : first.Respelled other) (r : Relay σ) :
    r.move act other = r.move act first := by
  cases h with
  | same => rfl
  | key hop h h' => simp only [move, perform_withKey hop h h']

variable {session respelling : List (Move κ τ)}

/-- A session leaves the same in another spelling. -/
theorem moves_of_respelled (h : List.Forall₂ Move.Respelled session respelling) (r : Relay σ) :
    r.moves act respelling = r.moves act session := by
  induction h generalizing r with
  | nil => rfl
  | cons hmove _ ih => simpa only [moves, List.foldl_cons, move_of_respelled hmove] using ih _

/-- A session is answered the same in another spelling. -/
theorem answers_of_respelled (h : List.Forall₂ Move.Respelled session respelling) (r : Relay σ) :
    r.answers act respelling = r.answers act session := by
  induction h generalizing r with
  | nil => rfl
  | cons hmove _ ih => simp only [answers, answer?_of_respelled hmove, move_of_respelled hmove, ih]

variable (act) in
/-- A session in which any keys are replaced by others of the same canonical form is answered alike,
and behind each of its moves everything is as it was behind the move in the first session: the
entries of every map, the queue of every partition with the batches that wait there, what the
partitions carry, and every subscriber with what it received. Among these sessions is the one whose
keys are all in canonical form. -/
theorem respelled_agrees (r : Relay σ) (h : List.Forall₂ Move.Respelled session respelling) :
    r.answers act respelling = r.answers act session ∧
      (∀ n, r.moves act (respelling.take n) = r.moves act (session.take n)) ∧
      List.Forall₂ Move.Respelled session (session.map Move.canonical) := by
  refine ⟨answers_of_respelled h r, fun n => moves_of_respelled (List.forall₂_take n h) r, ?_⟩
  rw [List.forall₂_map_right_iff]
  exact List.forall₂_same.2 fun move _ => move.respelled_canonical

/-- An entry that is put under a key of the client's own is found under an integer and under a
symbol. -/
theorem respelled_agrees_of_custom :
    let _ : CustomKey Nat := ⟨fun _ => "order"⟩
    let m : MapHandle Nat := ⟨"m", KeyCodec.empty.register "order" Nat.repr⟩
    let ops : List (Operation Nat) :=
      [.put (.uint 7) (.bool true), .get (.uint 7), .remove (.uint 7)]
    let respelled : List (Operation Nat) :=
      [.put (.custom 7) (.bool true), .get (.symbol "7"), .remove (.ofKey ⟨"7"⟩)]
    let session : List (Move Nat Unit) := ops.map (.perform m) ++ [.turn (.take 0), .turn (.pass 0)]
    let respelling : List (Move Nat Unit) :=
      respelled.map (.perform m) ++ [.turn (.take 0), .turn (.pass 0)]
    let r : Relay (List Batch) := ⟨⟨.ofPartitions 1, [[]]⟩, fun _ => []⟩
    List.Forall₂ Move.Respelled session respelling ∧
      r.answers (fun s _ => s) respelling =
        [.ok (.value none), .ok (.value (some (.bool true))), .ok (.value (some (.bool true)))] ∧
      (r.moves (fun s _ => s) respelling).grid.subscribers =
        [[(Mutation.inserted (Value.bool true).bytes).sweep "m" ⟨"7"⟩]] := by
  intro _ m ops respelled session respelling r
  have hcustom : m.codec.canonicalize (.custom 7) = .ok ⟨"7"⟩ := rfl
  have hrespelled : List.Forall₂ Move.Respelled session respelling :=
    .cons (.key rfl rfl hcustom) <| .cons (.key rfl rfl rfl) <| .cons (.key rfl rfl rfl) <|
      .cons (.same _) <| .cons (.same _) .nil
  obtain ⟨hanswers, hmoves, -⟩ := respelled_agrees (fun s _ => s) r hrespelled
  refine ⟨hrespelled, hanswers.trans ?_, ?_⟩
  · rfl
  · rw [show respelling = respelling.take 5 from rfl, hmoves]
    decide +kernel

end Relay

end ClusterMap
