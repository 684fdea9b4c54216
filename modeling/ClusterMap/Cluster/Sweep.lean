import ClusterMap.Event.Basic

/-!
# The backup sweep

After a change of an entry the cluster walks the remaining categories to bring the backups in line,
and reports each with the state of the entry at that point:

| change       | reported                                    |
|--------------|---------------------------------------------|
| inserted `v` | added `v`, removed `v`, updated `v`, evicted |
| overwritten  | updated with the new value, evicted         |
| removed      | removed with the old value, updated, evicted |
| evicted      | evicted                                     |
-/

namespace ClusterMap

/-- A change of an entry. -/
inductive Mutation where
  | inserted (value : Bytes)
  | overwritten (value : Bytes)
  | removed (previous : Bytes)
  | evicted
  deriving DecidableEq, Repr

namespace Mutation

/-- The categories walked after a change, with the value of the entry at that point. -/
def rows : Mutation → List (Category × Option Bytes)
  | inserted value =>
    [(.added, some value), (.removed, some value), (.updated, some value), (.evicted, none)]
  | overwritten value => [(.updated, some value), (.evicted, none)]
  | removed previous => [(.removed, some previous), (.updated, none), (.evicted, none)]
  | evicted => [(.evicted, none)]

/-- The notifications about a change of the entry under a key of a map. -/
def sweep (m : Mutation) (map : String) (key : Key) : Batch :=
  m.rows.map fun row => ⟨map, key, row.1, row.2⟩

end Mutation

end ClusterMap
