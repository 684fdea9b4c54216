/-!
# The log

The release that reports itself, what is logged unless the environment says otherwise, and the
installation of a writer of log lines, of which a process has at most one, so that only the first
installation takes effect.
-/

namespace ClusterMap

/-- The release of the library. -/
def version : String := "0.1.0"

/-- What is logged unless the environment says otherwise. -/
def defaultLogFilter : String := "info,gridmap=debug"

/-- Whether the process writes log lines, and which. -/
structure Log where
  filter : Option String := none
  deriving DecidableEq, Repr

namespace Log

/-- Installs a writer for the lines that pass a filter, unless there is one. Also says whether it
did. -/
def install (log : Log) (filter : String) : Bool × Log :=
  match log.filter with
  | none => (true, ⟨some filter⟩)
  | some _ => (false, log)

end Log

end ClusterMap
