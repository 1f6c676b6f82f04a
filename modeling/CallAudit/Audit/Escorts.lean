import CallAudit.Graph.Basic

/-!
# Escorts

While calls are followed, each group is escorted by at most one node. A node that takes a group over
hides the escort before it; whoever makes the change remembers that escort and puts it back.
-/

namespace CallAudit

/-- The nodes that escort groups at the moment. -/
structure Escorts where
  nodes : List (Text × Handle) := []

namespace Escorts

/-- The escort of a group. -/
def active (e : Escorts) (group : Text) : Option Handle := e.nodes.lookup group

/-- Makes a node the escort of a group, in place of the one before. -/
def appoint (e : Escorts) (group : Text) (h : Handle) : Escorts :=
  { nodes := (group, h) :: e.nodes.filter (·.1 != group) }

/-- Leaves a group without an escort. -/
def dismiss (e : Escorts) (group : Text) : Escorts := { nodes := e.nodes.filter (·.1 != group) }

/-- Puts the escort of a group back that was there before a change, if there was a change. -/
def restore (e : Escorts) : Option (Text × Option Handle) → Escorts
  | none => e
  | some (group, none) => e.dismiss group
  | some (group, some h) => e.appoint group h

@[simp] theorem active_empty (group : Text) : active {} group = none := rfl

@[simp] theorem active_dismiss (e : Escorts) (group other : Text) :
    (e.dismiss group).active other = if other = group then none else e.active other := by
  have hlookup := lookup_filter (· != group) other e.nodes
  by_cases ho : other = group
  · simpa [active, dismiss, ho] using hlookup
  · simpa [active, dismiss, ho] using hlookup

@[simp] theorem active_appoint (e : Escorts) (group other : Text) (h : Handle) :
    (e.appoint group h).active other = if other = group then some h else e.active other := by
  have hrest : (e.nodes.filter (·.1 != group)).lookup other = _ := active_dismiss e group other
  simp only [active, appoint, List.lookup_cons, hrest]
  by_cases ho : other = group
  · simp [ho]
  · simp [ho, beq_eq_false_iff_ne.2 ho]

end Escorts

end CallAudit
