import CallAudit.Audit.Basic
import CallAudit.Audit.Escorts

/-!
# Following calls from entry points

The calls from an entry point are followed depth first, each at most once. A caller that is marked
as escorting a group does so for everything reached through its calls; an inner escort of the same
group hides the outer one until its calls are done. A call into a function that requires an audit is
a finding. An unaudited call is not followed further.

The walk keeps its own stack of frames. It ends because every frame takes a call that was fresh.
-/

namespace CallAudit

/-- A call into a function that requires an audit. -/
structure Finding where
  /-- The calls on the way, from the entry point on. -/
  calls : List Call
  /-- The names and call sites on the way. -/
  path : AuditPath
  /-- The escort, if the call is audited. -/
  escort : Option Text
deriving DecidableEq

/-- The state of a walk. -/
structure Walk where
  /-- The calls that have not been followed. -/
  fresh : List CallId
  /-- The calls on the way, the last one first. -/
  trail : List Call
  /-- The escorts of the groups. -/
  escorts : Escorts
  /-- The findings so far, in order. -/
  findings : List Finding

/-- A call that is being followed. -/
structure Frame where
  call : Call
  /-- The group that its caller took over, with the escort before. -/
  saved : Option (Text × Option Handle)
  /-- The calls of its callee that have not been looked at. -/
  pending : List Call

/-- Why an audit stops early. -/
inductive AuditFault
  | graph (fault : GraphFault)
  /-- The trail is not empty after a walk. -/
  | notUnwound (remaining : Nat)
  /-- The call that is left is not the last one on the trail. -/
  | outOfSync (last : CallId)
  /-- A call is left although the trail is empty. -/
  | noTrail
deriving DecidableEq

namespace Walk

/-- The marking of the definition behind a node. -/
def markingOf (g : CallGraph) (markings : MarkingSource) (h : Handle) :
    Except GraphFault (Option Marking) :=
  (g.nameOf h).map fun name => markings (definitionName name)

/-- The path of a walk by names. -/
def pathOf (g : CallGraph) (calls : List Call) : Except GraphFault AuditPath :=
  calls.mapM fun c => (g.nameOf c.target).map fun identifier =>
    { identifier, location := c.location }

/-- Takes a fresh call onto the trail. -/
def take (w : Walk) (c : Call) : Walk :=
  { w with fresh := w.fresh.erase c.id, trail := c :: w.trail }

/-- Makes the caller of a call an escort if its marking says so, and tells what to put back
later. -/
def engage (w : Walk) (c : Call) (marking : Option Marking) :
    Option (Text × Option Handle) × Walk :=
  match marking.bind (·.audited) with
  | some group =>
    (some (group, w.escorts.active group), { w with escorts := w.escorts.appoint group c.source })
  | none => (none, w)

/-- Records a finding at the end of the trail for a group that requires an audit; tells whether it
is audited. -/
def classify (g : CallGraph) (w : Walk) (group : Text) : Except GraphFault (Bool × Walk) :=
  match pathOf g w.trail.reverse with
  | .error e => .error e
  | .ok path =>
    match w.escorts.active group with
    | none =>
      .ok (false, { w with findings := w.findings ++
        [{ calls := w.trail.reverse, path, escort := none }] })
    | some h =>
      match g.nameOf h with
      | .error e => .error e
      | .ok name =>
        .ok (true,
          { w with findings := w.findings ++ [{ calls := w.trail.reverse, path,
                                                escort := some name }] })

/-- Follows a call that has been taken onto the trail: the caller may become an escort, the callee
may be a finding, and its calls are next unless it is unaudited. -/
def enter (g : CallGraph) (markings : MarkingSource) (w : Walk) (c : Call) :
    Walk × Except GraphFault Frame :=
  match markingOf g markings c.source with
  | .error e => (w, .error e)
  | .ok callerMarking =>
    let (saved, w) := w.engage c callerMarking
    -- from here on the caller is engaged, also if the call cannot be entered
    match markingOf g markings c.target with
    | .error e => (w, .error e)
    | .ok calleeMarking =>
      match calleeMarking.bind (·.requiresAudit) with
      | none => (w, .ok { call := c, saved, pending := g.callsFrom c.target })
      | some group =>
        match classify g w group with
        | .error e => (w, .error e)
        | .ok (true, w) => (w, .ok { call := c, saved, pending := g.callsFrom c.target })
        | .ok (false, w) => (w, .ok { call := c, saved, pending := [] })

/-- Ends the call of a frame, which is the last one on the trail. -/
def leave (w : Walk) (f : Frame) : Walk × Except AuditFault Unit :=
  match w.trail with
  | [] => (w, .error .noTrail)
  | c :: trail =>
    if c = f.call then ({ w with trail, escorts := w.escorts.restore f.saved }, .ok ())
    else ({ w with trail }, .error (.outOfSync c.id))

@[simp] theorem take_fresh (w : Walk) (c : Call) : (w.take c).fresh = w.fresh.erase c.id := rfl

@[simp] theorem leave_fresh (w : Walk) (f : Frame) : (w.leave f).1.fresh = w.fresh := by
  unfold leave
  split
  · rfl
  · split <;> rfl

@[simp] theorem engage_fresh (w : Walk) (c : Call) (m : Option Marking) :
    (w.engage c m).2.fresh = w.fresh := by
  unfold engage; split <;> rfl

theorem classify_fresh {g : CallGraph} {w w' : Walk} {group : Text} {audited : Bool}
    (h : classify g w group = .ok (audited, w')) : w'.fresh = w.fresh := by
  unfold classify at h
  split at h
  · simp at h
  · split at h
    · simp only [Except.ok.injEq, Prod.mk.injEq] at h
      rw [← h.2]
    · split at h
      · simp at h
      · simp only [Except.ok.injEq, Prod.mk.injEq] at h
        rw [← h.2]

@[simp] theorem enter_fresh (g : CallGraph) (markings : MarkingSource) (w : Walk) (c : Call) :
    (enter g markings w c).1.fresh = w.fresh := by
  unfold enter
  split
  · rfl
  · simp only
    split
    · simp
    · split
      · simp
      · split
        · simp
        · rename_i h; simp [classify_fresh h]
        · rename_i h; simp [classify_fresh h]

theorem leave_ok_fresh {w w' : Walk} {f : Frame} {r : Except AuditFault Unit}
    (e : w.leave f = (w', r)) : w'.fresh = w.fresh := by
  have := leave_fresh w f
  rwa [e] at this

/-- How many calls the frames of a walk have still to look at, each frame counting once more. -/
def workload : List Frame → Nat
  | [] => 0
  | f :: frames => f.pending.length + 1 + workload frames

@[simp] theorem workload_nil : workload [] = 0 := rfl

@[simp] theorem workload_cons (f : Frame) (frames : List Frame) :
    workload (f :: frames) = f.pending.length + 1 + workload frames := rfl

theorem enter_take_length {g : CallGraph} {markings : MarkingSource} {w w' : Walk} {c : Call}
    {r : Except GraphFault Frame} (e : enter g markings (w.take c) c = (w', r))
    (h : c.id ∈ w.fresh) : w'.fresh.length < w.fresh.length := by
  have hf : w'.fresh = w.fresh.erase c.id := by
    have := enter_fresh g markings (w.take c) c
    rw [e] at this
    simpa using this
  rw [hf, List.length_erase_of_mem h]
  have := List.length_pos_of_mem h
  omega

/-- Follows all calls of the frames, the innermost frame first, and then the given calls from the
entry point. -/
def explore (g : CallGraph) (markings : MarkingSource) (w : Walk) (frames : List Frame)
    (roots : List Call) : Walk × Except AuditFault Unit :=
  match frames with
  | [] =>
    match roots with
    | [] => (w, .ok ())
    | c :: roots =>
      if _h : c.id ∈ w.fresh then
        match _e : enter g markings (w.take c) c with
        | (w', .error fault) => (w', .error (.graph fault))
        | (w', .ok frame) => explore g markings w' [frame] roots
      else explore g markings w [] roots
  | f :: outer =>
    match _hp : f.pending with
    | [] =>
      -- the calls of the innermost frame are done
      match _l : w.leave f with
      | (w', .error fault) => (w', .error fault)
      | (w', .ok ()) => explore g markings w' outer roots
    | c :: pending =>
      if _h : c.id ∈ w.fresh then
        match _e : enter g markings (w.take c) c with
        | (w', .error fault) => (w', .error (.graph fault))
        | (w', .ok frame) => explore g markings w' (frame :: { f with pending } :: outer) roots
      else explore g markings w ({ f with pending } :: outer) roots
termination_by (w.fresh.length, workload frames + roots.length)
decreasing_by
  · exact Prod.Lex.left _ _ (enter_take_length (by assumption) (by assumption))
  · exact Prod.Lex.right _ (by simp)
  · rw [leave_ok_fresh (by assumption), workload_cons, _hp]
    exact Prod.Lex.right _ (by simp)
  · exact Prod.Lex.left _ _ (enter_take_length (by assumption) (by assumption))
  · simp only [workload_cons, _hp]
    exact Prod.Lex.right _ (by simp)

end Walk

/-- An audit in progress. Findings accumulate over its runs. -/
structure Traversal where
  scope : VisitScope := .entryPoint
  /-- The calls that count as visited. -/
  visited : List CallId := []
  /-- What an interrupted walk left of its trail, the last call first. -/
  trail : List Call := []
  /-- What an interrupted walk left of its escorts. -/
  escorts : Escorts := {}
  findings : List Finding := []

namespace Traversal

/-- The broken invariant behind a trail that is left over after a walk. -/
def notUnwound (remaining : Nat) : BrokenInvariant :=
  .of "audit path not unwound" [("remaining", .int remaining)]

/-- The broken invariant behind a trail whose last call is not the one that is left. -/
def outOfSync (last : CallId) : BrokenInvariant :=
  .of "audit path out of sync with frame stack"
    [("edge", .tuple [.int last.source, .int last.target, .int last.key])]

/-- The state in which a walk starts. -/
def start (g : CallGraph) (t : Traversal) : Walk :=
  { fresh := (g.calls.map Call.id).filter fun id => !t.visited.contains id
    trail := t.trail
    escorts := t.escorts
    findings := t.findings }

/-- What remains of a walk that started with the given fresh calls. -/
def finish (t : Traversal) (fresh : List CallId) (w : Walk) : Traversal :=
  { t with
    visited := t.visited ++ fresh.filter fun id => !w.fresh.contains id
    trail := w.trail
    escorts := w.escorts
    findings := w.findings }

/-- Forgets the escorts, and the visited calls unless they count for the whole run. -/
def begin (t : Traversal) : Traversal :=
  { t with
    visited := match t.scope with
      | .entryPoint => []
      | .run => t.visited
    escorts := {} }

/-- Follows the calls from one entry point. -/
def visit (g : CallGraph) (markings : MarkingSource) (t : Traversal) (entry : Handle) :
    Traversal × Except AuditFault Unit :=
  match g.nameOf entry with
  | .error e => (t, .error (.graph e))
  | .ok _ =>
    let t := t.begin
    let w₀ := t.start g
    match Walk.explore g markings w₀ [] (g.callsFrom entry) with
    | (w, .error e) => (t.finish w₀.fresh w, .error e)
    | (w, .ok ()) =>
      (t.finish w₀.fresh w, if w.trail.isEmpty then .ok () else .error (.notUnwound w.trail.length))

/-- Follows the calls from each entry point in turn. -/
def visitAll (g : CallGraph) (markings : MarkingSource) :
    Traversal → List Handle → Traversal × Except AuditFault Unit
  | t, [] => (t, .ok ())
  | t, entry :: rest =>
    match t.visit g markings entry with
    | (t, .ok ()) => visitAll g markings t rest
    | (t, .error e) => (t, .error e)

/-- The findings so far as a report on the given entry points. -/
def report (t : Traversal) (entryPoints : List Text) : AuditReport :=
  { audited := t.findings.filterMap fun f => f.escort.map fun escort => { escort, path := f.path }
    unaudited := t.findings.filterMap fun f => if f.escort.isNone then some f.path else none
    entryPoints }

/-- Follows the calls from the given entry points and reports all findings so far. -/
def run (g : CallGraph) (markings : MarkingSource) (t : Traversal) (entries : List Handle) :
    Traversal × Except AuditFault AuditReport :=
  match t.visitAll g markings entries with
  | (t, .error e) => (t, .error e)
  | (t, .ok ()) =>
    match entries.mapM g.nameOf with
    | .error e => (t, .error (.graph e))
    | .ok names => (t, .ok (t.report names))

end Traversal

/-- Audits a graph from the given entry points. -/
def CallGraph.audit (g : CallGraph) (markings : MarkingSource) (scope : VisitScope)
    (entries : List Handle) : Except AuditFault AuditReport :=
  (Traversal.run g markings { scope } entries).2

end CallAudit
