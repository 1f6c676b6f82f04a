import CallAudit.Audit.Traversal
import Mathlib.Tactic

/-!
# Entering and leaving a call

What the two steps of a walk do, stated once. Entering a call lets its caller take over the group it
escorts, and may record a finding; leaving it puts the escort before back. All facts about walks
rest on these two descriptions and on neither definition.
-/

namespace CallAudit

namespace CallGraph

/-- The group that a node escorts by its marking. -/
def groupEscortedBy (g : CallGraph) (markings : MarkingSource) (h : Handle) : Option Text :=
  match Walk.markingOf g markings h with
  | .ok marking => marking.bind (·.audited)
  | .error _ => none

/-- The group whose escort a node needs by its marking. -/
def groupRequiredBy (g : CallGraph) (markings : MarkingSource) (h : Handle) : Option Text :=
  match Walk.markingOf g markings h with
  | .ok marking => marking.bind (·.requiresAudit)
  | .error _ => none

end CallGraph

namespace Walk

variable {g : CallGraph} {markings : MarkingSource}

/-- What a walk records when it enters a call, and which calls come next. The call is on the trail,
and its caller has taken over its group. -/
inductive Sighting (g : CallGraph) (markings : MarkingSource) (w : Walk) (c : Call) :
    List Finding → List Call → Prop
  /-- The callee requires no audit. -/
  | plain (required : g.groupRequiredBy markings c.target = none) :
      Sighting g markings w c [] (g.callsFrom c.target)
  /-- The callee requires an audit, and its group is escorted. -/
  | audited {group name : Text} {path : AuditPath} {h : Handle}
      (required : g.groupRequiredBy markings c.target = some group)
      (shown : pathOf g w.trail.reverse = .ok path)
      (escorted : w.escorts.active group = some h) (named : g.nameOf h = .ok name) :
      Sighting g markings w c [{ calls := w.trail.reverse, path, escort := some name }]
        (g.callsFrom c.target)
  /-- The callee requires an audit, and its group is not escorted. -/
  | unaudited {group : Text} {path : AuditPath}
      (required : g.groupRequiredBy markings c.target = some group)
      (shown : pathOf g w.trail.reverse = .ok path)
      (alone : w.escorts.active group = none) :
      Sighting g markings w c [{ calls := w.trail.reverse, path, escort := none }] []

/-- The escorts after a caller has taken over its group. -/
def engaged (g : CallGraph) (markings : MarkingSource) (e : Escorts) (c : Call) : Escorts :=
  match g.groupEscortedBy markings c.source with
  | none => e
  | some group => e.appoint group c.source

/-- What is to be put back once the call of that caller is done. -/
def remembered (g : CallGraph) (markings : MarkingSource) (e : Escorts) (c : Call) :
    Option (Text × Option Handle) :=
  (g.groupEscortedBy markings c.source).map fun group => (group, e.active group)

/-- A call has been entered: from the walk `w` on whose trail it is, to the walk `w'` with a
frame. -/
structure Entered (g : CallGraph) (markings : MarkingSource) (w : Walk) (c : Call) (w' : Walk)
    (f : Frame) : Prop where
  call : f.call = c
  saved : f.saved = remembered g markings w.escorts c
  fresh : w'.fresh = w.fresh
  trail : w'.trail = w.trail
  escorts : w'.escorts = engaged g markings w.escorts c
  recorded : ∃ new next, w'.findings = w.findings ++ new ∧ f.pending = next ∧
    Sighting g markings w' c new next

/-- A group is classified by the escort that is active for it. -/
theorem classify_cases {w w' : Walk} {group : Text} {audited : Bool}
    (h : classify g w group = .ok (audited, w')) :
    ∃ path, pathOf g w.trail.reverse = .ok path ∧
      ((audited = false ∧ w.escorts.active group = none ∧
          w' = { w with findings := w.findings ++
            [{ calls := w.trail.reverse, path, escort := none }] }) ∨
        ∃ k name, audited = true ∧ w.escorts.active group = some k ∧ g.nameOf k = .ok name ∧
          w' = { w with
            findings := w.findings ++ [{ calls := w.trail.reverse, path,
                                         escort := some name }] }) := by
  unfold classify at h
  split at h
  · simp at h
  · next path hpath =>
    refine ⟨path, hpath, ?_⟩
    split at h
    · next hactive =>
      obtain ⟨rfl, rfl⟩ := Prod.mk.inj (Except.ok.inj h)
      exact .inl ⟨rfl, hactive, rfl⟩
    · next k hactive =>
      split at h
      · simp at h
      · next name hname =>
        obtain ⟨rfl, rfl⟩ := Prod.mk.inj (Except.ok.inj h)
        exact .inr ⟨k, name, rfl, hactive, hname, rfl⟩

/-- The caller of a call engages by the group it escorts. -/
theorem engage_eq {w : Walk} {c : Call} {marking : Option Marking}
    (h : markingOf g markings c.source = .ok marking) :
    w.engage c marking =
      (remembered g markings w.escorts c,
        { w with escorts := engaged g markings w.escorts c }) := by
  have hgroup : g.groupEscortedBy markings c.source = marking.bind (·.audited) := by
    simp only [CallGraph.groupEscortedBy, h]
  unfold engage remembered engaged
  rw [hgroup]
  cases marking.bind (·.audited) <;> rfl

/-- Entering a call does what `Entered` says. -/
theorem entered_of_enter {w w' : Walk} {c : Call} {f : Frame}
    (h : enter g markings w c = (w', .ok f)) : Entered g markings w c w' f := by
  -- three branches are left that do not fail, one for each kind of sighting
  unfold enter at h
  split at h
  · simp at h
  · next callerMarking hcaller =>
    rw [engage_eq hcaller] at h
    dsimp only at h
    split at h
    · simp at h
    · next calleeMarking hcallee =>
      have hrequired :
          g.groupRequiredBy markings c.target = calleeMarking.bind (·.requiresAudit) := by
        simp only [CallGraph.groupRequiredBy, hcallee]
      split at h
      · next hnone =>
        obtain ⟨rfl, hf⟩ := Prod.mk.inj h
        obtain rfl := Except.ok.inj hf
        exact ⟨rfl, rfl, rfl, rfl, rfl, [], _, (List.append_nil _).symm, rfl,
          .plain (hrequired.trans hnone)⟩
      · next group hgroup =>
        have hsome := hrequired.trans hgroup
        split at h
        · simp at h
        · next w₁ hc =>
          obtain ⟨path, hpath, ⟨hfalse, -⟩ | ⟨k, name, -, hactive, hname, rfl⟩⟩ := classify_cases hc
          · simp at hfalse
          · obtain ⟨rfl, hf⟩ := Prod.mk.inj h
            obtain rfl := Except.ok.inj hf
            exact ⟨rfl, rfl, rfl, rfl, rfl, _, _, rfl, rfl, .audited hsome hpath hactive hname⟩
        · next w₁ hc =>
          obtain ⟨path, hpath, ⟨-, hactive, rfl⟩ | ⟨k, name, htrue, -⟩⟩ := classify_cases hc
          · obtain ⟨rfl, hf⟩ := Prod.mk.inj h
            obtain rfl := Except.ok.inj hf
            exact ⟨rfl, rfl, rfl, rfl, rfl, _, _, rfl, rfl, .unaudited hsome hpath hactive⟩
          · simp at htrue

/-- A call that cannot be entered leaves no finding. -/
theorem findings_of_enter_error {w w' : Walk} {c : Call} {fault : GraphFault}
    (h : enter g markings w c = (w', .error fault)) : w'.findings = w.findings := by
  -- a name is missing in each branch that fails, and a finding is recorded only once all names are
  -- there
  unfold enter at h
  split at h
  · obtain ⟨rfl, -⟩ := Prod.mk.inj h
    rfl
  · next callerMarking hcaller =>
    rw [engage_eq hcaller] at h
    dsimp only at h
    split at h
    · obtain ⟨rfl, -⟩ := Prod.mk.inj h
      rfl
    · split at h
      · simp at h
      · split at h
        · obtain ⟨rfl, -⟩ := Prod.mk.inj h
          rfl
        · simp at h
        · simp at h

theorem leave_findings {w w' : Walk} {f : Frame} {r : Except AuditFault Unit}
    (h : w.leave f = (w', r)) : w'.findings = w.findings := by
  unfold leave at h
  split at h
  · rw [← (Prod.mk.inj h).1]
  · split at h <;> rw [← (Prod.mk.inj h).1]

/-- Leaving a call takes it off the trail and puts back what its frame has saved. -/
theorem leave_ok {w w' : Walk} {f : Frame} (h : w.leave f = (w', .ok ())) :
    w.trail = f.call :: w'.trail ∧ w' = { w with
      trail := w'.trail
      escorts := w.escorts.restore f.saved } := by
  unfold leave at h
  split at h
  · simp at h
  · next c trail htrail =>
    split at h
    · next hc =>
      obtain ⟨rfl, -⟩ := Prod.mk.inj h
      exact ⟨by rw [htrail, hc], rfl⟩
    · simp at h

/-- The last call on the trail can be left. -/
theorem leave_of_trail {w : Walk} {f : Frame} {trail : List Call} (h : w.trail = f.call :: trail) :
    w.leave f = ({ w with trail, escorts := w.escorts.restore f.saved }, .ok ()) := by
  unfold leave
  rw [h]
  exact if_pos rfl

end Walk

end CallAudit
