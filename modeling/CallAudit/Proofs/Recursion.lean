import CallAudit.Proofs.Coverage

/-!
# The audit as a recursion

An audit can be told without a stack of frames: visiting a call marks it, puts it on the path, makes
its caller the auditor of a group, classifies its callee, visits the calls of the callee that are
still unvisited when their turn comes, and undoes path and auditor. `Ledger.visit` is this
recursion. It ends because each visit uses up an unvisited call, and every result carries the proof
of that.

The walk with frames and the recursion go through corresponding states (`Mirrors`), so they report
the same (`Traversal.run_eq_recursion`).
-/

namespace CallAudit

/-- The state of the recursive audit. -/
structure Ledger where
  unvisited : List CallId
  /-- The calls on the way, from the entry point on. -/
  path : List Call := []
  /-- The auditor of each group. -/
  auditor : Text → Option Handle := fun _ => none
  audited : List AuditedUse := []
  unaudited : List AuditPath := []

namespace Ledger

/-- Changes the auditor of a group, if there is a group. -/
def reassign (auditor : Text → Option Handle) (group : Option Text) (h : Option Handle) :
    Text → Option Handle :=
  match group with
  | none => auditor
  | some group => Function.update auditor group h

theorem reassign_apply (auditor : Text → Option Handle) (group : Option Text) (h : Option Handle)
    (other : Text) :
    reassign auditor group h other = if group = some other then h else auditor other := by
  cases group with
  | none => rfl
  | some group => simp [reassign, Function.update_apply, eq_comm]

/-- Makes the caller of a call the auditor of the given group. -/
def install (s : Ledger) (group : Option Text) (h : Handle) : Ledger :=
  { s with auditor := reassign s.auditor group (some h) }

/-- Takes a call off the path and gives the group of its caller the auditor it had before. -/
def undo (g : CallGraph) (markings : MarkingSource) (s : Ledger) (c : Call) (before : Ledger) :
    Ledger :=
  let group := g.groupEscortedBy markings c.source
  { s with auditor := reassign s.auditor group (group.bind before.auditor),
           path := s.path.dropLast }

/-- Marks a call as visited and puts it on the path. -/
def mark (s : Ledger) (c : Call) : Ledger :=
  { s with unvisited := s.unvisited.erase c.id, path := s.path ++ [c] }

/-- Records the callee of a call if it requires an audit; tells whether it is unaudited. -/
def classify (g : CallGraph) (markings : MarkingSource) (s : Ledger) (h : Handle) :
    Except GraphFault (Ledger × Bool) := do
  let callee ← Walk.markingOf g markings h
  match callee.bind (·.requiresAudit) with
  | none => return (s, false)
  | some group =>
    let path ← Walk.pathOf g s.path
    match s.auditor group with
    | none => return ({ s with unaudited := s.unaudited ++ [path] }, true)
    | some k =>
      let escort ← g.nameOf k
      return ({ s with audited := s.audited ++ [{ escort, path }] }, false)

/-- Reaches a call: it is marked, its caller is installed as an auditor, its callee is
classified. -/
def reach (g : CallGraph) (markings : MarkingSource) (s : Ledger) (c : Call) :
    Except GraphFault (Ledger × Bool) := do
  let caller ← Walk.markingOf g markings c.source
  classify g markings ((s.mark c).install (caller.bind (·.audited)) c.source) c.target

theorem unvisited_of_classify {g : CallGraph} {markings : MarkingSource} {s s' : Ledger}
    {h : Handle} {cutOff : Bool} (e : classify g markings s h = .ok (s', cutOff)) :
    s'.unvisited = s.unvisited := by
  unfold classify at e
  obtain ⟨callee, -, e⟩ := bind_eq_ok.1 e
  split at e
  · obtain ⟨rfl, -⟩ := Prod.mk.inj (Except.ok.inj e)
    rfl
  · obtain ⟨path, -, e⟩ := bind_eq_ok.1 e
    split at e
    · obtain ⟨rfl, -⟩ := Prod.mk.inj (Except.ok.inj e)
      rfl
    · obtain ⟨escort, -, e⟩ := bind_eq_ok.1 e
      obtain ⟨rfl, -⟩ := Prod.mk.inj (Except.ok.inj e)
      rfl

theorem unvisited_of_reach {g : CallGraph} {markings : MarkingSource} {s s' : Ledger} {c : Call}
    {cutOff : Bool} (e : reach g markings s c = .ok (s', cutOff)) :
    s'.unvisited = s.unvisited.erase c.id := by
  obtain ⟨caller, -, e⟩ := bind_eq_ok.1 e
  rw [unvisited_of_classify e]
  rfl

/-- Reaching an unvisited call leaves fewer unvisited calls. -/
theorem length_of_reach {g : CallGraph} {markings : MarkingSource} {s s' : Ledger} {c : Call}
    {cutOff : Bool} (e : reach g markings s c = .ok (s', cutOff)) (h : c.id ∈ s.unvisited) :
    s'.unvisited.length < s.unvisited.length := by
  have hpos := List.length_pos_of_mem h
  rw [unvisited_of_reach e, List.length_erase_of_mem h]
  omega

mutual

/-- Visits a call that is unvisited. -/
def visit (g : CallGraph) (markings : MarkingSource) (s : Ledger) (c : Call)
    (_h : c.id ∈ s.unvisited) :
    Except GraphFault { s' : Ledger // s'.unvisited.length < s.unvisited.length } :=
  match _e : reach g markings s c with
  | .error fault => .error fault
  | .ok (s₁, cutOff) =>
    match visitEach g markings s₁ (if cutOff then [] else g.callsFrom c.target) with
    | .error fault => .error fault
    | .ok ⟨s₂, h₂⟩ =>
      .ok ⟨s₂.undo g markings c s, Nat.lt_of_le_of_lt h₂ (length_of_reach _e _h)⟩
termination_by (s.unvisited.length, 0, 0)
decreasing_by exact Prod.Lex.left _ _ (length_of_reach _e _h)

/-- Visits each of the given calls that is unvisited when its turn comes. -/
def visitEach (g : CallGraph) (markings : MarkingSource) (s : Ledger) (calls : List Call) :
    Except GraphFault { s' : Ledger // s'.unvisited.length ≤ s.unvisited.length } :=
  match calls with
  | [] => .ok ⟨s, Nat.le_refl _⟩
  | c :: rest =>
    if h : c.id ∈ s.unvisited then
      match visit g markings s c h with
      | .error fault => .error fault
      | .ok ⟨s₁, h₁⟩ =>
        match visitEach g markings s₁ rest with
        | .error fault => .error fault
        | .ok ⟨s₂, h₂⟩ => .ok ⟨s₂, Nat.le_trans h₂ (Nat.le_of_lt h₁)⟩
    else visitEach g markings s rest
termination_by (s.unvisited.length, 1, calls.length)
decreasing_by
  · exact Prod.Lex.right _ (Prod.Lex.left _ _ Nat.zero_lt_one)
  · exact Prod.Lex.left _ _ h₁
  · exact Prod.Lex.right _ (Prod.Lex.right _ (Nat.lt_succ_self _))

end

/-- The ledger after each of the given calls has been visited. -/
def afterEach (g : CallGraph) (markings : MarkingSource) (s : Ledger) (calls : List Call) :
    Except GraphFault Ledger :=
  (visitEach g markings s calls).map Subtype.val

section

variable {g : CallGraph} {markings : MarkingSource} {s s₁ s₂ : Ledger} {c : Call}
  {calls : List Call}
  {cutOff : Bool} {fault : GraphFault}

theorem afterEach_nil : afterEach g markings s [] = .ok s := by
  rw [afterEach, visitEach]
  rfl

/-- A call that was visited before is passed over. -/
theorem afterEach_stale (h : c.id ∉ s.unvisited) :
    afterEach g markings s (c :: calls) = afterEach g markings s calls := by
  rw [afterEach, visitEach, dif_neg h]
  rfl

theorem visitEach_of_afterEach_error (e : afterEach g markings s calls = .error fault) :
    visitEach g markings s calls = .error fault := by
  unfold afterEach at e
  cases hv : visitEach g markings s calls with
  | error fault' => rw [hv] at e; exact congrArg _ (Except.error.inj e)
  | ok s' => rw [hv] at e; cases e

theorem visitEach_of_afterEach_ok (e : afterEach g markings s calls = .ok s₁) :
    ∃ h, visitEach g markings s calls = .ok ⟨s₁, h⟩ := by
  unfold afterEach at e
  cases hv : visitEach g markings s calls with
  | error fault' => rw [hv] at e; cases e
  | ok s' =>
    rw [hv] at e
    obtain rfl : s'.1 = s₁ := Except.ok.inj e
    exact ⟨s'.2, rfl⟩

/-- A visit that fails ends the visiting of calls. -/
theorem afterEach_failed (h : c.id ∈ s.unvisited) (e : visit g markings s c h = .error fault) :
    afterEach g markings s (c :: calls) = .error fault := by
  rw [afterEach, visitEach, dif_pos h, e]
  rfl

/-- Visiting calls fails at one that cannot be reached. -/
theorem afterEach_refused (h : c.id ∈ s.unvisited) (e : reach g markings s c = .error fault) :
    afterEach g markings s (c :: calls) = .error fault := by
  apply afterEach_failed h
  rw [visit]
  split <;> simp_all

/-- It fails if visiting the calls behind one of them does. -/
theorem afterEach_interrupted (h : c.id ∈ s.unvisited) (e : reach g markings s c = .ok (s₁, cutOff))
    (inner : afterEach g markings s₁ (if cutOff then [] else g.callsFrom c.target) = .error fault) :
    afterEach g markings s (c :: calls) = .error fault := by
  have hinner := visitEach_of_afterEach_error inner
  apply afterEach_failed h
  rw [visit]
  split
  · next e' => simp [e] at e'
  · next e' =>
    obtain ⟨rfl, rfl⟩ := Prod.mk.inj (Except.ok.inj (e.symm.trans e'))
    rw [hinner]

/-- Otherwise the calls behind a call are visited before those after it. -/
theorem afterEach_call (h : c.id ∈ s.unvisited) (e : reach g markings s c = .ok (s₁, cutOff))
    (inner : afterEach g markings s₁ (if cutOff then [] else g.callsFrom c.target) = .ok s₂) :
    afterEach g markings s (c :: calls) = afterEach g markings (s₂.undo g markings c s) calls := by
  obtain ⟨h₂, hinner⟩ := visitEach_of_afterEach_ok inner
  have hlt : (s₂.undo g markings c s).unvisited.length < s.unvisited.length :=
    Nat.lt_of_le_of_lt h₂ (length_of_reach e h)
  have hvisit : visit g markings s c h = .ok ⟨s₂.undo g markings c s, hlt⟩ := by
    rw [visit]
    split
    · next e' => simp [e] at e'
    · next e' =>
      obtain ⟨rfl, rfl⟩ := Prod.mk.inj (Except.ok.inj (e.symm.trans e'))
      rw [hinner]
  rw [afterEach, visitEach, dif_pos h, hvisit]
  dsimp only
  unfold afterEach
  cases visitEach g markings (s₂.undo g markings c s) calls <;> rfl

end

/-! ## Corresponding states -/

/-- A ledger and a walk are in corresponding states. -/
structure Mirrors (s : Ledger) (w : Walk) : Prop where
  unvisited : s.unvisited = w.fresh
  path : s.path = w.trail.reverse
  auditor : ∀ group, s.auditor group = w.escorts.active group
  audited : s.audited =
    w.findings.filterMap fun f => f.escort.map fun escort => { escort, path := f.path }
  unaudited : s.unaudited = w.findings.filterMap fun f =>
    if f.escort.isNone then some f.path else none

/-- The outcome of a walk and that of the recursion correspond. -/
inductive SameOutcome : Walk × Except AuditFault Unit → Except GraphFault Ledger → Prop
  | failed (w : Walk) (fault : GraphFault) : SameOutcome (w, .error (.graph fault)) (.error fault)
  | done {w : Walk} {s : Ledger} (mirrors : Mirrors s w) : SameOutcome (w, .ok ()) (.ok s)

namespace Mirrors

variable {g : CallGraph} {markings : MarkingSource} {s s₂ : Ledger} {w w₁ w₂ w₃ : Walk} {c : Call}
  {f : Frame}

/-- The caller of a call becomes auditor and escort of the same group. -/
theorem install (hm : Mirrors s w) {caller : Option Marking}
    (hcaller : Walk.markingOf g markings c.source = .ok caller) :
    Mirrors ((s.mark c).install (caller.bind (·.audited)) c.source)
      { w.take c with escorts := Walk.engaged g markings (w.take c).escorts c } := by
  have hgroup : g.groupEscortedBy markings c.source = caller.bind (·.audited) := by
    simp only [CallGraph.groupEscortedBy, hcaller]
  have hunvisited : (s.mark c).unvisited = (w.take c).fresh := by
    show s.unvisited.erase c.id = w.fresh.erase c.id
    rw [hm.unvisited]
  have hpath : (s.mark c).path = (w.take c).trail.reverse := by
    show s.path ++ [c] = (c :: w.trail).reverse
    rw [hm.path, List.reverse_cons]
  refine ⟨hunvisited, hpath, fun group => ?_, hm.audited, hm.unaudited⟩
  show reassign s.auditor _ (some c.source) group = _
  rw [reassign_apply, Walk.active_engaged, hgroup, hm.auditor group]
  rfl

/-- Once the calls of a callee are done, leaving its call corresponds to undoing it. -/
theorem undo (hm : Mirrors s w) (e : Walk.enter g markings (w.take c) c = (w₁, .ok f))
    (hm₂ : Mirrors s₂ w₂) (left : w₂.leave f = (w₃, .ok ())) :
    Mirrors (s₂.undo g markings c s) w₃ := by
  obtain ⟨htrail, hw₃⟩ := Walk.leave_ok left
  have hsaved := (Walk.entered_of_enter e).saved
  have hfindings := Walk.leave_findings left
  refine ⟨?_, ?_, fun group => ?_, ?_, ?_⟩
  · rw [Walk.leave_ok_fresh left]
    exact hm₂.unvisited
  · show s₂.path.dropLast = _
    rw [hm₂.path, htrail, List.reverse_cons, List.dropLast_concat]
  · have hactive : w₃.escorts.active group =
        (w₂.escorts.restore (Walk.remembered g markings w.escorts c)).active group := by
      rw [hw₃, hsaved]
      rfl
    show reassign s₂.auditor _ _ group = _
    rw [hactive, Walk.active_restore_remembered, reassign_apply, hm₂.auditor group]
    split
    · next hown =>
      rw [hown]
      exact hm.auditor group
    · rfl
  · rw [hfindings]
    exact hm₂.audited
  · rw [hfindings]
    exact hm₂.unaudited

theorem record_unaudited (hm : Mirrors s w) (path : AuditPath) :
    Mirrors { s with unaudited := s.unaudited ++ [path] }
      { w with findings := w.findings ++ [{ calls := w.trail.reverse, path, escort := none }] } :=
  ⟨hm.unvisited, hm.path, hm.auditor, by simp [hm.audited], by simp [hm.unaudited]⟩

theorem record_audited (hm : Mirrors s w) (path : AuditPath) (escort : Text) :
    Mirrors { s with audited := s.audited ++ [{ escort, path }] }
      { w with findings := w.findings ++ [{ calls := w.trail.reverse, path,
                                            escort := some escort }] } :=
  ⟨hm.unvisited, hm.path, hm.auditor, by simp [hm.audited], by simp [hm.unaudited]⟩

/-- Reaching a call corresponds to entering it. -/
theorem reach_enter (hm : Mirrors s w) (g : CallGraph) (markings : MarkingSource) (c : Call) :
    (∃ w' fault, Walk.enter g markings (w.take c) c = (w', .error fault) ∧
        reach g markings s c = .error fault) ∨
      ∃ w' f s' cutOff, Walk.enter g markings (w.take c) c = (w', .ok f) ∧
        reach g markings s c = .ok (s', cutOff) ∧ Mirrors s' w' ∧
        f.pending = if cutOff then [] else g.callsFrom c.target := by
  unfold Walk.enter reach
  cases hcaller : Walk.markingOf g markings c.source with
  | error fault => exact .inl ⟨_, fault, rfl, rfl⟩
  | ok caller =>
    have hm₁ := hm.install hcaller
    dsimp only
    rw [Walk.engage_eq hcaller]
    dsimp only [bind, Except.bind]
    generalize (s.mark c).install (caller.bind (·.audited)) c.source = s₁ at hm₁ ⊢
    generalize { w.take c with escorts := Walk.engaged g markings (w.take c).escorts c } =
      w₁ at hm₁ ⊢
    -- from here on both ask for the same things in the same order: the marking of the callee, the
    -- path to it, and the name of the escort
    unfold classify
    cases Walk.markingOf g markings c.target with
    | error fault => exact .inl ⟨_, fault, rfl, rfl⟩
    | ok callee =>
      dsimp only [bind, Except.bind]
      cases callee.bind (·.requiresAudit) with
      | none => exact .inr ⟨_, _, s₁, false, rfl, rfl, hm₁, rfl⟩
      | some group =>
        dsimp only
        unfold Walk.classify
        rw [show Walk.pathOf g s₁.path = Walk.pathOf g w₁.trail.reverse by rw [hm₁.path]]
        cases Walk.pathOf g w₁.trail.reverse with
        | error fault => exact .inl ⟨_, fault, rfl, rfl⟩
        | ok path =>
          dsimp only
          rw [hm₁.auditor group]
          cases w₁.escorts.active group with
          | none => exact .inr ⟨_, _, _, true, rfl, rfl, hm₁.record_unaudited path, rfl⟩
          | some k =>
            dsimp only
            cases g.nameOf k with
            | error fault => exact .inl ⟨_, fault, rfl, rfl⟩
            | ok escort =>
              exact .inr ⟨_, _, _, false, rfl, rfl, hm₁.record_audited path escort, rfl⟩

/-- A call that a walk cannot enter cannot be reached. -/
theorem reach_of_refused (hm : Mirrors s w) {fault : GraphFault}
    (e : Walk.enter g markings (w.take c) c = (w₁, .error fault)) :
    reach g markings s c = .error fault := by
  rcases hm.reach_enter g markings c with ⟨_, _, e', hreach⟩ | ⟨_, _, _, _, e', -⟩
  · obtain ⟨-, hfault⟩ := Prod.mk.inj (e.symm.trans e')
    rw [hreach, Except.error.inj hfault]
  · simp [e] at e'

/-- A call that a walk enters is reached, and the states go on to mirror each other. -/
theorem reach_of_entered (hm : Mirrors s w) (e : Walk.enter g markings (w.take c) c = (w₁, .ok f)) :
    ∃ s₁ cutOff, reach g markings s c = .ok (s₁, cutOff) ∧ Mirrors s₁ w₁ ∧
      f.pending = if cutOff then [] else g.callsFrom c.target := by
  rcases hm.reach_enter g markings c with ⟨_, _, e', -⟩ | ⟨_, _, s₁, cutOff, e', hreach,
    hm₁, hpending⟩
  · simp [e] at e'
  · obtain ⟨rfl, hf⟩ := Prod.mk.inj (e.symm.trans e')
    obtain rfl := Except.ok.inj hf
    exact ⟨s₁, cutOff, hreach, hm₁, hpending⟩

end Mirrors

/-- Following calls and visiting them have corresponding outcomes. -/
theorem sameOutcome_of_follows {g : CallGraph} {markings : MarkingSource} {s : Ledger} {w : Walk}
    {cs : List Call} {r : Walk × Except AuditFault Unit} (h : Walk.Follows g markings w cs r)
    (hm : Mirrors s w) : SameOutcome r (afterEach g markings s cs) := by
  induction h generalizing s with
  | done w =>
    rw [afterEach_nil]
    exact .done hm
  | skip stale _ ih =>
    rw [afterEach_stale (by rwa [hm.unvisited])]
    exact ih hm
  | refused fresh e =>
    rw [afterEach_refused (hm.unvisited ▸ fresh) (hm.reach_of_refused e)]
    exact .failed _ _
  | interrupted fresh e inner ih =>
    obtain ⟨s₁, cutOff, hreach, hm₁, hpending⟩ := hm.reach_of_entered e
    have hinner := ih hm₁
    rw [hpending] at hinner
    generalize hx : afterEach g markings s₁ _ = x at hinner
    cases hinner with
    | failed _ fault =>
      rw [afterEach_interrupted (hm.unvisited ▸ fresh) hreach hx]
      exact .failed _ _
  | astray fresh e inner left ih =>
    -- a call can always be left, so the recursion has nothing that corresponds to this
    obtain ⟨w₃, hok⟩ := Walk.leave_entered e inner.samePlace
    simp [left] at hok
  | call fresh e inner left rest ih ihrest =>
    obtain ⟨s₁, cutOff, hreach, hm₁, hpending⟩ := hm.reach_of_entered e
    have hinner := ih hm₁
    rw [hpending] at hinner
    generalize hx : afterEach g markings s₁ _ = x at hinner
    cases hinner with
    | done hm₂ =>
      rw [afterEach_call (hm.unvisited ▸ fresh) hreach hx]
      exact ihrest (hm.undo e hm₂ left)

/-! ## All entry points -/

/-- Nothing is audited when an entry point is visited, and nothing visited unless it counts for the
whole run. -/
def begin (g : CallGraph) (scope : VisitScope) (s : Ledger) : Ledger :=
  { s with
    unvisited := match scope with
      | .entryPoint => g.calls.map Call.id
      | .run => s.unvisited
    auditor := fun _ => none }

/-- The ledger after the calls from one entry point have been visited. -/
def auditFrom (g : CallGraph) (markings : MarkingSource) (scope : VisitScope) (s : Ledger)
    (entry : Handle) : Except GraphFault Ledger := do
  let _ ← g.nameOf entry
  afterEach g markings (s.begin g scope) (g.callsFrom entry)

/-- The ledger after the calls from each entry point in turn have been visited. -/
def auditEach (g : CallGraph) (markings : MarkingSource) (scope : VisitScope) :
    Ledger → List Handle → Except GraphFault Ledger
  | s, [] => .ok s
  | s, entry :: rest => do
    let s ← auditFrom g markings scope s entry
    auditEach g markings scope s rest

/-- Audits a graph from the given entry points by recursion. -/
def audit (g : CallGraph) (markings : MarkingSource) (scope : VisitScope) (entries : List Handle) :
    Except GraphFault AuditReport := do
  let s ← auditEach g markings scope { unvisited := g.calls.map Call.id } entries
  let entryPoints ← entries.mapM g.nameOf
  return { audited := s.audited, unaudited := s.unaudited, entryPoints }

end Ledger

namespace Traversal

open Ledger

variable {g : CallGraph} {markings : MarkingSource} {s : Ledger} {t : Traversal}

theorem mirrors_begin (hm : Mirrors s (t.start g)) :
    Mirrors (s.begin g t.scope) (t.begin.start g) := by
  refine ⟨?_, hm.path, fun _ => rfl, hm.audited, hm.unaudited⟩
  cases hscope : t.scope with
  | entryPoint =>
    have hall : (t.begin.start g).fresh = g.calls.map Call.id := by
      simp [start, begin, hscope]
    rw [hall]
    rfl
  | run =>
    have hsame : (t.begin.start g).fresh = (t.start g).fresh := by
      simp only [start, begin, hscope]
    rw [hsame, ← hm.unvisited]
    rfl

/-- A visit of an entry point corresponds to its audit. -/
theorem visit_auditFrom (markings : MarkingSource) (hm : Mirrors s (t.start g)) (ht : t.trail = [])
    (entry : Handle) :
    (∃ t' fault, t.visit g markings entry = (t', .error (.graph fault)) ∧
        auditFrom g markings t.scope s entry = .error fault) ∨
      ∃ t' s', t.visit g markings entry = (t', .ok ()) ∧
        auditFrom g markings t.scope s entry = .ok s' ∧ Mirrors s' (t'.start g) ∧ t'.trail = [] ∧
        t'.scope = t.scope := by
  rcases hv : t.visit g markings entry with ⟨t', r⟩
  rcases visit_cases hv with ⟨fault, hname, rfl, rfl⟩ | ⟨name, w, _, hname, hfollows, rfl, hr⟩
  · exact .inl ⟨t', fault, rfl, by rw [auditFrom, hname]; rfl⟩
  · have hfrom : auditFrom g markings t.scope s entry =
        afterEach g markings (s.begin g t.scope) (g.callsFrom entry) := by
      rw [auditFrom, hname]
      rfl
    have houtcome := sameOutcome_of_follows hfollows (mirrors_begin hm)
    rw [← hfrom] at houtcome
    generalize auditFrom g markings t.scope s entry = x at houtcome
    cases houtcome with
    | failed _ fault =>
      rcases hr with ⟨_, hfault, rfl⟩ | ⟨hok, -⟩
      · obtain rfl := Except.error.inj hfault
        exact .inl ⟨_, fault, rfl, rfl⟩
      · cases hok
    | @done _ s' hm' =>
      have htrail : w.trail = [] := hfollows.samePlace.1.trans ht
      rcases hr with ⟨_, hfault, -⟩ | ⟨-, rfl⟩
      · cases hfault
      · refine .inr ⟨t.begin.finish (t.begin.start g).fresh w, s', by simp [htrail], rfl, ?_,
          htrail, rfl⟩
        rwa [start_finish hfollows.fresh_sublist]

/-- Visits of entry points correspond to their audits in turn. -/
theorem visitAll_auditEach (markings : MarkingSource) (hm : Mirrors s (t.start g))
    (ht : t.trail = []) (entries : List Handle) :
    (∃ t' fault, t.visitAll g markings entries = (t', .error (.graph fault)) ∧
        auditEach g markings t.scope s entries = .error fault) ∨
      ∃ t' s', t.visitAll g markings entries = (t', .ok ()) ∧
        auditEach g markings t.scope s entries = .ok s' ∧ Mirrors s' (t'.start g) := by
  induction entries generalizing s t with
  | nil => exact .inr ⟨t, s, rfl, rfl, hm⟩
  | cons entry rest ih =>
    rcases visit_auditFrom markings hm ht entry with
      ⟨t₁, fault, hv, hs⟩ | ⟨t₁, s₁, hv, hs, hm₁, ht₁, hscope⟩
    · refine .inl ⟨t₁, fault, by simp only [visitAll, hv], ?_⟩
      rw [auditEach, hs]
      rfl
    · have hvisit : t.visitAll g markings (entry :: rest) = t₁.visitAll g markings rest := by
        simp only [visitAll, hv]
      have haudit : auditEach g markings t.scope s (entry :: rest) =
          auditEach g markings t₁.scope s₁ rest := by
        rw [auditEach, hs, hscope]
        rfl
      rw [hvisit, haudit]
      exact ih hm₁ ht₁

/-- Nothing has been visited or found when an audit starts. -/
theorem mirrors_empty (g : CallGraph) (scope : VisitScope) :
    Mirrors { unvisited := g.calls.map Call.id } (start g { scope }) :=
  ⟨by simp [start], rfl, fun _ => rfl, rfl, rfl⟩

/-- **The walk with frames reports what the recursion reports.** Both list the same audited and the
same unaudited paths in the same order with the same names of entry points, or fail for the same
reason; they do not fail on nodes of a graph whose nodes have names. -/
theorem run_eq_recursion (g : CallGraph) (markings : MarkingSource) (scope : VisitScope)
    (entries : List Handle) :
    (run g markings { scope } entries).2 =
        (Ledger.audit g markings scope entries).mapError AuditFault.graph ∧
      (g.Named → (∀ e ∈ entries, e ∈ g.handles) →
        ∃ report, Ledger.audit g markings scope entries = .ok report) := by
  have hequal : (run g markings { scope } entries).2 =
      (Ledger.audit g markings scope entries).mapError AuditFault.graph := by
    rcases visitAll_auditEach markings (mirrors_empty g scope) rfl entries with
      ⟨t', fault, hv, hs⟩ | ⟨t', s', hv, hs, hm⟩
    · dsimp only at hs
      simp only [run, hv, Ledger.audit, hs]
      rfl
    · dsimp only at hs
      simp only [run, hv, Ledger.audit, hs]
      cases entries.mapM g.nameOf with
      | error fault => rfl
      | ok names =>
        show Except.ok (t'.report names) = Except.ok _
        rw [hm.audited, hm.unaudited]
        rfl
  refine ⟨hequal, ?_⟩
  intro hg hentries
  obtain ⟨report, hreport⟩ := run_named (t := { scope }) hg markings rfl hentries
  rw [hequal] at hreport
  cases haudit : Ledger.audit g markings scope entries with
  | error fault => simp [haudit, Except.mapError] at hreport
  | ok report' => exact ⟨report', rfl⟩

/-- From `o` round the cycle, `f` is met below `m`, and its turn at `o` has passed by then. -/
theorem run_eq_recursion_mutual :
    mutualCalls.Named ∧ ∃ report, Ledger.audit mutualCalls mutualMarkings .entryPoint [1] =
      .ok report ∧
      (run mutualCalls mutualMarkings { scope := .entryPoint } [1]).2 = .ok report ∧
      report.unaudited.map (·.map AuditStep.identifier) =
        ([[['m', '<', '>'], ['o', '<', '>'], ['f', '<', '>']]] : List (List Text)) := by
  have hnamed : mutualCalls.Named := CallGraph.named_ofRecords _
  obtain ⟨hequal, hends⟩ := run_eq_recursion mutualCalls mutualMarkings .entryPoint [1]
  obtain ⟨report, hreport⟩ := hends hnamed (by decide +kernel)
  rw [hreport] at hequal
  refine ⟨hnamed, report, hreport, hequal, ?_⟩
  have hpaths : (run mutualCalls mutualMarkings { scope := .entryPoint } [1]).2.map
      (fun report => report.unaudited.map (·.map AuditStep.identifier)) =
        .ok ([[['m', '<', '>'], ['o', '<', '>'], ['f', '<', '>']]] : List (List Text)) := by cbv
  rw [hequal] at hpaths
  exact Except.ok.inj hpaths

end Traversal

end CallAudit
