import CallAudit.Graph.Build
import CallAudit.Proofs.CallPaths
import CallAudit.Proofs.Runs
import Mathlib.Computability.Primrec.List
import Mathlib.Computability.TuringMachine.StackTuringMachine
import Mathlib.Tactic

/-!
# Who escorts a finding

The walk keeps one escort for each group and changes it in place: entering a call overwrites an
entry, leaving the call puts the old one back. This file shows that the escorts are nevertheless a
function of the trail alone: the escort of a group is the caller nearest to the end of the trail
that escorts the group (`Attuned`).

* `Follows.samePlace`: following calls to their end leaves trail and escorts as they were;
* `attuned_enter`: entering a call keeps trail and escorts in tune;
* `Follows.explained`: so every finding that is recorded on the way is explained by its own calls.
-/

namespace CallAudit.Walk

variable {g : CallGraph} {markings : MarkingSource}

/-! ## Trail and escorts come back -/

theorem active_engaged (g : CallGraph) (markings : MarkingSource) (e : Escorts) (c : Call)
    (group : Text) :
    (engaged g markings e c).active group =
      if g.groupEscortedBy markings c.source = some group then some c.source
        else e.active group := by
  unfold engaged
  cases h : g.groupEscortedBy markings c.source with
  | none => simp
  | some group' =>
    rw [Escorts.active_appoint]
    simp only [Option.some.injEq, eq_comm]

/-- What is put back is the escort of the caller's own group; other groups stay as they are. -/
theorem active_restore_remembered (g : CallGraph) (markings : MarkingSource) (e e' : Escorts)
    (c : Call) (group : Text) :
    (e'.restore (remembered g markings e c)).active group =
      if g.groupEscortedBy markings c.source = some group then e.active group
        else e'.active group := by
  unfold remembered
  cases hc : g.groupEscortedBy markings c.source with
  | none => simp [Escorts.restore]
  | some own =>
    rw [Option.map_some]
    cases hown : e.active own with
    | none =>
      rw [Escorts.restore, Escorts.active_dismiss]
      by_cases heq : group = own
      · simp [heq, hown]
      · simp [heq, Ne.symm heq]
    | some before =>
      rw [Escorts.restore, Escorts.active_appoint]
      by_cases heq : group = own
      · simp [heq, hown]
      · simp [heq, Ne.symm heq]

/-- Two walks have the same trail and the same escorts. -/
def SamePlace (w w' : Walk) : Prop :=
  w'.trail = w.trail ∧ ∀ group, w'.escorts.active group = w.escorts.active group

/-- A call that is left where it was entered leaves everything in place. -/
theorem samePlace_of_leave {w w₁ w₂ w₃ : Walk} {c : Call} {f : Frame}
    (e : enter g markings (w.take c) c = (w₁, .ok f)) (h₂ : SamePlace w₁ w₂)
    (left : w₂.leave f = (w₃, .ok ())) : SamePlace w w₃ := by
  obtain ⟨hcall, hsaved, -, htrail, hescorts, -⟩ := entered_of_enter e
  obtain ⟨htrail₃, hw₃⟩ := leave_ok left
  constructor
  · have hcons : f.call :: w₃.trail = c :: w.trail := htrail₃.symm.trans (h₂.1.trans htrail)
    exact (List.cons.inj hcons).2
  · intro group
    rw [hw₃, hsaved]
    show (w₂.escorts.restore (remembered g markings w.escorts c)).active group = _
    rw [active_restore_remembered, h₂.2, hescorts, active_engaged]
    split
    · rfl
    · rfl

/-- Following calls to their end leaves the trail and the escort of every group as they were. -/
theorem Follows.samePlace {w w' : Walk} {cs : List Call}
    (h : Follows g markings w cs (w', .ok ())) : SamePlace w w' := by
  induction h using Follows.ok_induction with
  | done w => exact ⟨rfl, fun _ => rfl⟩
  | skip _ _ ih => exact ih
  | call _ e _ left _ ih ihrest =>
    -- what the call has changed is undone on leaving it, as its inner calls have undone their
    -- changes
    obtain ⟨htrail, hescorts⟩ := samePlace_of_leave e ih left
    obtain ⟨htrail', hescorts'⟩ := ihrest
    exact ⟨htrail'.trans htrail, fun group => (hescorts' group).trans (hescorts group)⟩

/-! ## Trail and escorts in tune -/

/-- The escort of a group on a trail, whose last call comes first. -/
def innermost (g : CallGraph) (markings : MarkingSource) (trail : List Call) (group : Text) :
    Option Handle :=
  (trail.find? fun c => decide (g.groupEscortedBy markings c.source = some group)).map Call.source

/-- The escort of every group is the caller nearest to the end of the trail that escorts it. -/
def Attuned (g : CallGraph) (markings : MarkingSource) (w : Walk) : Prop :=
  ∀ group, w.escorts.active group = innermost g markings w.trail group

theorem innermost_cons (c : Call) (trail : List Call) (group : Text) :
    innermost g markings (c :: trail) group =
      if g.groupEscortedBy markings c.source = some group then some c.source
      else innermost g markings trail group := by
  unfold innermost
  by_cases h : g.groupEscortedBy markings c.source = some group
  · simp [h]
  · simp [h]

/-- Entering a call keeps trail and escorts in tune. -/
theorem attuned_enter {w w' : Walk} {c : Call} {f : Frame} (hw : Attuned g markings w)
    (e : enter g markings (w.take c) c = (w', .ok f)) : Attuned g markings w' := by
  intro group
  have h := entered_of_enter e
  rw [h.trail, h.escorts, active_engaged]
  show _ = innermost g markings (c :: w.trail) group
  rw [innermost_cons, ← hw group]
  rfl

/-! ## Findings are explained by their calls -/

/-- A walk from an entry point, in tune with its trail, that is about to follow calls from its
end. -/
structure Underway (g : CallGraph) (markings : MarkingSource) (entry : Handle) (w : Walk)
    (cs : List Call) : Prop where
  path : g.IsPath entry w.trail.reverse
  next : ∀ c ∈ cs, c ∈ g.callsFrom (CallGraph.pathEnd entry w.trail.reverse)
  attuned : Attuned g markings w

/-- A finding whose escort can be read off its calls. -/
structure Explained (g : CallGraph) (markings : MarkingSource) (entry : Handle) (f : Finding) :
    Prop where
  path : g.IsPath entry f.calls
  shown : pathOf g f.calls = .ok f.path
  reason : ∃ last group, f.calls.getLast? = some last ∧
    g.groupRequiredBy markings last.target = some group ∧
    match innermost g markings f.calls.reverse group with
    | none => f.escort = none
    | some h => ∃ name, g.nameOf h = .ok name ∧ f.escort = some name

namespace Underway

variable {entry : Handle} {w w' w₁ : Walk} {c : Call} {cs : List Call} {f : Frame}

theorem tail (h : Underway g markings entry w (c :: cs)) : Underway g markings entry w cs :=
  ⟨h.path, fun d hd => h.next d (List.mem_cons_of_mem _ hd), h.attuned⟩

theorem samePlace (h : Underway g markings entry w cs) (hp : SamePlace w w') :
    Underway g markings entry w' cs := by
  obtain ⟨htrail, hescorts⟩ := hp
  refine ⟨htrail ▸ h.path, htrail ▸ h.next, fun group => ?_⟩
  rw [hescorts, htrail]
  exact h.attuned group

/-- The path grows by the call that is entered. -/
theorem path_enter (h : Underway g markings entry w (c :: cs))
    (e : enter g markings (w.take c) c = (w₁, .ok f)) :
    w₁.trail.reverse = w.trail.reverse ++ [c] ∧ g.IsPath entry w₁.trail.reverse := by
  have htrail : w₁.trail.reverse = w.trail.reverse ++ [c] := by
    rw [(entered_of_enter e).trail]
    exact List.reverse_cons
  refine ⟨htrail, ?_⟩
  rw [htrail, CallGraph.isPath_concat]
  exact ⟨h.path, h.next c List.mem_cons_self⟩

/-- Once a call is entered, the calls of its callee are next. -/
theorem enter (h : Underway g markings entry w (c :: cs))
    (e : enter g markings (w.take c) c = (w₁, .ok f)) : Underway g markings entry w₁ f.pending := by
  obtain ⟨htrail, hpath⟩ := h.path_enter e
  refine ⟨hpath, ?_, attuned_enter h.attuned e⟩
  rw [htrail, CallGraph.pathEnd_concat]
  obtain ⟨_, _, -, hpending, hsight⟩ := (entered_of_enter e).recorded
  rw [hpending]
  cases hsight with
  | plain => exact fun d hd => hd
  | audited => exact fun d hd => hd
  | unaudited => intro d hd; simp at hd

/-- What is recorded on entering a call is explained by the calls up to it. -/
theorem explained_enter (h : Underway g markings entry w (c :: cs))
    (e : Walk.enter g markings (w.take c) c = (w₁, .ok f)) :
    Adds (fun _ => Explained g markings entry) w.findings w₁.findings := by
  obtain ⟨htrail, hpath⟩ := h.path_enter e
  have hattuned := attuned_enter h.attuned e
  have hlast : w₁.trail.reverse.getLast? = some c := by rw [htrail]; exact List.getLast?_concat
  obtain ⟨new, _, hnew, -, hsight⟩ := (entered_of_enter e).recorded
  rw [hnew]
  cases hsight with
  | plain =>
    rw [List.append_nil]
    exact .refl
  | audited required shown escorted named =>
    refine Adds.refl.record ⟨hpath, shown, c, _, hlast, required, ?_⟩
    rw [List.reverse_reverse, ← hattuned, escorted]
    exact ⟨_, named, rfl⟩
  | unaudited required shown alone =>
    refine Adds.refl.record ⟨hpath, shown, c, _, hlast, required, ?_⟩
    rw [List.reverse_reverse, ← hattuned, alone]

end Underway

/-- Everything that is recorded while calls are followed is explained by its calls. -/
theorem Follows.explained {entry : Handle} {w : Walk} {cs : List Call}
    {r : Walk × Except AuditFault Unit} (h : Follows g markings w cs r)
    (hw : Underway g markings entry w cs) :
    Adds (fun _ => Explained g markings entry) w.findings r.1.findings :=
  h.adds (I := Underway g markings entry) Underway.tail
    (fun hw _ e => ⟨hw.enter e, hw.explained_enter e⟩)
    (fun hw h => hw.tail.samePlace h.samePlace) hw

/-! ## The last escort among the calls of a finding -/

/-- The last of the calls whose caller escorts the group is made by the given node. -/
def LastEscort (g : CallGraph) (markings : MarkingSource) (calls : List Call) (group : Text)
    (h : Handle) : Prop :=
  ∃ before c after, calls = before ++ c :: after ∧ c.source = h ∧
    g.groupEscortedBy markings c.source = some group ∧
    ∀ d ∈ after, g.groupEscortedBy markings d.source ≠ some group

theorem innermost_reverse_eq_some {calls : List Call} {group : Text} {h : Handle} :
    innermost g markings calls.reverse group = some h ↔ LastEscort g markings calls group h := by
  unfold innermost LastEscort
  rw [Option.map_eq_some_iff]
  constructor
  · rintro ⟨c, hc, rfl⟩
    obtain ⟨hgroup, later, earlier, hsplit, hlater⟩ := List.find?_eq_some_iff_append.1 hc
    refine ⟨earlier.reverse, c, later.reverse, ?_, rfl, of_decide_eq_true hgroup, ?_⟩
    · rw [← List.reverse_reverse calls, hsplit]
      simp
    · intro d hd
      simpa using hlater d (List.mem_reverse.1 hd)
  · rintro ⟨before, c, after, rfl, rfl, hgroup, hafter⟩
    refine ⟨c, List.find?_eq_some_iff_append.2
      ⟨decide_eq_true hgroup, after.reverse, before.reverse, ?_, ?_⟩,
      rfl⟩
    · simp
    · intro d hd
      simpa using hafter d (List.mem_reverse.1 hd)

theorem innermost_reverse_eq_none {calls : List Call} {group : Text} :
    innermost g markings calls.reverse group = none ↔
      ∀ c ∈ calls, g.groupEscortedBy markings c.source ≠ some group := by
  simp [innermost]

namespace Explained

variable {entry : Handle} {f : Finding}

/-- The escort of an explained finding is the caller of the last call that escorts its group. -/
theorem escort_iff (hf : Explained g markings entry f) :
    ∃ last group, f.calls.getLast? = some last ∧
      g.groupRequiredBy markings last.target = some group ∧
      (∀ name, f.escort = some name ↔
        ∃ h, LastEscort g markings f.calls group h ∧ g.nameOf h = .ok name) ∧
      (f.escort = none ↔ ∀ c ∈ f.calls, g.groupEscortedBy markings c.source ≠ some group) := by
  obtain ⟨last, group, hlast, hgroup, hescort⟩ := hf.reason
  refine ⟨last, group, hlast, hgroup, ?_⟩
  simp only [← innermost_reverse_eq_some, ← innermost_reverse_eq_none]
  cases hinner : innermost g markings f.calls.reverse group with
  | none =>
    rw [hinner] at hescort
    simp [show f.escort = none from hescort]
  | some h =>
    rw [hinner] at hescort
    obtain ⟨name, hname, hescort⟩ := hescort
    simp [hescort, hname]

end Explained

end CallAudit.Walk

namespace CallAudit.Traversal

variable {g : CallGraph} {markings : MarkingSource}

/-- A visit that starts with an empty trail is underway at its entry point. -/
theorem underway_start {t : Traversal} (ht : t.trail = []) (entry : Handle) :
    Walk.Underway g markings entry (t.begin.start g) (g.callsFrom entry) := by
  have htrail : (t.begin.start g).trail = [] := ht
  refine ⟨?_, ?_, ?_⟩
  · rw [htrail]
    exact trivial
  · rw [htrail]
    exact fun c hc => hc
  · intro group
    rw [htrail]
    rfl

/-- What is recorded for an entry point is explained by calls from there. -/
theorem explained_of_recordings {t : Traversal} (ht : t.trail = []) {entries : List Handle}
    {i : Nat} {entry : Handle} {found : List Finding} (hentry : entries[i]? = some entry)
    (hfound : (t.recordings g markings entries)[i]? = some found) :
    ∀ f ∈ found, Walk.Explained g markings entry f := by
  obtain ⟨before, after, r, hbefore, hvisit, hadded⟩ := visit_of_recordings hentry hfound
  have hadds : Adds (fun _ => Walk.Explained g markings entry) before.findings after.findings := by
    rcases visit_cases hvisit with ⟨_, -, rfl, -⟩ | ⟨_, w, _, -, hfollows, rfl, -⟩
    · exact .refl
    · exact hfollows.explained (underway_start (trail_visitAll ht hbefore) entry)
  obtain ⟨added, hadded', hall⟩ := hadds.exists_added
  obtain rfl := List.append_cancel_left (hadded.symm.trans hadded')
  intro f hf
  obtain ⟨earlier, later, hsplit⟩ := List.append_of_mem hf
  exact hall earlier f later hsplit

/-- **Who escorts a finding.** The findings of a run are those recorded for its entry points in
turn, and its report lists them as audited or unaudited. Each of them belongs to a path of calls
from its entry point to a function that requires an audit for a group. It is audited by the caller
of the last of these calls whose caller escorts the group, and unaudited if no caller among them
does; nothing else that happened in the run matters. -/
theorem escort_is_nearest_caller (g : CallGraph) (markings : MarkingSource) (scope : VisitScope)
    (entries : List Handle) :
    (run g markings { scope } entries).1.findings =
      (recordings g markings { scope } entries).flatten ∧
    (∀ report, (run g markings { scope } entries).2 = .ok report →
      report.audited = (run g markings { scope } entries).1.findings.filterMap
        (fun f => f.escort.map fun escort => { escort, path := f.path }) ∧
      report.unaudited = ((run g markings { scope } entries).1.findings.filter
        (fun f => f.escort.isNone)).map Finding.path) ∧
    ∀ (i : Nat) (entry : Handle) (found : List Finding), entries[i]? = some entry →
      (recordings g markings { scope } entries)[i]? = some found → ∀ f ∈ found,
        g.IsPath entry f.calls ∧ Walk.pathOf g f.calls = .ok f.path ∧
        ∃ last group, f.calls.getLast? = some last ∧
          g.groupRequiredBy markings last.target = some group ∧
          (∀ name, f.escort = some name ↔
            ∃ h, Walk.LastEscort g markings f.calls group h ∧ g.nameOf h = .ok name) ∧
          (f.escort = none ↔ ∀ c ∈ f.calls, g.groupEscortedBy markings c.source ≠ some group) := by
  refine ⟨?_, ?_, ?_⟩
  · rw [run_eq, findings_visitAll]
    rfl
  · intro report hreport
    exact report_of_run hreport
  · intro i entry found hentry hfound f hf
    have hexplained := explained_of_recordings rfl hentry hfound f hf
    exact ⟨hexplained.path, hexplained.shown, hexplained.escort_iff⟩

/-- The function `m` calls `o`, which calls `i` and `s`, and `i` calls `f`. -/
def nestedCalls : CallGraph :=
  (CallGraph.ofRecords
    [(['m'], [{ callee := ['o'], location := { file := [], line := 1 } }]),
      (['o', '<', '>'], [{ callee := ['i'], location := { file := [], line := 2 } },
        { callee := ['s'], location := { file := [], line := 3 } }]),
      (['i', '<', '>'], [{ callee := ['f'], location := { file := [], line := 4 } }])]).graph

/-- `o` and `i` escort the group for which `f` and `s` require an audit. -/
def nestedMarkings : MarkingSource := fun name =>
  ([(['o'], { audited := some ['c'] }), (['i'], { audited := some ['c'] }),
    (['f'], { requiresAudit := some ['c'] }), (['s'], { requiresAudit := some ['c'] })] :
      List (Text × Marking)).lookup name

/-- The inner escort hides the outer one only for the calls below it. -/
theorem escort_is_nearest_caller_nested :
    ∃ found, (recordings nestedCalls nestedMarkings { scope := .entryPoint } [0])[0]? = some found ∧
      found.map Finding.escort = ([some ['i', '<', '>'], some ['o', '<', '>']] :
        List (Option Text)) ∧
      ∀ f ∈ found, ∃ last group, f.calls.getLast? = some last ∧
        nestedCalls.groupRequiredBy nestedMarkings last.target = some group ∧
        ∀ name, f.escort = some name ↔
          ∃ h, Walk.LastEscort nestedCalls nestedMarkings f.calls group h ∧
            nestedCalls.nameOf h = .ok name := by
  have hfound : (recordings nestedCalls nestedMarkings { scope := .entryPoint } [0])[0]? =
      some ((recordings nestedCalls nestedMarkings { scope := .entryPoint } [0]).headD []) := by cbv
  refine ⟨_, hfound, by cbv, ?_⟩
  intro f hf
  obtain ⟨-, -, last, group, hlast, hgroup, hescort, -⟩ :=
    (escort_is_nearest_caller nestedCalls nestedMarkings .entryPoint [0]).2.2 0 0 _ rfl hfound f hf
  exact ⟨last, group, hlast, hgroup, hescort⟩

end CallAudit.Traversal
