import CallAudit.Proofs.CallPaths
import CallAudit.Proofs.Following
import CallAudit.Proofs.Steps

/-!
# Runs over entry points

A run follows the calls from one entry point after the other. The findings of a run are split by the
entry point for which they were recorded, and what holds of every visit is carried to the run.
-/

namespace CallAudit

variable {g : CallGraph} {markings : MarkingSource}

/-! ## Findings that are added -/

/-- Findings are recorded after those of a list, each under a condition on all findings before
it. -/
inductive Adds (P : List Finding → Finding → Prop) (old : List Finding) : List Finding → Prop
  | refl : Adds P old old
  | record {new : List Finding} {f : Finding} (before : Adds P old new) (holds : P new f) :
      Adds P old (new ++ [f])

namespace Adds

variable {P : List Finding → Finding → Prop} {l₁ l₂ l₃ : List Finding}

theorem trans (h₁ : Adds P l₁ l₂) (h₂ : Adds P l₂ l₃) : Adds P l₁ l₃ := by
  induction h₂ with
  | refl => exact h₁
  | record _ holds ih => exact ih.record holds

/-- What is added comes after the old findings, and each part of it satisfies the condition. -/
theorem exists_added (h : Adds P l₁ l₂) :
    ∃ added, l₂ = l₁ ++ added ∧
      ∀ before f after, added = before ++ f :: after → P (l₁ ++ before) f := by
  induction h with
  | refl => exact ⟨[], (List.append_nil _).symm, fun before f after e => by simp at e⟩
  | @record new f _ holds ih =>
    obtain ⟨added, rfl, hadded⟩ := ih
    refine ⟨added ++ [f], List.append_assoc _ _ _, ?_⟩
    intro before f' after e
    -- the finding in question is the one recorded last, or it was there before
    rcases List.eq_nil_or_concat after with rfl | ⟨after', last, rfl⟩
    · obtain ⟨rfl, hf⟩ := List.append_inj' e rfl
      rw [← (List.cons.inj hf).1]
      exact holds
    · rw [List.concat_eq_append, ← List.cons_append, ← List.append_assoc] at e
      exact hadded before f' after' (List.append_inj_left' e rfl)

end Adds

/-- What holds of the findings recorded on entering calls holds of all findings that are recorded
while calls are followed. The condition may speak of the walks on which calls are entered, as long
as it passes from a walk to what is followed from there. -/
theorem Walk.Follows.adds {P : List Finding → Finding → Prop} {I : Walk → List Call → Prop}
    (htail : ∀ {w c cs}, I w (c :: cs) → I w cs)
    (henter : ∀ {w w₁ c cs f}, I w (c :: cs) → c.id ∈ w.fresh →
      enter g markings (w.take c) c = (w₁, .ok f) → I w₁ f.pending ∧ Adds P w.findings w₁.findings)
    (hleave : ∀ {w w' c cs}, I w (c :: cs) → Follows g markings w [c] (w', .ok ()) → I w' cs)
    {w : Walk} {cs : List Call} {r : Walk × Except AuditFault Unit}
    (h : Follows g markings w cs r) (hw : I w cs) : Adds P w.findings r.1.findings := by
  induction h with
  | done w => exact .refl
  | skip _ _ ih => exact ih (htail hw)
  | @refused w w' c _ _ _ e =>
    have hsame : w'.findings = (w.take c).findings := findings_of_enter_error e
    show Adds P w.findings w'.findings
    rw [hsame]
    exact .refl
  | interrupted fresh e _ ih =>
    obtain ⟨hnext, hadds⟩ := henter hw fresh e
    exact hadds.trans (ih hnext)
  | astray fresh e _ left ih =>
    obtain ⟨hnext, hadds⟩ := henter hw fresh e
    rw [leave_findings left]
    exact hadds.trans (ih hnext)
  | call fresh e inner left _ ih ihrest =>
    obtain ⟨hnext, hadds⟩ := henter hw fresh e
    have hrest := ihrest (hleave hw (.call fresh e inner left (.done _)))
    rw [leave_findings left] at hrest
    exact hadds.trans ((ih hnext).trans hrest)

/-- Entering a call records nothing, or one finding at the end of the trail. -/
theorem Walk.Entered.findings {w w' : Walk} {c : Call} {f : Frame}
    (h : Entered g markings w c w' f) :
    w'.findings = w.findings ∨
      ∃ new : Finding, w'.findings = w.findings ++ [new] ∧ new.calls = w'.trail.reverse := by
  obtain ⟨new, next, hnew, -, hsight⟩ := h.recorded
  cases hsight with
  | plain => exact .inl (hnew.trans (List.append_nil _))
  | audited => exact .inr ⟨_, hnew, rfl⟩
  | unaudited => exact .inr ⟨_, hnew, rfl⟩

/-- Following calls only adds findings. -/
theorem Walk.Follows.extends_findings {w : Walk} {cs : List Call}
    {r : Walk × Except AuditFault Unit} (h : Follows g markings w cs r) :
    w.findings <+: r.1.findings := by
  have hadds : Adds (fun _ _ => True) w.findings r.1.findings := by
    refine h.adds (I := fun _ _ => True) (fun _ => trivial) (fun _ _ e => ⟨trivial, ?_⟩)
      (fun _ _ => trivial) trivial
    rcases (entered_of_enter e).findings with hsame | ⟨new, hnew, -⟩
    · rw [hsame]
      exact .refl
    · rw [hnew]
      exact Adds.refl.record trivial
  obtain ⟨added, hadded, -⟩ := hadds.exists_added
  exact ⟨added, hadded.symm⟩

/-! ## Earlier findings are not looked at -/

namespace Walk

/-- A walk that has the given findings before its own. -/
def after (old : List Finding) (w : Walk) : Walk := { w with findings := old ++ w.findings }

theorem classify_after (old : List Finding) (w : Walk) (group : Text) :
    classify g (w.after old) group = (classify g w group).map fun p => (p.1, p.2.after old) := by
  unfold classify
  dsimp only [after]
  cases pathOf g w.trail.reverse with
  | error fault => rfl
  | ok path =>
    cases w.escorts.active group with
    | none => simp only [Except.map, List.append_assoc]
    | some h =>
      dsimp only
      cases g.nameOf h with
      | error fault => rfl
      | ok name => simp only [Except.map, List.append_assoc]

theorem engage_after (old : List Finding) (w : Walk) (c : Call) (marking : Option Marking) :
    (w.after old).engage c marking = ((w.engage c marking).1,
      (w.engage c marking).2.after old) := by
  unfold engage
  cases marking.bind (·.audited) with
  | none => rfl
  | some group => rfl

theorem enter_after (old : List Finding) (w : Walk) (c : Call) :
    enter g markings (w.after old) c =
      ((enter g markings w c).1.after old, (enter g markings w c).2) := by
  unfold enter
  cases markingOf g markings c.source with
  | error fault => rfl
  | ok caller =>
    dsimp only
    rw [engage_after]
    cases markingOf g markings c.target with
    | error fault => rfl
    | ok callee =>
      dsimp only
      cases callee.bind (·.requiresAudit) with
      | none => rfl
      | some group =>
        dsimp only
        rw [classify_after]
        rcases classify g (w.engage c caller).2 group with fault | ⟨audited, w'⟩
        · rfl
        · cases audited with
          | false => rfl
          | true => rfl

theorem leave_after (old : List Finding) (w : Walk) (f : Frame) :
    (w.after old).leave f = ((w.leave f).1.after old, (w.leave f).2) := by
  obtain ⟨fresh, trail, escorts, findings⟩ := w
  cases trail with
  | nil => rfl
  | cons c trail =>
    dsimp only [leave, after]
    split
    · rfl
    · rfl

/-- Calls are followed in the same way whatever was found before. -/
theorem Follows.after {w : Walk} {cs : List Call} {r : Walk × Except AuditFault Unit}
    (h : Follows g markings w cs r) (old : List Finding) :
    Follows g markings (w.after old) cs (r.1.after old, r.2) := by
  have henter {w w' : Walk} {c : Call} {r : Except GraphFault Frame}
      (e : enter g markings (w.take c) c = (w', r)) :
      enter g markings ((w.after old).take c) c = (w'.after old, r) := by
    rw [show (w.after old).take c = (w.take c).after old from rfl, enter_after, e]
  have hleave {w w' : Walk} {f : Frame} {r : Except AuditFault Unit} (e : w.leave f = (w', r)) :
      (w.after old).leave f = (w'.after old, r) := by
    rw [leave_after, e]
  induction h with
  | done w => exact .done _
  | skip stale _ ih => exact .skip stale ih
  | refused fresh entered => exact .refused fresh (henter entered)
  | interrupted fresh entered _ ih => exact .interrupted fresh (henter entered) ih
  | astray fresh entered _ left ih => exact .astray fresh (henter entered) ih (hleave left)
  | call fresh entered _ left _ ih ihrest =>
    exact .call fresh (henter entered) ih (hleave left) ihrest

/-- A walk at its entry point that has found nothing yet. -/
def outset (fresh : List CallId) : Walk := { fresh, trail := [], escorts := {}, findings := [] }

end Walk

/-- The members of a list without repetitions that lie in a sublist of it are that sublist. -/
theorem filter_mem_of_sublist {α : Type} [DecidableEq α] {l₁ l₂ : List α} (h : l₁.Sublist l₂)
    (hl : l₂.Nodup) : (l₂.filter fun a => decide (a ∈ l₁)) = l₁ := by
  induction h with
  | slnil => rfl
  | @cons l₁ l₂ a h ih =>
    obtain ⟨ha, hl₂⟩ := List.nodup_cons.1 hl
    have ha₁ : a ∉ l₁ := fun hmem => ha (h.subset hmem)
    rw [List.filter_cons_of_neg (by simpa using ha₁), ih hl₂]
  | @cons_cons l₁ l₂ a h ih =>
    obtain ⟨ha, hl₂⟩ := List.nodup_cons.1 hl
    rw [List.filter_cons_of_pos (by simp)]
    congr 1
    refine (List.filter_congr fun b hb => ?_).trans (ih hl₂)
    have hne : b ≠ a := fun e => ha (e ▸ hb)
    simp [hne]

namespace Traversal

/-! ## One entry point -/

theorem nodup_fresh_start (g : CallGraph) (t : Traversal) : (t.start g).fresh.Nodup :=
  g.nodup_calls_id.filter _

theorem mem_fresh_start {t : Traversal} {id : CallId} :
    id ∈ (t.start g).fresh ↔ id ∈ g.calls.map Call.id ∧ id ∉ t.visited := by
  rw [start, List.mem_filter, Bool.not_eq_true', List.contains_eq_mem, decide_eq_false_iff_not]

/-- The next walk starts where a walk has ended, as far as it does not begin anew. -/
theorem start_finish {t : Traversal} {w : Walk} (hw : w.fresh.Sublist (t.start g).fresh) :
    (t.finish (t.start g).fresh w).start g = w := by
  have hfresh : ((t.finish (t.start g).fresh w).start g).fresh = w.fresh := by
    refine Eq.trans ?_ (filter_mem_of_sublist hw (nodup_fresh_start g t))
    -- both sides keep the calls that were fresh before and are fresh after the walk
    rw [start, start, List.filter_filter]
    refine List.filter_congr fun id hid => ?_
    rw [Bool.eq_iff_iff]
    simp only [finish, Bool.not_eq_true', List.contains_eq_mem, decide_eq_false_iff_not,
      List.mem_append, List.mem_filter, Bool.and_eq_true, decide_eq_true_eq]
    tauto
  cases w
  exact congrArg (fun fresh => Walk.mk fresh _ _ _) hfresh

/-- A visit fails at once when its entry point has no name. Otherwise it follows the calls from
there; it succeeds if they can be followed and the trail is empty in the end. -/
theorem visit_cases {t t' : Traversal} {entry : Handle} {r : Except AuditFault Unit}
    (h : t.visit g markings entry = (t', r)) :
    (∃ fault, g.nameOf entry = .error fault ∧ t' = t ∧ r = .error (.graph fault)) ∨
      ∃ name w result, g.nameOf entry = .ok name ∧
        Walk.Follows g markings (t.begin.start g) (g.callsFrom entry) (w, result) ∧
        t' = t.begin.finish (t.begin.start g).fresh w ∧
        ((∃ fault, result = .error fault ∧ r = .error fault) ∨
          result = .ok () ∧ r = if w.trail.isEmpty then .ok ()
            else .error (.notUnwound w.trail.length)) := by
  unfold visit at h
  split at h
  · next fault hname =>
    obtain ⟨rfl, rfl⟩ := Prod.mk.inj h
    exact .inl ⟨fault, hname, rfl, rfl⟩
  · next name hname =>
    have hfollows := Walk.explore_follows g markings (t.begin.start g) (g.callsFrom entry)
    dsimp only at h
    split at h
    · next w fault hw =>
      obtain ⟨rfl, rfl⟩ := Prod.mk.inj h
      rw [hw] at hfollows
      exact .inr ⟨name, w, _, hname, hfollows, rfl, .inl ⟨fault, rfl, rfl⟩⟩
    · next w hw =>
      obtain ⟨rfl, rfl⟩ := Prod.mk.inj h
      rw [hw] at hfollows
      exact .inr ⟨name, w, _, hname, hfollows, rfl, .inr ⟨rfl, rfl⟩⟩

/-- A visit that succeeds follows all calls from its entry point and ends with an empty trail. -/
theorem visit_ok {t t' : Traversal} {entry : Handle} (h : t.visit g markings entry = (t', .ok ())) :
    ∃ w, Walk.Follows g markings (t.begin.start g) (g.callsFrom entry) (w, .ok ()) ∧ w.trail = [] ∧
      t' = t.begin.finish (t.begin.start g).fresh w := by
  rcases visit_cases h with ⟨_, -, -, hr⟩ | ⟨_, w, _, -, hfollows, ht, ⟨_, -, hr⟩ | ⟨rfl, hr⟩⟩
  · simp at hr
  · simp at hr
  · refine ⟨w, hfollows, ?_, ht⟩
    split at hr
    · next hempty => exact List.isEmpty_iff.1 hempty
    · simp at hr

/-- Visits do not change for what visited calls count. -/
theorem scope_visit {t t' : Traversal} {entry : Handle} {r : Except AuditFault Unit}
    (h : t.visit g markings entry = (t', r)) : t'.scope = t.scope := by
  rcases visit_cases h with ⟨_, -, rfl, -⟩ | ⟨_, w, _, -, -, rfl, -⟩
  · rfl
  · rfl

/-- When visited calls count for the whole run, no call is fresh again for the next entry point. -/
theorem fresh_begin {t : Traversal} (hscope : t.scope = .run) :
    (t.begin.start g).fresh = (t.start g).fresh := by
  simp only [begin, start, hscope]

theorem after_outset {t : Traversal} (ht : t.trail = []) :
    (Walk.outset (t.begin.start g).fresh).after t.findings = t.begin.start g := by
  simp [Walk.after, Walk.outset, start, begin, ht]

/-- What a visit follows does not depend on what was found before. -/
theorem follows_outset {t : Traversal} (ht : t.trail = []) {entry : Handle} {w : Walk}
    {result : Except AuditFault Unit}
    (h : Walk.Follows g markings (t.begin.start g) (g.callsFrom entry) (w, result)) :
    ∃ w₀, Walk.Follows g markings (.outset (t.begin.start g).fresh) (g.callsFrom entry)
      (w₀, result) ∧
      w = w₀.after t.findings := by
  obtain ⟨⟨w₀, result₀⟩, h₀⟩ :=
    Walk.exists_follows g markings (.outset (t.begin.start g).fresh) (g.callsFrom entry)
  have h₁ := h₀.after t.findings
  rw [after_outset ht] at h₁
  obtain ⟨rfl, rfl⟩ := Prod.mk.inj (h.unique h₁)
  exact ⟨w₀, h₀, rfl⟩

/-- A visit only adds findings. -/
theorem visit_extends_findings {t t' : Traversal} {entry : Handle} {r : Except AuditFault Unit}
    (h : t.visit g markings entry = (t', r)) : t.findings <+: t'.findings := by
  rcases visit_cases h with ⟨_, -, rfl, -⟩ | ⟨_, w, _, -, hfollows, rfl, -⟩
  · exact List.prefix_rfl
  · exact hfollows.extends_findings

/-! ## All entry points -/

/-- The findings of a run, split by the entry points for which they are recorded. -/
def recordings (g : CallGraph) (markings : MarkingSource) :
    Traversal → List Handle → List (List Finding)
  | _, [] => []
  | t, entry :: rest =>
    match t.visit g markings entry with
    | (t', .ok ()) => t'.findings.drop t.findings.length :: recordings g markings t' rest
    | (t', .error _) => [t'.findings.drop t.findings.length]

theorem drop_findings_visit {t t' : Traversal} {entry : Handle} {r : Except AuditFault Unit}
    (h : t.visit g markings entry = (t', r)) :
    t.findings ++ t'.findings.drop t.findings.length = t'.findings :=
  List.prefix_iff_eq_append.1 (visit_extends_findings h)

/-- The findings of a run are those recorded for its entry points, in turn. -/
theorem findings_visitAll (g : CallGraph) (markings : MarkingSource) (t : Traversal)
    (entries : List Handle) :
    (t.visitAll g markings entries).1.findings = t.findings ++
      (t.recordings g markings entries).flatten := by
  induction entries generalizing t with
  | nil => simp [visitAll, recordings]
  | cons entry rest ih =>
    rcases hv : t.visit g markings entry with ⟨t', fault | ⟨⟩⟩
    · simp only [visitAll, recordings, hv, List.flatten_cons, List.flatten_nil, List.append_nil]
      exact (drop_findings_visit hv).symm
    · simp only [visitAll, recordings, hv, List.flatten_cons]
      rw [ih, ← List.append_assoc, drop_findings_visit hv]

/-- What is recorded for an entry point is what its visit adds, after successful visits of all entry
points before it. -/
theorem visit_of_recordings {t : Traversal} {entries : List Handle} {i : Nat} {entry : Handle}
    {found : List Finding} (hentry : entries[i]? = some entry)
    (hfound : (t.recordings g markings entries)[i]? = some found) :
    ∃ before after r, t.visitAll g markings (entries.take i) = (before, .ok ()) ∧
      before.visit g markings entry = (after, r) ∧ after.findings = before.findings ++ found := by
  induction entries generalizing t i with
  | nil => simp at hentry
  | cons e rest ih =>
    rcases hv : t.visit g markings e with ⟨t', fault | ⟨⟩⟩
    · simp only [recordings, hv] at hfound
      cases i with
      | zero =>
        obtain rfl : e = entry := by simpa using hentry
        obtain rfl : t'.findings.drop t.findings.length = found := by simpa using hfound
        exact ⟨t, t', _, rfl, hv, (drop_findings_visit hv).symm⟩
      | succ i => simp at hfound
    · simp only [recordings, hv] at hfound
      cases i with
      | zero =>
        obtain rfl : e = entry := by simpa using hentry
        obtain rfl : t'.findings.drop t.findings.length = found := by simpa using hfound
        exact ⟨t, t', _, rfl, hv, (drop_findings_visit hv).symm⟩
      | succ i =>
        obtain ⟨before, after, r, hbefore, hafter⟩ :=
          ih (by simpa using hentry) (by simpa using hfound)
        refine ⟨before, after, r, ?_, hafter⟩
        rw [List.take_succ_cons, visitAll, hv]
        exact hbefore

/-- When all entry points are visited, something is recorded for each of them. -/
theorem recordings_of_visitAll {t t' : Traversal} {entries : List Handle} {i : Nat} {entry : Handle}
    (h : t.visitAll g markings entries = (t', .ok ())) (hentry : entries[i]? = some entry) :
    ∃ before after found, (t.recordings g markings entries)[i]? = some found ∧
      t.visitAll g markings (entries.take i) = (before, .ok ()) ∧
      before.visit g markings entry = (after, .ok ()) ∧
        after.findings = before.findings ++ found := by
  induction entries generalizing t i with
  | nil => simp at hentry
  | cons e rest ih =>
    rcases hv : t.visit g markings e with ⟨t₁, fault | ⟨⟩⟩
    · simp [visitAll, hv] at h
    · simp only [visitAll, hv] at h
      simp only [recordings, hv]
      cases i with
      | zero =>
        obtain rfl : e = entry := by simpa using hentry
        exact ⟨t, t₁, _, rfl, rfl, hv, (drop_findings_visit hv).symm⟩
      | succ i =>
        obtain ⟨before, after, found, hfound, hbefore, hafter⟩ := ih h (by simpa using hentry)
        refine ⟨before, after, found, by simpa using hfound, ?_, hafter⟩
        rw [List.take_succ_cons, visitAll, hv]
        exact hbefore

/-- What successful visits keep holds after successful visits of all entry points. -/
theorem visitAll_ok_induction {P : Traversal → Prop}
    (hstep : ∀ t t' entry, P t → t.visit g markings entry = (t', .ok ()) → P t')
    {t t' : Traversal} {entries : List Handle} (ht : P t)
    (h : t.visitAll g markings entries = (t', .ok ())) : P t' := by
  induction entries generalizing t with
  | nil =>
    obtain ⟨rfl, -⟩ := Prod.mk.inj h
    exact ht
  | cons entry rest ih =>
    rcases hv : t.visit g markings entry with ⟨t₁, fault | ⟨⟩⟩
    · simp [visitAll, hv] at h
    · simp only [visitAll, hv] at h
      exact ih (hstep t t₁ entry ht hv) h

/-- A run over all entry points ends with an empty trail if it began so. -/
theorem trail_visitAll {t t' : Traversal} {entries : List Handle} (ht : t.trail = [])
    (h : t.visitAll g markings entries = (t', .ok ())) : t'.trail = [] := by
  refine visitAll_ok_induction (P := fun t => t.trail = []) ?_ ht h
  intro t t' entry _ hv
  obtain ⟨w, -, hw, rfl⟩ := visit_ok hv
  exact hw

/-- What is recorded for an entry point is found by a walk that starts there with nothing found. -/
theorem follows_of_recordings {t : Traversal} (ht : t.trail = []) {entries : List Handle} {i : Nat}
    {entry : Handle} {found : List Finding} (hentry : entries[i]? = some entry)
    (hfound : (t.recordings g markings entries)[i]? = some found) :
    ∃ before, t.visitAll g markings (entries.take i) = (before, .ok ()) ∧
      (found = [] ∨ ∃ w result,
        Walk.Follows g markings (.outset (before.begin.start g).fresh) (g.callsFrom entry)
          (w, result) ∧
          w.findings = found) := by
  obtain ⟨before, after, r, hbefore, hvisit, hadded⟩ := visit_of_recordings hentry hfound
  refine ⟨before, hbefore, ?_⟩
  rcases visit_cases hvisit with ⟨_, -, rfl, -⟩ | ⟨_, w, result, -, hfollows, rfl, -⟩
  · exact .inl (List.append_right_eq_self.1 hadded.symm)
  · obtain ⟨w₀, hfollows₀, rfl⟩ := follows_outset (trail_visitAll ht hbefore) hfollows
    exact .inr ⟨w₀, result, hfollows₀, List.append_cancel_left hadded⟩

/-- Something is recorded for entry points only. -/
theorem entry_of_recordings {t : Traversal} {entries : List Handle} {i : Nat} {found : List Finding}
    (hfound : (t.recordings g markings entries)[i]? = some found) :
    ∃ entry, entries[i]? = some entry := by
  induction entries generalizing t i with
  | nil => simp [recordings] at hfound
  | cons e rest ih =>
    cases i with
    | zero => exact ⟨e, rfl⟩
    | succ i =>
      rcases hv : t.visit g markings e with ⟨t', fault | ⟨⟩⟩
      · simp [recordings, hv] at hfound
      · simp only [recordings, hv, List.getElem?_cons_succ] at hfound
        exact ih hfound

/-- What visits keep, however they end, holds after the visits of all entry points. -/
theorem visitAll_induction {P : Traversal → Prop}
    (hstep : ∀ t t' entry r, P t → t.visit g markings entry = (t', r) → P t')
    {t : Traversal} (ht : P t) (entries : List Handle) : P (t.visitAll g markings entries).1 := by
  induction entries generalizing t with
  | nil => exact ht
  | cons entry rest ih =>
    rcases hv : t.visit g markings entry with ⟨t₁, fault | ⟨⟩⟩
    · simp only [visitAll, hv]
      exact hstep t t₁ entry _ ht hv
    · simp only [visitAll, hv]
      exact ih (hstep t t₁ entry _ ht hv)

theorem run_eq (t : Traversal) (entries : List Handle) :
    (t.run g markings entries).1 = (t.visitAll g markings entries).1 := by
  unfold run
  split
  · next h => rw [h]
  · next h =>
    rw [h]
    split <;> rfl

/-- A run that ends with a report has visited all entry points and reports on all findings. -/
theorem run_ok {t : Traversal} {entries : List Handle} {report : AuditReport}
    (h : (t.run g markings entries).2 = .ok report) :
    ∃ t' names, t.visitAll g markings entries = (t', .ok ()) ∧ (t.run g markings entries).1 = t' ∧
      entries.mapM g.nameOf = .ok names ∧ report = t'.report names := by
  rcases hv : t.visitAll g markings entries with ⟨t', fault | ⟨⟩⟩
  · simp [run, hv] at h
  · cases hnames : entries.mapM g.nameOf with
    | error fault => simp [run, hv, hnames] at h
    | ok names =>
      simp only [run, hv, hnames] at h ⊢
      exact ⟨t', names, rfl, rfl, rfl, (Except.ok.inj h).symm⟩

/-- A report lists the findings of its run, those with an escort as audited. -/
theorem report_of_run {t : Traversal} {entries : List Handle} {report : AuditReport}
    (h : (t.run g markings entries).2 = .ok report) :
    report.audited = (t.run g markings entries).1.findings.filterMap
        (fun f => f.escort.map fun escort => { escort, path := f.path }) ∧
      report.unaudited = ((t.run g markings entries).1.findings.filter
        (fun f => f.escort.isNone)).map Finding.path := by
  obtain ⟨t', names, -, hrun, -, rfl⟩ := run_ok h
  rw [hrun]
  refine ⟨rfl, ?_⟩
  rw [← List.filterMap_eq_map, List.filterMap_filter]
  rfl

end Traversal

end CallAudit
