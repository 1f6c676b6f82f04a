import CallAudit.Proofs.Coverage
import CallAudit.Proofs.FindingOrder
import CallAudit.Proofs.Results

/-!
# Entry points are audited independently

When visited calls count for one entry point, nothing of a visit matters for the next one: its
visited calls and escorts are forgotten, its trail is empty in the end, and what was found before is
not looked at. So a run over several entry points reports what runs over each of them report, one
after the other, and it fails where the first of them fails.

* `visit_ready`, `visitAll_ready`: visits do not depend on the visits before them;
* `audit_append`: an audit over two lists of entry points;
* `audit_eq_mapM`: an audit over entry points is made of audits over single ones.
-/

namespace CallAudit

variable {g : CallGraph} {markings : MarkingSource}

/-- The findings and entry points of several reports, one report after the other. -/
def AuditReport.joined (parts : List AuditReport) : AuditReport :=
  { audited := parts.flatMap (·.audited)
    unaudited := parts.flatMap (·.unaudited)
    entryPoints := parts.flatMap (·.entryPoints) }

namespace Walk

/-- A walk takes the same course and adds the same findings whatever was found before. -/
theorem explore_after (g : CallGraph) (markings : MarkingSource) (w : Walk) (old : List Finding)
    (roots : List Call) :
    explore g markings (w.after old) [] roots =
      ((explore g markings w [] roots).1.after old, (explore g markings w [] roots).2) :=
  ((explore_follows g markings w roots).after old).explore_eq

end Walk

namespace Traversal

variable {t t' : Traversal} {entries : List Handle}

/-- The next visit begins anew: visited calls count for one entry point, and no trail is left
over. -/
structure Ready (t : Traversal) : Prop where
  scope : t.scope = .entryPoint
  trail : t.trail = []

theorem ready_empty : Ready {} := ⟨rfl, rfl⟩

theorem Ready.start (h : Ready t) (g : CallGraph) :
    t.begin.start g = (Walk.outset (g.calls.map Call.id)).after t.findings := by
  have hfresh : (t.begin.start g).fresh = g.calls.map Call.id := by
    simp [Traversal.start, begin, h.scope]
  rw [← hfresh, after_outset h.trail]

/-- A visit that succeeds can be followed by another one. -/
theorem Ready.visit (h : Ready t) {entry : Handle} (hv : t.visit g markings entry = (t', .ok ())) :
    Ready t' := by
  refine ⟨(scope_visit hv).trans h.scope, ?_⟩
  obtain ⟨w, -, htrail, rfl⟩ := visit_ok hv
  exact htrail

/-- A visit ends like a first visit and adds what a first visit finds. -/
theorem visit_ready (g : CallGraph) (markings : MarkingSource) (h : Ready t) (entry : Handle) :
    (t.visit g markings entry).2 = (visit g markings {} entry).2 ∧
      (t.visit g markings entry).1.findings =
        t.findings ++ (visit g markings {} entry).1.findings := by
  unfold visit
  cases g.nameOf entry with
  | error fault => exact ⟨rfl, (List.append_nil _).symm⟩
  | ok name =>
    dsimp only
    -- both walks start at the same place, after other findings
    rw [h.start g, ready_empty.start g, Walk.explore_after, Walk.explore_after]
    rcases Walk.explore g markings (.outset (g.calls.map Call.id)) [] (g.callsFrom entry) with
      ⟨w, fault | ⟨⟩⟩
    · exact ⟨rfl, rfl⟩
    · exact ⟨rfl, rfl⟩

/-- Visits end like first visits and add what first visits find. -/
theorem visitAll_ready (g : CallGraph) (markings : MarkingSource) (h : Ready t)
    (entries : List Handle) :
    (t.visitAll g markings entries).2 = (visitAll g markings {} entries).2 ∧
      (t.visitAll g markings entries).1.findings =
        t.findings ++ (visitAll g markings {} entries).1.findings := by
  induction entries generalizing t with
  | nil => exact ⟨rfl, (List.append_nil _).symm⟩
  | cons entry rest ih =>
    obtain ⟨hresult, hfindings⟩ := visit_ready g markings h entry
    rcases hv : t.visit g markings entry with ⟨t₁, r⟩
    rcases hv₀ : visit g markings {} entry with ⟨t₀, r₀⟩
    rw [hv, hv₀] at hresult hfindings
    dsimp only at hresult hfindings
    subst hresult
    cases r with
    | error fault =>
      simp only [visitAll, hv, hv₀]
      exact ⟨trivial, hfindings⟩
    | ok =>
      -- the rest is visited after both first visits as if it came first
      obtain ⟨hrest, hmore⟩ := ih (h.visit hv)
      obtain ⟨hrest₀, hmore₀⟩ := ih (ready_empty.visit hv₀)
      simp only [visitAll, hv, hv₀]
      refine ⟨hrest.trans hrest₀.symm, ?_⟩
      rw [hmore, hmore₀, hfindings, List.append_assoc]

theorem visitAll_append (g : CallGraph) (markings : MarkingSource) (t : Traversal)
    (first second : List Handle) :
    t.visitAll g markings (first ++ second) =
      match t.visitAll g markings first with
      | (t', .ok ()) => t'.visitAll g markings second
      | (t', .error fault) => (t', .error fault) := by
  induction first generalizing t with
  | nil => rfl
  | cons entry rest ih =>
    rw [List.cons_append, visitAll, visitAll]
    rcases t.visit g markings entry with ⟨t₁, fault | ⟨⟩⟩
    · rfl
    · exact ih t₁

/-- Entry points that have been visited have names. -/
theorem names_of_visitAll (h : t.visitAll g markings entries = (t', .ok ())) :
    ∃ names, entries.mapM g.nameOf = .ok names := by
  induction entries generalizing t with
  | nil => exact ⟨[], rfl⟩
  | cons entry rest ih =>
    rcases hv : t.visit g markings entry with ⟨t₁, fault | ⟨⟩⟩
    · simp [visitAll, hv] at h
    · simp only [visitAll, hv] at h
      obtain ⟨names, hnames⟩ := ih h
      rcases visit_cases hv with ⟨fault, -, -, hr⟩ | ⟨name, _, _, hname, -⟩
      · simp at hr
      · exact ⟨name :: names, by rw [List.mapM_cons, hname, hnames]; rfl⟩

theorem report_append (t₁ t₂ : Traversal) (h : t.findings = t₁.findings ++ t₂.findings)
    (names₁ names₂ : List Text) :
    t.report (names₁ ++ names₂) =
      { audited := (t₁.report names₁).audited ++ (t₂.report names₂).audited
        unaudited := (t₁.report names₁).unaudited ++ (t₂.report names₂).unaudited
        entryPoints := names₁ ++ names₂ } := by
  simp only [report, h, List.filterMap_append]

end Traversal

namespace CallGraph

open Traversal

/-- An audit succeeds if its entry points can be visited, and reports what has been found. -/
theorem audit_of_visitAll_ok {scope : VisitScope} {entries : List Handle} {t : Traversal}
    {names : List Text} (h : visitAll g markings { scope } entries = (t, .ok ()))
    (hnames : entries.mapM g.nameOf = .ok names) :
    g.audit markings scope entries = .ok (t.report names) := by
  simp only [audit, run, h, hnames]

theorem audit_of_visitAll_error {scope : VisitScope} {entries : List Handle} {t : Traversal}
    {fault : AuditFault} (h : visitAll g markings { scope } entries = (t, .error fault)) :
    g.audit markings scope entries = .error fault := by
  simp only [audit, run, h]

/-- An audit over two lists of entry points reports what the audits over each of them report. -/
theorem audit_append (g : CallGraph) (markings : MarkingSource) (first second : List Handle) :
    g.audit markings .entryPoint (first ++ second) = (do
      let r₁ ← g.audit markings .entryPoint first
      let r₂ ← g.audit markings .entryPoint second
      return {
        audited := r₁.audited ++ r₂.audited
        unaudited := r₁.unaudited ++ r₂.unaudited
        entryPoints := r₁.entryPoints ++ r₂.entryPoints }) := by
  have happend := visitAll_append g markings {} first second
  rcases h₁ : visitAll g markings {} first with ⟨t₁, fault | ⟨⟩⟩
  · rw [h₁] at happend
    rw [audit_of_visitAll_error happend, audit_of_visitAll_error h₁]
    rfl
  · rw [h₁] at happend
    dsimp only at happend
    obtain ⟨names₁, hnames₁⟩ := names_of_visitAll h₁
    rw [audit_of_visitAll_ok h₁ hnames₁]
    -- the second list is visited after the first one as if it stood alone
    have hready : Ready t₁ := visitAll_ok_induction (fun _ _ _ h hv => h.visit hv) ready_empty h₁
    obtain ⟨hresult, hfindings⟩ := visitAll_ready g markings hready second
    rcases h₂ : visitAll g markings {} second with ⟨t₂, r⟩
    rcases h₂' : t₁.visitAll g markings second with ⟨t', r'⟩
    rw [h₂, h₂'] at hresult hfindings
    dsimp only at hresult hfindings
    subst hresult
    rw [h₂'] at happend
    cases r' with
    | error fault =>
      rw [audit_of_visitAll_error happend, audit_of_visitAll_error h₂]
      rfl
    | ok =>
      obtain ⟨names₂, hnames₂⟩ := names_of_visitAll h₂
      have hnames : (first ++ second).mapM g.nameOf = .ok (names₁ ++ names₂) := by
        rw [List.mapM_append, hnames₁, hnames₂]
        rfl
      rw [audit_of_visitAll_ok happend hnames, audit_of_visitAll_ok h₂ hnames₂,
        report_append t₁ t₂ hfindings]
      rfl

/-- An audit over entry points is made of the audits over each of them. -/
theorem audit_eq_mapM (g : CallGraph) (markings : MarkingSource) (entries : List Handle) :
    g.audit markings .entryPoint entries =
      (entries.mapM fun e => g.audit markings .entryPoint [e]).map .joined := by
  induction entries with
  | nil => rfl
  | cons entry rest ih =>
    rw [← List.singleton_append, audit_append, ih, List.singleton_append, List.mapM_cons]
    rcases g.audit markings .entryPoint [entry] with fault | r
    · rfl
    · rcases rest.mapM fun e => g.audit markings .entryPoint [e] with fault | parts
      · rfl
      · rfl

/-- **Entry points are audited independently of each other** when visited calls count for one entry
point.

* The audit over two lists of entry points lists the findings of the audit over the first list and
  then those of the audit over the second one; if one of the two stops early, it stops at the same
  fault.
* If the nodes of the graph have names, an audit over nodes does not stop early.
* In another order of the entry points an audit lists the same findings in another order, and its
  report has the same text and the same JSON text. -/
theorem entry_points_are_independent (g : CallGraph) (markings : MarkingSource) :
    (∀ first second, g.audit markings .entryPoint (first ++ second) = (do
      let r₁ ← g.audit markings .entryPoint first
      let r₂ ← g.audit markings .entryPoint second
      return {
        audited := r₁.audited ++ r₂.audited
        unaudited := r₁.unaudited ++ r₂.unaudited
        entryPoints := r₁.entryPoints ++ r₂.entryPoints })) ∧
    (∀ entries, g.Named → (∀ e ∈ entries, e ∈ g.handles) →
      ∃ report, g.audit markings .entryPoint entries = .ok report) ∧
    ∀ entries entries' report, entries.Perm entries' →
      g.audit markings .entryPoint entries = .ok report →
      ∃ report', g.audit markings .entryPoint entries' = .ok report' ∧
        report'.audited.Perm report.audited ∧ report'.unaudited.Perm report.unaudited ∧
        report'.entryPoints.Perm report.entryPoints ∧
        report'.text = report.text ∧ report'.json = report.json := by
  refine ⟨audit_append g markings, fun _ hg hentries => run_named hg markings rfl hentries, ?_⟩
  intro entries entries' report hperm hreport
  rw [audit_eq_mapM] at hreport
  obtain ⟨parts, hparts, rfl⟩ := map_eq_ok.1 hreport
  obtain ⟨parts', hparts', hsame⟩ := mapM_perm hparts hperm
  have haudited := hsame.symm.flatMap_right AuditReport.audited
  have hunaudited := hsame.symm.flatMap_right AuditReport.unaudited
  have hnames := hsame.symm.flatMap_right AuditReport.entryPoints
  -- the two reports differ by the order of their parts
  have hfindings : AuditReport.SameFindings (.joined parts') (.joined parts) :=
    ⟨haudited, hunaudited, hnames.length_eq⟩
  refine ⟨.joined parts', ?_, haudited, hunaudited, hnames, hfindings.text, hfindings.json⟩
  rw [audit_eq_mapM, hparts']
  rfl

/-- The functions `a` and `b` call `s`, which calls `u`. -/
def twoCallers : CallGraph :=
  (CallGraph.ofRecords
    [(['a'], [{ callee := ['s'], location := { file := [], line := 1 } }]),
      (['b'], [{ callee := ['s'], location := { file := [], line := 2 } }]),
      (['s', '<', '>'], [{ callee := ['u'], location := { file := [], line := 3 } }])]).graph

/-- `a` escorts the group for which `u` requires an audit, and `b` does not. -/
def twoCallersMarkings : MarkingSource := fun name =>
  ([(['a'], { audited := some ['c'] }), (['u'], { requiresAudit := some ['c'] })] :
    List (Text × Marking)).lookup name

/-- The call of `u` is found audited from `a` and unaudited from `b`, whichever comes first. -/
theorem entry_points_are_independent_twoCallers :
    twoCallers.Named ∧ (∀ e ∈ [0, 2], e ∈ twoCallers.handles) ∧
      ∃ report report', twoCallers.audit twoCallersMarkings .entryPoint [0, 2] = .ok report ∧
        twoCallers.audit twoCallersMarkings .entryPoint [2, 0] = .ok report' ∧
        report.audited.length = 1 ∧ report.unaudited.length = 1 ∧
        report'.audited.Perm report.audited ∧ report'.unaudited.Perm report.unaudited ∧
        report'.text = report.text ∧ report'.json = report.json := by
  have hnamed : twoCallers.Named := CallGraph.named_ofRecords _
  have hentries : ∀ e ∈ [0, 2], e ∈ twoCallers.handles := by decide +kernel
  obtain ⟨-, hends, hreorder⟩ := entry_points_are_independent twoCallers twoCallersMarkings
  obtain ⟨report, hreport⟩ := hends [0, 2] hnamed hentries
  obtain ⟨report', hreport', haudited, hunaudited, -, htext, hjson⟩ :=
    hreorder [0, 2] [2, 0] report (List.Perm.swap 2 0 []) hreport
  have hlengths : (twoCallers.audit twoCallersMarkings .entryPoint [0, 2]).map
      (fun r => (r.audited.length, r.unaudited.length)) = .ok (1, 1) := by cbv
  rw [hreport] at hlengths
  obtain ⟨haudits, hlacks⟩ := Prod.mk.inj (Except.ok.inj hlengths)
  exact ⟨hnamed, hentries, report, report', hreport, hreport', haudits, hlacks, haudited,
    hunaudited, htext, hjson⟩

end CallGraph

end CallAudit
