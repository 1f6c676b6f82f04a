import CallAudit.Proofs.Escorting
import CallAudit.Proofs.Naming
import CallAudit.Proofs.Results

/-!
# No required audit is lost

Every call is followed at most once, some calls are not followed at all, and in the scope of a run
the calls of earlier entry points count as followed. Still each path of calls from an entry point to
a function that requires an audit leaves a finding, for its last call or for an earlier call at
which following stopped.

While a walk is going on, a call that is no longer fresh may have callees whose calls are. Once the
calls of a list are followed to their end, this has been made good for all calls followed on the way
(`Follows.settled`); a path from there can be traced call by call (`finding_of_path`).
-/

namespace CallAudit

namespace Walk

variable {g : CallGraph} {markings : MarkingSource}

/-! ## Walks come to their end -/

theorem pathOf_ok (hg : g.Named) {calls : List Call} (hcalls : ∀ c ∈ calls, c ∈ g.calls) :
    ∃ path, pathOf g calls = .ok path := by
  refine mapM_ok fun c hc => ?_
  obtain ⟨name, hname⟩ := hg _ (CallGraph.live_of_mem_calls (hcalls c hc)).2
  exact ⟨{ identifier := name, location := c.location }, by rw [hname]; rfl⟩

/-- A group can be classified when trail and escorts are nodes with names. -/
theorem classify_ok (hg : g.Named) {w : Walk} (htrail : ∀ c ∈ w.trail, c ∈ g.calls)
    (hescorts : ∀ group h, w.escorts.active group = some h → h ∈ g.handles) (group : Text) :
    ∃ audited w', classify g w group = .ok (audited, w') := by
  obtain ⟨path, hpath⟩ := pathOf_ok hg fun c hc => htrail c (List.mem_reverse.1 hc)
  unfold classify
  rw [hpath]
  cases hactive : w.escorts.active group with
  | none => exact ⟨false, _, rfl⟩
  | some h =>
    obtain ⟨name, hname⟩ := hg _ (hescorts group h hactive)
    simp only [hname]
    exact ⟨true, _, rfl⟩

theorem markingOf_ok (hg : g.Named) (markings : MarkingSource) {h : Handle} (hh : h ∈ g.handles) :
    ∃ marking, markingOf g markings h = .ok marking := by
  obtain ⟨name, hname⟩ := hg _ hh
  exact ⟨markings (definitionName name), by rw [markingOf, hname]; rfl⟩

/-- The escort of a group is a node of the graph while trail and escorts are in tune. -/
theorem live_of_attuned {w : Walk} (hw : Attuned g markings w) (htrail : ∀ c ∈ w.trail, c ∈ g.calls)
    {group : Text} {h : Handle} (hactive : w.escorts.active group = some h) : h ∈ g.handles := by
  rw [hw group, innermost, Option.map_eq_some_iff] at hactive
  obtain ⟨c, hc, rfl⟩ := hactive
  exact (CallGraph.live_of_mem_calls (htrail c (List.mem_of_find?_eq_some hc))).1

/-- A call can be entered on a walk that is underway. -/
theorem Underway.enter_ok (hg : g.Named) {entry : Handle} {w : Walk} {c : Call} {cs : List Call}
    (hw : Underway g markings entry w (c :: cs)) :
    ∃ w' f, Walk.enter g markings (w.take c) c = (w', .ok f) := by
  have htrail : ∀ d ∈ c :: w.trail, d ∈ g.calls := by
    have hpath : g.IsPath entry (w.trail.reverse ++ [c]) :=
      CallGraph.isPath_concat.2 ⟨hw.path, hw.next c List.mem_cons_self⟩
    intro d hd
    exact hpath.mem_calls d (by simpa [or_comm] using hd)
  have hc := CallGraph.live_of_mem_calls (htrail c List.mem_cons_self)
  obtain ⟨caller, hcaller⟩ := markingOf_ok hg markings hc.1
  obtain ⟨callee, hcallee⟩ := markingOf_ok hg markings hc.2
  have hescorts (group : Text) (h : Handle)
      (hactive : (engaged g markings w.escorts c).active group = some h) : h ∈ g.handles := by
    rw [active_engaged] at hactive
    split at hactive
    · rw [← Option.some.inj hactive]
      exact hc.1
    · exact live_of_attuned hw.attuned (fun d hd => htrail d (List.mem_cons_of_mem c hd)) hactive
  unfold Walk.enter
  rw [hcaller]
  dsimp only
  rw [engage_eq hcaller, hcallee]
  dsimp only
  cases callee.bind (·.requiresAudit) with
  | none => exact ⟨_, _, rfl⟩
  | some group =>
    obtain ⟨audited, w', hw'⟩ := classify_ok hg
      (w := { w.take c with escorts := engaged g markings w.escorts c }) htrail hescorts group
    dsimp only [take] at hw' ⊢
    rw [hw']
    cases audited
    · exact ⟨_, _, rfl⟩
    · exact ⟨_, _, rfl⟩

/-- A call that was entered can be left once the calls of its callee are followed. -/
theorem leave_entered {w w₁ w₂ : Walk} {c : Call} {f : Frame}
    (e : enter g markings (w.take c) c = (w₁, .ok f)) (h : SamePlace w₁ w₂) :
    ∃ w₃, w₂.leave f = (w₃, .ok ()) := by
  have he := entered_of_enter e
  have htrail : w₂.trail = f.call :: w.trail := by
    rw [h.1, he.trail, he.call]
    rfl
  exact ⟨_, leave_of_trail htrail⟩

/-- In a graph whose nodes have names, calls are followed to their end. -/
theorem Follows.ok_of_named (hg : g.Named) {entry : Handle} {w : Walk} {cs : List Call}
    {r : Walk × Except AuditFault Unit} (h : Follows g markings w cs r)
    (hw : Underway g markings entry w cs) : r.2 = .ok () := by
  induction h with
  | done w => rfl
  | skip _ _ ih => exact ih hw.tail
  | refused _ e =>
    obtain ⟨w', f, hok⟩ := hw.enter_ok hg
    simp [e] at hok
  | interrupted _ e _ ih => exact ih (hw.enter e)
  | astray _ e inner left _ =>
    -- the trail ends with the call again once the calls of its callee are done
    obtain ⟨w₃, hok⟩ := leave_entered e inner.samePlace
    simp [left] at hok
  | call _ e inner left _ _ ihrest =>
    exact ihrest (hw.tail.samePlace (samePlace_of_leave e inner.samePlace left))

/-! ## What has been followed is settled -/

/-- A call is settled by findings: it is recorded if its callee requires an audit, and either the
calls of its callee have been followed or it is unaudited. -/
structure Settled (g : CallGraph) (markings : MarkingSource) (found : List Finding)
    (fresh : List CallId) (c : Call) : Prop where
  noted : g.groupRequiredBy markings c.target ≠ none → ∃ f ∈ found, f.calls.getLast? = some c
  followed : (∃ f ∈ found, f.escort = none ∧ f.calls.getLast? = some c) ∨
    ∀ d ∈ g.callsFrom c.target, d.id ∉ fresh

theorem Settled.mono {found found' : List Finding} {fresh fresh' : List CallId} {c : Call}
    (hc : Settled g markings found fresh c) (hfound : found ⊆ found') (hfresh : fresh' ⊆ fresh) :
    Settled g markings found' fresh' c where
  noted hrequired := by
    obtain ⟨f, hf, hlast⟩ := hc.noted hrequired
    exact ⟨f, hfound hf, hlast⟩
  followed := by
    rcases hc.followed with ⟨f, hf, hescort, hlast⟩ | hstale
    · exact .inl ⟨f, hfound hf, hescort, hlast⟩
    · exact .inr fun d hd hmem => hstale d hd (hfresh hmem)

/-- Calls that are followed to their end are not fresh any more. -/
theorem Follows.stale {w w' : Walk} {cs : List Call} (h : Follows g markings w cs (w', .ok ()))
    (hw : w.fresh.Nodup) : ∀ c ∈ cs, c.id ∉ w'.fresh := by
  induction h using Follows.ok_induction with
  | done w => intro c hc; simp at hc
  | skip stale rest ih =>
    intro d hd
    rcases List.mem_cons.1 hd with rfl | hd
    · exact fun hmem => stale (rest.fresh_sublist.subset hmem)
    · exact ih hw d hd
  | @call w w₁ w₂ w₃ w' c cs f _ e inner left rest _ ihrest =>
    have hfresh₁ : w₁.fresh = w.fresh.erase c.id := (entered_of_enter e).fresh
    have hfresh₃ : w₃.fresh.Sublist (w.fresh.erase c.id) := by
      rw [leave_ok_fresh left, ← hfresh₁]
      exact inner.fresh_sublist
    intro d hd
    rcases List.mem_cons.1 hd with rfl | hd
    · intro hmem
      exact hw.not_mem_erase (hfresh₃.subset (rest.fresh_sublist.subset hmem))
    · exact ihrest ((hfresh₃.trans List.erase_sublist).nodup hw) d hd

/-- What a call that was entered records settles it, once the calls that come next are followed. -/
theorem Entered.settled {w w₁ : Walk} {c : Call} {f : Frame} {fresh : List CallId}
    (h : Entered g markings (w.take c) c w₁ f) (hnext : ∀ d ∈ f.pending, d.id ∉ fresh) :
    ∃ new, w₁.findings = w.findings ++ new ∧ Settled g markings new fresh c := by
  obtain ⟨new, next, hnew, rfl, hsight⟩ := h.recorded
  refine ⟨new, hnew, ?_⟩
  have hlast : w₁.trail.reverse.getLast? = some c := by
    rw [h.trail]
    exact (congrArg List.getLast? List.reverse_cons).trans List.getLast?_concat
  generalize hp : f.pending = pending at hsight hnext
  cases hsight with
  | plain required => exact ⟨fun hne => absurd required hne, .inr hnext⟩
  | audited => exact ⟨fun _ => ⟨_, List.mem_singleton_self _, hlast⟩, .inr hnext⟩
  | unaudited =>
    refine ⟨fun _ => ⟨_, List.mem_singleton_self _, hlast⟩,
      .inl ⟨_, List.mem_singleton_self _, rfl, hlast⟩⟩

/-- Calls that are about to be followed from a call belong to the graph. -/
theorem Entered.pending_subset {w w₁ : Walk} {c : Call} {f : Frame}
    (h : Entered g markings w c w₁ f) : ∀ d ∈ f.pending, d ∈ g.calls := by
  obtain ⟨new, next, -, hnext, hsight⟩ := h.recorded
  rw [hnext]
  intro d hd
  cases hsight with
  | plain => exact (CallGraph.mem_callsFrom.1 hd).1
  | audited => exact (CallGraph.mem_callsFrom.1 hd).1
  | unaudited => simp at hd

/-- When calls are followed to their end, all calls that were followed on the way are settled by the
findings recorded on the way. -/
theorem Follows.settled {w w' : Walk} {cs : List Call} (h : Follows g markings w cs (w', .ok ()))
    (hw : w.fresh.Nodup) (hcs : ∀ c ∈ cs, c ∈ g.calls) :
    ∃ found, w'.findings = w.findings ++ found ∧
      ∀ c ∈ g.calls, c.id ∈ w.fresh → c.id ∉ w'.fresh → Settled g markings found w'.fresh c := by
  induction h using Follows.ok_induction with
  | done w => exact ⟨[], (List.append_nil _).symm, fun c _ hmem hnot => absurd hmem hnot⟩
  | skip _ _ ih => exact ih hw fun c hc => hcs c (List.mem_cons_of_mem _ hc)
  | @call w w₁ w₂ w₃ w' c cs f _ e inner left rest ih ihrest =>
    have he := entered_of_enter e
    have hfresh₁ : w₁.fresh = w.fresh.erase c.id := he.fresh
    have hfresh₃ : w₃.fresh = w₂.fresh := leave_ok_fresh left
    have hnodup₁ : w₁.fresh.Nodup := hfresh₁ ▸ hw.erase _
    have hnodup₃ : w₃.fresh.Nodup := hfresh₃ ▸ inner.fresh_sublist.nodup hnodup₁
    have hshrink : w'.fresh ⊆ w₂.fresh := hfresh₃ ▸ rest.fresh_sublist.subset
    obtain ⟨new, hnew, hc⟩ := he.settled (inner.stale hnodup₁)
    obtain ⟨found₂, hfound₂, hsettled₂⟩ := ih hnodup₁ he.pending_subset
    obtain ⟨found₃, hfound₃, hsettled₃⟩ :=
      ihrest hnodup₃ fun d hd => hcs d (List.mem_cons_of_mem _ hd)
    refine ⟨new ++ found₂ ++ found₃, ?_, ?_⟩
    · rw [hfound₃, leave_findings left, hfound₂, hnew]
      simp only [List.append_assoc]
    · intro d hd hfresh hstale
      -- the call itself, a call below it, or a call of the rest of the list
      by_cases hid : d.id = c.id
      · obtain rfl := CallGraph.eq_of_id_eq hd (hcs c List.mem_cons_self) hid
        exact hc.mono (fun f hf => by simp [hf]) hshrink
      · have hmem₁ : d.id ∈ w₁.fresh := by
          rw [hfresh₁]
          exact (List.mem_erase_of_ne hid).2 hfresh
        by_cases hmem₂ : d.id ∈ w₂.fresh
        · exact (hsettled₃ d hd (hfresh₃ ▸ hmem₂) hstale).mono (fun f hf => by simp [hf])
            (List.Subset.refl _)
        · exact (hsettled₂ d hd hmem₁ hmem₂).mono (fun f hf => by simp [hf]) hshrink

/-! ## Tracing a path -/

/-- The findings hold one for the last of the given calls, or an unaudited one for a call before. -/
def Witnessed (found : List Finding) (calls : List Call) (last : Call) : Prop :=
  ∃ f ∈ found, f.calls.getLast? = some last ∨
    f.escort = none ∧ ∃ c ∈ calls.dropLast, f.calls.getLast? = some c

/-- If all calls that are not fresh are settled, a path along which calls are not fresh leaves a
finding. -/
theorem finding_of_path {found : List Finding} {fresh : List CallId}
    (hsettled : ∀ c ∈ g.calls, c.id ∉ fresh → Settled g markings found fresh c)
    {h : Handle} {calls : List Call} {last : Call} (hstart : ∀ c ∈ g.callsFrom h, c.id ∉ fresh)
    (hpath : g.IsPath h calls) (hlast : calls.getLast? = some last)
    (hrequired : g.groupRequiredBy markings last.target ≠ none) : Witnessed found calls last := by
  induction calls generalizing h with
  | nil => simp at hlast
  | cons c rest ih =>
    obtain ⟨hc, hrest⟩ := hpath
    have hset := hsettled c (CallGraph.mem_callsFrom.1 hc).1 (hstart c hc)
    cases rest with
    | nil =>
      obtain rfl : c = last := by simpa using hlast
      obtain ⟨f, hf, hfc⟩ := hset.noted hrequired
      exact ⟨f, hf, .inl hfc⟩
    | cons d rest =>
      rcases hset.followed with ⟨f, hf, hescort, hfc⟩ | hnext
      · exact ⟨f, hf, .inr ⟨hescort, c, by simp, hfc⟩⟩
      · obtain ⟨f, hf, hfound⟩ := ih hnext hrest (by simpa using hlast)
        refine ⟨f, hf, hfound.imp_right fun ⟨hescort, b, hb, hfb⟩ => ⟨hescort, b, ?_, hfb⟩⟩
        rw [List.dropLast_cons_cons]
        exact List.mem_cons_of_mem c hb

end Walk

namespace Traversal

variable {g : CallGraph} {markings : MarkingSource} {t t' : Traversal} {entry : Handle}
  {entries : List Handle}

/-! ## Runs come to their end -/

/-- In a graph whose nodes have names, the visit of a node succeeds. -/
theorem visit_named (hg : g.Named) (markings : MarkingSource) (ht : t.trail = [])
    (hentry : entry ∈ g.handles) : ∃ t', t.visit g markings entry = (t', .ok ()) := by
  rcases hv : t.visit g markings entry with ⟨t', r⟩
  refine ⟨t', ?_⟩
  rcases visit_cases hv with ⟨fault, hname, -, -⟩ | ⟨_, w, _, -, hfollows, -, hr⟩
  · obtain ⟨name, hok⟩ := hg _ hentry
    simp [hname] at hok
  · have hok := hfollows.ok_of_named hg (underway_start ht entry)
    dsimp only at hok
    subst hok
    have htrail : w.trail = [] := hfollows.samePlace.1.trans ht
    rcases hr with ⟨_, hfault, -⟩ | ⟨-, rfl⟩
    · simp at hfault
    · simp [htrail]

theorem visitAll_named (hg : g.Named) (markings : MarkingSource) (ht : t.trail = [])
    (hentries : ∀ e ∈ entries, e ∈ g.handles) :
    ∃ t', t.visitAll g markings entries = (t', .ok ()) := by
  induction entries generalizing t with
  | nil => exact ⟨t, rfl⟩
  | cons entry rest ih =>
    obtain ⟨t₁, hv⟩ := visit_named hg markings ht (hentries entry List.mem_cons_self)
    obtain ⟨w, -, hw, rfl⟩ := visit_ok hv
    simp only [visitAll, hv]
    exact ih hw fun e he => hentries e (List.mem_cons_of_mem _ he)

/-- In a graph whose nodes have names, a run over nodes ends with a report. -/
theorem run_named (hg : g.Named) (markings : MarkingSource) (ht : t.trail = [])
    (hentries : ∀ e ∈ entries, e ∈ g.handles) :
    ∃ report, (t.run g markings entries).2 = .ok report := by
  obtain ⟨t', hv⟩ := visitAll_named hg markings ht hentries
  obtain ⟨names, hnames⟩ := mapM_ok fun e he => hg _ (hentries e he)
  simp only [run, hv, hnames]
  exact ⟨_, rfl⟩

/-! ## Runs settle what they follow -/

/-- A visit that succeeds follows all calls from its entry point, and what it records settles all
calls that it follows. -/
theorem settled_visit (h : t.visit g markings entry = (t', .ok ())) :
    ∃ found, t'.findings = t.findings ++ found ∧ (t'.start g).fresh ⊆ (t.begin.start g).fresh ∧
      (∀ c ∈ g.callsFrom entry, c.id ∉ (t'.start g).fresh) ∧
      ∀ c ∈ g.calls, c.id ∈ (t.begin.start g).fresh → c.id ∉ (t'.start g).fresh →
        Walk.Settled g markings found (t'.start g).fresh c := by
  obtain ⟨w, hfollows, -, rfl⟩ := visit_ok h
  have hnodup := nodup_fresh_start g t.begin
  obtain ⟨found, hfound, hsettled⟩ :=
    hfollows.settled hnodup fun c hc => (CallGraph.mem_callsFrom.1 hc).1
  rw [start_finish hfollows.fresh_sublist]
  exact ⟨found, hfound, hfollows.fresh_sublist.subset, hfollows.stale hnodup, hsettled⟩

/-- Calls that have been visited are settled by the findings so far. -/
def Covered (g : CallGraph) (markings : MarkingSource) (t : Traversal) : Prop :=
  ∀ c ∈ g.calls, c.id ∉ (t.start g).fresh → Walk.Settled g markings t.findings (t.start g).fresh c

/-- When visited calls count for the whole run, a visit keeps all visited calls settled. -/
theorem covered_visit (hscope : t.scope = .run) (ht : Covered g markings t)
    (h : t.visit g markings entry = (t', .ok ())) :
    Covered g markings t' ∧ (t'.start g).fresh ⊆ (t.start g).fresh ∧
      ∀ c ∈ g.callsFrom entry, c.id ∉ (t'.start g).fresh := by
  obtain ⟨found, hfound, hsub, hfrom, hsettled⟩ := settled_visit h
  rw [fresh_begin hscope] at hsub hsettled
  refine ⟨?_, hsub, hfrom⟩
  intro c hc hstale
  rw [hfound]
  by_cases hfresh : c.id ∈ (t.start g).fresh
  · exact (hsettled c hc hfresh hstale).mono (List.subset_append_right _ _) (List.Subset.refl _)
  · exact (ht c hc hfresh).mono (List.subset_append_left _ _) hsub

/-- All calls from the entry points of a run are visited and settled in the end. -/
theorem covered_visitAll (hscope : t.scope = .run) (ht : Covered g markings t)
    (h : t.visitAll g markings entries = (t', .ok ())) :
    Covered g markings t' ∧ (t'.start g).fresh ⊆ (t.start g).fresh ∧
      ∀ entry ∈ entries, ∀ c ∈ g.callsFrom entry, c.id ∉ (t'.start g).fresh := by
  induction entries generalizing t with
  | nil =>
    obtain ⟨rfl, -⟩ := Prod.mk.inj h
    exact ⟨ht, List.Subset.refl _, fun _ he => absurd he List.not_mem_nil⟩
  | cons entry rest ih =>
    rcases hv : t.visit g markings entry with ⟨t₁, fault | ⟨⟩⟩
    · simp [visitAll, hv] at h
    · simp only [visitAll, hv] at h
      obtain ⟨hcovered, hsub, hfrom⟩ := covered_visit hscope ht hv
      obtain ⟨hcovered', hsub', hfrom'⟩ := ih ((scope_visit hv).trans hscope) hcovered h
      refine ⟨hcovered', fun id hid => hsub (hsub' hid), ?_⟩
      intro e he c hc
      rcases List.mem_cons.1 he with rfl | he
      · exact fun hid => hfrom c hc (hsub' hid)
      · exact hfrom' e he c hc

/-- Nothing has been visited when a run starts. -/
theorem covered_empty (scope : VisitScope) : Covered g markings { scope } := by
  intro c hc hstale
  refine absurd ?_ hstale
  exact mem_fresh_start.2 ⟨List.mem_map_of_mem hc, List.not_mem_nil⟩

/-- When visited calls count for one entry point, its own findings settle every path from there. -/
theorem witnessed_visit (hscope : t.scope = .entryPoint)
    (h : t.visit g markings entry = (t', .ok ())) {found : List Finding}
    (hfound : t'.findings = t.findings ++ found) {calls : List Call} {last : Call}
    (hpath : g.IsPath entry calls) (hlast : calls.getLast? = some last)
    (hrequired : g.groupRequiredBy markings last.target ≠ none) :
    Walk.Witnessed found calls last := by
  obtain ⟨found', hfound', -, hfrom, hsettled⟩ := settled_visit h
  obtain rfl : found = found' := List.append_cancel_left (hfound.symm.trans hfound')
  refine Walk.finding_of_path (fun c hc hstale => hsettled c hc ?_ hstale) hfrom hpath
    hlast hrequired
  refine mem_fresh_start.2 ⟨List.mem_map_of_mem hc, ?_⟩
  simp only [begin, hscope, List.not_mem_nil, not_false_eq_true]

/-! ## Findings in a report -/

/-- A finding is listed in a report, as audited if it has an escort. -/
def Listed (report : AuditReport) (f : Finding) : Prop :=
  match f.escort with
  | some escort => { escort, path := f.path } ∈ report.audited
  | none => f.path ∈ report.unaudited

theorem listed_report {f : Finding} (hf : f ∈ t.findings) (names : List Text) :
    Listed (t.report names) f := by
  unfold Listed
  split
  · next escort hescort =>
    refine List.mem_filterMap.2 ⟨f, hf, ?_⟩
    rw [hescort]
    rfl
  · next hescort =>
    refine List.mem_filterMap.2 ⟨f, hf, ?_⟩
    rw [hescort]
    rfl

/-- **No required audit is lost.** A run over nodes of a graph whose nodes have names ends with a
report. When a run ends with a report, every path of calls from one of its entry points to a
function that requires an audit has left a finding, which is listed: for the last call of the path,
or an unaudited one for an earlier call of the path. If visited calls count for one entry point, the
finding was recorded for the entry point of the path; if they count for the whole run, it may have
been recorded for any. -/
theorem required_audit_not_lost (g : CallGraph) (markings : MarkingSource) (scope : VisitScope)
    (entries : List Handle) :
    (g.Named → (∀ e ∈ entries, e ∈ g.handles) →
      ∃ report, (run g markings { scope } entries).2 = .ok report) ∧
    ∀ report, (run g markings { scope } entries).2 = .ok report →
      ∀ (i : Nat) (entry : Handle), entries[i]? = some entry →
        ∃ found, (recordings g markings { scope } entries)[i]? = some found ∧
          ∀ calls last, g.IsPath entry calls → calls.getLast? = some last →
            g.groupRequiredBy markings last.target ≠ none →
            ∃ f, f ∈ (match scope with
                | .entryPoint => found
                | .run => (run g markings { scope } entries).1.findings) ∧
              Listed report f ∧
              (f.calls.getLast? = some last ∨
                f.escort = none ∧ ∃ c ∈ calls.dropLast, f.calls.getLast? = some c) := by
  refine ⟨fun hg hentries => run_named hg markings rfl hentries, ?_⟩
  intro report hreport i entry hentry
  obtain ⟨t', names, hall, hrun, -, rfl⟩ := run_ok hreport
  obtain ⟨before, after, found, hfound, hbefore, hvisit, hafter⟩ :=
    recordings_of_visitAll hall hentry
  refine ⟨found, hfound, ?_⟩
  intro calls last hpath hlast hrequired
  cases scope with
  | entryPoint =>
    have hscope : before.scope = .entryPoint := by
      refine visitAll_ok_induction (P := fun t => t.scope = .entryPoint) ?_ rfl hbefore
      intro t t₁ e ht hv
      obtain ⟨w, -, -, rfl⟩ := visit_ok hv
      exact ht
    obtain ⟨f, hf, hcalls⟩ := witnessed_visit hscope hvisit hafter hpath hlast hrequired
    have hmem : f ∈ t'.findings := by
      have hsplit := findings_visitAll g markings { scope := .entryPoint } entries
      rw [hall] at hsplit
      rw [show t'.findings = _ from hsplit]
      exact List.mem_append_right _ (List.mem_flatten_of_mem (List.mem_of_getElem? hfound) hf)
    exact ⟨f, hf, listed_report hmem names, hcalls⟩
  | run =>
    obtain ⟨hcovered, -, hfrom⟩ := covered_visitAll rfl (covered_empty .run) hall
    have hstart := hfrom entry (List.mem_of_getElem? hentry)
    obtain ⟨f, hf, hcalls⟩ := Walk.finding_of_path hcovered hstart hpath hlast hrequired
    refine ⟨f, ?_, listed_report hf names, hcalls⟩
    rwa [hrun]

/-- The functions `m` and `o` call each other, and `o` calls `f`. -/
def mutualCalls : CallGraph :=
  (CallGraph.ofRecords
    [(['m', '<', '>'], [{ callee := ['o'], location := { file := [], line := 1 } }]),
      (['o', '<', '>'], [{ callee := ['m'], location := { file := [], line := 2 } },
        { callee := ['f'], location := { file := [], line := 3 } }])]).graph

/-- `f` requires an audit. -/
def mutualMarkings : MarkingSource := fun name =>
  ([(['f'], { requiresAudit := some ['c'] })] : List (Text × Marking)).lookup name

/-- From `o` round the cycle and then to `f`. -/
def mutualPath : List Call :=
  [{ source := 1, target := 0, key := 0, location := { file := [], line := 2 } },
    { source := 0, target := 1, key := 0, location := { file := [], line := 1 } },
    { source := 1, target := 2, key := 0, location := { file := [], line := 3 } }]

/-- Nothing is recorded for the second entry point, whose path to `f` the first one has met. -/
theorem required_audit_not_lost_mutual :
    mutualCalls.Named ∧ mutualCalls.IsPath 1 mutualPath ∧
      (recordings mutualCalls mutualMarkings { scope := .run } [0, 1])[1]? = some [] ∧
      ∃ report f, (run mutualCalls mutualMarkings { scope := .run } [0, 1]).2 = .ok report ∧
        f ∈ (run mutualCalls mutualMarkings { scope := .run } [0, 1]).1.findings ∧ Listed report f ∧
        (f.calls.getLast? = mutualPath.getLast? ∨
          f.escort = none ∧ ∃ c ∈ mutualPath.dropLast, f.calls.getLast? = some c) := by
  have hnamed : mutualCalls.Named := CallGraph.named_ofRecords _
  have hpath : mutualCalls.IsPath 1 mutualPath := by decide +kernel
  obtain ⟨hends, hcovers⟩ := required_audit_not_lost mutualCalls mutualMarkings .run [0, 1]
  obtain ⟨report, hreport⟩ := hends hnamed (by decide +kernel)
  obtain ⟨found, hfound, hall⟩ := hcovers report hreport 1 1 rfl
  obtain ⟨f, hf, hlisted, hcalls⟩ := hall mutualPath _ hpath rfl (by decide +kernel)
  exact ⟨hnamed, hpath, by cbv, report, f, hreport, hf, hlisted, hcalls⟩

end Traversal

end CallAudit
