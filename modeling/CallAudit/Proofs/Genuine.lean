import CallAudit.Proofs.Coverage

/-!
# Findings are genuine

A finding shows calls that can be made one after the other from its entry point, none of them twice.
Where these calls pass a function that requires an audit, that call was audited and has been
recorded before; below an unaudited call nothing is found. No call is found twice from one entry
point, nor in a whole run if visited calls count for the whole run.

* `Follows.once`: the calls at which something is found are fresh before and not fresh after;
* `Tracked`: what a walk keeps about its trail: no call is on it twice, and each of its calls that
  requires an audit is an audited finding;
* `Follows.tidy`: so every finding comes after those on its way.
-/

namespace CallAudit

/-- The identity of the call at which something is found. -/
def Finding.lastId (f : Finding) : Option CallId := f.calls.getLast?.map Call.id

namespace Walk

variable {g : CallGraph} {markings : MarkingSource}

/-! ## Each call is found once -/

/-- Findings at different calls, which are among the first fresh calls and not among the second. -/
structure Once (fresh fresh' : List CallId) (found : List Finding) : Prop where
  nodup : (found.map Finding.lastId).Nodup
  used : ∀ f ∈ found, ∃ id ∈ fresh, id ∉ fresh' ∧ f.lastId = some id

theorem Once.nil (fresh fresh' : List CallId) : Once fresh fresh' [] :=
  ⟨List.nodup_nil, fun _ hf => absurd hf List.not_mem_nil⟩

theorem Once.append {fresh₁ fresh₂ fresh₃ : List CallId} {l₁ l₂ : List Finding}
    (h₁ : Once fresh₁ fresh₂ l₁) (h₂ : Once fresh₂ fresh₃ l₂) (h₂₁ : fresh₂ ⊆ fresh₁)
    (h₃₂ : fresh₃ ⊆ fresh₂) : Once fresh₁ fresh₃ (l₁ ++ l₂) := by
  constructor
  · rw [List.map_append]
    refine List.nodup_append.2 ⟨h₁.nodup, h₂.nodup, ?_⟩
    -- a call that the first findings have used is not fresh for the second ones
    intro a ha b hb hab
    obtain ⟨f, hf, rfl⟩ := List.mem_map.1 ha
    obtain ⟨f', hf', rfl⟩ := List.mem_map.1 hb
    obtain ⟨id, -, hstale, hid⟩ := h₁.used f hf
    obtain ⟨id', hfresh, -, hid'⟩ := h₂.used f' hf'
    have hsame : id = id' := Option.some.inj (hid.symm.trans (hab.trans hid'))
    exact hstale (hsame ▸ hfresh)
  · intro f hf
    rcases List.mem_append.1 hf with hf | hf
    · obtain ⟨id, hfresh, hstale, hid⟩ := h₁.used f hf
      exact ⟨id, hfresh, fun hmem => hstale (h₃₂ hmem), hid⟩
    · obtain ⟨id, hfresh, hstale, hid⟩ := h₂.used f hf
      exact ⟨id, h₂₁ hfresh, hstale, hid⟩

/-- What is recorded on entering a call is found at this call. -/
theorem Entered.found_at {w w₁ : Walk} {c : Call} {f : Frame}
    (h : Entered g markings (w.take c) c w₁ f) :
    ∃ found, w₁.findings = w.findings ++ found ∧
      (found = [] ∨ ∃ new : Finding, found = [new] ∧ new.lastId = some c.id) := by
  rcases h.findings with hsame | ⟨new, hnew, hcalls⟩
  · exact ⟨[], hsame.trans (List.append_nil _).symm, .inl rfl⟩
  · have hlast : new.calls = w.trail.reverse ++ [c] := by
      rw [hcalls, h.trail]
      exact List.reverse_cons
    refine ⟨[new], hnew, .inr ⟨new, rfl, ?_⟩⟩
    rw [Finding.lastId, hlast, List.getLast?_concat, Option.map_some]

/-- From the first walk to the second one, different calls are found, and those are used up. -/
def FindsOnce (w w' : Walk) : Prop :=
  w'.fresh ⊆ w.fresh ∧ ∃ found, w'.findings = w.findings ++ found ∧ Once w.fresh w'.fresh found

namespace FindsOnce

variable {w w' w₁ w₂ w₃ : Walk} {c : Call} {f : Frame}

theorem of_findings_eq (hfresh : w'.fresh ⊆ w.fresh) (h : w'.findings = w.findings) :
    FindsOnce w w' :=
  ⟨hfresh, [], h.trans (List.append_nil _).symm, .nil _ _⟩

theorem trans (h : FindsOnce w₁ w₂) (h' : FindsOnce w₂ w₃) : FindsOnce w₁ w₃ := by
  obtain ⟨hfresh, found, hfound, honce⟩ := h
  obtain ⟨hfresh', found', hfound', honce'⟩ := h'
  refine ⟨List.Subset.trans hfresh' hfresh, found ++ found', ?_, honce.append honce' hfresh hfresh'⟩
  rw [hfound', hfound, List.append_assoc]

theorem enter (hw : w.fresh.Nodup) (fresh : c.id ∈ w.fresh)
    (e : Walk.enter g markings (w.take c) c = (w₁, .ok f)) : FindsOnce w w₁ := by
  have he := entered_of_enter e
  refine ⟨(fresh_sublist_of_enter e).subset, ?_⟩
  obtain ⟨found, hfound, rfl | ⟨new, rfl, hlast⟩⟩ := he.found_at
  · exact ⟨[], hfound, .nil _ _⟩
  · refine ⟨[new], hfound, List.nodup_singleton _, ?_⟩
    intro f' hf'
    obtain rfl := List.mem_singleton.1 hf'
    refine ⟨c.id, fresh, ?_, hlast⟩
    rw [he.fresh]
    exact hw.not_mem_erase

theorem leave {r : Except AuditFault Unit} (left : w.leave f = (w', r)) : FindsOnce w w' := by
  refine .of_findings_eq ?_ (leave_findings left)
  rw [leave_ok_fresh left]
  exact List.Subset.refl _

end FindsOnce

/-- No call is found twice while calls are followed, and calls at which something is found are used
up. -/
theorem Follows.once {w : Walk} {cs : List Call} {r : Walk × Except AuditFault Unit}
    (h : Follows g markings w cs r) (hw : w.fresh.Nodup) : FindsOnce w r.1 := by
  induction h with
  | done w => exact .of_findings_eq (List.Subset.refl _) rfl
  | skip _ _ ih => exact ih hw
  | @refused w w' c _ _ _ e =>
    have hsame : w'.findings = (w.take c).findings := findings_of_enter_error e
    exact .of_findings_eq (fresh_sublist_of_enter e).subset hsame
  | interrupted fresh e _ ih =>
    exact (FindsOnce.enter hw fresh e).trans (ih ((fresh_sublist_of_enter e).nodup hw))
  | astray fresh e _ left ih =>
    have hinner := ih ((fresh_sublist_of_enter e).nodup hw)
    exact ((FindsOnce.enter hw fresh e).trans hinner).trans (.leave left)
  | @call w w₁ w₂ w₃ c cs f r fresh e inner left _ ih ihrest =>
    have hnodup₁ : w₁.fresh.Nodup := (fresh_sublist_of_enter e).nodup hw
    have hnodup₃ : w₃.fresh.Nodup := by
      rw [leave_ok_fresh left]
      exact inner.fresh_sublist.nodup hnodup₁
    have hcall : FindsOnce w w₃ :=
      ((FindsOnce.enter hw fresh e).trans (ih hnodup₁)).trans (.leave left)
    exact hcall.trans (ihrest hnodup₃)

/-! ## Nothing is found below an unaudited call -/

/-- Each call of the list that requires an audit is an audited finding, with the calls up to it. -/
def Cleared (g : CallGraph) (markings : MarkingSource) (found : List Finding) (calls : List Call) :
    Prop :=
  ∀ before c, before ++ [c] <+: calls → g.groupRequiredBy markings c.target ≠ none →
    ∃ f ∈ found, f.calls = before ++ [c] ∧ f.escort ≠ none

theorem Cleared.mono {found found' : List Finding} {calls : List Call}
    (h : Cleared g markings found calls) (hfound : found ⊆ found') :
    Cleared g markings found' calls := by
  intro before c hc hrequired
  obtain ⟨f, hf, hcalls⟩ := h before c hc hrequired
  exact ⟨f, hfound hf, hcalls⟩

/-- What a walk keeps about its trail. While calls are left to follow, what requires an audit on the
trail is audited. -/
structure Tracked (g : CallGraph) (markings : MarkingSource) (w : Walk) (cs : List Call) :
    Prop where
  nodup : w.fresh.Nodup
  once : (w.trail.map Call.id).Nodup
  taken : ∀ c ∈ w.trail, c.id ∉ w.fresh
  cleared : cs ≠ [] → Cleared g markings w.findings w.trail.reverse

/-- A finding uses no call twice, and every call before its last one that requires an audit is an
audited finding from before. -/
structure Tidy (g : CallGraph) (markings : MarkingSource) (earlier : List Finding) (f : Finding) :
    Prop where
  once : (f.calls.map Call.id).Nodup
  cleared : ∀ before c, before ++ [c] <+: f.calls → before ++ [c] ≠ f.calls →
    g.groupRequiredBy markings c.target ≠ none →
    ∃ e ∈ earlier, e.calls = before ++ [c] ∧ e.escort ≠ none

namespace Tracked

variable {w w' w₁ : Walk} {c : Call} {cs : List Call} {f : Frame}

theorem tail (h : Tracked g markings w (c :: cs)) : Tracked g markings w cs :=
  ⟨h.nodup, h.once, h.taken, fun _ => h.cleared (List.cons_ne_nil _ _)⟩

/-- Once a call is done, the trail is the same and there are more findings. -/
theorem done (h : Tracked g markings w (c :: cs)) (hcall : Follows g markings w [c] (w', .ok ())) :
    Tracked g markings w' cs := by
  have htrail : w'.trail = w.trail := hcall.samePlace.1
  refine ⟨hcall.fresh_sublist.nodup h.nodup, htrail ▸ h.once, ?_, ?_⟩
  · intro d hd hmem
    rw [htrail] at hd
    exact h.taken d hd (hcall.fresh_sublist.subset hmem)
  · intro _
    rw [htrail]
    exact (h.cleared (List.cons_ne_nil _ _)).mono hcall.extends_findings.subset

/-- The trail after a fresh call has been put on it. -/
theorem once_cons (h : Tracked g markings w (c :: cs)) (fresh : c.id ∈ w.fresh) :
    ((c :: w.trail).map Call.id).Nodup := by
  rw [List.map_cons, List.nodup_cons]
  refine ⟨?_, h.once⟩
  intro hmem
  obtain ⟨d, hd, hid⟩ := List.mem_map.1 hmem
  exact h.taken d hd (hid ▸ fresh)

/-- A call that is entered may require an audit; then its callee is looked into only if the call is
an audited finding. -/
theorem cleared_enter (h : Tracked g markings w (c :: cs))
    (e : Entered g markings (w.take c) c w₁ f) (hpending : f.pending ≠ []) :
    Cleared g markings w₁.findings w₁.trail.reverse := by
  have htrail : w₁.trail.reverse = w.trail.reverse ++ [c] := by
    rw [e.trail]
    exact List.reverse_cons
  have hold := h.cleared (List.cons_ne_nil _ _)
  obtain ⟨new, next, hnew, hnext, hsight⟩ := e.recorded
  have hsub : w.findings ⊆ w₁.findings := by
    rw [hnew]
    exact List.subset_append_left _ _
  intro before d hd hrequired
  rw [htrail, List.prefix_concat_iff] at hd
  rcases hd with heq | hd
  · -- the call itself: it requires an audit and has not been cut off
    obtain ⟨-, hlast⟩ := List.append_inj' heq rfl
    obtain rfl := (List.cons.inj hlast).1
    cases hsight with
    | plain required => exact absurd required hrequired
    | audited =>
      rw [heq, ← htrail, hnew]
      exact ⟨_, List.mem_append_right _ (List.mem_singleton_self _), rfl, Option.some_ne_none _⟩
    | unaudited => exact absurd hnext hpending
  · exact hold.mono hsub before d hd hrequired

theorem enter (h : Tracked g markings w (c :: cs)) (fresh : c.id ∈ w.fresh)
    (e : Walk.enter g markings (w.take c) c = (w₁, .ok f)) : Tracked g markings w₁ f.pending := by
  have he := entered_of_enter e
  have hfresh : w₁.fresh = w.fresh.erase c.id := he.fresh
  have htrail : w₁.trail = c :: w.trail := he.trail
  refine ⟨?_, ?_, ?_, h.cleared_enter he⟩
  · rw [hfresh]
    exact h.nodup.erase _
  · rw [htrail]
    exact h.once_cons fresh
  · intro d hd hmem
    rw [hfresh] at hmem
    rw [htrail] at hd
    rcases List.mem_cons.1 hd with rfl | hd
    · exact h.nodup.not_mem_erase hmem
    · exact h.taken d hd (List.mem_of_mem_erase hmem)

/-- What is recorded on entering a call is tidy. -/
theorem tidy_enter (h : Tracked g markings w (c :: cs)) (fresh : c.id ∈ w.fresh)
    (e : Walk.enter g markings (w.take c) c = (w₁, .ok f)) :
    Adds (Tidy g markings) w.findings w₁.findings := by
  have he := entered_of_enter e
  have htrail : w₁.trail = c :: w.trail := he.trail
  rcases he.findings with hsame | ⟨new, hnew, hcalls⟩
  · rw [hsame]
    exact .refl
  · rw [hnew]
    rw [htrail] at hcalls
    refine Adds.refl.record ⟨?_, ?_⟩
    · rw [hcalls, List.map_reverse, List.nodup_reverse]
      exact h.once_cons fresh
    · intro before d hd hne hrequired
      rw [hcalls, List.reverse_cons] at hd hne
      have hold : before ++ [d] <+: w.trail.reverse :=
        (List.prefix_concat_iff.1 hd).resolve_left hne
      exact h.cleared (List.cons_ne_nil _ _) before d hold hrequired

end Tracked

/-- Everything that is recorded while calls are followed is tidy. -/
theorem Follows.tidy {w : Walk} {cs : List Call} {r : Walk × Except AuditFault Unit}
    (h : Follows g markings w cs r) (hw : Tracked g markings w cs) :
    Adds (Tidy g markings) w.findings r.1.findings :=
  h.adds (I := Tracked g markings) Tracked.tail
    (fun hw fresh e => ⟨hw.enter fresh e, hw.tidy_enter fresh e⟩) Tracked.done hw

theorem tracked_outset {fresh : List CallId} (hfresh : fresh.Nodup) (cs : List Call) :
    Tracked g markings (outset fresh) cs where
  nodup := hfresh
  once := List.nodup_nil
  taken := fun _ hc => absurd hc List.not_mem_nil
  cleared := by
    intro _ before c hc
    exact absurd (List.prefix_nil.1 hc) (by simp)

/-- Whether a finding is audited depends on its calls only. -/
theorem Explained.escort_ne_none {entry entry' : Handle} {f f' : Finding}
    (hf : Explained g markings entry f) (hf' : Explained g markings entry' f')
    (hcalls : f'.calls = f.calls) (hescort : f.escort ≠ none) : f'.escort ≠ none := by
  obtain ⟨last, group, hlast, hgroup, -, hnone⟩ := hf.escort_iff
  obtain ⟨last', group', hlast', hgroup', -, hnone'⟩ := hf'.escort_iff
  rw [hcalls] at hlast' hnone'
  obtain rfl : last' = last := Option.some.inj (hlast'.symm.trans hlast)
  obtain rfl : group' = group := Option.some.inj (hgroup'.symm.trans hgroup)
  intro halone
  exact hescort (hnone.2 (hnone'.1 halone))

end Walk

namespace Traversal

variable {g : CallGraph} {markings : MarkingSource} {t t' : Traversal} {entry : Handle}
  {entries : List Handle}

/-- What is recorded for an entry point is found at different calls, and every finding is tidy. -/
theorem tidy_of_recordings (ht : t.trail = []) {i : Nat} {found : List Finding}
    (hentry : entries[i]? = some entry)
    (hfound : (t.recordings g markings entries)[i]? = some found) :
    (found.map Finding.lastId).Nodup ∧
      ∀ before f after, found = before ++ f :: after → Walk.Tidy g markings before f := by
  obtain ⟨before, -, rfl | ⟨w, result, hfollows, rfl⟩⟩ := follows_of_recordings ht hentry hfound
  · exact ⟨List.nodup_nil, fun _ _ _ e => by simp at e⟩
  · have hnodup := nodup_fresh_start g before.begin
    constructor
    · obtain ⟨-, found, hfound, honce⟩ := hfollows.once hnodup
      rw [show w.findings = found from hfound]
      exact honce.nodup
    · obtain ⟨added, hadded, htidy⟩ :=
        (hfollows.tidy (Walk.tracked_outset hnodup _)).exists_added
      rw [show w.findings = added from hadded]
      exact htidy

/-- Every finding of a run is explained by calls from an entry point. -/
theorem explained_of_mem_recordings (ht : t.trail = []) {f : Finding}
    (hf : f ∈ (t.recordings g markings entries).flatten) :
    ∃ entry, Walk.Explained g markings entry f := by
  obtain ⟨found, hmem, hf⟩ := List.mem_flatten.1 hf
  obtain ⟨i, hfound⟩ := List.mem_iff_getElem?.1 hmem
  obtain ⟨entry, hentry⟩ := entry_of_recordings hfound
  exact ⟨entry, explained_of_recordings ht hentry hfound f hf⟩

/-- When visited calls count for the whole run, no call is found twice. -/
theorem once_visitAll (hscope : t.scope = .run)
    (ht : Walk.Once (g.calls.map Call.id) (t.start g).fresh t.findings) (entries : List Handle) :
    Walk.Once (g.calls.map Call.id) ((t.visitAll g markings entries).1.start g).fresh
      (t.visitAll g markings entries).1.findings := by
  refine (visitAll_induction (P := fun t => t.scope = .run ∧
    Walk.Once (g.calls.map Call.id) (t.start g).fresh t.findings) ?_ ⟨hscope, ht⟩ entries).2
  rintro t t' entry r ⟨hscope, honce⟩ hvisit
  rcases visit_cases hvisit with ⟨_, -, rfl, -⟩ | ⟨_, w, _, -, hfollows, rfl, -⟩
  · exact ⟨hscope, honce⟩
  · refine ⟨hscope, ?_⟩
    obtain ⟨hsub, found, hfound, honce'⟩ := hfollows.once (nodup_fresh_start g t.begin)
    have hall : (t.start g).fresh ⊆ g.calls.map Call.id := fun id hid => (mem_fresh_start.1 hid).1
    rw [start_finish hfollows.fresh_sublist]
    rw [fresh_begin hscope] at honce' hsub
    rw [show (t.begin.finish _ w).findings = t.findings ++ found from hfound]
    exact honce.append honce' hall hsub

/-- **Findings are genuine.** A run over nodes of a graph whose nodes have names ends with a report,
which lists the findings of its entry points in turn. Each finding

* shows the names and call sites of a path of calls that starts at its entry point, uses no call
  twice, and ends at a function that requires an audit;
* comes after an audited finding for each part of the path that ends earlier at a function that
  requires an audit; no finding of the run shows such a part as unaudited.

No two findings of one entry point end with the same call, and no two findings of the run do if
visited calls count for the whole run. -/
theorem findings_are_genuine (g : CallGraph) (markings : MarkingSource) (scope : VisitScope)
    (entries : List Handle) :
    (g.Named → (∀ e ∈ entries, e ∈ g.handles) →
      ∃ report, (run g markings { scope } entries).2 = .ok report) ∧
    (run g markings { scope } entries).1.findings =
      (recordings g markings { scope } entries).flatten ∧
    (∀ report, (run g markings { scope } entries).2 = .ok report →
      report.audited = (run g markings { scope } entries).1.findings.filterMap
        (fun f => f.escort.map fun escort => { escort, path := f.path }) ∧
      report.unaudited = ((run g markings { scope } entries).1.findings.filter
        (fun f => f.escort.isNone)).map Finding.path) ∧
    (∀ (i : Nat) (entry : Handle) (found : List Finding), entries[i]? = some entry →
      (recordings g markings { scope } entries)[i]? = some found →
        (found.map Finding.lastId).Nodup ∧
        ∀ before f after, found = before ++ f :: after →
          g.IsPath entry f.calls ∧ Walk.pathOf g f.calls = .ok f.path ∧
            (f.calls.map Call.id).Nodup ∧
          (∃ last, f.calls.getLast? = some last ∧ g.groupRequiredBy markings last.target ≠ none) ∧
          ∀ calls c, calls ++ [c] <+: f.calls → calls ++ [c] ≠ f.calls →
            g.groupRequiredBy markings c.target ≠ none →
            (∃ e ∈ before, e.calls = calls ++ [c] ∧ e.escort ≠ none) ∧
            ∀ e ∈ (run g markings { scope } entries).1.findings, e.calls = calls ++ [c] →
              e.escort ≠ none) ∧
    (scope = .run → ((run g markings { scope } entries).1.findings.map Finding.lastId).Nodup) := by
  have hflatten : (run g markings { scope } entries).1.findings =
      (recordings g markings { scope } entries).flatten := by
    rw [run_eq, findings_visitAll]
    rfl
  refine ⟨fun hg hentries => run_named hg markings rfl hentries, hflatten,
    fun report hreport => report_of_run hreport, ?_, ?_⟩
  · intro i entry found hentry hfound
    obtain ⟨hnodup, htidy⟩ := tidy_of_recordings rfl hentry hfound
    have hexplained := explained_of_recordings rfl hentry hfound
    refine ⟨hnodup, ?_⟩
    intro before f after hsplit
    have hmem {e : Finding} (he : e ∈ before ++ [f]) : e ∈ found := by
      rw [hsplit, ← List.singleton_append, ← List.append_assoc]
      exact List.mem_append_left _ he
    have hf := hexplained f (hmem (by simp))
    obtain ⟨last, group, hlast, hgroup, -⟩ := hf.reason
    refine ⟨hf.path, hf.shown, (htidy before f after hsplit).once, ⟨last, hlast, ?_⟩, ?_⟩
    · rw [hgroup]
      exact Option.some_ne_none group
    · intro calls c hpart hproper hrequired
      obtain ⟨e, he, hcalls, hescort⟩ :=
        (htidy before f after hsplit).cleared calls c hpart hproper hrequired
      refine ⟨⟨e, he, hcalls, hescort⟩, ?_⟩
      intro e' he' hcalls'
      rw [hflatten] at he'
      obtain ⟨entry', hexplained'⟩ := explained_of_mem_recordings rfl he'
      exact (hexplained e (hmem (List.mem_append_left _ he))).escort_ne_none hexplained'
        (hcalls'.trans hcalls.symm) hescort
  · intro hscope
    rw [run_eq]
    exact (once_visitAll hscope (.nil _ _) entries).nodup

/-- The function `m` calls `o`, which calls `f` twice; `f` calls `s`, and `s` calls `o`. -/
def circle : CallGraph :=
  (CallGraph.ofRecords
    [(['m'], [{ callee := ['o'], location := { file := [], line := 1 } }]),
      (['o', '<', '>'], [{ callee := ['f'], location := { file := [], line := 2 } },
        { callee := ['f'], location := { file := [], line := 3 } }]),
      (['f', '<', '>'], [{ callee := ['s'], location := { file := [], line := 4 } }]),
      (['s', '<', '>'], [{ callee := ['o'], location := { file := [], line := 5 } }])]).graph

/-- `o` escorts the group for which `f` and `s` require an audit. -/
def circleMarkings : MarkingSource := fun name =>
  ([(['o'], { audited := some ['c'] }), (['f'], { requiresAudit := some ['c'] }),
    (['s'], { requiresAudit := some ['c'] })] : List (Text × Marking)).lookup name

/-- From `m` round the circle, by the first call of `f` and then by the second. -/
def circlePath : List Call :=
  [{ source := 0, target := 1, key := 0, location := { file := [], line := 1 } },
    { source := 1, target := 2, key := 0, location := { file := [], line := 2 } },
    { source := 2, target := 3, key := 0, location := { file := [], line := 4 } },
    { source := 3, target := 1, key := 0, location := { file := [], line := 5 } },
    { source := 1, target := 2, key := 1, location := { file := [], line := 3 } }]

/-- The second call of `f` is found below the first one, which is an audited finding before it. -/
theorem findings_are_genuine_circle :
    circle.Named ∧ (∃ report, (run circle circleMarkings { scope := .run } [0]).2 = .ok report) ∧
      ((run circle circleMarkings { scope := .run } [0]).1.findings.map Finding.lastId).Nodup ∧
      ∃ before f, (recordings circle circleMarkings { scope := .run } [0])[0]? =
        some (before ++ [f]) ∧
        f.calls = circlePath ∧ (circlePath.map Call.id).Nodup ∧
        ∃ e ∈ before, e.calls = circlePath.take 2 ∧ e.escort ≠ none := by
  have hnamed : circle.Named := CallGraph.named_ofRecords _
  obtain ⟨hends, -, -, hgenuine, hrun⟩ := findings_are_genuine circle circleMarkings .run [0]
  have hcalls : (recordings circle circleMarkings { scope := .run } [0]).map (·.map Finding.calls) =
      [[circlePath.take 2, circlePath.take 3, circlePath]] := by cbv
  obtain ⟨found, hfound, hshown⟩ := List.map_eq_singleton_iff.1 hcalls
  obtain ⟨e₁, rest, rfl, -, hrest⟩ := List.map_eq_cons_iff.1 hshown
  obtain ⟨e₂, rest, rfl, -, hrest⟩ := List.map_eq_cons_iff.1 hrest
  obtain ⟨f, rfl, hf⟩ := List.map_eq_singleton_iff.1 hrest
  have hzero : (recordings circle circleMarkings { scope := .run } [0])[0]? = some [e₁, e₂, f] := by
    rw [hfound]
    rfl
  obtain ⟨-, -, honce, -, hcleared⟩ := (hgenuine 0 0 _ rfl hzero).2 [e₁, e₂] f [] rfl
  rw [hf] at honce hcleared
  obtain ⟨e, he, hpart, hescort⟩ := (hcleared (circlePath.take 1)
    { source := 1, target := 2, key := 0, location := { file := [], line := 2 } }
    (List.take_prefix 2 circlePath) (by decide) (by decide +kernel)).1
  exact ⟨hnamed, hends hnamed (by decide +kernel), hrun rfl, [e₁, e₂], f, hzero, hf, honce,
    e, he, hpart, hescort⟩

end Traversal

end CallAudit
