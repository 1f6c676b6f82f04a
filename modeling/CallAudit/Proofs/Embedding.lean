import CallAudit.Proofs.Coverage

/-!
# Audits see names, not handles

One graph may be part of another under other handles: its nodes have the same names there and the
same calls in the same order, and they call no other nodes (`CallGraph.Embeds`). Walks on the two
graphs then go through corresponding states (`Walk.Renames`), so both graphs have the same audit
(`CallGraph.Embeds.audit_eq`).
-/

namespace CallAudit

/-- A call with other handles for its ends. -/
def Call.rename (φ : Handle → Handle) (c : Call) : Call :=
  { c with source := φ c.source, target := φ c.target }

/-- A finding with other handles for the ends of its calls. -/
def Finding.rename (φ : Handle → Handle) (f : Finding) : Finding :=
  { f with calls := f.calls.map (Call.rename φ) }

theorem call_rename_id : Call.rename id = id := rfl

theorem finding_rename_id : Finding.rename id = id := by
  funext f
  rw [Finding.rename, call_rename_id, List.map_id]
  rfl

variable {φ : Handle → Handle} {g g' : CallGraph} {markings : MarkingSource}

namespace CallGraph

/-- The nodes of a graph belong to another graph under other handles, with the same names and the
same calls. -/
structure Embeds (φ : Handle → Handle) (g g' : CallGraph) : Prop where
  injective : ∀ h ∈ g.handles, ∀ k ∈ g.handles, φ h = φ k → h = k
  nameOf : ∀ h ∈ g.handles, g'.nameOf (φ h) = g.nameOf h
  callsFrom : ∀ h ∈ g.handles, g'.callsFrom (φ h) = (g.callsFrom h).map (Call.rename φ)

namespace Embeds

theorem refl (g : CallGraph) : Embeds id g g where
  injective := fun _ _ _ _ e => e
  nameOf := fun _ _ => rfl
  callsFrom := by
    intro h _
    rw [call_rename_id, List.map_id]
    rfl

/-- A call of a graph is one of the graph that it is embedded in. -/
theorem mem_calls (e : Embeds φ g g') {c : Call} (hc : c ∈ g.calls) : c.rename φ ∈ g'.calls := by
  have hfrom : c.rename φ ∈ g'.callsFrom (φ c.source) := by
    rw [e.callsFrom _ (live_of_mem_calls hc).1]
    exact List.mem_map_of_mem (mem_callsFrom.2 ⟨hc, rfl⟩)
  exact (mem_callsFrom.1 hfrom).1

/-- Calls that are told apart in the one graph are told apart in the other. -/
theorem eq_of_rename_id_eq (e : Embeds φ g g') {c d : Call} (hc : c ∈ g.calls) (hd : d ∈ g.calls)
    (h : (c.rename φ).id = (d.rename φ).id) : c = d := by
  have hsource : c.source = d.source :=
    e.injective _ (live_of_mem_calls hc).1 _ (live_of_mem_calls hd).1 (congrArg CallId.source h)
  have htarget : c.target = d.target :=
    e.injective _ (live_of_mem_calls hc).2 _ (live_of_mem_calls hd).2 (congrArg CallId.target h)
  have hkey : c.key = d.key := congrArg CallId.key h
  refine eq_of_id_eq hc hd ?_
  rw [Call.id, Call.id, hsource, htarget, hkey]

/-- Corresponding nodes have the same marking. -/
theorem markingOf_eq (e : Embeds φ g g') (markings : MarkingSource) {h : Handle}
    (hh : h ∈ g.handles) : Walk.markingOf g' markings (φ h) = Walk.markingOf g markings h := by
  rw [Walk.markingOf, Walk.markingOf, e.nameOf h hh]

theorem groupEscortedBy_eq (e : Embeds φ g g') (markings : MarkingSource) {h : Handle}
    (hh : h ∈ g.handles) : g'.groupEscortedBy markings (φ h) = g.groupEscortedBy markings h := by
  rw [groupEscortedBy, groupEscortedBy, e.markingOf_eq markings hh]

/-- A path is shown by the same names and call sites. -/
theorem pathOf_eq (e : Embeds φ g g') {calls : List Call} (hcalls : ∀ c ∈ calls, c ∈ g.calls) :
    Walk.pathOf g' (calls.map (Call.rename φ)) = Walk.pathOf g calls := by
  unfold Walk.pathOf
  rw [List.mapM_map]
  refine mapM_congr fun c hc => ?_
  show (g'.nameOf (φ c.target)).map _ = _
  rw [e.nameOf _ (live_of_mem_calls (hcalls c hc)).2]
  rfl

end Embeds

end CallGraph

namespace Walk

/-! ## Walks at corresponding places -/

/-- Trail and escorts of two walks correspond; they belong to the graph of the first one. -/
structure Aligned (φ : Handle → Handle) (g : CallGraph) (w w' : Walk) : Prop where
  trail : w'.trail = w.trail.map (Call.rename φ)
  escorts : ∀ group, w'.escorts.active group = (w.escorts.active group).map φ
  onTrail : ∀ c ∈ w.trail, c ∈ g.calls
  live : ∀ group h, w.escorts.active group = some h → h ∈ g.handles

namespace Aligned

variable {w w' w₁ w₁' w₂ w₂' w₃ : Walk} {c : Call} {f f' : Frame}

theorem take (h : Aligned φ g w w') (hc : c ∈ g.calls) :
    Aligned φ g (w.take c) (w'.take (c.rename φ)) where
  trail := congrArg (c.rename φ :: ·) h.trail
  escorts := h.escorts
  onTrail := by
    intro d hd
    rcases List.mem_cons.1 hd with rfl | hd
    · exact hc
    · exact h.onTrail d hd
  live := h.live

/-- The caller of a call becomes an escort on both walks. -/
theorem engage (h : Aligned φ g w w') (e : g.Embeds φ g') (markings : MarkingSource)
    (hc : c ∈ g.calls) :
    Aligned φ g { w with escorts := engaged g markings w.escorts c }
      { w' with escorts := engaged g' markings w'.escorts (c.rename φ) } where
  trail := h.trail
  escorts := by
    intro group
    have hsource := (CallGraph.live_of_mem_calls hc).1
    show (engaged g' markings w'.escorts (c.rename φ)).active group = _
    rw [active_engaged, active_engaged, h.escorts group]
    show (if g'.groupEscortedBy markings (φ c.source) = some group then some (φ c.source)
      else _) = _
    rw [e.groupEscortedBy_eq markings hsource]
    split
    · rfl
    · rfl
  onTrail := h.onTrail
  live := by
    intro group k hk
    rw [active_engaged] at hk
    split at hk
    · rw [← Option.some.inj hk]
      exact (CallGraph.live_of_mem_calls hc).1
    · exact h.live group k hk

/-- A group is classified in the same way on both walks, with the same finding. -/
theorem classify (h : Aligned φ g w w') (e : g.Embeds φ g') (group : Text) :
    (∃ fault, Walk.classify g w group = .error fault ∧ Walk.classify g' w' group = .error fault) ∨
      ∃ audited new, Walk.classify g w group =
        .ok (audited, { w with findings := w.findings ++ [new] }) ∧
        Walk.classify g' w' group =
          .ok (audited, { w' with findings := w'.findings ++ [new.rename φ] }) := by
  have hpath : pathOf g' w'.trail.reverse = pathOf g w.trail.reverse := by
    rw [h.trail, ← List.map_reverse]
    exact e.pathOf_eq fun c hc => h.onTrail c (List.mem_reverse.1 hc)
  have hfinding (path : AuditPath) (escort : Option Text) :
      Finding.rename φ { calls := w.trail.reverse, path, escort } =
        { calls := w'.trail.reverse, path, escort } := by
    rw [Finding.rename, h.trail, List.map_reverse]
  unfold Walk.classify
  rw [hpath, h.escorts group]
  cases pathOf g w.trail.reverse with
  | error fault => exact .inl ⟨fault, rfl, rfl⟩
  | ok path =>
    cases hactive : w.escorts.active group with
    | none => exact .inr ⟨false, _, rfl, by rw [hfinding]; rfl⟩
    | some k =>
      dsimp only [Option.map_some]
      rw [e.nameOf k (h.live group k hactive)]
      cases g.nameOf k with
      | error fault => exact .inl ⟨fault, rfl, rfl⟩
      | ok name => exact .inr ⟨true, _, rfl, by rw [hfinding]⟩

/-- A call is entered in the same way on both walks, with the same findings. -/
theorem enter (h : Aligned φ g w w') (e : g.Embeds φ g') (markings : MarkingSource)
    (hc : c ∈ g.calls) :
    (∃ w₁ w₁' fault, Walk.enter g markings w c = (w₁, .error fault) ∧
        Walk.enter g' markings w' (c.rename φ) = (w₁', .error fault)) ∨
      ∃ w₁ w₁' f f' new, Walk.enter g markings w c = (w₁, .ok f) ∧
        Walk.enter g' markings w' (c.rename φ) = (w₁', .ok f') ∧ Aligned φ g w₁ w₁' ∧
        f'.pending = f.pending.map (Call.rename φ) ∧ w₁.findings = w.findings ++ new ∧
        w₁'.findings = w'.findings ++ new.map (Finding.rename φ) := by
  obtain ⟨hsource, htarget⟩ := CallGraph.live_of_mem_calls hc
  have hcaller' : markingOf g' markings (c.rename φ).source = markingOf g markings c.source :=
    e.markingOf_eq markings hsource
  have hcallee' : markingOf g' markings (c.rename φ).target = markingOf g markings c.target :=
    e.markingOf_eq markings htarget
  have hnext : g'.callsFrom (c.rename φ).target = (g.callsFrom c.target).map (Call.rename φ) :=
    e.callsFrom _ htarget
  unfold Walk.enter
  rw [hcaller', hcallee', hnext]
  cases hcaller : markingOf g markings c.source with
  | error fault => exact .inl ⟨_, _, fault, rfl, rfl⟩
  | ok caller =>
    have h₁ := h.engage e markings hc
    dsimp only
    rw [engage_eq hcaller, engage_eq (hcaller'.trans hcaller)]
    cases markingOf g markings c.target with
    | error fault => exact .inl ⟨_, _, fault, rfl, rfl⟩
    | ok callee =>
      dsimp only
      cases callee.bind (·.requiresAudit) with
      | none =>
        exact .inr ⟨_, _, _, _, [], rfl, rfl, h₁, rfl, (List.append_nil _).symm,
          (List.append_nil _).symm⟩
      | some group =>
        dsimp only
        rcases h₁.classify e group with ⟨fault, hw, hw'⟩ | ⟨audited, new, hw, hw'⟩
        · rw [hw, hw']
          exact .inl ⟨_, _, fault, rfl, rfl⟩
        · rw [hw, hw']
          -- a finding changes neither trail nor escorts
          have hrecord (l l' : List Finding) : Aligned φ g
              { w with escorts := engaged g markings w.escorts c, findings := l }
              { w' with escorts := engaged g' markings w'.escorts (c.rename φ), findings := l' } :=
            ⟨h₁.trail, h₁.escorts, h₁.onTrail, h₁.live⟩
          cases audited with
          | false => exact .inr ⟨_, _, _, _, [new], rfl, rfl, hrecord _ _, rfl, rfl, rfl⟩
          | true => exact .inr ⟨_, _, _, _, [new], rfl, rfl, hrecord _ _, rfl, rfl, rfl⟩

/-- A call that cannot be entered cannot be entered in the other graph, for the same reason. -/
theorem enter_refused (h : Aligned φ g w w') (e : g.Embeds φ g') (hc : c ∈ g.calls)
    {fault : GraphFault} (entered : Walk.enter g markings w c = (w₁, .error fault)) :
    ∃ w₁', Walk.enter g' markings w' (c.rename φ) = (w₁', .error fault) := by
  rcases h.enter e markings hc with ⟨_, w₁', fault', hw, hw'⟩ | ⟨_, _, _, _, _, hw, -⟩
  · rw [entered] at hw
    obtain rfl := Except.error.inj (Prod.mk.inj hw).2
    exact ⟨w₁', hw'⟩
  · simp [entered] at hw

/-- A call that can be entered can be entered in the other graph, and the walks stay aligned. -/
theorem enter_entered (h : Aligned φ g w w') (e : g.Embeds φ g') (hc : c ∈ g.calls)
    (entered : Walk.enter g markings w c = (w₁, .ok f)) :
    ∃ w₁' f' new, Walk.enter g' markings w' (c.rename φ) = (w₁', .ok f') ∧ Aligned φ g w₁ w₁' ∧
      f'.pending = f.pending.map (Call.rename φ) ∧ w₁.findings = w.findings ++ new ∧
      w₁'.findings = w'.findings ++ new.map (Finding.rename φ) := by
  rcases h.enter e markings hc with ⟨_, _, _, hw, -⟩ | ⟨_, w₁', _, f', new, hw, hw', hrest⟩
  · simp [entered] at hw
  · rw [entered] at hw
    obtain ⟨rfl, hf⟩ := Prod.mk.inj hw
    obtain rfl := Except.ok.inj hf
    exact ⟨w₁', f', new, hw', hrest⟩

/-- A call that was entered on both walks is left in the same way on both. -/
theorem leave (h : Aligned φ g w w') (e : g.Embeds φ g') (hc : c ∈ g.calls)
    (entered : Walk.enter g markings (w.take c) c = (w₁, .ok f))
    (entered' : Walk.enter g' markings (w'.take (c.rename φ)) (c.rename φ) = (w₁', .ok f'))
    (h₂ : Aligned φ g w₂ w₂') (left : w₂.leave f = (w₃, .ok ())) :
    ∃ w₃', w₂'.leave f' = (w₃', .ok ()) ∧ Aligned φ g w₃ w₃' := by
  have hcall := (entered_of_enter entered).call
  have hcall' := (entered_of_enter entered').call
  have hsaved : f.saved = remembered g markings w.escorts c := (entered_of_enter entered).saved
  have hsaved' : f'.saved = remembered g' markings w'.escorts (c.rename φ) :=
    (entered_of_enter entered').saved
  obtain ⟨htrail, hw₃⟩ := leave_ok left
  have htrail' : w₂'.trail = f'.call :: w₃.trail.map (Call.rename φ) := by
    rw [h₂.trail, htrail, hcall, hcall']
    rfl
  have hsource := e.groupEscortedBy_eq markings (CallGraph.live_of_mem_calls hc).1
  have hactive (group : Text) : w₃.escorts.active group =
      if g.groupEscortedBy markings c.source = some group then w.escorts.active group
      else w₂.escorts.active group := by
    rw [hw₃, hsaved]
    exact active_restore_remembered g markings w.escorts w₂.escorts c group
  refine ⟨_, leave_of_trail htrail', rfl, ?_, ?_, ?_⟩
  · intro group
    show (w₂'.escorts.restore f'.saved).active group = _
    rw [hsaved', active_restore_remembered, hactive, h.escorts group, h₂.escorts group]
    show (if g'.groupEscortedBy markings (φ c.source) = some group then _ else _) = _
    rw [hsource]
    split
    · rfl
    · rfl
  · intro d hd
    refine h₂.onTrail d ?_
    rw [htrail]
    exact List.mem_cons_of_mem _ hd
  · intro group k hk
    rw [hactive] at hk
    split at hk
    · exact h.live group k hk
    · exact h₂.live group k hk

end Aligned

/-! ## Corresponding walks -/

/-- Walks on a graph and on one in which it is embedded are in corresponding states. -/
structure Renames (φ : Handle → Handle) (g : CallGraph) (w w' : Walk) : Prop
    extends Aligned φ g w w' where
  nodup : w.fresh.Nodup
  nodup' : w'.fresh.Nodup
  fresh : ∀ c ∈ g.calls, (c.rename φ).id ∈ w'.fresh ↔ c.id ∈ w.fresh
  findings : w'.findings = w.findings.map (Finding.rename φ)

/-- The outcomes of following calls on two graphs correspond. -/
inductive RenamesOutcome (φ : Handle → Handle) (g : CallGraph) :
    Walk × Except AuditFault Unit → Walk × Except AuditFault Unit → Prop
  | failed (w w' : Walk) (fault : AuditFault) :
    RenamesOutcome φ g (w, .error fault) (w', .error fault)
  | done {w w' : Walk} (renames : Renames φ g w w') : RenamesOutcome φ g (w, .ok ()) (w', .ok ())

namespace Renames

variable {w w' w₁ w₁' w₂ w₂' w₃ : Walk} {c : Call} {f f' : Frame}

theorem enter (h : Renames φ g w w') (e : g.Embeds φ g') (hc : c ∈ g.calls)
    (entered : Walk.enter g markings (w.take c) c = (w₁, .ok f)) :
    ∃ w₁' f', Walk.enter g' markings (w'.take (c.rename φ)) (c.rename φ) = (w₁', .ok f') ∧
      Renames φ g w₁ w₁' ∧ f'.pending = f.pending.map (Call.rename φ) := by
  obtain ⟨w₁', f', new, entered', haligned, hpending, hnew, hnew'⟩ :=
    (h.toAligned.take hc).enter_entered e hc entered
  have hfresh : w₁.fresh = w.fresh.erase c.id := (entered_of_enter entered).fresh
  have hfresh' : w₁'.fresh = w'.fresh.erase (c.rename φ).id := (entered_of_enter entered').fresh
  refine ⟨w₁', f', entered', ⟨haligned, ?_, ?_, ?_, ?_⟩, hpending⟩
  · rw [hfresh]
    exact h.nodup.erase _
  · rw [hfresh']
    exact h.nodup'.erase _
  · intro d hd
    rw [hfresh, hfresh', h.nodup.mem_erase_iff, h.nodup'.mem_erase_iff, h.fresh d hd]
    refine and_congr_left fun _ => not_congr ⟨fun hid => ?_, fun hid => ?_⟩
    · rw [e.eq_of_rename_id_eq hd hc hid]
    · rw [CallGraph.eq_of_id_eq hd hc hid]
  · rw [hnew, hnew', List.map_append]
    exact congrArg (· ++ _) h.findings

theorem leave (h : Renames φ g w w') (e : g.Embeds φ g') (hc : c ∈ g.calls)
    (entered : Walk.enter g markings (w.take c) c = (w₁, .ok f))
    (entered' : Walk.enter g' markings (w'.take (c.rename φ)) (c.rename φ) = (w₁', .ok f'))
    (h₂ : Renames φ g w₂ w₂') (left : w₂.leave f = (w₃, .ok ())) :
    ∃ w₃', w₂'.leave f' = (w₃', .ok ()) ∧ Renames φ g w₃ w₃' := by
  obtain ⟨w₃', left', haligned⟩ := h.toAligned.leave e hc entered entered' h₂.toAligned left
  refine ⟨w₃', left', haligned, ?_, ?_, ?_, ?_⟩
  · rw [leave_ok_fresh left]
    exact h₂.nodup
  · rw [leave_ok_fresh left']
    exact h₂.nodup'
  · rw [leave_ok_fresh left, leave_ok_fresh left']
    exact h₂.fresh
  · rw [leave_findings left, leave_findings left']
    exact h₂.findings

end Renames

/-- Following calls on a graph and on one in which it is embedded has corresponding outcomes. -/
theorem Follows.rename (e : g.Embeds φ g') {w w' : Walk} {cs : List Call}
    {r : Walk × Except AuditFault Unit} (h : Follows g markings w cs r) (hw : Renames φ g w w')
    (hcs : ∀ c ∈ cs, c ∈ g.calls) :
    ∃ r', Follows g' markings w' (cs.map (Call.rename φ)) r' ∧ RenamesOutcome φ g r r' := by
  induction h generalizing w' with
  | done w => exact ⟨_, .done w', .done hw⟩
  | @skip w c cs r stale _ ih =>
    have hc := hcs c List.mem_cons_self
    obtain ⟨r', hrest, hr⟩ := ih hw fun d hd => hcs d (List.mem_cons_of_mem c hd)
    exact ⟨r', .skip (fun hfresh => stale ((hw.fresh c hc).1 hfresh)) hrest, hr⟩
  | @refused w w₁ c cs fault fresh entered =>
    have hc := hcs c List.mem_cons_self
    obtain ⟨w₁', entered'⟩ := (hw.toAligned.take hc).enter_refused e hc entered
    exact ⟨_, .refused ((hw.fresh c hc).2 fresh) entered', .failed _ _ _⟩
  | @interrupted w w₁ w₂ c cs f fault fresh entered _ ih =>
    have hc := hcs c List.mem_cons_self
    obtain ⟨w₁', f', entered', h₁, hpending⟩ := hw.enter e hc entered
    obtain ⟨r', inner', hr⟩ := ih h₁ (entered_of_enter entered).pending_subset
    rw [← hpending] at inner'
    cases hr with
    | failed _ w₂' =>
      exact ⟨_, .interrupted ((hw.fresh c hc).2 fresh) entered' inner', .failed _ _ _⟩
  | astray _ entered inner left _ =>
    -- a call that was entered can be left
    obtain ⟨w₃, hok⟩ := leave_entered entered inner.samePlace
    simp [left] at hok
  | @call w w₁ w₂ w₃ c cs f r fresh entered _ left _ ih ihrest =>
    have hc := hcs c List.mem_cons_self
    obtain ⟨w₁', f', entered', h₁, hpending⟩ := hw.enter e hc entered
    obtain ⟨r', inner', hr⟩ := ih h₁ (entered_of_enter entered).pending_subset
    rw [← hpending] at inner'
    cases hr with
    | done h₂ =>
      obtain ⟨w₃', left', h₃⟩ := hw.leave e hc entered entered' h₂ left
      obtain ⟨r', rest', hr⟩ := ihrest h₃ fun d hd => hcs d (List.mem_cons_of_mem c hd)
      exact ⟨r', .call ((hw.fresh c hc).2 fresh) entered' inner' left' rest', hr⟩

end Walk

namespace Traversal

open Walk

variable {t t' : Traversal}

/-- Corresponding traversals begin with the next entry point in corresponding states. -/
theorem renames_begin (e : g.Embeds φ g') (hscope : t'.scope = t.scope)
    (h : Renames φ g (t.start g) (t'.start g')) :
    Renames φ g (t.begin.start g) (t'.begin.start g') where
  nodup := nodup_fresh_start g t.begin
  nodup' := nodup_fresh_start g' t'.begin
  fresh := by
    intro c hc
    have hids : c.id ∈ g.calls.map Call.id := List.mem_map_of_mem hc
    have hids' : (c.rename φ).id ∈ g'.calls.map Call.id := List.mem_map_of_mem (e.mem_calls hc)
    cases ht : t.scope with
    | entryPoint =>
      rw [mem_fresh_start, mem_fresh_start]
      simp only [begin, ht, hscope.trans ht, hids, hids', List.not_mem_nil, not_false_eq_true]
    | run =>
      have hsame := h.fresh c hc
      rw [mem_fresh_start, mem_fresh_start] at hsame ⊢
      simpa only [begin, ht, hscope.trans ht] using hsame
  trail := h.trail
  escorts := fun _ => rfl
  findings := h.findings
  onTrail := h.onTrail
  live := fun _ _ hk => by simp [start, begin] at hk

/-- Visits of corresponding entry points have corresponding outcomes. -/
theorem visit_rename (e : g.Embeds φ g') (markings : MarkingSource) (hscope : t'.scope = t.scope)
    (h : Renames φ g (t.start g) (t'.start g')) {entry : Handle} (hentry : entry ∈ g.handles) :
    (∃ t₁ t₁' fault, t.visit g markings entry = (t₁, .error fault) ∧
        t'.visit g' markings (φ entry) = (t₁', .error fault)) ∨
      ∃ t₁ t₁', t.visit g markings entry = (t₁, .ok ()) ∧
        t'.visit g' markings (φ entry) = (t₁', .ok ()) ∧
        t₁'.scope = t₁.scope ∧ Renames φ g (t₁.start g) (t₁'.start g') := by
  unfold visit
  rw [e.nameOf entry hentry, e.callsFrom entry hentry]
  cases g.nameOf entry with
  | error fault => exact .inl ⟨_, _, _, rfl, rfl⟩
  | ok name =>
    dsimp only
    have hfollows := explore_follows g markings (t.begin.start g) (g.callsFrom entry)
    obtain ⟨r', hfollows', hr⟩ := hfollows.rename e (renames_begin e hscope h)
      fun c hc => (CallGraph.mem_callsFrom.1 hc).1
    rw [hfollows'.explore_eq]
    generalize explore g markings (t.begin.start g) [] (g.callsFrom entry) = r at hfollows hr ⊢
    cases hr with
    | failed w w' fault => exact .inl ⟨_, _, fault, rfl, rfl⟩
    | @done w w' hw =>
      have hempty : w'.trail.isEmpty = w.trail.isEmpty := by rw [hw.trail, List.isEmpty_map]
      have hlength : w'.trail.length = w.trail.length := by rw [hw.trail, List.length_map]
      dsimp only
      rw [hempty, hlength]
      split
      · refine .inr ⟨_, _, rfl, rfl, hscope, ?_⟩
        rwa [start_finish hfollows.fresh_sublist, start_finish hfollows'.fresh_sublist]
      · exact .inl ⟨_, _, _, rfl, rfl⟩

/-- Visits of corresponding entry points in turn have corresponding outcomes. -/
theorem visitAll_rename (e : g.Embeds φ g') (markings : MarkingSource) (hscope : t'.scope = t.scope)
    (h : Renames φ g (t.start g) (t'.start g')) {entries : List Handle}
    (hentries : ∀ k ∈ entries, k ∈ g.handles) :
    (∃ t₁ t₁' fault, t.visitAll g markings entries = (t₁, .error fault) ∧
        t'.visitAll g' markings (entries.map φ) = (t₁', .error fault)) ∨
      ∃ t₁ t₁', t.visitAll g markings entries = (t₁, .ok ()) ∧
        t'.visitAll g' markings (entries.map φ) = (t₁', .ok ()) ∧
        Renames φ g (t₁.start g) (t₁'.start g') := by
  induction entries generalizing t t' with
  | nil => exact .inr ⟨t, t', rfl, rfl, h⟩
  | cons entry rest ih =>
    rcases visit_rename e markings hscope h (hentries entry List.mem_cons_self) with
      ⟨t₁, t₁', fault, hv, hv'⟩ | ⟨t₁, t₁', hv, hv', hscope₁, h₁⟩
    · simp only [List.map_cons, visitAll, hv, hv']
      exact .inl ⟨t₁, t₁', fault, rfl, rfl⟩
    · simp only [List.map_cons, visitAll, hv, hv']
      exact ih hscope₁ h₁ fun k hk => hentries k (List.mem_cons_of_mem entry hk)

/-- Traversals correspond before anything is visited. -/
theorem renames_empty (e : g.Embeds φ g') (scope : VisitScope) :
    Renames φ g (start g { scope }) (start g' { scope }) where
  nodup := nodup_fresh_start g _
  nodup' := nodup_fresh_start g' _
  fresh := by
    intro c hc
    rw [mem_fresh_start, mem_fresh_start]
    simp only [List.mem_map_of_mem hc, List.mem_map_of_mem (e.mem_calls hc), List.not_mem_nil]
  trail := rfl
  escorts := fun _ => rfl
  findings := rfl
  onTrail := fun _ hc => absurd hc List.not_mem_nil
  live := fun _ _ hk => by simp [start] at hk

/-- A report shows names and call sites, which corresponding findings share. -/
theorem report_rename (h : t'.findings = t.findings.map (Finding.rename φ)) (names : List Text) :
    t'.report names = t.report names := by
  simp only [report, h, List.filterMap_map]
  rfl

end Traversal

/-- A graph and one in which it is embedded have the same audit from corresponding entry points. -/
theorem CallGraph.Embeds.audit_eq (e : g.Embeds φ g') (markings : MarkingSource)
    (scope : VisitScope) {entries : List Handle} (hentries : ∀ k ∈ entries, k ∈ g.handles) :
    g'.audit markings scope (entries.map φ) = g.audit markings scope entries := by
  have hnames : (entries.map φ).mapM g'.nameOf = entries.mapM g.nameOf := by
    rw [List.mapM_map]
    exact mapM_congr fun k hk => e.nameOf k (hentries k hk)
  unfold audit Traversal.run
  rcases Traversal.visitAll_rename e markings rfl (Traversal.renames_empty e scope) hentries with
    ⟨t, t', fault, hv, hv'⟩ | ⟨t, t', hv, hv', h⟩
  · rw [hv, hv']
  · rw [hv, hv', hnames]
    cases entries.mapM g.nameOf with
    | error fault => rfl
    | ok names =>
      dsimp only
      rw [Traversal.report_rename h.findings]

end CallAudit
