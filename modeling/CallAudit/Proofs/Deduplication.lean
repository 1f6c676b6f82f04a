import CallAudit.Proofs.Embedding
import CallAudit.Proofs.Genuine

/-!
# Counting visited calls for the whole run

When visited calls count for one entry point only, a call that two entry points reach is found from
both. When they count for the whole run, later entry points pass it over. If every call that
requires an audit is audited, this makes no other difference: the calls that were visited before
contain, with a call, all calls of its callee, so a walk that passes them over sees the rest of the
graph in the same order, from the same trail and with the same escorts.

* `Follows.within`: a walk among visited calls does not leave them;
* `Shadows`, `Follows.shadow`: a walk and the walk that passes visited calls over;
* `recordings_run`: so a run records for each entry point what is new.
-/

namespace CallAudit

namespace CallGraph

variable {g : CallGraph}

/-- Calls that contain, with each call, the calls of its callee. -/
def Closed (g : CallGraph) (ids : List CallId) : Prop :=
  ∀ c ∈ g.calls, c.id ∈ ids → ∀ d ∈ g.callsFrom c.target, d.id ∈ ids

theorem Closed.append {ids ids' : List CallId} (h : g.Closed ids) (h' : g.Closed ids') :
    g.Closed (ids ++ ids') := by
  intro c hc hid d hd
  rcases List.mem_append.1 hid with hid | hid
  · exact List.mem_append_left _ (h c hc hid d hd)
  · exact List.mem_append_right _ (h' c hc hid d hd)

/-- A call is the last one of a path from the given node. -/
def Reaches (g : CallGraph) (entry : Handle) (c : Call) : Prop :=
  ∃ calls, g.IsPath entry calls ∧ calls.getLast? = some c

/-- A path whose first call is among closed calls stays among them. -/
theorem Closed.reaches {ids : List CallId} (h : g.Closed ids) {entry : Handle}
    (hentry : ∀ c ∈ g.callsFrom entry, c.id ∈ ids) {c : Call} (hc : g.Reaches entry c) :
    c.id ∈ ids := by
  obtain ⟨calls, hpath, hlast⟩ := hc
  induction calls generalizing entry with
  | nil => simp at hlast
  | cons d calls ih =>
    obtain ⟨hd, hrest⟩ := hpath
    have hmem := hentry d hd
    cases calls with
    | nil =>
      obtain rfl : d = c := by simpa using hlast
      exact hmem
    | cons d' calls =>
      exact ih (h d (mem_callsFrom.1 hd).1 hmem) hrest (by simpa using hlast)

end CallGraph

/-- Whether something is found at a call that is not among the given ones. -/
def Finding.isNew (seen : List CallId) (f : Finding) : Bool :=
  f.lastId.all fun id => !seen.contains id

namespace Walk

variable {g : CallGraph} {markings : MarkingSource} {seen : List CallId}

/-! ## Walks among visited calls -/

/-- Following calls of a closed set uses up and finds only calls of this set. -/
theorem Follows.within (hclosed : g.Closed seen) {w w' : Walk} {cs : List Call}
    (h : Follows g markings w cs (w', .ok ())) (hcs : ∀ c ∈ cs, c ∈ g.calls ∧ c.id ∈ seen) :
    (w'.fresh.filter fun id => !seen.contains id) = (w.fresh.filter fun id => !seen.contains id) ∧
      w'.findings.filter (Finding.isNew seen) = w.findings.filter (Finding.isNew seen) := by
  induction h using Follows.ok_induction with
  | done w => exact ⟨rfl, rfl⟩
  | skip _ _ ih => exact ih fun d hd => hcs d (List.mem_cons_of_mem _ hd)
  | @call w w₁ w₂ w₃ w' c cs f _ e _ left _ ih ihrest =>
    obtain ⟨hc, hseen⟩ := hcs c List.mem_cons_self
    have he := entered_of_enter e
    -- the call itself
    have hfresh₁ : (w₁.fresh.filter fun id => !seen.contains id) =
        w.fresh.filter fun id => !seen.contains id := by
      rw [he.fresh, take_fresh, ← List.erase_filter]
      exact List.erase_of_not_mem fun hmem => by simp [hseen] at hmem
    have hfindings₁ : w₁.findings.filter (Finding.isNew seen) =
        w.findings.filter (Finding.isNew seen) := by
      obtain ⟨found, hfound, rfl | ⟨new, rfl, hlast⟩⟩ := he.found_at
      · rw [hfound, List.append_nil]
      · rw [hfound, List.filter_append]
        simp [Finding.isNew, hlast, hseen]
    -- the calls of its callee
    have hpending : ∀ d ∈ f.pending, d ∈ g.calls ∧ d.id ∈ seen := by
      intro d hd
      refine ⟨he.pending_subset d hd, hclosed c hc hseen d ?_⟩
      obtain ⟨_, _, -, hnext, hsight⟩ := he.recorded
      rw [hnext] at hd
      cases hsight with
      | plain => exact hd
      | audited => exact hd
      | unaudited => simp at hd
    obtain ⟨hfresh₂, hfindings₂⟩ := ih hpending
    obtain ⟨hfresh₃, hfindings₃⟩ := ihrest fun d hd => hcs d (List.mem_cons_of_mem _ hd)
    rw [leave_ok_fresh left] at hfresh₃
    rw [leave_findings left] at hfindings₃
    exact ⟨hfresh₃.trans (hfresh₂.trans hfresh₁), hfindings₃.trans (hfindings₂.trans hfindings₁)⟩

/-! ## Passing visited calls over -/

theorem SamePlace.trans {w₁ w₂ w₃ : Walk} (h : SamePlace w₁ w₂) (h' : SamePlace w₂ w₃) :
    SamePlace w₁ w₃ :=
  ⟨h'.1.trans h.1, fun group => (h'.2 group).trans (h.2 group)⟩

theorem SamePlace.symm {w₁ w₂ : Walk} (h : SamePlace w₁ w₂) : SamePlace w₂ w₁ :=
  ⟨h.1.symm, fun group => (h.2 group).symm⟩

/-- The second walk is where the first one is, but for it the given calls are not fresh, and it has
found what the first one has found elsewhere. -/
structure Shadows (seen : List CallId) (w v : Walk) : Prop where
  place : SamePlace w v
  fresh : v.fresh = w.fresh.filter fun id => !seen.contains id
  findings : v.findings = w.findings.filter (Finding.isNew seen)

namespace Shadows

variable {w w' w₁ v : Walk} {c : Call} {cs : List Call} {f : Frame} {entry : Handle}

theorem mem_fresh (h : Shadows seen w v) {id : CallId} :
    id ∈ v.fresh ↔ id ∈ w.fresh ∧ id ∉ seen := by
  rw [h.fresh]
  simp

/-- The second walk need not follow calls of a closed set. -/
theorem within (h : Shadows seen w v) (hclosed : g.Closed seen) (hc : c ∈ g.calls)
    (hseen : c.id ∈ seen) (hcall : Follows g markings w [c] (w', .ok ())) : Shadows seen w' v := by
  have hcs : ∀ d ∈ [c], d ∈ g.calls ∧ d.id ∈ seen := by
    intro d hd
    obtain rfl := List.mem_singleton.1 hd
    exact ⟨hc, hseen⟩
  obtain ⟨hfresh, hfindings⟩ := hcall.within hclosed hcs
  refine ⟨hcall.samePlace.symm.trans h.place, ?_, ?_⟩
  · rw [hfresh]
    exact h.fresh
  · rw [hfindings]
    exact h.findings

/-- Other calls are entered in the same way on both walks. -/
theorem enter (h : Shadows seen w v) (hw : Underway g markings entry w (c :: cs))
    (hseen : c.id ∉ seen) (e : Walk.enter g markings (w.take c) c = (w₁, .ok f)) :
    ∃ v₁ f', Walk.enter g markings (v.take c) c = (v₁, .ok f') ∧ f'.pending = f.pending ∧
      Shadows seen w₁ v₁ := by
  have htrail : ∀ d ∈ w.trail, d ∈ g.calls :=
    fun d hd => hw.path.mem_calls d (List.mem_reverse.2 hd)
  have hc : c ∈ g.calls := (CallGraph.mem_callsFrom.1 (hw.next c List.mem_cons_self)).1
  have haligned : Aligned id g w v := by
    refine ⟨?_, ?_, htrail, fun _ _ => live_of_attuned hw.attuned htrail⟩
    · rw [call_rename_id, List.map_id]
      exact h.place.1
    · intro group
      rw [Option.map_id]
      exact h.place.2 group
  obtain ⟨v₁, f', new, e', haligned₁, hpending, hnew, hnew'⟩ :=
    (haligned.take hc).enter_entered (.refl g) hc e
  rw [call_rename_id, List.map_id] at hpending
  rw [finding_rename_id, List.map_id] at hnew'
  have htrail₁ := haligned₁.trail
  rw [call_rename_id, List.map_id] at htrail₁
  have hescorts₁ := haligned₁.escorts
  simp only [Option.map_id, id_eq] at hescorts₁
  -- the call is not among the given ones, so what is found there is new
  have hkept : new.filter (Finding.isNew seen) = new := by
    obtain ⟨found, hfound, hat⟩ := (entered_of_enter e).found_at
    obtain rfl : new = found := List.append_cancel_left (hnew.symm.trans hfound)
    rcases hat with rfl | ⟨f₀, rfl, hlast⟩
    · rfl
    · simp [Finding.isNew, hlast, hseen]
  refine ⟨v₁, f', e', hpending, ⟨htrail₁, hescorts₁⟩, ?_, ?_⟩
  · have hfresh : w₁.fresh = w.fresh.erase c.id := (entered_of_enter e).fresh
    have hfresh' : v₁.fresh = v.fresh.erase c.id := (entered_of_enter e').fresh
    rw [hfresh, hfresh', h.fresh, List.erase_filter]
  · have hold : v.findings = w.findings.filter (Finding.isNew seen) := h.findings
    rw [hnew, hnew', List.filter_append, hkept]
    exact congrArg (· ++ new) hold

end Shadows

/-- What is followed to its end is followed to its end when calls of a closed set are passed
over. -/
theorem Follows.shadow (hclosed : g.Closed seen) {entry : Handle} {w w' v : Walk} {cs : List Call}
    (h : Follows g markings w cs (w', .ok ())) (hw : Underway g markings entry w cs)
    (hs : Shadows seen w v) : ∃ v', Follows g markings v cs (v', .ok ()) ∧ Shadows seen w' v' := by
  induction h using Follows.ok_induction generalizing v with
  | done w => exact ⟨v, .done v, hs⟩
  | skip stale _ ih =>
    obtain ⟨v', hrest, hs'⟩ := ih hw.tail hs
    exact ⟨v', .skip (fun hfresh => stale (hs.mem_fresh.1 hfresh).1) hrest, hs'⟩
  | @call w w₁ w₂ w₃ w' c cs f fresh e inner left rest ih ihrest =>
    have hcall : Follows g markings w [c] (w₃, .ok ()) := .call fresh e inner left (.done w₃)
    have hw₃ := hw.tail.samePlace hcall.samePlace
    by_cases hseen : c.id ∈ seen
    · -- the second walk stays where it is while the first one goes round among the given calls
      have hc := (CallGraph.mem_callsFrom.1 (hw.next c List.mem_cons_self)).1
      obtain ⟨v', hrest, hs'⟩ := ihrest hw₃ (hs.within hclosed hc hseen hcall)
      exact ⟨v', .skip (fun hfresh => (hs.mem_fresh.1 hfresh).2 hseen) hrest, hs'⟩
    · obtain ⟨v₁, f', e', hpending, hs₁⟩ := hs.enter hw hseen e
      obtain ⟨v₂, inner', hs₂⟩ := ih (hw.enter e) hs₁
      rw [← hpending] at inner'
      obtain ⟨v₃, left'⟩ := leave_entered e' inner'.samePlace
      have hfresh' : c.id ∈ v.fresh := hs.mem_fresh.2 ⟨fresh, hseen⟩
      have hcall' : Follows g markings v [c] (v₃, .ok ()) :=
        .call hfresh' e' inner' left' (.done v₃)
      have hs₃ : Shadows seen w₃ v₃ := by
        refine ⟨(hcall.samePlace.symm.trans hs.place).trans hcall'.samePlace, ?_, ?_⟩
        · rw [leave_ok_fresh left, leave_ok_fresh left']
          exact hs₂.fresh
        · rw [leave_findings left, leave_findings left']
          exact hs₂.findings
      obtain ⟨v', hrest, hs'⟩ := ihrest hw₃ hs₃
      exact ⟨v', .call hfresh' e' inner' left' hrest, hs'⟩

/-- Calls that are used up are reached from the entry point. -/
theorem Follows.reaches {entry : Handle} {w w' : Walk} {cs : List Call}
    (h : Follows g markings w cs (w', .ok ())) (hw : Underway g markings entry w cs) {d : Call}
    (hd : d ∈ g.calls) (hfresh : d.id ∈ w.fresh) (hstale : d.id ∉ w'.fresh) :
    g.Reaches entry d := by
  induction h using Follows.ok_induction with
  | done w => exact absurd hfresh hstale
  | skip _ _ ih => exact ih hw.tail hfresh hstale
  | @call w w₁ w₂ w₃ w' c cs f fresh e inner left rest ih ihrest =>
    have hc := (CallGraph.mem_callsFrom.1 (hw.next c List.mem_cons_self)).1
    have hcall : Follows g markings w [c] (w₃, .ok ()) := .call fresh e inner left (.done w₃)
    by_cases hid : d.id = c.id
    · obtain rfl := CallGraph.eq_of_id_eq hd hc hid
      obtain ⟨htrail, hpath⟩ := hw.path_enter e
      refine ⟨_, hpath, ?_⟩
      rw [htrail]
      exact List.getLast?_concat
    · have hfresh₁ : d.id ∈ w₁.fresh := by
        rw [(entered_of_enter e).fresh]
        exact (List.mem_erase_of_ne hid).2 hfresh
      by_cases hfresh₂ : d.id ∈ w₂.fresh
      · exact ihrest (hw.tail.samePlace hcall.samePlace) ((leave_ok_fresh left).symm ▸ hfresh₂)
          hstale
      · exact ih (hw.enter e) hfresh₁ hfresh₂

/-! ## Walks on their own -/

theorem underway_outset (fresh : List CallId) (entry : Handle) :
    Underway g markings entry (outset fresh) (g.callsFrom entry) :=
  ⟨trivial, fun _ hc => hc, fun _ => rfl⟩

/-- The walk from an entry point for which all calls are fresh. -/
def alone (g : CallGraph) (markings : MarkingSource) (entry : Handle) : Walk :=
  (explore g markings (outset (g.calls.map Call.id)) [] (g.callsFrom entry)).1

/-- The calls that are followed from an entry point when none has been followed before. -/
def explored (g : CallGraph) (markings : MarkingSource) (entry : Handle) : List CallId :=
  (g.calls.map Call.id).filter fun id => !(alone g markings entry).fresh.contains id

/-- The walk from an entry point, on its own, comes to its end and finds only audited calls. -/
structure Clean (g : CallGraph) (markings : MarkingSource) (entry : Handle) : Prop where
  named : ∃ name, g.nameOf entry = .ok name
  follows : Follows g markings (outset (g.calls.map Call.id)) (g.callsFrom entry)
    (alone g markings entry, .ok ())
  audited : ∀ f ∈ (alone g markings entry).findings, f.escort ≠ none

namespace Clean

variable {entry : Handle}

theorem mem_explored {id : CallId} (hid : id ∈ g.calls.map Call.id) :
    id ∈ explored g markings entry ↔ id ∉ (alone g markings entry).fresh := by
  simp [explored, List.mem_filter, hid]

/-- Where all calls are audited, walks go on below every call they follow. -/
theorem closed (h : Clean g markings entry) : g.Closed (explored g markings entry) := by
  intro c hc hid d hd
  obtain ⟨found, hfound, hsettled⟩ :=
    h.follows.settled g.nodup_calls_id fun c hc => (CallGraph.mem_callsFrom.1 hc).1
  have hids {c : Call} (hc : c ∈ g.calls) : c.id ∈ g.calls.map Call.id := List.mem_map_of_mem hc
  have hstale := (mem_explored (hids hc)).1 hid
  refine (mem_explored (hids (CallGraph.mem_callsFrom.1 hd).1)).2 ?_
  -- a walk does not go on only below a call that it finds unaudited
  rcases (hsettled c hc (hids hc) hstale).followed with ⟨f, hf, hescort, -⟩ | hnext
  · have hmem : f ∈ (alone g markings entry).findings := by
      rw [hfound]
      exact hf
    exact absurd hescort (h.audited f hmem)
  · exact hnext d hd

/-- Where all calls are audited, what is followed from an entry point is what it reaches. -/
theorem mem_explored_iff (h : Clean g markings entry) {c : Call} (hc : c ∈ g.calls) :
    c.id ∈ explored g markings entry ↔ g.Reaches entry c := by
  have hids {c : Call} (hc : c ∈ g.calls) : c.id ∈ g.calls.map Call.id := List.mem_map_of_mem hc
  constructor
  · intro hid
    exact h.follows.reaches (underway_outset _ entry) hc (hids hc) ((mem_explored (hids hc)).1 hid)
  · refine h.closed.reaches fun d hd => ?_
    have hd' := (CallGraph.mem_callsFrom.1 hd).1
    exact (mem_explored (hids hd')).2 (h.follows.stale g.nodup_calls_id d hd)

end Clean

end Walk

namespace Traversal

open Walk

variable {g : CallGraph} {markings : MarkingSource} {t t' : Traversal} {entry : Handle}
  {entries : List Handle} {seen : List CallId}

/-! ## Visits -/

/-- A visit of a node with a name succeeds if its calls can be followed. -/
theorem visit_of_follows (ht : t.trail = []) {name : Text} (hname : g.nameOf entry = .ok name)
    {w : Walk}
    (h : Follows g markings (outset (t.begin.start g).fresh) (g.callsFrom entry) (w, .ok ())) :
    t.visit g markings entry = (t.begin.finish (t.begin.start g).fresh (w.after t.findings),
      .ok ()) := by
  have hfollows := h.after t.findings
  rw [after_outset ht] at hfollows
  have htrail : w.trail = [] := h.samePlace.1
  unfold visit
  rw [hname]
  dsimp only
  rw [hfollows.explore_eq]
  simp [Walk.after, htrail]

/-- When visited calls count for one entry point, a visit is a walk on its own. -/
theorem visit_alone (hscope : t.scope = .entryPoint) (ht : t.trail = [])
    (h : t.visit g markings entry = (t', .ok ())) :
    Follows g markings (outset (g.calls.map Call.id)) (g.callsFrom entry)
        (alone g markings entry, .ok ()) ∧
      t'.findings = t.findings ++ (alone g markings entry).findings := by
  obtain ⟨w, hfollows, -, rfl⟩ := visit_ok h
  obtain ⟨w₀, hfollows₀, rfl⟩ := follows_outset ht hfollows
  have hall : (t.begin.start g).fresh = g.calls.map Call.id := by simp [start, begin, hscope]
  rw [hall] at hfollows₀
  have halone : alone g markings entry = w₀ := congrArg Prod.fst hfollows₀.explore_eq
  rw [halone]
  exact ⟨hfollows₀, rfl⟩

/-- When visited calls count for one entry point, a run records what each entry point has on its
own. -/
theorem recordings_entryPoint (hscope : t.scope = .entryPoint) (ht : t.trail = [])
    (h : t.visitAll g markings entries = (t', .ok ())) :
    t.recordings g markings entries = entries.map (fun e => (alone g markings e).findings) ∧
      ∀ e ∈ entries, (∃ name, g.nameOf e = .ok name) ∧
        Follows g markings (outset (g.calls.map Call.id)) (g.callsFrom e)
          (alone g markings e, .ok ()) := by
  induction entries generalizing t with
  | nil => exact ⟨rfl, fun _ he => absurd he List.not_mem_nil⟩
  | cons e rest ih =>
    rcases hv : t.visit g markings e with ⟨t₁, fault | ⟨⟩⟩
    · simp [visitAll, hv] at h
    · simp only [visitAll, hv] at h
      obtain ⟨hfollows, hfindings⟩ := visit_alone hscope ht hv
      have htrail : t₁.trail = [] := by
        obtain ⟨w, -, hw, rfl⟩ := visit_ok hv
        exact hw
      obtain ⟨hrest, hall⟩ := ih ((scope_visit hv).trans hscope) htrail h
      constructor
      · simp only [recordings, hv, List.map_cons]
        rw [hrest, hfindings, List.drop_left]
      · intro e' he'
        rcases List.mem_cons.1 he' with rfl | he'
        · refine ⟨?_, hfollows⟩
          rcases visit_cases hv with ⟨_, -, -, hr⟩ | ⟨name, _, _, hname, -⟩
          · simp at hr
          · exact ⟨name, hname⟩
        · exact hall e' he'

/-- When visited calls count for the whole run and are closed, a visit records what is new. -/
theorem visit_run (hscope : t.scope = .run) (ht : t.trail = [])
    (hfresh : (t.start g).fresh = (g.calls.map Call.id).filter fun id => !seen.contains id)
    (hclosed : g.Closed seen) (hentry : Clean g markings entry) :
    ∃ t', t.visit g markings entry = (t', .ok ()) ∧ t'.scope = .run ∧ t'.trail = [] ∧
      t'.findings = t.findings ++ (alone g markings entry).findings.filter (Finding.isNew seen) ∧
      (t'.start g).fresh = (g.calls.map Call.id).filter fun id =>
        !(seen ++ explored g markings entry).contains id := by
  have houtset : Shadows seen (outset (g.calls.map Call.id)) (outset (t.begin.start g).fresh) :=
    ⟨⟨rfl, fun _ => rfl⟩, (fresh_begin hscope).trans hfresh, rfl⟩
  obtain ⟨v, hfollows, hs⟩ :=
    hentry.follows.shadow hclosed (underway_outset _ entry) houtset
  obtain ⟨name, hname⟩ := hentry.named
  refine ⟨_, visit_of_follows ht hname hfollows, hscope, hfollows.samePlace.1, ?_, ?_⟩
  · show t.findings ++ v.findings = _
    rw [hs.findings]
  · have hfresh' : ((t.begin.finish (t.begin.start g).fresh (v.after t.findings)).start g).fresh =
        v.fresh := by
      rw [start_finish (w := v.after t.findings) hfollows.fresh_sublist]
      rfl
    rw [hfresh']
    -- fresh in the end are the calls that are neither visited before nor followed now
    rw [hs.fresh, ← filter_mem_of_sublist hentry.follows.fresh_sublist g.nodup_calls_id,
      List.filter_filter]
    refine List.filter_congr fun id hid => ?_
    rw [Bool.eq_iff_iff]
    simp [Clean.mem_explored hid]

/-- What a run whose visited calls count for the whole run records: for each entry point what is
found from there at calls that no entry point before it has explored. -/
theorem recordings_run (hscope : t.scope = .run) (ht : t.trail = [])
    (hfresh : (t.start g).fresh = (g.calls.map Call.id).filter fun id => !seen.contains id)
    (hclosed : g.Closed seen) (hentries : ∀ e ∈ entries, Clean g markings e) :
    ∃ t', t.visitAll g markings entries = (t', .ok ()) ∧
      t.recordings g markings entries =
        (entries.map fun e => (alone g markings e).findings).mapIdx fun i found =>
          found.filter (Finding.isNew (seen ++
            (entries.take i).flatMap (explored g markings))) := by
  induction entries generalizing t seen with
  | nil => exact ⟨t, rfl, rfl⟩
  | cons e rest ih =>
    have he := hentries e List.mem_cons_self
    obtain ⟨t₁, hv, hscope₁, ht₁, hfindings, hfresh₁⟩ := visit_run hscope ht hfresh hclosed he
    obtain ⟨t', hall, hrest⟩ := ih hscope₁ ht₁ hfresh₁ (hclosed.append he.closed)
      fun e' he' => hentries e' (List.mem_cons_of_mem e he')
    refine ⟨t', by simpa only [visitAll, hv] using hall, ?_⟩
    simp only [recordings, hv]
    rw [hrest, hfindings, List.drop_left, List.map_cons, List.mapIdx_cons]
    simp only [List.take_zero, List.flatMap_nil, List.append_nil, List.take_succ_cons,
      List.flatMap_cons, List.append_assoc]

/-! ## Reports -/

theorem report_unaudited_eq_nil {names : List Text} :
    (t.report names).unaudited = [] ↔ ∀ f ∈ t.findings, f.escort ≠ none := by
  simp [report]

/-- If a run whose visited calls count for one entry point reports only audited calls, the walk from
each entry point is clean. -/
theorem clean_of_unaudited_eq_nil {names : List Text}
    (h : visitAll g markings { scope := .entryPoint } entries = (t', .ok ()))
    (haudited : (t'.report names).unaudited = []) : ∀ e ∈ entries, Clean g markings e := by
  intro e he
  obtain ⟨hrecordings, hall⟩ := recordings_entryPoint rfl rfl h
  obtain ⟨hname, hfollows⟩ := hall e he
  refine ⟨hname, hfollows, fun f hf => report_unaudited_eq_nil.1 haudited f ?_⟩
  have hfindings := findings_visitAll g markings { scope := .entryPoint } entries
  rw [h, hrecordings] at hfindings
  rw [show t'.findings = _ from hfindings]
  exact List.mem_append_right _ (List.mem_flatten_of_mem (List.mem_map_of_mem he) hf)

/-- When visited calls count for the whole run and all findings are audited, every call to a
function that requires an audit that an entry point reaches has exactly one finding. -/
theorem count_lastId_visitAll (h : visitAll g markings { scope := .run } entries = (t', .ok ()))
    (haudited : ∀ f ∈ t'.findings, f.escort ≠ none) {c : Call} (he : entry ∈ entries)
    (hreach : g.Reaches entry c) (hrequired : g.groupRequiredBy markings c.target ≠ none) :
    (t'.findings.map Finding.lastId).count (some c.id) = 1 := by
  have honce :
      ((visitAll g markings { scope := .run } entries).1.findings.map Finding.lastId).Nodup :=
    (once_visitAll rfl (.nil _ _) entries).nodup
  rw [h] at honce
  refine List.count_eq_one_of_mem honce ?_
  obtain ⟨calls, hpath, hlast⟩ := hreach
  obtain ⟨hcovered, -, hfrom⟩ := covered_visitAll rfl (covered_empty .run) h
  obtain ⟨f, hf, hat | ⟨hnone, -⟩⟩ :=
    finding_of_path hcovered (hfrom entry he) hpath hlast hrequired
  · refine List.mem_map.2 ⟨f, hf, ?_⟩
    rw [Finding.lastId, hat, Option.map_some]
  · exact absurd hnone (haudited f hf)

/-- **Counting visited calls for the whole run only removes repetitions.** An audit over nodes of a
graph whose nodes have names, whose visited calls count for one entry point, ends with a report. If
the report lists nothing as unaudited, then the audit whose visited calls count for the whole run

* ends with a report on the same entry points, with nothing unaudited;
* lists the same audited findings, without those whose last call was explored from an entry point
  that comes before theirs; explored from an entry point are the calls that it reaches;
* has exactly one finding for each call that some entry point reaches and that calls a function that
  requires an audit. -/
theorem run_scope_deduplicates (g : CallGraph) (markings : MarkingSource) (entries : List Handle) :
    (g.Named → (∀ e ∈ entries, e ∈ g.handles) →
      ∃ report, g.audit markings .entryPoint entries = .ok report) ∧
    ∀ report, g.audit markings .entryPoint entries = .ok report → report.unaudited = [] →
      ∃ report', g.audit markings .run entries = .ok report' ∧
        report'.entryPoints = report.entryPoints ∧ report'.unaudited = [] ∧
        report.audited = (recordings g markings { scope := .entryPoint } entries).flatten.filterMap
          (fun f => f.escort.map fun escort => { escort, path := f.path }) ∧
        report'.audited =
          ((recordings g markings { scope := .entryPoint } entries).mapIdx fun i found =>
            found.filter (Finding.isNew ((entries.take i).flatMap
              (explored g markings)))).flatten.filterMap
          (fun f => f.escort.map fun escort => { escort, path := f.path }) ∧
        (∀ e ∈ entries, ∀ c ∈ g.calls, c.id ∈ explored g markings e ↔ g.Reaches e c) ∧
        ∀ e ∈ entries, ∀ c, g.Reaches e c → g.groupRequiredBy markings c.target ≠ none →
          ((run g markings { scope := .run } entries).1.findings.map Finding.lastId).count
            (some c.id) = 1 := by
  refine ⟨fun hg hentries => run_named hg markings rfl hentries, ?_⟩
  intro report hreport haudited
  obtain ⟨t₁, names, hall₁, -, hnames, rfl⟩ := run_ok hreport
  have hclean := clean_of_unaudited_eq_nil hall₁ haudited
  have hrecordings₁ := (recordings_entryPoint rfl rfl hall₁).1
  have hclosed : g.Closed [] := fun _ _ hid => absurd hid List.not_mem_nil
  obtain ⟨t₂, hall₂, hrecordings₂⟩ :=
    recordings_run (t := { scope := .run }) rfl rfl rfl hclosed hclean
  simp only [List.nil_append] at hrecordings₂
  -- both reports list what their runs record
  have hfindings₁ := findings_visitAll g markings { scope := .entryPoint } entries
  have hfindings₂ := findings_visitAll g markings { scope := .run } entries
  rw [hall₁] at hfindings₁
  rw [hall₂, hrecordings₂, ← hrecordings₁] at hfindings₂
  have haudited₂ : ∀ f ∈ t₂.findings, f.escort ≠ none := by
    intro f hf
    rw [show t₂.findings = _ from hfindings₂] at hf
    refine report_unaudited_eq_nil.1 haudited f ?_
    rw [show t₁.findings = _ from hfindings₁]
    obtain ⟨found, hfound, hf⟩ := List.mem_flatten.1 hf
    obtain ⟨i, hi, rfl⟩ := List.mem_mapIdx.1 hfound
    exact List.mem_flatten_of_mem (List.getElem_mem hi) (List.mem_filter.1 hf).1
  have hrun : run g markings { scope := .run } entries = (t₂, .ok (t₂.report names)) := by
    simp only [run, hall₂, hnames]
  refine ⟨t₂.report names, congrArg Prod.snd hrun, rfl, report_unaudited_eq_nil.2 haudited₂,
    congrArg (List.filterMap _) hfindings₁, congrArg (List.filterMap _) hfindings₂,
    fun e he c hc => (hclean e he).mem_explored_iff hc, ?_⟩
  intro e he c hreach hrequired
  rw [hrun]
  exact count_lastId_visitAll hall₂ haudited₂ he hreach hrequired

/-- The functions `a` and `b` call `o`, and `b` then calls `q`; both `o` and `q` call `u`. -/
def overlap : CallGraph :=
  (CallGraph.ofRecords
    [(['a'], [{ callee := ['o'], location := { file := [], line := 1 } }]),
      (['b'], [{ callee := ['o'], location := { file := [], line := 2 } },
        { callee := ['q'], location := { file := [], line := 3 } }]),
      (['o', '<', '>'], [{ callee := ['u'], location := { file := [], line := 4 } }]),
      (['q', '<', '>'], [{ callee := ['u'], location := { file := [], line := 5 } }])]).graph

/-- `o` and `q` escort the group for which `u` requires an audit. -/
def overlapMarkings : MarkingSource := fun name =>
  ([(['o'], { audited := some ['c'] }), (['q'], { audited := some ['c'] }),
    (['u'], { requiresAudit := some ['c'] })] : List (Text × Marking)).lookup name

/-- The call of `u` in `o` is found from `a` and from `b`, but only from `a` when visited calls
count for the whole run. -/
theorem run_scope_deduplicates_overlap :
    overlap.Named ∧
      ∃ report report', overlap.audit overlapMarkings .entryPoint [0, 2] = .ok report ∧
        report.unaudited = [] ∧ report.audited.length = 3 ∧
        overlap.audit overlapMarkings .run [0, 2] = .ok report' ∧
        report'.entryPoints = report.entryPoints ∧ report'.unaudited = [] ∧
        report'.audited = report.audited.eraseIdx 1 := by
  have hnamed : overlap.Named := CallGraph.named_ofRecords _
  obtain ⟨hends, hdedup⟩ := run_scope_deduplicates overlap overlapMarkings [0, 2]
  obtain ⟨report, hreport⟩ := hends hnamed (by decide +kernel)
  have hclean : (overlap.audit overlapMarkings .entryPoint [0, 2]).map
      (fun r => (r.unaudited, r.audited.length)) = .ok ([], 3) := by cbv
  rw [hreport] at hclean
  obtain ⟨hunaudited, hlength⟩ := Prod.mk.inj (Except.ok.inj hclean)
  obtain ⟨report', hreport', hnames, hunaudited', haudited, haudited', -⟩ :=
    hdedup report hreport hunaudited
  refine ⟨hnamed, report, report', hreport, hunaudited, hlength, hreport', hnames, hunaudited', ?_⟩
  rw [haudited, haudited']
  cbv

end Traversal

end CallAudit
