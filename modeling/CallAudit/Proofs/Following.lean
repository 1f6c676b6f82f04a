import CallAudit.Audit.Traversal
import Mathlib.Tactic

/-!
# Following calls, by nesting

The walk keeps a stack of frames. Seen from outside, it follows a list of calls one after the other,
and what happens between entering a call and leaving it is again the following of a list of calls.
`Walk.Follows` states this nesting as an inductive relation, and `Walk.explore_follows` shows that
every walk obeys it. Facts about walks are then proved by rule induction, without the stack.
-/

namespace CallAudit.Walk

variable {g : CallGraph} {markings : MarkingSource}

/-- From the given walk, following the given calls in turn has the given outcome. -/
inductive Follows (g : CallGraph) (markings : MarkingSource) :
    Walk → List Call → Walk × Except AuditFault Unit → Prop
  /-- No call is left. -/
  | done (w : Walk) : Follows g markings w [] (w, .ok ())
  /-- A call that has been followed before is passed over. -/
  | skip {w : Walk} {c : Call} {cs : List Call} {r : Walk × Except AuditFault Unit}
      (stale : c.id ∉ w.fresh) (rest : Follows g markings w cs r) : Follows g markings w (c :: cs) r
  /-- A call cannot be entered. -/
  | refused {w w' : Walk} {c : Call} {cs : List Call} {fault : GraphFault}
      (fresh : c.id ∈ w.fresh) (entered : enter g markings (w.take c) c = (w', .error fault)) :
      Follows g markings w (c :: cs) (w', .error (.graph fault))
  /-- The calls of the callee are not followed to their end. -/
  | interrupted {w w₁ w' : Walk} {c : Call} {cs : List Call} {f : Frame} {fault : AuditFault}
      (fresh : c.id ∈ w.fresh) (entered : enter g markings (w.take c) c = (w₁, .ok f))
      (inner : Follows g markings w₁ f.pending (w', .error fault)) :
      Follows g markings w (c :: cs) (w', .error fault)
  /-- A call cannot be left. -/
  | astray {w w₁ w₂ w' : Walk} {c : Call} {cs : List Call} {f : Frame} {fault : AuditFault}
      (fresh : c.id ∈ w.fresh) (entered : enter g markings (w.take c) c = (w₁, .ok f))
      (inner : Follows g markings w₁ f.pending (w₂, .ok ()))
      (left : w₂.leave f = (w', .error fault)) :
      Follows g markings w (c :: cs) (w', .error fault)
  /-- A call is entered, the calls of its callee are followed, and it is left. -/
  | call {w w₁ w₂ w₃ : Walk} {c : Call} {cs : List Call} {f : Frame}
      {r : Walk × Except AuditFault Unit}
      (fresh : c.id ∈ w.fresh) (entered : enter g markings (w.take c) c = (w₁, .ok f))
      (inner : Follows g markings w₁ f.pending (w₂, .ok ()))
      (left : w₂.leave f = (w₃, .ok ())) (rest : Follows g markings w₃ cs r) :
      Follows g markings w (c :: cs) r

/-! ## Unfolding a walk -/

theorem explore_nil_nil (w : Walk) : explore g markings w [] [] = (w, .ok ()) := by
  rw [explore]

/-- A root that was taken before is passed over. -/
theorem explore_nil_stale {w : Walk} {c : Call} {roots : List Call} (h : c.id ∉ w.fresh) :
    explore g markings w [] (c :: roots) = explore g markings w [] roots := by
  rw [explore, dif_neg h]

/-- A walk fails at a root that cannot be entered. -/
theorem explore_nil_refused {w w' : Walk} {c : Call} {roots : List Call} {fault : GraphFault}
    (h : c.id ∈ w.fresh) (e : enter g markings (w.take c) c = (w', .error fault)) :
    explore g markings w [] (c :: roots) = (w', .error (.graph fault)) := by
  rw [explore, dif_pos h]
  split <;> simp_all

/-- A root that is entered opens a frame. -/
theorem explore_nil_entered {w w' : Walk} {c : Call} {roots : List Call} {f : Frame}
    (h : c.id ∈ w.fresh) (e : enter g markings (w.take c) c = (w', .ok f)) :
    explore g markings w [] (c :: roots) = explore g markings w' [f] roots := by
  rw [explore, dif_pos h]
  split <;> simp_all

/-- What becomes of a walk once the calls of its innermost frame are followed. -/
def resume (g : CallGraph) (markings : MarkingSource) (f : Frame) (outer : List Frame)
    (roots : List Call) : Walk × Except AuditFault Unit → Walk × Except AuditFault Unit
  | (w, .error fault) => (w, .error fault)
  | (w, .ok ()) =>
    match w.leave f with
    | (w', .error fault) => (w', .error fault)
    | (w', .ok ()) => explore g markings w' outer roots

/-- A frame with no call left is closed. -/
theorem explore_cons_done {w : Walk} {f : Frame} {outer : List Frame} {roots : List Call}
    (hp : f.pending = []) :
    explore g markings w (f :: outer) roots = resume g markings f outer roots (w, .ok ()) := by
  obtain ⟨call, saved, pending⟩ := f
  obtain rfl : pending = [] := hp
  rw [explore]
  dsimp only
  split
  · next hl => simp only [resume, hl]
  · next hl => simp only [resume, hl]

/-- A call that was taken before is passed over. -/
theorem explore_cons_stale {w : Walk} {call c : Call} {saved : Option (Text × Option Handle)}
    {pending : List Call} {outer : List Frame} {roots : List Call} (h : c.id ∉ w.fresh) :
    explore g markings w ({ call, saved, pending := c :: pending } :: outer) roots =
      explore g markings w ({ call, saved, pending } :: outer) roots := by
  rw [explore]
  simp only [dif_neg h]

/-- A walk fails at a call that cannot be entered. -/
theorem explore_cons_refused {w w' : Walk} {call c : Call} {saved : Option (Text × Option Handle)}
    {pending : List Call} {outer : List Frame} {roots : List Call} {fault : GraphFault}
    (h : c.id ∈ w.fresh) (e : enter g markings (w.take c) c = (w', .error fault)) :
    explore g markings w ({ call, saved, pending := c :: pending } :: outer) roots =
      (w', .error (.graph fault)) := by
  rw [explore]
  simp only [dif_pos h]
  split <;> simp_all

/-- A call that is entered opens a frame on top. -/
theorem explore_cons_entered {w w' : Walk} {call c : Call} {saved : Option (Text × Option Handle)}
    {pending : List Call} {outer : List Frame} {roots : List Call} {f : Frame}
    (h : c.id ∈ w.fresh) (e : enter g markings (w.take c) c = (w', .ok f)) :
    explore g markings w ({ call, saved, pending := c :: pending } :: outer) roots =
      explore g markings w' (f :: { call, saved, pending } :: outer) roots := by
  rw [explore]
  simp only [dif_pos h]
  split <;> simp_all

/-! ## Every walk obeys the relation -/

/-- Entering a call makes no call fresh again. -/
theorem fresh_sublist_of_enter {w w' : Walk} {c : Call} {r : Except GraphFault Frame}
    (e : enter g markings (w.take c) c = (w', r)) : w'.fresh.Sublist w.fresh := by
  have hf := enter_fresh g markings (w.take c) c
  rw [e, take_fresh] at hf
  rw [show w'.fresh = w.fresh.erase c.id from hf]
  exact List.erase_sublist

/-- Following calls makes no call fresh again. -/
theorem Follows.fresh_sublist {w : Walk} {cs : List Call} {r : Walk × Except AuditFault Unit}
    (h : Follows g markings w cs r) : r.1.fresh.Sublist w.fresh := by
  induction h with
  | done w => exact List.Sublist.refl _
  | skip _ _ ih => exact ih
  | refused _ entered => exact fresh_sublist_of_enter entered
  | interrupted _ entered _ ih => exact ih.trans (fresh_sublist_of_enter entered)
  | astray _ entered _ left ih =>
    rw [leave_ok_fresh left]
    exact ih.trans (fresh_sublist_of_enter entered)
  | call _ entered _ left _ ih ihrest =>
    rw [leave_ok_fresh left] at ihrest
    exact ihrest.trans (ih.trans (fresh_sublist_of_enter entered))

/-- Induction over calls that are followed to their end: none of them is refused, interrupted or
astray. -/
@[elab_as_elim]
theorem Follows.ok_induction
    {motive : ∀ (w : Walk) (cs : List Call) (w' : Walk),
    Follows g markings w cs (w', .ok ()) → Prop} (done : ∀ w, motive w [] w (.done w))
    (skip : ∀ {w w' : Walk} {c : Call} {cs : List Call} (stale : c.id ∉ w.fresh)
      (rest : Follows g markings w cs (w', .ok ())),
      motive w cs w' rest → motive w (c :: cs) w' (.skip stale rest))
    (call : ∀ {w w₁ w₂ w₃ w' : Walk} {c : Call} {cs : List Call} {f : Frame}
      (fresh : c.id ∈ w.fresh)
      (entered : enter g markings (w.take c) c = (w₁, .ok f))
      (inner : Follows g markings w₁ f.pending (w₂, .ok ())) (left : w₂.leave f = (w₃, .ok ()))
      (rest : Follows g markings w₃ cs (w', .ok ())),
      motive w₁ f.pending w₂ inner → motive w₃ cs w' rest →
        motive w (c :: cs) w' (.call fresh entered inner left rest))
    {w : Walk} {cs : List Call} {w' : Walk} (h : Follows g markings w cs (w', .ok ())) :
    motive w cs w' h := by
  -- a copy of `h` is taken apart, since the motive is about `h`
  have hcopy := h
  generalize hr : (w', Except.ok ()) = r at hcopy
  induction hcopy generalizing w' with
  | done w =>
    obtain ⟨rfl, -⟩ := Prod.mk.inj hr
    exact done w'
  | skip stale rest ih =>
    subst hr
    exact skip stale rest (ih rest rfl)
  | refused => simp at hr
  | interrupted => simp at hr
  | astray => simp at hr
  | call fresh entered inner left rest ih ihrest =>
    subst hr
    exact call fresh entered inner left rest (ih inner rfl) (ihrest rest rfl)

/-- Following calls has an outcome. -/
theorem exists_follows (g : CallGraph) (markings : MarkingSource) (w : Walk) (cs : List Call) :
    ∃ r, Follows g markings w cs r := by
  -- entering a call uses up a fresh one, so the calls of its callee come under the outer induction
  induction hn : w.fresh.length using Nat.strong_induction_on generalizing w cs with
  | _ n ihn =>
  -- among walks with no more fresh calls than that, by the calls that are left to follow
  have hrest (cs : List Call) (w : Walk) (hw : w.fresh.length ≤ n) :
      ∃ r, Follows g markings w cs r := by
    induction cs generalizing w with
    | nil => exact ⟨_, .done w⟩
    | cons c cs ih =>
      by_cases fresh : c.id ∈ w.fresh
      · rcases entered : enter g markings (w.take c) c with ⟨w₁, fault | f⟩
        · exact ⟨_, .refused fresh entered⟩
        · have hlt : w₁.fresh.length < n := (enter_take_length entered fresh).trans_le hw
          obtain ⟨⟨w₂, fault | ⟨⟩⟩, inner⟩ := ihn _ hlt w₁ f.pending rfl
          · exact ⟨_, .interrupted fresh entered inner⟩
          · have hle : w₂.fresh.length ≤ n := inner.fresh_sublist.length_le.trans hlt.le
            rcases left : w₂.leave f with ⟨w₃, fault | ⟨⟩⟩
            · exact ⟨_, .astray fresh entered inner left⟩
            · obtain ⟨r, rest⟩ := ih w₃ (by rwa [leave_ok_fresh left])
              exact ⟨r, .call fresh entered inner left rest⟩
      · obtain ⟨r, rest⟩ := ih w hw
        exact ⟨r, .skip fresh rest⟩
  exact hrest cs w hn.le

/-- The calls of the innermost frame are followed before anything else happens. -/
theorem Follows.explore_frame {w : Walk} {pending : List Call} {r : Walk × Except AuditFault Unit}
    (h : Follows g markings w pending r) (call : Call) (saved : Option (Text × Option Handle))
    (outer : List Frame) (roots : List Call) :
    explore g markings w ({ call, saved, pending } :: outer) roots =
      resume g markings { call, saved, pending } outer roots r := by
  -- for all frames, as the calls of a callee are followed in a frame of their own on top of this
  -- one
  induction h generalizing call saved outer with
  | done w => exact explore_cons_done rfl
  | skip stale _ ih => exact (explore_cons_stale stale).trans (ih call saved outer)
  | refused fresh entered => exact explore_cons_refused fresh entered
  | interrupted fresh entered _ ih =>
    rw [explore_cons_entered fresh entered]
    exact ih _ _ _
  | astray fresh entered _ left ih =>
    rw [explore_cons_entered fresh entered]
    refine (ih _ _ _).trans ?_
    simp only [resume, left]
  | call fresh entered _ left _ ih ihrest =>
    rw [explore_cons_entered fresh entered]
    refine (ih _ _ _).trans ?_
    simp only [resume, left]
    exact ihrest _ _ _

/-- The outcome of following calls from an entry point is that of the walk. -/
theorem Follows.explore_eq {w : Walk} {roots : List Call} {r : Walk × Except AuditFault Unit}
    (h : Follows g markings w roots r) : explore g markings w [] roots = r := by
  induction h with
  | done w => exact explore_nil_nil w
  | skip stale _ ih => exact (explore_nil_stale stale).trans ih
  | refused fresh entered => exact explore_nil_refused fresh entered
  | interrupted fresh entered inner _ =>
    rw [explore_nil_entered fresh entered]
    exact inner.explore_frame _ _ _ _
  | astray fresh entered inner left _ =>
    rw [explore_nil_entered fresh entered]
    refine (inner.explore_frame _ _ _ _).trans ?_
    simp only [resume, left]
  | call fresh entered inner left _ _ ihrest =>
    rw [explore_nil_entered fresh entered]
    refine (inner.explore_frame _ _ _ _).trans ?_
    simp only [resume, left]
    exact ihrest

/-- A walk from an entry point follows the calls of the entry point in turn. -/
theorem explore_follows (g : CallGraph) (markings : MarkingSource) (w : Walk) (roots : List Call) :
    Follows g markings w roots (explore g markings w [] roots) := by
  obtain ⟨r, h⟩ := exists_follows g markings w roots
  rw [h.explore_eq]
  exact h

/-- Following calls has one outcome only. -/
theorem Follows.unique {w : Walk} {cs : List Call} {r r' : Walk × Except AuditFault Unit}
    (h : Follows g markings w cs r) (h' : Follows g markings w cs r') : r = r' :=
  h.explore_eq.symm.trans h'.explore_eq

end CallAudit.Walk
