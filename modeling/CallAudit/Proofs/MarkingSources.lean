import CallAudit.Proofs.ReadValues
import CallAudit.Proofs.Totality

/-!
# What an audit asks for

Entry points are chosen by the markings of the definitions behind the nodes, and a walk asks for
these only. So two sources of markings that agree on them give the same entry points and the same
report (`CallGraph.entriesAmong_congr`, `CallGraph.audit_congr`). The names of nodes are names of
the call records (`CallGraph.mem_namesIn_of_surviving`); if these consist of scalar values, so do
the names of the definitions.
-/

namespace CallAudit

variable {g : CallGraph} {markings markings' : MarkingSource}

/-- Two sources say the same of the definitions behind the nodes of a graph. -/
def CallGraph.Agree (g : CallGraph) (markings markings' : MarkingSource) : Prop :=
  ∀ h name, g.nameOf h = .ok name → markings' (definitionName name) = markings (definitionName name)

/-! ## Walks -/

namespace Walk

/-- The marking of a node is the same from sources that agree on the graph. -/
theorem markingOf_congr (hagree : g.Agree markings markings') (h : Handle) :
    markingOf g markings' h = markingOf g markings h := by
  unfold markingOf
  cases hname : g.nameOf h with
  | error fault => rfl
  | ok name => exact congrArg Except.ok (hagree h name hname)

/-- Entering a call does the same with sources that agree on the graph. -/
theorem enter_congr (hagree : g.Agree markings markings') (w : Walk) (c : Call) :
    enter g markings' w c = enter g markings w c := by
  simp only [enter, markingOf_congr hagree]

/-- A walk goes the same way with both sources. -/
theorem Follows.congr {w : Walk} {cs : List Call} {r : Walk × Except AuditFault Unit}
    (h : Follows g markings w cs r) (hagree : g.Agree markings markings') :
    Follows g markings' w cs r := by
  have henter {w : Walk} {c : Call} {r : Walk × Except GraphFault Frame}
      (e : enter g markings w c = r) :
      enter g markings' w c = r := (enter_congr hagree w c).trans e
  induction h with
  | done w => exact .done w
  | skip stale _ ih => exact .skip stale ih
  | refused fresh entered => exact .refused fresh (henter entered)
  | interrupted fresh entered _ ih => exact .interrupted fresh (henter entered) ih
  | astray fresh entered _ left ih => exact .astray fresh (henter entered) ih left
  | call fresh entered _ left _ ih ihrest => exact .call fresh (henter entered) ih left ihrest

end Walk

namespace Traversal

theorem visit_congr (hagree : g.Agree markings markings') (t : Traversal) (entry : Handle) :
    t.visit g markings' entry = t.visit g markings entry := by
  have hexplore (w : Walk) (roots : List Call) :
      Walk.explore g markings' w [] roots = Walk.explore g markings w [] roots :=
    ((Walk.explore_follows g markings w roots).congr hagree).explore_eq
  simp only [visit, hexplore]

theorem visitAll_congr (hagree : g.Agree markings markings') (t : Traversal)
    (entries : List Handle) : visitAll g markings' t entries = visitAll g markings t entries := by
  induction entries generalizing t with
  | nil => rfl
  | cons entry rest ih => simp only [visitAll, visit_congr hagree, ih]

end Traversal

namespace CallGraph

/-- Sources that agree on a graph give the same report. -/
theorem audit_congr (hagree : g.Agree markings markings') (scope : VisitScope)
    (entries : List Handle) : g.audit markings' scope entries = g.audit markings scope entries := by
  simp only [audit, Traversal.run, Traversal.visitAll_congr hagree]

/-! ## Entry points -/

/-- They give the same entry points. -/
theorem entriesAmong_congr (hagree : g.Agree markings markings') {nodes : List (Handle × Text)}
    (h : g.named = .ok nodes) : entriesAmong markings' nodes = entriesAmong markings nodes := by
  have hentry : ∀ node ∈ nodes, isEntry markings' node.2 = isEntry markings node.2 := by
    intro node hnode
    rw [isEntry, isEntry, hagree node.1 node.2 ((mem_named h).1 hnode)]
  unfold entriesAmong
  rw [List.filter_congr hentry]

/-! ## The names of nodes -/

variable {records : List (Text × List CallEdge)} {pruned : PruneResult}

/-- The nodes that are left of call records are those that are not engulfed, with their names. -/
theorem nameOf_surviving (h : surviving records = .ok (pruned, g)) (k : Handle) (name : Text) :
    g.nameOf k = .ok name ↔ (ofRecords records).graph.nameOf k = .ok name ∧
      ¬ (ofRecords records).graph.Engulfed (ofRecords records).roots k := by
  obtain ⟨_, read, -, -, -, rfl⟩ := prune_ok h
  constructor
  · intro hname
    have hspared := (mem_handles_withoutMarked.1 (mem_handles_of_nameOf hname)).2
    rw [nameOf_withoutMarked _ _ _ hspared] at hname
    exact ⟨hname, hspared⟩
  · rintro ⟨hname, hspared⟩
    rw [nameOf_withoutMarked _ _ _ hspared]
    exact hname

/-- The nodes that are left by a pruning have names of the records. -/
theorem mem_namesIn_of_surviving (h : surviving records = .ok (pruned, g)) {k : Handle}
    {name : Text} (hname : g.nameOf k = .ok name) : name ∈ namesIn records :=
  ((built_ofRecords records).nameOf_eq_ok.1 ((nameOf_surviving h k name).1 hname).1).1

end CallGraph

/-! ## Names of scalar values -/

namespace Text

theorem isScalar_singleton {c : CodePoint} (h : c.isSurrogate = false) : isScalar [c] = true := by
  rw [isScalar_cons, h]
  rfl

/-- The definition behind a name of scalar values has such a name. -/
theorem isScalar_definitionName {name : Text} (h : isScalar name = true) :
    isScalar (definitionName name) = true :=
  List.all_eq_true.2 fun c hc => List.all_eq_true.1 h c ((List.takeWhile_sublist _).subset hc)

/-- Bytes are quoted in scalar values. -/
theorem isScalar_quotedBytes (bs : List UInt8) : isScalar (quotedBytes bs) = true := by
  have hbyte (b : UInt8) : (CodePoint.ofNat b.toNat).isSurrogate = false := by
    have hlt := b.toNat_lt
    have hval : (CodePoint.ofNat b.toNat).val = b.toNat := CodePoint.val_ofNat (by omega)
    exact isSurrogate_of_lt (by omega)
  have hquote (t : Text) : (quoteFor t).isSurrogate = false := by
    unfold quoteFor
    split <;> exact isSurrogate_ofChar _
  have hquoted (q : CodePoint) (b : UInt8) : isScalar (quotedByte q b) = true := by
    simp only [quotedByte]
    split
    · rw [isScalar_cons, isSurrogate_ofChar, isScalar_singleton (hbyte b)]
      rfl
    · split
      · exact isScalar_ofString _
      · split
        · exact isScalar_ofString _
        · split
          · exact isScalar_ofString _
          · split
            · exact isScalar_singleton (hbyte b)
            · rw [isScalar_append, isScalar_ofString, Json.isScalar_hex]
              rfl
  simp [quotedBytes, isScalar_cons, isScalar_append, isScalar_flatMap, isSurrogate_ofChar, hquote,
    hquoted, isScalar_singleton (hquote _)]

end Text

/-- A key that can be read has an encoding. -/
theorem TableKey.isScalar_of_read {key : TableKey} {t : Text} (h : key.read = .ok t) :
    Text.isScalar t = true := by
  cases key with
  | textual bytes =>
    rw [read] at h
    cases hdecode : Utf8.decode bytes with
    | error fault => simp [hdecode, Except.mapError] at h
    | ok decoded =>
      simp only [hdecode, Except.mapError, Except.ok.injEq] at h
      exact h ▸ (Utf8.encode_eq_ok.1 (Utf8.decode_eq_ok.1 hdecode)).1
  | blob bytes =>
    rw [← Except.ok.inj h]
    exact Text.isScalar_quotedBytes bytes

/-- The name of a callee that was read consists of scalar values. -/
theorem CallEdge.Legible.isScalar_calleeName {e : CallEdge} (h : e.Legible Json.storedDialect) :
    Text.isScalar e.calleeName = true := by
  have hscalar {t : Text} (ht : Json.Allows Json.storedDialect t) : Text.isScalar t = true :=
    ht.resolve_left Bool.false_ne_true
  have hone (c : Char) : Text.isScalar [CodePoint.ofChar c] = true :=
    Text.isScalar_singleton (Text.isSurrogate_ofChar c)
  have hparams :
      e.typeParams.all (fun t => Text.isScalar (t ++ [CodePoint.ofChar ','])) = true := by
    refine List.all_eq_true.2 fun t ht => ?_
    rw [Text.isScalar_append, hscalar (h.typeParams t ht), hone]
    rfl
  unfold calleeName
  split
  · exact hscalar h.callee
  · rw [Text.isScalar_append, Text.isScalar_cons, Text.isScalar_append, Text.isScalar_flatMap,
      hscalar h.callee, openBracket, Text.isSurrogate_ofChar, hparams, hone]
    rfl

end CallAudit
