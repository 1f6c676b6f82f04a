import CallAudit.Proofs.Drawings
import CallAudit.Proofs.RecordGraphs

/-!
# Names of instantiations

A call is named by its callee and its type arguments. The definition behind the name is that of the
callee, whatever the arguments are, since the first opening bracket comes after the callee or
belongs to it (`CallEdge.definitionName_calleeName`). Each argument ends with a comma, and the
bracket in the end is none; so the arguments are read off from the left, brackets and empty
arguments included (`flatMap_concat_inj`). Two calls share a name, and thereby a node, only if they
call the same instantiation (`CallEdge.calleeName_is_precise`).
-/

namespace CallAudit

/-- Parts of which each is followed by a separator are read off from the left, up to a rest without
one. -/
theorem flatMap_concat_inj {α : Type} {x : α} {parts parts' : List (List α)} {s s' : List α}
    (h : ∀ l ∈ parts, x ∉ l) (h' : ∀ l ∈ parts', x ∉ l) (hs : x ∉ s) (hs' : x ∉ s') :
    parts.flatMap (· ++ [x]) ++ s = parts'.flatMap (· ++ [x]) ++ s' ↔ parts = parts' ∧ s = s' := by
  -- a part leaves a separator behind, which the rest of the other side does not have
  have hsep (l : List α) (more : List (List α)) (t : List α) :
      x ∈ (l :: more).flatMap (· ++ [x]) ++ t := by
    simp
  refine ⟨fun e => ?_, fun ⟨hparts, hrest⟩ => by rw [hparts, hrest]⟩
  induction parts generalizing parts' with
  | nil =>
    cases parts' with
    | nil => exact ⟨rfl, e⟩
    | cons l' parts' =>
      have hmem : x ∈ s := by
        rw [List.flatMap_nil, List.nil_append] at e
        rw [e]
        exact hsep l' parts' s'
      exact absurd hmem hs
  | cons l parts ih =>
    cases parts' with
    | nil =>
      have hmem : x ∈ s' := by
        rw [List.flatMap_nil, List.nil_append] at e
        rw [← e]
        exact hsep l parts s
      exact absurd hmem hs'
    | cons l' parts' =>
      obtain ⟨hl, hparts⟩ := List.forall_mem_cons.1 h
      obtain ⟨hl', hparts'⟩ := List.forall_mem_cons.1 h'
      simp only [List.flatMap_cons, List.append_assoc, List.singleton_append] at e
      obtain ⟨rfl, hmore⟩ := (append_cons_inj_of_not_mem_left hl hl').1 e
      obtain ⟨rfl, hrest⟩ := ih hparts hparts' hmore
      exact ⟨rfl, hrest⟩

/-- What follows an opening bracket does not belong to the name of the definition. -/
theorem definitionName_append_openBracket (name rest : Text) :
    definitionName (name ++ openBracket :: rest) = definitionName name := by
  induction name with
  | nil => simp [definitionName]
  | cons c name ih =>
    by_cases hc : c = openBracket
    · simp [definitionName, hc]
    · simpa [definitionName, hc] using ih

namespace CallEdge

variable {e f : CallEdge}

theorem calleeName_of_mem (h : openBracket ∈ e.callee) : e.calleeName = e.callee :=
  if_pos (List.contains_iff_mem.2 h)

/-- A callee without type arguments of its own is named with those of the call. -/
theorem calleeName_of_not_mem (h : openBracket ∉ e.callee) :
    e.calleeName = e.callee ++ openBracket ::
      (e.typeParams.flatMap (· ++ [CodePoint.ofChar ',']) ++ [CodePoint.ofChar '>']) :=
  if_neg fun hcontains => h (List.contains_iff_mem.1 hcontains)

/-- The name of a callee has a bracket. -/
theorem openBracket_mem_calleeName (e : CallEdge) : openBracket ∈ e.calleeName := by
  by_cases h : openBracket ∈ e.callee
  · rwa [calleeName_of_mem h]
  · rw [calleeName_of_not_mem h]
    exact List.mem_append_right _ List.mem_cons_self

theorem definitionName_calleeName (e : CallEdge) :
    definitionName e.calleeName = definitionName e.callee := by
  by_cases h : openBracket ∈ e.callee
  · rw [calleeName_of_mem h]
  · rw [calleeName_of_not_mem h, definitionName_append_openBracket]

/-- A call whose callee has no type arguments yet, and whose type arguments hold no comma. -/
structure Separable (e : CallEdge) : Prop where
  callee : openBracket ∉ e.callee
  typeParams : ∀ p ∈ e.typeParams, CodePoint.ofChar ',' ∉ p

/-- Separable calls have the same callee name exactly if they have the same callee and the same type
arguments. -/
theorem calleeName_inj (he : e.Separable) (hf : f.Separable) :
    e.calleeName = f.calleeName ↔ e.callee = f.callee ∧ e.typeParams = f.typeParams := by
  have hend : CodePoint.ofChar ',' ∉ [CodePoint.ofChar '>'] := by decide
  rw [calleeName_of_not_mem he.callee, calleeName_of_not_mem hf.callee,
    append_cons_inj_of_not_mem_left he.callee hf.callee,
    flatMap_concat_inj he.typeParams hf.typeParams hend hend, and_iff_left rfl]

/-- In a graph of call records the calls of two edges end at one node exactly if their callees have
one name. -/
theorem exists_handleOf_calleeName {records : List (Text × List CallEdge)}
    (he : ∃ record ∈ records, e ∈ record.2) (hf : ∃ record ∈ records, f ∈ record.2) :
    ∃ h k, (CallGraph.ofRecords records).graph.handleOf e.calleeName = some h ∧
      (CallGraph.ofRecords records).graph.handleOf f.calleeName = some k ∧
      (h = k ↔ e.calleeName = f.calleeName) := by
  have hbuilt := CallGraph.built_ofRecords records
  have hname {e : CallEdge} (he : ∃ record ∈ records, e ∈ record.2) :
      e.calleeName ∈ CallGraph.namesIn records := by
    obtain ⟨record, hrecord, hedge⟩ := he
    exact List.mem_flatMap.2 ⟨record, hrecord, List.mem_cons_of_mem _ (List.mem_map_of_mem hedge)⟩
  have hhandle {e : CallEdge} (he : ∃ record ∈ records, e ∈ record.2) :
      (CallGraph.ofRecords records).graph.handleOf e.calleeName =
        some (CallGraph.handleIn (CallGraph.namesIn records) e.calleeName) := by
    rw [hbuilt.handleOf_eq, if_pos (hname he)]
  exact ⟨_, _, hhandle he, hhandle hf, CallGraph.handleIn_injective (hname he), fun h => by rw [h]⟩

/-- **Names of callees are precise.** The name of a callee has type arguments, and it is that of an
instantiation of the same definition, whatever the type arguments of the call are. If callees have
no opening bracket of their own and type arguments no comma, two calls have one name exactly if they
have the same callee and the same list of type arguments; so in a graph of call records, too, they
end at one node exactly then. -/
theorem calleeName_is_precise :
    (∀ e : CallEdge, openBracket ∈ e.calleeName ∧
      definitionName e.calleeName = definitionName e.callee) ∧
    ∀ e f : CallEdge, e.Separable → f.Separable →
      (e.calleeName = f.calleeName ↔ e.callee = f.callee ∧ e.typeParams = f.typeParams) ∧
      ∀ records : List (Text × List CallEdge),
        (∃ record ∈ records, e ∈ record.2) → (∃ record ∈ records, f ∈ record.2) →
        ∃ h k, (CallGraph.ofRecords records).graph.handleOf e.calleeName = some h ∧
          (CallGraph.ofRecords records).graph.handleOf f.calleeName = some k ∧
          (h = k ↔ e.callee = f.callee ∧ e.typeParams = f.typeParams) := by
  refine ⟨fun e => ⟨e.openBracket_mem_calleeName, e.definitionName_calleeName⟩, ?_⟩
  intro e f he hf
  refine ⟨calleeName_inj he hf, fun records hine hinf => ?_⟩
  obtain ⟨h, k, hh, hk, hiff⟩ := exists_handleOf_calleeName hine hinf
  exact ⟨h, k, hh, hk, hiff.trans (calleeName_inj he hf)⟩

/-- A call of `f` with the given type arguments. -/
def callWith (typeParams : List Text) : CallEdge :=
  { callee := ['f'], typeParams, location := ⟨['f'], 1⟩ }

/-- A bracketed argument and an empty one give `f<g<>,,>`. -/
def emptyArgument : CallEdge := callWith [['g', '<', '>'], []]

/-- The bracketed argument alone gives `f<g<>,>`. -/
def noArgument : CallEdge := callWith [['g', '<', '>']]

/-- The empty argument makes a difference, also among the nodes of the graph. -/
theorem calleeName_is_precise_emptyArgument :
    emptyArgument.Separable ∧ noArgument.Separable ∧
      emptyArgument.calleeName ≠ noArgument.calleeName ∧
      ∃ h k, (CallGraph.ofRecords [([], [emptyArgument, noArgument])]).graph.handleOf
          emptyArgument.calleeName = some h ∧
        (CallGraph.ofRecords [([], [emptyArgument, noArgument])]).graph.handleOf
          noArgument.calleeName = some k ∧
        h ≠ k := by
  have he : emptyArgument.Separable := ⟨by decide, by decide⟩
  have hf : noArgument.Separable := ⟨by decide, by decide⟩
  have hne : ¬ (emptyArgument.callee = noArgument.callee ∧
      emptyArgument.typeParams = noArgument.typeParams) := by
    decide
  obtain ⟨hname, hnode⟩ := calleeName_is_precise.2 _ _ he hf
  obtain ⟨h, k, hh, hk, hiff⟩ := hnode [([], [emptyArgument, noArgument])]
    ⟨_, List.mem_singleton_self _, List.mem_cons_self⟩
    ⟨_, List.mem_singleton_self _, List.mem_cons_of_mem _ List.mem_cons_self⟩
  exact ⟨he, hf, fun e => hne (hname.1 e), h, k, hh, hk, fun e => hne (hiff.1 e)⟩

end CallEdge

end CallAudit
