import CallAudit.Graph.Dot
import CallAudit.Proofs.Isomorphism
import CallAudit.Proofs.Lexing

/-!
# Drawings are unambiguous

A drawing is a list of lines, one for each node and then one for each call. A name may hold quotes,
backslashes and line ends, so lines cannot be told apart by their ends. They can be told apart from
the left: a handle ends at the first blank, what follows says whether the line is that of a node,
and the label of a node ends at the first quote without a backslash (`readLabel_escaped`). So a text
is that of one list of lines only (`DotLine.flatMap_text_inj`), and two graphs have the same drawing
exactly if they have the same nodes and the same arrows (`dot_is_unambiguous`).
-/

namespace CallAudit

/-- Two lists before the first occurrence of a separator are equal, and so are the lists after
it. -/
theorem append_cons_inj_of_not_mem_left {α : Type} {x : α} {l l' s s' : List α} (h : x ∉ l)
    (h' : x ∉ l') : l ++ x :: s = l' ++ x :: s' ↔ l = l' ∧ s = s' := by
  refine ⟨fun e => ?_, fun ⟨hl, hs⟩ => by rw [hl, hs]⟩
  induction l generalizing l' with
  | nil =>
    cases l' with
    | nil => exact ⟨rfl, (List.cons.inj e).2⟩
    | cons a l' => exact absurd ((List.cons.inj e).1 ▸ List.mem_cons_self) h'
  | cons a l ih =>
    cases l' with
    | nil => exact absurd ((List.cons.inj e).1 ▸ List.mem_cons_self) h
    | cons b l' =>
      obtain ⟨rfl, hrest⟩ := List.cons.inj e
      obtain ⟨rfl, hs⟩ :=
        ih (List.not_mem_of_not_mem_cons h) (List.not_mem_of_not_mem_cons h') hrest
      exact ⟨rfl, hs⟩

/-! ## Handles -/

namespace Text

theorem ofNat_injective : Function.Injective ofNat := by
  intro m n h
  rw [← Json.digitsValue_ofNat m, h, Json.digitsValue_ofNat n]

/-- A numeral holds nothing but digits. -/
theorem not_mem_ofNat {c : CodePoint} (hc : ¬ c.isDigit = true) (n : Nat) : c ∉ ofNat n :=
  fun h => hc (Json.isDigit_of_mem_ofNat h)

theorem ofInt_injective : Function.Injective ofInt := by
  have hsign (m n : Nat) : ofNat m ≠ CodePoint.ofChar '-' :: ofNat (n + 1) := fun h =>
    not_mem_ofNat (c := CodePoint.ofChar '-') (by decide) m (by rw [h]; exact List.mem_cons_self)
  intro i j h
  cases i with
  | ofNat m =>
    cases j with
    | ofNat n => rw [ofNat_injective h]
    | negSucc n => exact absurd h (hsign m n)
  | negSucc m =>
    cases j with
    | ofNat n => exact absurd h.symm (hsign n m)
    | negSucc n => rw [Nat.succ.inj (ofNat_injective (List.cons.inj h).2)]

theorem blank_not_mem_ofInt (i : Int) : CodePoint.ofChar ' ' ∉ ofInt i := by
  have hnat (n : Nat) : CodePoint.ofChar ' ' ∉ ofNat n := not_mem_ofNat (by decide) n
  cases i with
  | ofNat n => exact hnat n
  | negSucc n => exact List.not_mem_cons_of_ne_of_not_mem (by decide) (hnat (n + 1))

/-- An integer that is followed by a blank is read off from the left. -/
theorem ofInt_append_blank_inj {i j : Int} {s t : Text} :
    ofInt i ++ CodePoint.ofChar ' ' :: s = ofInt j ++ CodePoint.ofChar ' ' :: t ↔
      i = j ∧ s = t := by
  rw [append_cons_inj_of_not_mem_left (blank_not_mem_ofInt i) (blank_not_mem_ofInt j),
    ofInt_injective.eq_iff]

end Text

namespace CallGraph

/-! ## Labels -/

/-- Reads a label after its opening quote: a code point after a backslash belongs to the label
whatever it is, and the first quote without a backslash ends the label. Gives the label and the text
after it. -/
def readLabel : Text → Option (Text × Text)
  | [] => none
  | c :: rest =>
    if c = CodePoint.ofNat 0x22 then some ([], rest)
    else if c = CodePoint.ofChar '\\' then
      match rest with
      | [] => none
      | d :: rest => (readLabel rest).map (Prod.map (d :: ·) id)
    else (readLabel rest).map (Prod.map (c :: ·) id)

/-- A name as it stands between the quotes of its label. -/
def escaped (name : Text) : Text :=
  name.flatMap fun c =>
    if c = CodePoint.ofChar '\\' || c = CodePoint.ofNat 0x22 then [CodePoint.ofChar '\\', c]
      else [c]

theorem dotLabel_append (name rest : Text) :
    dotLabel name ++ rest = CodePoint.ofNat 0x22 ::
      (escaped name ++ CodePoint.ofNat 0x22 :: rest) := by
  show CodePoint.ofNat 0x22 :: (escaped name ++ [CodePoint.ofNat 0x22] ++ rest) = _
  rw [List.append_assoc, List.singleton_append]

/-- A name cannot end its label: the label of a name is read as this name, whatever follows. -/
theorem readLabel_escaped (name rest : Text) :
    readLabel (escaped name ++ CodePoint.ofNat 0x22 :: rest) = some (name, rest) := by
  have hne : CodePoint.ofChar '\\' ≠ CodePoint.ofNat 0x22 := by decide
  induction name with
  | nil =>
    rw [escaped, List.flatMap_nil, List.nil_append, readLabel.eq_def]
    exact if_pos rfl
  | cons c name ih =>
    by_cases hescaped : c = CodePoint.ofChar '\\' ∨ c = CodePoint.ofNat 0x22
    · have hcons : escaped (c :: name) = CodePoint.ofChar '\\' :: c :: escaped name := by
        simp [escaped, hescaped]
      rw [hcons, List.cons_append, List.cons_append, readLabel, if_neg hne, if_pos rfl, ih]
      rfl
    · have hcons : escaped (c :: name) = c :: escaped name := by simp [escaped, hescaped]
      rw [hcons, List.cons_append, readLabel.eq_def]
      dsimp only
      rw [if_neg fun h => hescaped (.inr h), if_neg fun h => hescaped (.inl h), ih]
      rfl

theorem dotLabel_append_inj {name name' s s' : Text} :
    dotLabel name ++ s = dotLabel name' ++ s' ↔ name = name' ∧ s = s' := by
  refine ⟨fun h => ?_, fun ⟨hname, hs⟩ => by rw [hname, hs]⟩
  rw [dotLabel_append, dotLabel_append] at h
  have hread := readLabel_escaped name s
  rw [(List.cons.inj h).2, readLabel_escaped name' s'] at hread
  exact (Prod.mk.inj (Option.some.inj hread)).imp Eq.symm Eq.symm

/-! ## Lines -/

/-- What a line of a drawing shows. -/
inductive DotLine
  | node (handle : Handle) (name : Text)
  | call (source target : Handle)

namespace DotLine

/-- The text of a line. -/
def text : DotLine → Text
  | node h name => dotNode h name
  | call source target => "    " ++ Text.ofInt source ++ " -> " ++ Text.ofInt target ++ " [ ]\n"

/-- A line is read off from the left. -/
theorem text_append_inj {a b : DotLine} {s t : Text} :
    a.text ++ s = b.text ++ t ↔ a = b ∧ s = t := by
  have hlabel :
    Text.ofString " [ label = " = CodePoint.ofChar ' ' :: CodePoint.ofChar '[' :: " label = " := rfl
  have harrow : Text.ofString " -> " = CodePoint.ofChar ' ' :: CodePoint.ofChar '-' :: "> " := rfl
  have hend : Text.ofString " [ ]\n" = CodePoint.ofChar ' ' :: "[ ]\n" := rfl
  -- after the first handle and a blank, a bracket stands for a node and a dash for a call
  have hne : CodePoint.ofChar '[' ≠ CodePoint.ofChar '-' := by decide
  cases a with
  | node h name =>
    cases b with
    | node h' name' =>
      simp only [text, dotNode, List.append_assoc, List.append_cancel_left_eq, hlabel,
        List.cons_append, Text.ofInt_append_blank_inj, List.cons.injEq, true_and,
        dotLabel_append_inj, node.injEq, and_assoc]
    | call source target =>
      simp only [text, dotNode, List.append_assoc, List.append_cancel_left_eq, hlabel, harrow,
        List.cons_append, Text.ofInt_append_blank_inj, List.cons.injEq, hne, false_and, and_false,
        reduceCtorEq]
  | call source target =>
    cases b with
    | node h name =>
      simp only [text, dotNode, List.append_assoc, List.append_cancel_left_eq, hlabel, harrow,
        List.cons_append, Text.ofInt_append_blank_inj, List.cons.injEq, hne.symm, false_and,
        and_false, reduceCtorEq]
    | call source' target' =>
      simp only [text, List.append_assoc, List.append_cancel_left_eq, harrow, hend,
        List.cons_append, Text.ofInt_append_blank_inj, List.cons.injEq, true_and, call.injEq,
        and_assoc]

/-- Lines are indented, so none of them looks like the end of a drawing. -/
theorem flatMap_text_inj {lines lines' : List DotLine} :
    lines.flatMap text ++ Text.ofString "\x7d\n" = lines'.flatMap text ++ Text.ofString "\x7d\n" ↔
      lines = lines' := by
  have hend (line : DotLine) (s : Text) : line.text ++ s ≠ Text.ofString "\x7d\n" := by
    intro h
    have hhead : (line.text ++ s).head? = some (CodePoint.ofChar ' ') := by cases line <;> rfl
    rw [h] at hhead
    exact absurd hhead (by decide)
  refine ⟨fun h => ?_, fun h => by rw [h]⟩
  induction lines generalizing lines' with
  | nil =>
    cases lines' with
    | nil => rfl
    | cons line lines' =>
      rw [List.flatMap_cons, List.append_assoc] at h
      exact absurd h.symm (hend line _)
  | cons line lines ih =>
    cases lines' with
    | nil =>
      rw [List.flatMap_cons, List.append_assoc] at h
      exact absurd h (hend line _)
    | cons line' lines' =>
      rw [List.flatMap_cons, List.flatMap_cons, List.append_assoc, List.append_assoc,
        text_append_inj] at h
      rw [h.1, ih h.2]

end DotLine

/-! ## Drawings -/

variable {g : CallGraph}

/-- The calls of a graph in the order of their callers, each as the pair of its ends. -/
def arrows (g : CallGraph) : List (Handle × Handle) :=
  (g.handles.flatMap g.callsFrom).map fun c => (c.source, c.target)

/-- The lines of nodes and arrows. -/
def dotLines (nodes : List (Handle × Text)) (arrows : List (Handle × Handle)) : List DotLine :=
  nodes.map (fun node => .node node.1 node.2) ++ arrows.map fun arrow => .call arrow.1 arrow.2

/-- The text of lines between the first and the last line of a drawing. -/
def drawing (lines : List DotLine) : Text :=
  "digraph \x7b\n" ++ lines.flatMap DotLine.text ++ "\x7d\n"

theorem drawing_inj {lines lines' : List DotLine} :
    drawing lines = drawing lines' ↔ lines = lines' := by
  rw [drawing, drawing, List.append_assoc, List.append_assoc, List.append_cancel_left_eq,
    DotLine.flatMap_text_inj]

/-- The lines of nodes end where the lines of calls begin. -/
theorem dotLines_inj {nodes nodes' : List (Handle × Text)}
    {arrows arrows' : List (Handle × Handle)} :
    dotLines nodes arrows = dotLines nodes' arrows' ↔ nodes = nodes' ∧ arrows = arrows' := by
  refine ⟨fun h => ?_, fun ⟨hnodes, harrows⟩ => by rw [hnodes, harrows]⟩
  induction nodes generalizing nodes' with
  | nil =>
    cases nodes' with
    | nil =>
      have hcall : Function.Injective
          fun arrow : Handle × Handle => DotLine.call arrow.1 arrow.2 := by
        rintro ⟨source, target⟩ ⟨source', target'⟩ e
        obtain ⟨rfl, rfl⟩ := DotLine.call.inj e
        rfl
      exact ⟨rfl, hcall.list_map h⟩
    | cons node nodes' =>
      -- the first line is that of a call or missing on one side, and that of a node on the other
      cases arrows <;> simp [dotLines] at h
  | cons node nodes ih =>
    cases nodes' with
    | nil =>
      cases arrows' <;> simp [dotLines] at h
    | cons node' nodes' =>
      obtain ⟨hnode, hrest⟩ := List.cons.inj h
      obtain ⟨rfl, harrows⟩ := ih hrest
      obtain ⟨hhandle, hname⟩ := DotLine.node.inj hnode
      rw [Prod.ext hhandle hname]
      exact ⟨rfl, harrows⟩

theorem dot_of_named {nodes : List (Handle × Text)} (h : g.named = .ok nodes) :
    g.dot = .ok (drawing (dotLines nodes g.arrows)) := by
  rw [dot, h, drawing, dotLines, List.flatMap_append, List.flatMap_map, List.flatMap_map, arrows,
    List.flatMap_map, List.flatMap_assoc, ← List.append_assoc]
  rfl

/-- **Drawings are unambiguous.** Graphs whose nodes all have names have drawings, and they have the
same drawing exactly if they have the same nodes with the same names and the same arrows, in the
same order. No name can pass for something else: the drawing is that of its own lines only, and the
label of a name, whatever its quotes, backslashes and line ends, ends with the quote that closes
it. -/
theorem dot_is_unambiguous (g g' : CallGraph) (hg : g.Named) (hg' : g'.Named) :
    (g.dot = g'.dot ↔ g.named = g'.named ∧ g.arrows = g'.arrows) ∧
    (∃ nodes, g.named = .ok nodes ∧ ∀ lines, g.dot = .ok (drawing lines) ↔
      lines = dotLines nodes g.arrows) ∧
    ∀ name rest, ∃ body, dotLabel name ++ rest = CodePoint.ofNat 0x22 :: body ∧
      readLabel body = some (name, rest) := by
  obtain ⟨nodes, hnodes⟩ := hg.exists_named
  obtain ⟨nodes', hnodes'⟩ := hg'.exists_named
  refine ⟨?_, ⟨nodes, hnodes, fun lines => ?_⟩, fun name rest => ?_⟩
  · rw [dot_of_named hnodes, dot_of_named hnodes', hnodes, hnodes', Except.ok.injEq, drawing_inj,
      dotLines_inj, Except.ok.injEq]
  · rw [dot_of_named hnodes, Except.ok.injEq, drawing_inj, eq_comm]
  · exact ⟨_, dotLabel_append name rest, readLabel_escaped name rest⟩

/-- The name `a`, going on like the end of its line and the line of a node `b`. -/
def imitatingName : Text :=
  ['a', CodePoint.ofNat 0x22, ' ', ']', '\n', ' ', ' ', ' ', ' ', '1', ' ', '[', ' ', 'l', 'a', 'b',
    'e', 'l', ' ', '=',
    ' ', CodePoint.ofNat 0x22, 'b']

/-- The graph of functions without calls. -/
def apart (names : List Text) : CallGraph := (ofRecords (names.map fun name => (name, []))).graph

/-- One node whose name looks like the lines of two is not drawn like two nodes. -/
theorem dot_is_unambiguous_imitating :
    (apart [imitatingName]).Named ∧ (apart [['a'], ['b']]).Named ∧
      (apart [imitatingName]).arrows = (apart [['a'], ['b']]).arrows ∧
      (apart [imitatingName]).dot ≠ (apart [['a'], ['b']]).dot := by
  have hone : (apart [imitatingName]).Named := named_ofRecords _
  have htwo : (apart [['a'], ['b']]).Named := named_ofRecords _
  have hvalues : (apart [imitatingName]).arrows = (apart [['a'], ['b']]).arrows ∧
      (apart [imitatingName]).named ≠ (apart [['a'], ['b']]).named := by decide +kernel
  obtain ⟨hiff, -⟩ := dot_is_unambiguous _ _ hone htwo
  exact ⟨hone, htwo, hvalues.1, fun h => hvalues.2 (hiff.1 h).1⟩

end CallGraph

end CallAudit
