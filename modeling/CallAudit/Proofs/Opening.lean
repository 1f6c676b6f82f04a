import CallAudit.Proofs.Batches

/-!
# Opening stores

The rows that a store would find are described without opening it (`Store.found`). Opening succeeds
exactly if there is something to find, and then the store reads these rows (`Store.openAt_eq_ok`,
`Store.openAt_of_found`). Stores that lie side by side in a directory do not get in each other's
way: what a store finds depends on its own entry of the directory only (`Store.found_congr`), and
opening it or writing to it touches nothing else (`Store.openAt_frame`,
`Store.touches_write_tableFile`).
-/

namespace CallAudit

open FileTree

/-! ## Running actions -/

namespace Action

variable {α β : Type}

/-- Actions are run in a row until one of them fails. -/
theorem run_bind (x : Action α) (f : α → Action β) (w : World) :
    (x >>= f).run.run w =
      match x.run.run w with
      | (.ok a, w') => (f a).run.run w'
      | (.error e, w') => (.error e, w') := by
  rw [ExceptT.run_bind, StateT.run_bind]
  rcases x.run.run w with ⟨_ | a, w'⟩ <;> rfl

theorem run_bind_ok {x : Action α} {w w' : World} {a : α} (h : x.run.run w = (.ok a, w'))
    (f : α → Action β) : (x >>= f).run.run w = (f a).run.run w' := by
  rw [run_bind, h]

theorem run_bind_error {x : Action α} {w w' : World} {e : Failure}
    (h : x.run.run w = (.error e, w')) (f : α → Action β) :
    (x >>= f).run.run w = (.error e, w') := by
  rw [run_bind, h]

/-- If actions in a row succeed, then each of them does. -/
theorem run_bind_eq_ok {x : Action α} {f : α → Action β} {w w' : World} {b : β}
    (h : (x >>= f).run.run w = (.ok b, w')) :
    ∃ a w₁, x.run.run w = (.ok a, w₁) ∧ (f a).run.run w₁ = (.ok b, w') := by
  rcases hx : x.run.run w with ⟨e | a, w₁⟩
  · rw [run_bind_error hx] at h
    cases (Prod.mk.inj h).1
  · rw [run_bind_ok hx] at h
    exact ⟨a, w₁, rfl, h⟩

@[simp] theorem run_files (w : World) : files.run.run w = (.ok w.files, w) := rfl

@[simp] theorem run_ofExcept (r : Except Failure α) (w : World) :
    (ofExcept r).run.run w = (r, w) := by
  cases r <;> rfl

/-- Making directories changes the files also if it fails. -/
theorem run_makeDirectories (p : Path) (failure : FileFault → Failure) (w : World) :
    (makeDirectories p failure).run.run w =
      match w.files.makeDirectories p.start p.parts with
      | (t, none) => (.ok (), { w with files := t })
      | (t, some fault) => (.error (failureOf failure fault), { w with files := t }) := by
  unfold makeDirectories
  simp only [run_bind, run_files]
  rcases w.files.makeDirectories p.start p.parts with ⟨t, _ | fault⟩ <;> rfl

/-- Writing a file changes the files if it succeeds. -/
theorem run_write (p : Path) (content : FileContent) (failure : FileFault → Failure) (w : World) :
    (write p content failure).run.run w =
      match w.files.write p content with
      | .ok t => (.ok (), { w with files := t })
      | .error fault => (.error (failureOf failure fault), w) := by
  unfold write
  simp only [run_bind, run_files]
  cases w.files.write p content <;> rfl

end Action

/-! ## Names of files -/

theorem FileTree.isName_db : IsName "db" := ⟨by decide, by decide, by decide⟩

theorem FileTree.isName_marking : IsName "marking" := ⟨by decide, by decide, by decide⟩

theorem FileTree.isName_calledge : IsName "calledge" := ⟨by decide, by decide, by decide⟩

theorem FileTree.isName_lock : IsName ".lock" := ⟨by decide, by decide, by decide⟩

namespace Store

variable {α : Type} {t t' : FileTree} {d path : Path} {D P F : Place} {name : Text}
  {format : RecordFormat α}
variable {s : Store α} {T T' : Table} {n : Nat} {w w' : World}

/-! ## What a store finds -/

/-- The table that a content comes down to: what is blank counts as an empty table. -/
def foundIn (content : FileContent) : Option Table :=
  match content with
  | .table T _ => some T
  | content => if content.isBlank then some {} else none

/-- The table that a store would find, if it could be opened. -/
def found (t : FileTree) (path : Path) : Option Table :=
  match t.makeDirectories path.start path.parts with
  | (_, some _) => none
  | (t, none) => (tableContent t path).toOption.bind foundIn

/-- Opening a store, step by step. -/
theorem run_openAt (path : Path) (format : RecordFormat α) (w : World) :
    (openAt path format).run.run w =
      match w.files.makeDirectories path.start path.parts with
      | (t, some fault) =>
        (.error (Action.failureOf (fun fault => .storeUnavailable path fault.message) fault),
          { w with files := t })
      | (t, none) =>
        match tableContent t path with
        | .error fault => (.error (.storeUnavailable path fault.message), { w with files := t })
        | .ok (.table _ changes) =>
          (.ok { path, format, session := .joined changes }, { w with files := t })
        | .ok (.bytes b) =>
          if (FileContent.bytes b).isBlank then
            match t.write (tableFile path) (.table {} 1) with
            | .ok t' => (.ok { path, format }, { w with files := t' })
            | .error fault =>
              (.error (Action.failureOf (fun _ =>
                .storeUnavailable path TableFault.cannotOpen.message) fault),
                { w with files := t })
          else (.error (.storeUnavailable path TableFault.otherContent.message),
            { w with files := t }) := by
  unfold openAt
  simp only [Action.run_bind, Action.run_makeDirectories, Action.run_files, Action.run_ofExcept]
  rcases w.files.makeDirectories path.start path.parts with ⟨t, _ | fault⟩
  · dsimp only
    cases tableContent t path with
    | error fault => rfl
    | ok content =>
      cases content with
      | table T n => rfl
      | bytes b =>
        dsimp only [Except.mapError]
        cases (FileContent.bytes b).isBlank with
        | false => rfl
        | true =>
          simp only [if_true, Action.run_bind, Action.run_write]
          cases t.write (tableFile path) (.table {} 1) <;> rfl
  · rfl

/-- An opened store reads what it has found. -/
theorem openAt_eq_ok (h : (openAt path format).run.run w = (.ok s, w')) :
    ∃ T n, found w.files path = some T ∧ Reads w'.files s T n ∧ w'.journal = w.journal ∧
      ∃ session, s = { path, format, session } := by
  rw [run_openAt] at h
  unfold found
  rcases hmake : w.files.makeDirectories path.start path.parts with ⟨t, _ | fault⟩
  · simp only [hmake] at h ⊢
    cases hcontent : tableContent t path with
    | error fault =>
      simp only [hcontent] at h
      cases h
    | ok content =>
      cases content with
      | table T n =>
        simp only [hcontent] at h
        obtain ⟨hs, rfl⟩ := Prod.mk.inj h
        obtain rfl := Except.ok.inj hs
        exact ⟨T, n, rfl, ⟨hcontent, TableSession.inStep_joined T n⟩, rfl, _, rfl⟩
      | bytes b =>
        simp only [hcontent] at h
        split at h
        · next hblank =>
          split at h
          · next made hwrite =>
            obtain ⟨hs, rfl⟩ := Prod.mk.inj h
            obtain rfl := Except.ok.inj hs
            have hlength := isTablePlace_of_tableContent hcontent
            exact ⟨{}, 1, by simp [foundIn, hblank, Except.toOption],
              ⟨tableContent_of_write hlength hwrite, TableSession.inStep_new⟩, rfl, _, rfl⟩
          · cases h
        · cases h
  · simp only [hmake] at h
    cases h

/-- A missing table file can be written if its directory is there. -/
theorem write_of_blank (hP : Leads t path P) {b : List UInt8}
    (h : tableContent t path = .ok (.bytes b)) :
    ∃ t', t.write (tableFile path) (.table {} 1) = .ok t' := by
  -- a directory in the way, or a name that cannot be followed, would have shown when the file was
  -- read
  rcases hP.place_child_cases isName_db with ⟨hplace, -⟩ | ⟨problem, -, hproblem, hplace⟩
  · refine ⟨_, write_eq_ok.2 ⟨_, hplace, ?_, rfl⟩⟩
    intro hdirectory
    have hread :
        t.read (tableFile path) = .error { problem := .isDirectory, path := tableFile path } := by
      have hfile : t.place (tableFile path) = .ok (P ++ [("db" : Text)]) := hplace
      simp only [FileTree.read, hfile, hdirectory]
    unfold tableContent at h
    simp [isTablePlace_of_tableContent h, hread] at h
  · have hread : t.read (tableFile path) = .error { problem, path := tableFile path } := by
      have hfile : t.place (tableFile path) = .error problem := hplace
      simp only [FileTree.read, hfile]
    have hlength := isTablePlace_of_tableContent h
    unfold tableContent at h
    simp [hlength, hread, hproblem] at h

/-- A store can be opened if there is something to find. -/
theorem openAt_of_found (h : found w.files path = some T) (format : RecordFormat α) :
    ∃ s w', (openAt path format).run.run w = (.ok s, w') := by
  rw [run_openAt]
  unfold found at h
  rcases hmake : w.files.makeDirectories path.start path.parts with ⟨t, _ | fault⟩
  · simp only [hmake] at h ⊢
    cases hcontent : tableContent t path with
    | error fault => simp [hcontent, Except.toOption] at h
    | ok content =>
      cases content with
      | table T n => exact ⟨_, _, rfl⟩
      | bytes b =>
        obtain ⟨P, hP⟩ := leads_of_makeDirectories hmake
        obtain ⟨t', hwrite⟩ := write_of_blank hP hcontent
        cases hblank : (FileContent.bytes b).isBlank with
        | true =>
          exact ⟨{ path, format }, { w with files := t' }, by simp only [hwrite, hblank, if_true]⟩
        | false => simp [hcontent, Except.toOption, foundIn, hblank] at h
  · simp [hmake] at h

/-! ## Stores side by side -/

/-- The content of a table file depends on what is at its place only. -/
theorem tableContent_congr (hP : Leads t path P) (hP' : Leads t' path P)
    (hnode : t'.node? (P ++ [("db" : Text)]) = t.node? (P ++ [("db" : Text)])) :
    tableContent t' path = tableContent t path := by
  have hplace : t'.place (tableFile path) = t.place (tableFile path) :=
    hP.place_child_eq hP' isName_db
  have hread : t'.read (tableFile path) = t.read (tableFile path) := by
    unfold FileTree.read
    rw [hplace]
    cases hF : t.place (tableFile path) with
    | error problem => rfl
    | ok F =>
      obtain ⟨P', hP'', rfl⟩ := leads_of_place_child isName_db hF
      obtain rfl := hP.unique hP''
      dsimp only
      rw [hnode]
  unfold tableContent isTablePlace
  rw [hplace, hread]

/-- What a store finds depends on its own entry of the directory only. -/
theorem found_congr (hD : Leads t d D) (hD' : Leads t' d D) (hname : IsName name)
    (hnodes : ∀ rest, t'.node? (D ++ name :: rest) = t.node? (D ++ name :: rest)) :
    found t' (d.child name) = found t (d.child name) := by
  unfold found
  rw [hD.makeDirectories_child hname, hD'.makeDirectories_child hname, hnodes []]
  rcases hD.place_child_cases hname with ⟨hplace, hchild⟩ | ⟨problem, hchild, -, -⟩
  · rw [hchild]
    have hplace' := hD'.place_child hname hchild
    have hfile :
        t'.node? (D ++ [name] ++ [("db" : Text)]) = t.node? (D ++ [name] ++ [("db" : Text)]) := by
      rw [List.append_assoc]
      exact hnodes ["db"]
    -- the entry is created, is a directory already, or is a file in the way
    rcases hnode : t.node? (D ++ [name]) with _ | (_ | content)
    · have hfree : t.node? (D ++ [name]) ≠ some .directory := by simp [hnode]
      have hfree' : t'.node? (D ++ [name]) ≠ some .directory := by rw [hnodes []]; exact hfree
      have hmade : Leads (t.set (D ++ [name]) .directory) (d.child name) (D ++ [name]) :=
        ⟨place_of_keeps (keeps_set hfree _) hplace, by rw [node?_set hfree, if_pos rfl]⟩
      have hmade' : Leads (t'.set (D ++ [name]) .directory) (d.child name) (D ++ [name]) :=
        ⟨place_of_keeps (keeps_set hfree' _) hplace', by rw [node?_set hfree', if_pos rfl]⟩
      dsimp only
      rw [tableContent_congr hmade hmade']
      rw [node?_set hfree, node?_set hfree', if_neg (by simp), if_neg (by simp), hfile]
    · dsimp only
      rw [tableContent_congr ⟨hplace, hnode⟩ ⟨hplace', (hnodes []).trans hnode⟩ hfile]
    · rfl
  · rw [hchild]

/-- A store finds the same after its neighbour was changed. -/
theorem found_of_touches {other : Text} (h : Touches t t' D name) (hne : other ≠ name)
    (hD : Leads t d D) (hother : IsName other) :
    found t' (d.child other) = found t (d.child other) :=
  found_congr hD (hD.of_keeps h.keeps) hother (h.other hne)

/-- What a store reads is what another one would find. -/
theorem found_of_tableContent (h : tableContent t path = .ok (.table T n)) :
    found t path = some T := by
  obtain ⟨-, F, hplace, -⟩ := tableContent_eq_table.1 h
  obtain ⟨P, hP, -⟩ := leads_of_place_child isName_db hplace
  unfold found
  rw [hP.makeDirectories]
  simp [h, Except.toOption, foundIn]

/-- Writing the file of a store touches only the entry of the store. -/
theorem touches_write_tableFile {content : FileContent} (hD : Leads t d D) (hname : IsName name)
    (h : t.write (tableFile (d.child name)) content = .ok t') : Touches t t' D name := by
  obtain ⟨F, hplace, hnode, rfl⟩ := write_eq_ok.1 h
  obtain ⟨P, hP, rfl⟩ := leads_of_place_child isName_db hplace
  obtain ⟨D', hD', rfl⟩ := leads_of_place_child hname hP.place
  obtain rfl := hD.unique hD'
  exact touches_set (List.prefix_append _ _) hnode _

/-- Opening a store touches its own entry of the directory only. -/
theorem openAt_frame (hD : Leads w.files d D) (hname : IsName name) {r : Except Failure (Store α)}
    (h : (openAt (d.child name) format).run.run w = (r, w')) : Touches w.files w'.files D name := by
  have hmade := touches_makeDirectories hD hname
  rw [run_openAt] at h
  rcases hmake : w.files.makeDirectories (d.child name).start (d.child name).parts with
    ⟨t, _ | fault⟩
  · rw [hmake] at hmade
    simp only [hmake] at h
    split at h
    · obtain ⟨-, rfl⟩ := Prod.mk.inj h
      exact hmade
    · obtain ⟨-, rfl⟩ := Prod.mk.inj h
      exact hmade
    · split at h
      · split at h
        · next hwrite =>
          obtain ⟨-, rfl⟩ := Prod.mk.inj h
          exact hmade.trans (touches_write_tableFile (hD.of_keeps hmade.keeps) hname hwrite)
        · obtain ⟨-, rfl⟩ := Prod.mk.inj h
          exact hmade
      · obtain ⟨-, rfl⟩ := Prod.mk.inj h
        exact hmade
  · rw [hmake] at hmade
    simp only [hmake] at h
    obtain ⟨-, rfl⟩ := Prod.mk.inj h
    exact hmade

/-! ## Saving batches -/

/-- Saving a batch changes the files only if it succeeds. -/
theorem run_save (s : Store α) (batch : List (Text × α)) (w : World) :
    (s.save batch).run.run w =
      match s.insertManyIn w.files batch with
      | (_, .error e) => (.error e, w)
      | (s', .ok t) => (.ok s',
          { files := t
            journal := w.journal ++ [{ logger := loggerName, level := 10, message :=
              "persisted " ++ Text.ofNat batch.length ++ " record(s) into " ++
                s'.tableName }] }) := by
  unfold save
  simp only [Action.run_bind, Action.run_files]
  rcases s.insertManyIn w.files batch with ⟨s', _ | t⟩ <;> rfl

/-- A batch that cannot be written leaves everything as it was. -/
theorem run_save_error (h : Reads w.files s T n) (hopen : s.isOpen = true) {batch : List (Text × α)}
    {e : Failure} (hbatch : tableWith s.format T batch = .error e) :
    (s.save batch).run.run w = (.error e, w) := by
  have hinsert : s.insertMany T batch = .error e := by
    rw [insertMany_eq_tableWith hopen, hbatch]
    rfl
  obtain ⟨session, -, hinsert⟩ := h.insertManyIn_error hopen hinsert
  rw [run_save, hinsert]

/-- A batch that can be written is in the table then. -/
theorem run_save_ok (h : Reads w.files s T n) (hopen : s.isOpen = true) {batch : List (Text × α)}
    (hbatch : tableWith s.format T batch = .ok T') :
    ∃ s' w', (s.save batch).run.run w = (.ok s', w') ∧ found w'.files s.path = some T' ∧
      (w'.files = w.files ∨ ∃ content, w.files.write (tableFile s.path) content =
        .ok w'.files) := by
  have hinsert :
      s.insertMany T batch = .ok (batch.foldl (fun s row => s.remember row.1 row.2) s, T') := by
    rw [insertMany_eq_tableWith hopen, hbatch]
    rfl
  obtain ⟨session, t', n', hinsert, hreads, htree⟩ := h.insertManyIn_ok hopen hinsert
  have hpath := (remember_fields batch s).1
  rw [run_save, hinsert]
  refine ⟨_, _, rfl, ?_, htree.imp_right fun hwrite => ⟨_, hwrite⟩⟩
  exact found_of_tableContent (hpath ▸ hreads.content)

/-! ## A store in an empty tree -/

theorem eq_ok_get {ε β : Type} {r : Except ε β} (h : r.toOption.isSome = true) :
    r = .ok (r.toOption.get h) := by
  cases r with
  | error e => cases h
  | ok b => rfl

theorem eq_mk_of_fst {β γ : Type} {p : β × γ} {b : β} (h : p.1 = b) : p = (b, p.2) := by
  rw [← h]

/-- A cell that holds a record as text. -/
def recordCell (format : RecordFormat α) (a : α) : Cell :=
  .text ((format.toStored a).flatMap Utf8.encodePoint)

/-- A store of markings is opened in an empty tree. -/
def freshOpening : Except Failure (Store MarkedItem) × World :=
  (openAt { start := .relative, parts := ["d"] } MarkedItem.format).run.run {}

/-- The store that was opened in an empty tree. -/
def freshStore : Store MarkedItem := freshOpening.1.toOption.get (by decide +kernel)

/-- A store can be opened in an empty tree. -/
theorem openAt_fresh :
    (openAt { start := .relative, parts := ["d"] } MarkedItem.format).run.run {} =
      (.ok freshStore, freshOpening.2) :=
  eq_mk_of_fst (eq_ok_get _)

end Store

end CallAudit
