import CallAudit.Files.Tree
import Mathlib.Tactic

/-!
# Places in a file tree

A path is followed through directories. So it leads to the same place in every tree that has these
directories too (`place_of_keeps`), and in particular after a node was put where there was no
directory (`keeps_set`). The entries of a directory lie one name further than the directory itself
(`Leads.place_child`). Creating directories leads to one (`leads_of_makeDirectories`), does nothing
where there is one (`Leads.makeDirectories`), and goes through the directory above
(`makeDirectories_child`).
-/

namespace CallAudit

/-! ## Texts for the system -/

namespace Text

/-- A text without surrogates begins with a text without surrogates. -/
theorem surrogateFault?_of_append {position : Nat} {s t : Text}
    (h : surrogateFault? position (s ++ t) = none) : surrogateFault? position s = none := by
  induction s generalizing position with
  | nil => rfl
  | cons c s ih =>
    rw [List.cons_append, surrogateFault?] at h
    rw [surrogateFault?]
    split at h
    · cases h
    · next hc =>
      rw [if_neg hc]
      exact ih h

/-- What can be handed to the system has no start that cannot. -/
theorem systemFault?_of_append {s t : Text} (h : systemFault? (s ++ t) = none) :
    systemFault? s = none := by
  unfold systemFault? at h ⊢
  cases hwhole : surrogateFault? 0 (s ++ t) with
  | some fault => simp [hwhole] at h
  | none =>
    rw [surrogateFault?_of_append hwhole]
    simp only [hwhole, ite_eq_right_iff, reduceCtorEq, imp_false] at h ⊢
    intro hs
    exact h (by simpa using .inl (List.contains_iff_mem.1 hs))

theorem byteLength_append (s t : Text) : byteLength (s ++ t) = byteLength s + byteLength t := by
  have hstart (n : Nat) (t : Text) :
      t.foldl (fun n c => n + (pointBytes c).length) n = n + byteLength t := by
    induction t generalizing n with
    | nil => rfl
    | cons c t ih =>
      rw [byteLength, List.foldl_cons, List.foldl_cons, ih, ih (0 + _)]
      omega
  rw [byteLength, List.foldl_append, hstart]
  rfl

/-- Joining one more part adds to the end. -/
theorem join_concat (sep : Text) {parts : List Text} (h : parts ≠ []) (part : Text) :
    join sep (parts ++ [part]) = join sep parts ++ (sep ++ part) := by
  induction parts with
  | nil => exact absurd rfl h
  | cons first rest ih =>
    cases rest with
    | nil => simp [join]
    | cons second rest =>
      have hrest := ih (List.cons_ne_nil _ _)
      simp only [join, List.cons_append, List.intercalate_cons_cons] at hrest ⊢
      rw [hrest]
      simp

end Text

namespace Path

/-- The text of an entry starts with that of its directory, unless this is the working directory. -/
theorem text_child {d : Path} (h : d.text ≠ ".") (name : Text) :
    ∃ more, (d.child name).text = d.text ++ more := by
  obtain ⟨start, parts⟩ := d
  -- the text of a path without parts is that of its start, to which no slash is added
  cases parts with
  | nil =>
    cases start with
    | relative => exact absurd rfl h
    | root => exact ⟨name, by simp [text, child, joined, Text.join]⟩
    | doubleRoot => exact ⟨name, by simp [text, child, joined, Text.join]⟩
  | cons part parts =>
    have hjoin := Text.join_concat [slash] (List.cons_ne_nil part parts) name
    refine ⟨[slash] ++ name, ?_⟩
    rw [List.cons_append, List.cons_append, List.nil_append] at hjoin
    cases start <;> simp [text, child, joined, hjoin]

end Path

namespace FileTree

variable {t t' : FileTree} {d p : Path} {D P Q : Place} {n : FileNode} {name : Text}

/-- Where an entry of a directory can be followed, the directory can. -/
theorem obstacle?_of_child (h : obstacle? (d.child name) = none) : obstacle? d = none := by
  by_cases hd : d.text = "."
  · unfold obstacle?
    rw [hd]
    decide
  · obtain ⟨more, hmore⟩ := Path.text_child hd name
    unfold obstacle? at h ⊢
    rw [hmore] at h
    cases hfault : Text.systemFault? (d.text ++ more) with
    | some fault => simp [hfault] at h
    | none =>
      simp only [hfault, Text.byteLength_append, ite_eq_right_iff, reduceCtorEq, imp_false,
        not_lt] at h
      simp only [Text.systemFault?_of_append hfault, ite_eq_right_iff, reduceCtorEq, imp_false,
        not_lt]
      omega

/-! ## Nodes -/

/-- A node that was set is found at its place, and every other one as before. -/
theorem lookup_setNode (p q : Place) (n : FileNode) (nodes : List (Place × FileNode)) :
    (setNode p n nodes).lookup q = if q = p then some n else nodes.lookup q := by
  induction nodes with
  | nil => by_cases h : q = p <;> simp [setNode, List.lookup_cons, h, beq_eq_false_iff_ne.2]
  | cons first rest ih =>
    obtain ⟨r, m⟩ := first
    by_cases hr : r = p
    · subst hr
      by_cases h : q = r <;> simp [setNode, List.lookup_cons, h, beq_eq_false_iff_ne.2]
    · by_cases h : q = r
      · subst h
        simp [setNode, hr]
      · simp [setNode, List.lookup_cons, hr, beq_eq_false_iff_ne.2 h, ih]

/-- A node that was put where there was no directory is there, and the others stay. -/
theorem node?_set (h : t.node? P ≠ some .directory) (n : FileNode) (Q : Place) :
    (t.set P n).node? Q = if Q = P then some n else t.node? Q := by
  have hordinary : ¬ (isAbove P || P = rootPlace) = true := by
    intro hfixed
    exact h (by rw [node?, if_pos hfixed])
  -- the root and what is above it are directories that are not listed
  by_cases hQ : Q = P
  · subst hQ
    rw [if_pos rfl, node?, if_neg hordinary, set, lookup_setNode, if_pos rfl]
  · rw [if_neg hQ, node?, node?, set, lookup_setNode, if_neg hQ]

/-- Directories stay where they are. -/
def Keeps (t t' : FileTree) : Prop :=
  ∀ P, t.node? P = some .directory → t'.node? P = some .directory

theorem Keeps.refl (t : FileTree) : Keeps t t := fun _ h => h

/-- Setting what is no directory keeps the directories. -/
theorem keeps_set (h : t.node? P ≠ some .directory) (n : FileNode) : Keeps t (t.set P n) := by
  intro Q hQ
  have hne : Q ≠ P := fun e => h (e ▸ hQ)
  rw [node?_set h, if_neg hne, hQ]

/-! ## Following paths -/

/-- A path may be followed in two parts. -/
theorem follow_append (t : FileTree) (P : Place) (parts more : List Text) :
    t.follow P (parts ++ more) = t.follow P parts >>= fun Q => t.follow Q more := by
  induction parts generalizing P with
  | nil => rfl
  | cons part parts ih =>
    rw [List.cons_append, follow, follow]
    cases t.node? P with
    | none => rfl
    | some node =>
      cases node with
      | file content => rfl
      | directory =>
        dsimp only
        split
        · rfl
        · exact ih _

/-- A path that was followed can still be followed when directories are kept. -/
theorem follow_of_keeps (hkeeps : Keeps t t') {parts : List Text} (h : t.follow P parts = .ok Q) :
    t'.follow P parts = .ok Q := by
  induction parts generalizing P with
  | nil => exact h
  | cons part parts ih =>
    rw [follow] at h ⊢
    cases hnode : t.node? P with
    | none => simp [hnode] at h
    | some node =>
      cases node with
      | file content => simp [hnode] at h
      | directory =>
        simp only [hnode] at h
        simp only [hkeeps P hnode]
        split at h
        · cases h
        · next hlength =>
          rw [if_neg hlength]
          exact ih h

/-- A path leads to the same place as long as the directories stay. -/
theorem place_of_keeps (hkeeps : Keeps t t') (h : t.place p = .ok P) : t'.place p = .ok P := by
  unfold place at h ⊢
  cases hp : obstacle? p with
  | some problem => simp [hp] at h
  | none =>
    simp only [hp] at h ⊢
    exact follow_of_keeps hkeeps h

/-- A path leads to a directory at a place. -/
structure Leads (t : FileTree) (d : Path) (D : Place) : Prop where
  place : t.place d = .ok D
  isDirectory : t.node? D = some .directory

/-- A path leads to the same directory when directories are kept. -/
theorem Leads.of_keeps (h : Leads t d D) (hkeeps : Keeps t t') : Leads t' d D :=
  ⟨place_of_keeps hkeeps h.place, hkeeps D h.isDirectory⟩

/-- A path leads to one directory only. -/
theorem Leads.unique {D' : Place} (h : Leads t d D) (h' : Leads t d D') : D' = D :=
  Except.ok.inj (h'.place.symm.trans h.place)

/-- A path names a directory if and only if it leads to one. -/
theorem isDirectory_iff : t.isDirectory d = true ↔ ∃ D, Leads t d D := by
  unfold isDirectory find?
  cases hplace : t.place d with
  | error problem =>
    simp only [reduceCtorEq, decide_false, Bool.false_eq_true, false_iff, not_exists]
    intro D h
    rw [h.place] at hplace
    cases hplace
  | ok D =>
    rw [decide_eq_true_eq]
    constructor
    · exact fun h => ⟨D, hplace, h⟩
    · rintro ⟨D', h⟩
      obtain rfl : D' = D := Except.ok.inj (h.place.symm.trans hplace)
      exact h.isDirectory

/-! ## Entries of directories -/

/-- A name that can be followed and is shown as it is. -/
structure IsName (name : Text) : Prop where
  fits : Text.byteLength name ≤ Path.maxNameLength
  notUpward : name ≠ upward
  shown : Text.systemShown name = name

/-- A name leads to the entry of that name. -/
theorem follow_name (hname : IsName name) (h : t.node? P = some .directory) :
    t.follow P [name] = .ok (P ++ [name]) := by
  rw [follow]
  simp only [h, follow]
  rw [if_neg (Nat.not_lt.2 hname.fits), if_neg hname.notUpward, hname.shown]

/-- The place of an entry, if it can be followed at all. -/
theorem Leads.place_child (h : Leads t d D) (hname : IsName name)
    (hchild : obstacle? (d.child name) = none) : t.place (d.child name) = .ok (D ++ [name]) := by
  have hplace := h.place
  unfold FileTree.place at hplace ⊢
  simp only [obstacle?_of_child hchild] at hplace
  simp only [hchild]
  show t.follow (if d.isAbsolute then rootPlace else []) (d.parts ++ [name]) = _
  rw [follow_append, hplace]
  exact follow_name hname h.isDirectory

/-- A path to an entry goes through its directory. -/
theorem leads_of_place_child (hname : IsName name) (h : t.place (d.child name) = .ok P) :
    ∃ D, Leads t d D ∧ P = D ++ [name] := by
  unfold FileTree.place at h
  cases hchild : obstacle? (d.child name) with
  | some problem => simp [hchild] at h
  | none =>
    simp only [hchild] at h
    change t.follow (if d.isAbsolute then rootPlace else []) (d.parts ++ [name]) = _ at h
    rw [follow_append] at h
    cases hD : t.follow (if d.isAbsolute then rootPlace else []) d.parts with
    | error problem =>
      rw [hD] at h
      cases h
    | ok D =>
      rw [hD] at h
      change t.follow D [name] = .ok P at h
      have hplace : t.place d = .ok D := by
        unfold FileTree.place
        simp only [obstacle?_of_child hchild]
        exact hD
      cases hnode : t.node? D with
      | none => simp [follow, hnode] at h
      | some node =>
        cases node with
        | file content => simp [follow, hnode] at h
        | directory =>
          rw [follow_name hname hnode] at h
          exact ⟨D, ⟨hplace, hnode⟩, (Except.ok.inj h).symm⟩

/-- What the system refuses for its text alone is not refused as missing. -/
theorem obstacle?_ne_noSuchFile (p : Path) : obstacle? p ≠ some .noSuchFile := by
  unfold obstacle?
  cases Text.systemFault? p.text with
  | some fault => simp
  | none => split <;> simp

/-- What can be at an entry of a directory: an entry that cannot be followed at all is not one that
is missing. -/
theorem Leads.place_child_cases (h : Leads t d D) (hname : IsName name) :
    (t.place (d.child name) = .ok (D ++ [name]) ∧ obstacle? (d.child name) = none) ∨
      ∃ problem, obstacle? (d.child name) = some problem ∧ problem ≠ .noSuchFile ∧
        t.place (d.child name) = .error problem := by
  cases hchild : obstacle? (d.child name) with
  | none => exact .inl ⟨h.place_child hname hchild, rfl⟩
  | some problem =>
    refine .inr ⟨problem, rfl, ?_, ?_⟩
    · rintro rfl
      exact obstacle?_ne_noSuchFile _ hchild
    · unfold FileTree.place
      rw [hchild]

/-- The place of an entry depends only on the directory. -/
theorem Leads.place_child_eq (h : Leads t d D) (h' : Leads t' d D) (hname : IsName name) :
    t'.place (d.child name) = t.place (d.child name) := by
  rcases h.place_child_cases hname with ⟨hplace, hchild⟩ | ⟨problem, hchild, -, hplace⟩
  · rw [hplace, h'.place_child hname hchild]
  · rw [hplace]
    unfold FileTree.place
    rw [hchild]

/-! ## Writing files -/

/-- A file is written unless its place is a directory. -/
theorem write_eq_ok {content : FileContent} : t.write p content = .ok t' ↔
    ∃ P, t.place p = .ok P ∧ t.node? P ≠ some .directory ∧ t' = t.set P (.file content) := by
  unfold write
  cases t.place p with
  | error problem => simp
  | ok P => rcases hnode : t.node? P with _ | (_ | old) <;> simp [hnode, eq_comm]

/-! ## Creating directories -/

/-- A directory is made where nothing is. -/
theorem makeDirectory_eq_ok : t.makeDirectory p = .ok t' ↔
    ∃ P, t.place p = .ok P ∧ t.node? P = none ∧ t' = t.set P .directory := by
  unfold makeDirectory
  cases t.place p with
  | error problem => simp
  | ok P => cases hnode : t.node? P <;> simp [hnode, eq_comm]

/-- A directory that is there cannot be made. -/
theorem Leads.makeDirectory (h : Leads t d D) : t.makeDirectory d = .error .exists := by
  unfold FileTree.makeDirectory
  simp [h.place, h.isDirectory]

/-- Nothing is created where there is a directory. -/
theorem Leads.makeDirectories (h : Leads t d D) :
    t.makeDirectories d.start d.parts = (t, none) := by
  rw [FileTree.makeDirectories.eq_def]
  simp only [h.makeDirectory]
  rw [if_pos (isDirectory_iff.2 ⟨D, h⟩)]

theorem makeDirectories_of_makeDirectory (h : t.makeDirectory p = .ok t') :
    t.makeDirectories p.start p.parts = (t', none) := by
  rw [FileTree.makeDirectories.eq_def]
  simp only [h]

/-- Nothing is created where a file or a name is in the way. -/
theorem makeDirectories_blocked {problem : FileProblem} (h : t.makeDirectory p = .error problem)
    (hproblem : problem ≠ .noSuchFile) (hp : ¬ t.isDirectory p = true) :
    t.makeDirectories p.start p.parts = (t, some { problem, path := p }) := by
  rw [FileTree.makeDirectories.eq_def]
  simp only [h, hp]
  rfl

/-- The path of a directory that was made leads to it. -/
theorem leads_of_makeDirectory (h : t.makeDirectory p = .ok t') : ∃ P, Leads t' p P := by
  obtain ⟨P, hplace, hnode, rfl⟩ := makeDirectory_eq_ok.1 h
  have hfree : t.node? P ≠ some .directory := by simp [hnode]
  refine ⟨P, place_of_keeps (keeps_set hfree _) hplace, ?_⟩
  rw [node?_set hfree, if_pos rfl]

/-- The path of a directory that was ensured leads to it. -/
theorem leads_of_ensureDirectory (h : t.ensureDirectory p = .ok t') : ∃ P, Leads t' p P := by
  unfold ensureDirectory at h
  cases hmake : t.makeDirectory p with
  | ok made =>
    simp only [hmake] at h
    obtain rfl := Except.ok.inj h
    exact leads_of_makeDirectory hmake
  | error problem =>
    simp only [hmake] at h
    split at h
    · next hdirectory =>
      obtain rfl := Except.ok.inj h
      exact isDirectory_iff.1 hdirectory
    · cases h

/-- What creating directories comes down to: either the directory above is there, or it is created
first. -/
theorem makeDirectories_eq_ok (h : t.makeDirectories p.start p.parts = (t', none)) :
    t.makeDirectory p = .ok t' ∨ (t' = t ∧ t.isDirectory p = true) ∨
      ∃ above, t.makeDirectories p.start p.parts.dropLast = (above, none) ∧
        above.ensureDirectory p = .ok t' := by
  obtain ⟨start, parts⟩ := p
  rw [makeDirectories.eq_def] at h
  cases hmake : t.makeDirectory ⟨start, parts⟩ with
  | ok made =>
    simp only [hmake] at h
    exact .inl (congrArg Except.ok (Prod.mk.inj h).1)
  | error problem =>
    by_cases hproblem : problem = .noSuchFile
    · subst hproblem
      simp only [hmake] at h
      split at h
      · cases h
      · split at h
        · cases h
        · next above habove =>
          split at h
          · next made hensure =>
            obtain ⟨rfl, -⟩ := Prod.mk.inj h
            exact .inr (.inr ⟨above, habove, hensure⟩)
          · cases h
    · simp only [hmake] at h
      split at h
      · next hdirectory =>
        obtain ⟨rfl, -⟩ := Prod.mk.inj h
        exact .inr (.inl ⟨rfl, hdirectory⟩)
      · cases h

/-- The path that directories were made for leads to the last of them. -/
theorem leads_of_makeDirectories (h : t.makeDirectories p.start p.parts = (t', none)) :
    ∃ P, Leads t' p P := by
  rcases makeDirectories_eq_ok h with hmake | ⟨rfl, hdirectory⟩ | ⟨above, -, hensure⟩
  · exact leads_of_makeDirectory hmake
  · exact isDirectory_iff.1 hdirectory
  · exact leads_of_ensureDirectory hensure

/-- A directory can be created on its own after the one above it. -/
theorem makeDirectories_child (hname : IsName name)
    (h : t.makeDirectories (d.child name).start (d.child name).parts = (t', none)) :
    ∃ above, t.makeDirectories d.start d.parts = (above, none) ∧
      above.makeDirectories (d.child name).start (d.child name).parts = (t', none) := by
  have hthere {P : Place} (hplace : t.place (d.child name) = .ok P) :
      t.makeDirectories d.start d.parts = (t, none) := by
    obtain ⟨D, hD, -⟩ := leads_of_place_child hname hplace
    exact hD.makeDirectories
  -- if the entry can be followed, the directory above is there and creating it does nothing
  rcases makeDirectories_eq_ok h with hmake | ⟨rfl, hdirectory⟩ | ⟨above, habove, hensure⟩
  · obtain ⟨P, hplace, -⟩ := makeDirectory_eq_ok.1 hmake
    exact ⟨t, hthere hplace, h⟩
  · obtain ⟨P, hP⟩ := isDirectory_iff.1 hdirectory
    exact ⟨_, hthere hP.place, h⟩
  · refine ⟨above, by simpa [Path.child] using habove, ?_⟩
    unfold ensureDirectory at hensure
    cases hmake : above.makeDirectory (d.child name) with
    | ok made =>
      simp only [hmake] at hensure
      obtain rfl := Except.ok.inj hensure
      exact makeDirectories_of_makeDirectory hmake
    | error problem =>
      simp only [hmake] at hensure
      split at hensure
      · next hdirectory =>
        obtain rfl := Except.ok.inj hensure
        obtain ⟨P, hP⟩ := isDirectory_iff.1 hdirectory
        exact hP.makeDirectories
      · cases hensure

/-- What creating an entry of a directory comes down to. -/
theorem Leads.makeDirectories_child (hD : Leads t d D) (hname : IsName name) :
    t.makeDirectories (d.child name).start (d.child name).parts =
      match obstacle? (d.child name), t.node? (D ++ [name]) with
      | some problem, _ => (t, some { problem, path := d.child name })
      | none, some (.file _) => (t, some { problem := .exists, path := d.child name })
      | none, some .directory => (t, none)
      | none, none => (t.set (D ++ [name]) .directory, none) := by
  have hdirectory {P : Place} (hplace : t.place (d.child name) = .ok P) :
      t.isDirectory (d.child name) = true ↔ t.node? P = some .directory := by
    simp [FileTree.isDirectory, find?, hplace]
  rcases hD.place_child_cases hname with ⟨hplace, hchild⟩ | ⟨problem, hchild, hproblem, hplace⟩
  · rw [hchild]
    cases hnode : t.node? (D ++ [name]) with
    | none => exact makeDirectories_of_makeDirectory (makeDirectory_eq_ok.2 ⟨_, hplace, hnode, rfl⟩)
    | some node =>
      cases node with
      | directory => exact Leads.makeDirectories ⟨hplace, hnode⟩
      | file content =>
        have hmake : t.makeDirectory (d.child name) = .error .exists := by
          simp [FileTree.makeDirectory, hplace, hnode]
        exact makeDirectories_blocked hmake (by simp) (by simp [hdirectory hplace, hnode])
  · rw [hchild]
    have hmake : t.makeDirectory (d.child name) = .error problem := by
      simp [FileTree.makeDirectory, hplace]
    exact makeDirectories_blocked hmake hproblem (by simp [FileTree.isDirectory, find?, hplace])

/-- Below a directory only the entry itself has to be made. -/
theorem Leads.ensureDirectory_child (hD : Leads t d D)
    (h : t.makeDirectories (d.child name).start (d.child name).parts = (t', none)) :
    t.ensureDirectory (d.child name) = .ok t' := by
  unfold FileTree.ensureDirectory
  rcases makeDirectories_eq_ok h with hmake | ⟨rfl, hdirectory⟩ | ⟨above, habove, hensure⟩
  · rw [hmake]
  · obtain ⟨P, hP⟩ := isDirectory_iff.1 hdirectory
    rw [hP.makeDirectory]
    exact if_pos hdirectory
  · rw [show (d.child name).parts.dropLast = d.parts by simp [Path.child]] at habove
    obtain ⟨rfl, -⟩ := Prod.mk.inj (hD.makeDirectories.symm.trans habove)
    exact hensure

/-- An entry of a directory that has yet to be created is missing. -/
theorem place_child_of_missing {above : FileTree}
    (habove : t.makeDirectories d.start d.parts = (above, none)) (hmissing : ¬ ∃ D, Leads t d D)
    (hchild : obstacle? (d.child name) = none) : t.place (d.child name) = .error .noSuchFile := by
  have hblocked {problem : FileProblem} (hmake : t.makeDirectory d = .error problem)
      (hproblem : problem ≠ .noSuchFile) : False := by
    have hfault :=
      makeDirectories_blocked hmake hproblem fun hdirectory =>
        hmissing (isDirectory_iff.1 hdirectory)
    cases (Prod.mk.inj (hfault.symm.trans habove)).2
  have hplace : t.place (d.child name) = t.place d >>= fun D => t.follow D [name] := by
    unfold place
    rw [hchild, obstacle?_of_child hchild]
    exact follow_append t _ d.parts [name]
  rw [hplace]
  cases hd : t.place d with
  | error problem =>
    by_contra hne
    exact hblocked (by rw [FileTree.makeDirectory, hd]) fun heq => hne (by rw [heq]; rfl)
  | ok P =>
    rcases hnode : t.node? P with _ | (_ | content)
    · simp [bind, Except.bind, follow, hnode]
    · exact absurd ⟨P, hd, hnode⟩ hmissing
    · have hexists : t.makeDirectory d = .error .exists := by
        simp [FileTree.makeDirectory, hd, hnode]
      exact (hblocked hexists (by simp)).elim

/-- A directory can be created together with the one above it. -/
theorem makeDirectories_child_of_above {above : FileTree} (hname : IsName name)
    (habove : t.makeDirectories d.start d.parts = (above, none))
    (h : above.makeDirectories (d.child name).start (d.child name).parts = (t', none)) :
    t.makeDirectories (d.child name).start (d.child name).parts = (t', none) := by
  -- if the directory above is missing, so is the entry, and creating the entry creates both
  by_cases hthere : ∃ D, Leads t d D
  · obtain ⟨D, hD⟩ := hthere
    obtain ⟨rfl, -⟩ := Prod.mk.inj (hD.makeDirectories.symm.trans habove)
    exact h
  · obtain ⟨D, hD⟩ := leads_of_makeDirectories habove
    have hensure := hD.ensureDirectory_child h
    have hchild : obstacle? (d.child name) = none := by
      rw [hD.makeDirectories_child hname] at h
      cases hobstacle : obstacle? (d.child name) with
      | none => rfl
      | some problem => simp [hobstacle] at h
    have hmake : t.makeDirectory (d.child name) = .error .noSuchFile := by
      rw [FileTree.makeDirectory, place_child_of_missing habove hthere hchild]
    have hparts : (d.child name).parts ≠ [] := by simp [Path.child]
    have hfirst :
        t.makeDirectories (d.child name).start (d.child name).parts.dropLast = (above, none) := by
      simpa [Path.child] using habove
    rw [FileTree.makeDirectories.eq_def]
    simp only [hmake]
    split
    · next hnil => exact absurd hnil hparts
    · simp only [hfirst, hensure]

/-! ## Changes below an entry -/

/-- Nothing changes but what lies below one entry of a directory. -/
structure Touches (t t' : FileTree) (D : Place) (name : Text) : Prop where
  keeps : Keeps t t'
  others : ∀ Q, ¬ D ++ [name] <+: Q → t'.node? Q = t.node? Q

theorem Touches.refl (t : FileTree) (D : Place) (name : Text) : Touches t t D name :=
  ⟨.refl t, fun _ _ => rfl⟩

theorem Touches.trans {t'' : FileTree} (h : Touches t t' D name) (h' : Touches t' t'' D name) :
    Touches t t'' D name :=
  ⟨fun P hP => h'.keeps P (h.keeps P hP), fun Q hQ => (h'.others Q hQ).trans (h.others Q hQ)⟩

/-- Setting a place at or below an entry touches only the entry. -/
theorem touches_set (hP : D ++ [name] <+: P) (h : t.node? P ≠ some .directory) (n : FileNode) :
    Touches t (t.set P n) D name := by
  refine ⟨keeps_set h n, fun Q hQ => ?_⟩
  have hne : Q ≠ P := by
    rintro rfl
    exact hQ hP
  rw [node?_set h, if_neg hne]

/-- The other entries and what is in them stay as they are. -/
theorem Touches.other (h : Touches t t' D name) {other : Text} (hne : other ≠ name)
    (rest : List Text) : t'.node? (D ++ other :: rest) = t.node? (D ++ other :: rest) := by
  apply h.others
  rw [List.prefix_append_right_inj, List.cons_prefix_cons]
  exact fun hname => hne hname.1.symm

/-- Writing the file of an entry touches only the entry. -/
theorem touches_write {content : FileContent} (hD : Leads t d D) (hname : IsName name)
    (h : t.write (d.child name) content = .ok t') : Touches t t' D name := by
  obtain ⟨P, hplace, hnode, rfl⟩ := write_eq_ok.1 h
  obtain ⟨D', hD', rfl⟩ := leads_of_place_child hname hplace
  obtain rfl := hD.unique hD'
  exact touches_set (List.prefix_refl _) hnode _

/-- Making the directory of an entry touches only the entry. -/
theorem touches_makeDirectories (hD : Leads t d D) (hname : IsName name) :
    Touches t (t.makeDirectories (d.child name).start (d.child name).parts).1 D name := by
  rw [hD.makeDirectories_child hname]
  split
  · exact .refl t D name
  · exact .refl t D name
  · exact .refl t D name
  · next hnode => exact touches_set (List.prefix_refl _) (by simp [hnode]) _

end FileTree

end CallAudit
