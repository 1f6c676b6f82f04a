import Mathlib.Tactic

/-!
# Results that may fail

Computations with results in `Except` succeed exactly if their parts do. A look-up among entries
with different keys finds exactly these entries (`lookup_eq_some_iff_mem`).
-/

namespace CallAudit

variable {α β ε : Type}

theorem bind_eq_ok {x : Except ε α} {f : α → Except ε β} {b : β} :
    x >>= f = .ok b ↔ ∃ a, x = .ok a ∧ f a = .ok b := by
  cases x with
  | error e => simp [bind, Except.bind]
  | ok a => simp [bind, Except.bind]

theorem map_eq_ok {x : Except ε α} {f : α → β} {b : β} :
    x.map f = .ok b ↔ ∃ a, x = .ok a ∧ f a = b := by
  cases x with
  | error e => simp [Except.map]
  | ok a => simp [Except.map]

/-- Reading a list succeeds exactly if it succeeds on each member, with the results in order. -/
theorem mapM_eq_ok {f : α → Except ε β} {l : List α} {bs : List β} :
    l.mapM f = .ok bs ↔ l.map f = bs.map .ok := by
  induction l generalizing bs with
  | nil =>
    rw [List.mapM_nil, List.map_nil, eq_comm (a := [])]
    constructor
    · intro h
      rw [← Except.ok.inj h]
      rfl
    · intro h
      rw [List.map_eq_nil_iff.1 h]
      rfl
  | cons a l ih =>
    rw [List.mapM_cons, List.map_cons]
    constructor
    · intro h
      obtain ⟨b, hb, h⟩ := bind_eq_ok.1 h
      obtain ⟨rest, hrest, h⟩ := bind_eq_ok.1 h
      obtain rfl := Except.ok.inj h
      rw [hb, ih.1 hrest, List.map_cons]
    · intro h
      cases bs with
      | nil => cases h
      | cons b rest =>
        obtain ⟨hb, hrest⟩ := List.cons.inj h
        rw [hb, ih.2 hrest]
        rfl

/-- Reading a list depends on how its members are read only. -/
theorem mapM_congr {f f' : α → Except ε β} {l : List α} (h : ∀ a ∈ l, f a = f' a) :
    l.mapM f = l.mapM f' := by
  induction l with
  | nil => rfl
  | cons a l ih =>
    rw [List.mapM_cons, List.mapM_cons, h a List.mem_cons_self,
      ih fun x hx => h x (List.mem_cons_of_mem a hx)]

/-- Reading succeeds on a list if it succeeds on each member. -/
theorem mapM_ok {f : α → Except ε β} {l : List α} (h : ∀ a ∈ l, ∃ b, f a = .ok b) :
    ∃ bs, l.mapM f = .ok bs := by
  induction l with
  | nil => exact ⟨[], rfl⟩
  | cons a l ih =>
    obtain ⟨b, hb⟩ := h a List.mem_cons_self
    obtain ⟨bs, hbs⟩ := ih fun x hx => h x (List.mem_cons_of_mem a hx)
    exact ⟨b :: bs, by rw [List.mapM_cons, hb, hbs]; rfl⟩

theorem ok_of_mapM {f : α → Except ε β} {l : List α} {bs : List β} (h : l.mapM f = .ok bs) :
    ∀ a ∈ l, ∃ b, f a = .ok b := by
  intro a ha
  have hmem : f a ∈ bs.map Except.ok := mapM_eq_ok.1 h ▸ List.mem_map_of_mem ha
  obtain ⟨b, -, hb⟩ := List.mem_map.1 hmem
  exact ⟨b, hb.symm⟩

/-- What a member and its result have in common is the same along both lists. -/
theorem map_eq_of_mapM {γ : Type} {f : α → Except ε β} {g : α → γ} {g' : β → γ} {l : List α}
    {bs : List β} (h : l.mapM f = .ok bs) (hg : ∀ a ∈ l, ∀ b, f a = .ok b → g a = g' b) :
    l.map g = bs.map g' := by
  rw [mapM_eq_ok] at h
  induction l generalizing bs with
  | nil => rw [List.map_eq_nil_iff.1 h.symm, List.map_nil, List.map_nil]
  | cons a l ih =>
    cases bs with
    | nil => cases h
    | cons b bs =>
      obtain ⟨hb, hrest⟩ := List.cons.inj h
      rw [List.map_cons, List.map_cons, hg a List.mem_cons_self b hb,
        ih hrest fun x hx => hg x (List.mem_cons_of_mem a hx)]

/-- Reading a list fails with the first member that cannot be read. -/
theorem mapM_eq_error {f : α → Except ε β} {l : List α} {e : ε} :
    l.mapM f = .error e ↔ ∃ before a after, l = before ++ a :: after ∧
      (∀ x ∈ before, ∃ b, f x = .ok b) ∧ f a = .error e := by
  induction l with
  | nil =>
    constructor
    · intro h
      cases h
    · rintro ⟨before, a, after, h, -⟩
      simp at h
  | cons x l ih =>
    rw [List.mapM_cons]
    cases hx : f x with
    | error e' =>
      constructor
      · intro h
        exact ⟨[], x, l, rfl, by simp, hx.trans (congrArg _ (Except.error.inj h))⟩
      · rintro ⟨before, a, after, h, hbefore, ha⟩
        cases before with
        | nil =>
          obtain ⟨rfl, -⟩ := List.cons.inj h
          rw [hx] at ha
          exact congrArg _ (Except.error.inj ha)
        | cons y before =>
          obtain ⟨rfl, -⟩ := List.cons.inj h
          obtain ⟨b, hb⟩ := hbefore x List.mem_cons_self
          cases hx.symm.trans hb
    | ok b =>
      have hrest : (do let bs ← l.mapM f; pure (b :: bs)) = .error e ↔ l.mapM f = .error e := by
        cases l.mapM f <;> simp [bind, Except.bind, pure, Except.pure]
      refine hrest.trans (ih.trans ⟨?_, ?_⟩)
      · rintro ⟨before, a, after, rfl, hbefore, ha⟩
        exact ⟨x :: before, a, after, rfl, List.forall_mem_cons.2 ⟨⟨b, hx⟩, hbefore⟩, ha⟩
      · rintro ⟨before, a, after, h, hbefore, ha⟩
        cases before with
        | nil =>
          obtain ⟨rfl, -⟩ := List.cons.inj h
          cases hx.symm.trans ha
        | cons y before =>
          obtain ⟨-, rfl⟩ := List.cons.inj h
          exact ⟨before, a, after, rfl, (List.forall_mem_cons.1 hbefore).2, ha⟩

/-- Reading a list whose members are all read. -/
theorem mapM_eq_map {f : α → Except ε β} {g : α → β} {l : List α} (h : ∀ a ∈ l, f a = .ok (g a)) :
    l.mapM f = .ok (l.map g) := by
  rw [mapM_eq_ok, List.map_map]
  exact List.map_congr_left h

theorem mapM_of_forall₂ {f : α → Except ε β} {l : List α} {bs : List β}
    (h : List.Forall₂ (fun a b => f a = .ok b) l bs) : l.mapM f = .ok bs := by
  induction h with
  | nil => rfl
  | cons hfirst _ ih =>
    rw [List.mapM_cons, hfirst, ih]
    rfl

/-- Members that are related to something are related to a list. -/
theorem exists_forall₂ {R : α → β → Prop} {l : List α} (h : ∀ a ∈ l, ∃ b, R a b) :
    ∃ bs, List.Forall₂ R l bs := by
  induction l with
  | nil => exact ⟨[], .nil⟩
  | cons a l ih =>
    obtain ⟨⟨b, hb⟩, hl⟩ := List.forall_mem_cons.1 h
    obtain ⟨bs, hbs⟩ := ih hl
    exact ⟨b :: bs, .cons hb hbs⟩

theorem forall_mem_of_forall₂ {R : α → β → Prop} {p : β → Prop} {l : List α} {bs : List β}
    (h : List.Forall₂ R l bs) (hp : ∀ a b, R a b → p b) : ∀ b ∈ bs, p b := by
  induction h with
  | nil => exact fun b hb => absurd hb List.not_mem_nil
  | cons hfirst _ ih => exact List.forall_mem_cons.2 ⟨hp _ _ hfirst, ih⟩

/-- If members can fail in one way only, reading a list with a member that fails does so. -/
theorem mapM_eq_error_of_mem {f : α → Except ε β} {l : List α} {e : ε}
    (hf : ∀ a ∈ l, ∀ e', f a = .error e' → e' = e) {a : α} (ha : a ∈ l) (hfails : f a = .error e) :
    l.mapM f = .error e := by
  cases h : l.mapM f with
  | ok bs =>
    obtain ⟨b, hb⟩ := ok_of_mapM h a ha
    cases hb.symm.trans hfails
  | error e' =>
    obtain ⟨before, x, after, hl, -, hx⟩ := mapM_eq_error.1 h
    rw [hf x (by simp [hl]) e' hx]

/-- Members that are read beside themselves. -/
theorem mapM_beside_eq_ok {f : α → Except ε β} {l : List α} {ps : List (α × β)} :
    l.mapM (fun a => (f a).map fun b => (a, b)) = .ok ps ↔
      ps.map (·.1) = l ∧ ∀ p ∈ ps, f p.1 = .ok p.2 := by
  have hpair {a : α} {p : α × β} : (f a).map (fun b => (a, b)) = .ok p ↔
      p.1 = a ∧ f p.1 = .ok p.2 := by
    obtain ⟨a', b⟩ := p
    constructor
    · intro h
      cases hf : f a with
      | error e => simp [hf, Except.map] at h
      | ok b' =>
        rw [hf] at h
        obtain ⟨rfl, rfl⟩ := Prod.mk.inj (Except.ok.inj h)
        exact ⟨rfl, hf⟩
    · rintro ⟨rfl, hf⟩
      simp only [hf, Except.map]
  rw [mapM_eq_ok]
  induction l generalizing ps with
  | nil =>
    rw [List.map_nil, eq_comm, List.map_eq_nil_iff, List.map_eq_nil_iff]
    exact ⟨fun h => ⟨h, by simp [h]⟩, fun h => h.1⟩
  | cons a l ih =>
    cases ps with
    | nil => simp
    | cons p ps =>
      simp only [List.map_cons, List.cons.injEq, hpair, ih, List.forall_mem_cons]
      tauto

/-- Reading a list in another order gives the same results in another order. -/
theorem mapM_perm {f : α → Except ε β} {l l' : List α} {bs : List β} (h : l.mapM f = .ok bs)
    (hl : l.Perm l') : ∃ bs', l'.mapM f = .ok bs' ∧ bs.Perm bs' := by
  obtain ⟨bs', hbs'⟩ := mapM_ok fun a ha => ok_of_mapM h a (hl.mem_iff.2 ha)
  refine ⟨bs', hbs', ?_⟩
  have hmaps : (bs.map (Except.ok (ε := ε))).Perm (bs'.map Except.ok) := by
    rw [← mapM_eq_ok.1 h, ← mapM_eq_ok.1 hbs']
    exact hl.map f
  exact (List.map_perm_map_iff fun _ _ e => Except.ok.inj e).1 hmaps

/-- If no key occurs twice, an entry is found by its key. -/
theorem lookup_eq_some_iff_mem [BEq α] [LawfulBEq α] {l : List (α × β)}
    (hl : (l.map (·.1)).Nodup) {a : α} {b : β} : l.lookup a = some b ↔ (a, b) ∈ l := by
  induction l with
  | nil => simp
  | cons entry l ih =>
    obtain ⟨k, v⟩ := entry
    obtain ⟨hk, hl⟩ := List.nodup_cons.1 hl
    rw [List.lookup_cons, List.mem_cons, Prod.mk.injEq]
    by_cases hak : a = k
    · subst hak
      have hnot : (a, b) ∉ l := fun hmem => hk (List.mem_map_of_mem (f := (·.1)) hmem)
      simp [hnot, eq_comm]
    · rw [beq_false_of_ne hak]
      simp [hak, ih hl]

end CallAudit
