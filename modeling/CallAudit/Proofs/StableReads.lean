import CallAudit.Proofs.Opening
import CallAudit.Proofs.Requests

/-!
# Reads are stable

While others write to the table of a store, the store goes on answering what it has answered before.
A key that has been looked up is remembered with its record or as absent, and a key that was written
with what was written; only the store itself changes that, by writing the key
(`Store.Access.On.happen`). A look-up that fails because the row cannot be read is not remembered,
so that the next one reads the row as it is then (`Store.reads_are_stable`).
-/

namespace CallAudit

namespace Store

variable {α : Type}

/-- What can happen to a store: it is asked for something, or somebody else gives the table other
rows. -/
inductive Event (α : Type)
  | ask (request : StoreRequest α)
  | outside (rows : Table)

namespace Access

variable {a a' : Access α} {T T' : Table} {n : Nat} {key : Text} {request : StoreRequest α}

/-- Gives the table in the file of a store other rows, without the store taking part. -/
def outside (a : Access α) (rows : Table) : Access α :=
  match tableContent a.files a.store.path with
  | .error _ => a
  | .ok content =>
    match a.files.write (tableFile a.store.path) (content.withTable rows) with
    | .error _ => a
    | .ok files => { a with files }

/-- The store after an event. -/
def happen (a : Access α) : Event α → Access α
  | .ask request => (a.perform request).1
  | .outside rows => a.outside rows

/-- The store before the event of a number. -/
def before (a : Access α) (events : List (Event α)) (i : Nat) : Access α :=
  (events.take i).foldl happen a

/-- The answer to a request. -/
def answerTo (a : Access α) (request : StoreRequest α) : Except Failure (StoreAnswer α) :=
  (a.perform request).2

/-- The store itself writes a key. -/
def Inserts (a : Access α) (key : Text) : Event α → Prop
  | .ask request => lastIn key (batchOf request) ≠ none ∧ ∃ answer, a.answerTo request = .ok answer
  | .outside _ => False

theorem before_succ (a : Access α) {events : List (Event α)} {i : Nat} {event : Event α}
    (h : events[i]? = some event) : a.before events (i + 1) = (a.before events i).happen event := by
  rw [before, before, List.take_add_one, h, Option.toList_some, List.foldl_append]
  rfl

/-! ## One event -/

/-- Rows that others write are noticed. -/
theorem On.outside (h : a.On T n) (rows : Table) :
    ∃ n', (a.outside rows).On rows n' ∧ (a.outside rows).store = a.store := by
  by_cases hsame : T = rows
  · subst hsame
    obtain ⟨t', hwrite, hcontent⟩ := write_tableFile h.reads.content T n
    have houtside : a.outside T = { a with files := t' } := by
      unfold Access.outside
      simp [h.reads.content, FileContent.withTable, hwrite]
    rw [houtside]
    exact ⟨n, ⟨⟨hcontent, h.reads.session⟩, h.isOpen⟩, rfl⟩
  · obtain ⟨t', hwrite, hcontent⟩ := write_tableFile h.reads.content rows (n + 1)
    have houtside : a.outside rows = { a with files := t' } := by
      unfold Access.outside
      simp [h.reads.content, FileContent.withTable, hsame, hwrite]
    rw [houtside]
    exact ⟨n + 1, ⟨⟨hcontent, h.reads.session.changed rows⟩, h.isOpen⟩, rfl⟩

/-- A request that writes leaves what is known of other keys, and of all keys if it fails. -/
theorem On.perform_put (h : a.On T n) (hrequest : IsPut request) :
    ∃ T' n', (a.perform request).1.On T' n' ∧ Same a (a.perform request).1 ∧
      ((∃ e, a.answerTo request = .error e ∧ (a.perform request).1.store.known = a.store.known) ∨
        ∃ answer, a.answerTo request = .ok answer ∧
          ∀ key, (a.perform request).1.store.known key =
            ((lastIn key (batchOf request)).map some).or (a.store.known key)) := by
  unfold answerTo
  cases hbatch : tableWith a.store.format T (batchOf request) with
  | error e =>
    obtain ⟨a₁, hperform, hon, hsame, hknown⟩ := perform_error h hrequest hbatch
    rw [hperform]
    exact ⟨T, n, hon, hsame, .inl ⟨e, rfl, hknown⟩⟩
  | ok T' =>
    obtain ⟨a₁, answer, n', hperform, hon, hsame, hknown, -⟩ := Access.perform_put h hrequest hbatch
    rw [hperform]
    exact ⟨T', n', hon, hsame, .inr ⟨answer, rfl, hknown⟩⟩

theorem known_congr {s s' : Store α} (hcache : s'.cache = s.cache)
    (hmisses : s'.misses = s.misses) : s'.known = s.known := by
  funext key
  rw [known, known, hcache, hmisses]

/-- A look-up leaves what is known of other keys, and of its own key if that was known. -/
theorem On.perform_get (h : a.On T n) (key : Text) :
    (a.perform (.get key)).1.On T n ∧ Same a (a.perform (.get key)).1 ∧
      ∀ other, a.store.known other ≠ none ∨ other ≠ key →
        (a.perform (.get key)).1.store.known other = a.store.known other := by
  obtain ⟨a₁, hperform, hon, hsame, hok, herror⟩ := Access.perform_get h key
  rw [hperform]
  refine ⟨hon, hsame, fun other hother => ?_⟩
  cases hanswer : a.store.answer T key with
  | error e =>
    obtain ⟨hcache, hmisses⟩ := herror e hanswer
    exact congrFun (known_congr hcache hmisses) other
  | ok r =>
    rw [hok r hanswer]
    split
    · next heq =>
      subst heq
      obtain ⟨r', hr'⟩ := Option.ne_none_iff_exists'.1 (hother.resolve_right fun hne => hne rfl)
      rw [Store.answer, hr'] at hanswer
      rw [hr', ← Except.ok.inj hanswer]
    · rfl

/-- **One event.** The store goes on reading its table, and what it knows of a key stays, unless it
writes the key, or looks it up while it knows nothing of it. -/
theorem On.happen (h : a.On T n) (event : Event α) :
    (∃ T' n', (a.happen event).On T' n') ∧ Same a (a.happen event) ∧
      ∀ key, ¬ a.Inserts key event → (a.store.known key ≠ none ∨ event ≠ .ask (.get key)) →
        (a.happen event).store.known key = a.store.known key := by
  have hput {request : StoreRequest α} (hrequest : IsPut request) :
      (∃ T' n', (a.happen (.ask request)).On T' n') ∧ Same a (a.happen (.ask request)) ∧
        ∀ key, ¬ a.Inserts key (.ask request) →
          (a.store.known key ≠ none ∨ Event.ask request ≠ .ask (.get key)) →
          (a.happen (.ask request)).store.known key = a.store.known key := by
    obtain ⟨T', n', hon, hsame, ⟨e, -, hknown⟩ | ⟨answer, hanswer, hknown⟩⟩ :=
      h.perform_put hrequest
    · exact ⟨⟨T', n', hon⟩, hsame, fun key _ _ => congrFun hknown key⟩
    · refine ⟨⟨T', n', hon⟩, hsame, fun key hnot _ => (hknown key).trans ?_⟩
      have hlast : lastIn key (batchOf request) = none :=
        Decidable.byContradiction fun hlast => hnot ⟨hlast, answer, hanswer⟩
      rw [hlast]
      rfl
  cases event with
  | outside rows =>
    obtain ⟨n', hon, hstore⟩ := h.outside rows
    refine ⟨⟨rows, n', hon⟩, ?_, fun key _ _ => ?_⟩
    · exact ⟨congrArg Store.path hstore, congrArg Store.format hstore⟩
    · exact congrFun (congrArg Store.known hstore) key
  | ask request =>
    cases request with
    | get key =>
      obtain ⟨hon, hsame, hknown⟩ := h.perform_get key
      refine ⟨⟨T, n, hon⟩, hsame, fun other _ hother => hknown other (hother.imp_right ?_)⟩
      rintro hne rfl
      exact hne rfl
    | insert key value => exact hput (.insert key value)
    | insertMany batch => exact hput (.insertMany batch)
    | items =>
      obtain ⟨a₁, hperform, hon, hsame, hknown⟩ := perform_items h
      have ha₁ : a.happen (.ask .items) = a₁ := congrArg Prod.fst hperform
      rw [ha₁]
      exact ⟨⟨T, n, hon⟩, hsame, fun key _ _ => congrFun hknown key⟩
    | size =>
      obtain ⟨a₁, hperform, hon, hsame, hknown⟩ := perform_size h
      have ha₁ : a.happen (.ask .size) = a₁ := congrArg Prod.fst hperform
      rw [ha₁]
      exact ⟨⟨T, n, hon⟩, hsame, fun key _ _ => congrFun hknown key⟩

/-! ## All events -/

variable {events : List (Event α)} {i j : Nat}

theorem On.before (h : a.On T n) (events : List (Event α)) (i : Nat) :
    (∃ T' n', (a.before events i).On T' n') ∧ Same a (a.before events i) := by
  induction i with
  | zero => exact ⟨⟨T, n, h⟩, rfl, rfl⟩
  | succ i ih =>
    obtain ⟨⟨T', n', hon⟩, hsame⟩ := ih
    cases hevent : events[i]? with
    | none =>
      have hend : a.before events (i + 1) = a.before events i := by
        rw [Access.before, Access.before, List.take_add_one, hevent, Option.toList_none,
          List.append_nil]
      rw [hend]
      exact ⟨⟨T', n', hon⟩, hsame⟩
    | some event =>
      rw [before_succ a hevent]
      obtain ⟨hon', hsame', -⟩ := hon.happen event
      exact ⟨hon', hsame'.path.trans hsame.path, hsame'.format.trans hsame.format⟩

/-- What is known of a key stays from one event to a later one. -/
theorem On.known_before (h : a.On T n) (hij : i ≤ j) (hj : j ≤ events.length)
    (hnot : ∀ k event, i ≤ k → k < j → events[k]? = some event →
    ¬ (a.before events k).Inserts key event) (hget : (a.before events i).store.known key ≠ none ∨
      ∀ k, i ≤ k → k < j → events[k]? ≠ some (.ask (.get key))) :
    (a.before events j).store.known key = (a.before events i).store.known key := by
  induction j, hij using Nat.le_induction with
  | base => rfl
  | succ j hij ih =>
    have hrest := ih (by omega) (fun k event hk hkj => hnot k event hk (by omega))
      (hget.imp_right fun hget k hk hkj => hget k hk (by omega))
    have hevent : events[j]? = some (events[j]) := List.getElem?_eq_getElem (by omega)
    obtain ⟨⟨T', n', hon⟩, -⟩ := h.before events j
    rw [before_succ a hevent, ← hrest]
    refine (hon.happen _).2.2 key (hnot j _ hij (by omega) hevent) ?_
    refine hget.imp (fun hknown => hrest ▸ hknown) fun hget heq => ?_
    exact hget j hij (by omega) (hevent.trans (congrArg some heq))

theorem On.answerTo_get (h : a.On T n) (key : Text) :
    a.answerTo (.get key) = (a.store.answer T key).map .record := by
  obtain ⟨a₁, hperform, -⟩ := Access.perform_get h key
  rw [answerTo, hperform]

theorem On.answerTo_of_known (h : a.On T n) {r : Option α} (hknown : a.store.known key = some r) :
    a.answerTo (.get key) = .ok (.record r) := by
  rw [h.answerTo_get, Store.answer, hknown]
  rfl

/-- What has been answered is known. -/
theorem On.known_of_answerTo (h : a.On T n) {r : Option α}
    (hanswer : a.answerTo (.get key) = .ok (.record r)) :
    (a.happen (.ask (.get key))).store.known key = some r := by
  obtain ⟨a₁, hperform, -, -, hok, -⟩ := Access.perform_get h key
  have ha₁ : a.happen (.ask (.get key)) = a₁ := congrArg Prod.fst hperform
  rw [h.answerTo_get] at hanswer
  cases hr : a.store.answer T key with
  | error e => simp [hr, Except.map] at hanswer
  | ok r' =>
    simp only [hr, Except.map, Except.ok.injEq, StoreAnswer.record.injEq] at hanswer
    rw [ha₁, hok r' hr, if_pos rfl, hanswer]

/-- What has been written is known. -/
theorem On.known_of_put (h : a.On T n) {b : α} {answer : StoreAnswer α}
    (hlast : lastIn key (batchOf request) = some b) (hanswer : a.answerTo request = .ok answer) :
    (a.happen (.ask request)).store.known key = some (some b) := by
  have hrequest : IsPut request := by
    cases request with
    | insert key value => exact .insert key value
    | insertMany batch => exact .insertMany batch
    | _ => cases hlast
  obtain ⟨T', n', -, -, ⟨e, herror, -⟩ | ⟨answer', -, hknown⟩⟩ := h.perform_put hrequest
  · rw [hanswer] at herror
    cases herror
  · exact (hknown key).trans (by rw [hlast]; rfl)

/-- A look-up that fails leaves no trace in memory, where nothing was known of the key. -/
theorem On.forgets_of_error (h : a.On T n) {e : Failure}
    (hanswer : a.answerTo (.get key) = .error e) :
    a.store.known key = none ∧ (a.happen (.ask (.get key))).store.cache = a.store.cache ∧
      (a.happen (.ask (.get key))).store.misses = a.store.misses := by
  obtain ⟨a₁, hperform, -, -, -, herror⟩ := Access.perform_get h key
  have ha₁ : a.happen (.ask (.get key)) = a₁ := congrArg Prod.fst hperform
  cases hknown : a.store.known key with
  | some r =>
    rw [h.answerTo_of_known hknown] at hanswer
    cases hanswer
  | none =>
    rw [h.answerTo_get] at hanswer
    cases hr : a.store.answer T key with
    | ok r => simp [hr, Except.map] at hanswer
    | error e' => exact ⟨rfl, ha₁ ▸ herror e' hr⟩

/-- The store does not write a key between two events. -/
def Untouched (a : Access α) (events : List (Event α)) (key : Text) (i j : Nat) : Prop :=
  ∀ k event, i < k → k < j → events[k]? = some event → ¬ (a.before events k).Inserts key event

/-- What is known after an event is answered until the store writes the key. -/
theorem On.answerTo_later (h : a.On T n) (hij : i < j) (hj : j ≤ events.length) {r : Option α}
    (hknown : (a.before events (i + 1)).store.known key = some r)
    (huntouched : a.Untouched events key i j) :
    (a.before events j).answerTo (.get key) = .ok (.record r) := by
  obtain ⟨⟨T', n', hon⟩, -⟩ := h.before events j
  refine hon.answerTo_of_known ?_
  rw [h.known_before hij hj (fun k event hk hkj => huntouched k event (by omega) hkj)
    (.inl (by simp [hknown])), hknown]

theorem readRow_congr {s s' : Store α} (hpath : s'.path = s.path) (hformat : s'.format = s.format)
    (T : Table) (key : Text) : s'.readRow T key = s.readRow T key := by
  simp only [readRow, decode_congr hpath hformat]

end Access

open Access

/-- **Reads are stable.** Whatever is asked of a store and whatever others write to its table in
between, a look-up gives what the last one has given, if that succeeded, or what the store itself
has written under the key since. A look-up that failed leaves the memory of the store as it was, and
the next one gives what the row says then. -/
theorem reads_are_stable (path : Path) (format : RecordFormat α) (w w' : World) (s : Store α)
    (hopen : (openAt path format).run.run w = (.ok s, w')) (events : List (Event α)) (key : Text)
    (i j : Nat) (hij : i < j) (hj : events[j]? = some (.ask (.get key))) :
    let a : Access α := ⟨w'.files, s⟩
    (∀ r, events[i]? = some (.ask (.get key)) →
      (a.before events i).answerTo (.get key) = .ok (.record r) →
      a.Untouched events key i j → (a.before events j).answerTo (.get key) = .ok (.record r)) ∧
    (∀ request b answer, events[i]? = some (.ask request) → lastIn key (batchOf request) = some b →
      (a.before events i).answerTo request = .ok answer →
      a.Untouched events key i j → (a.before events j).answerTo (.get key) =
        .ok (.record (some b))) ∧
    (∀ e, events[i]? = some (.ask (.get key)) → (a.before events i).answerTo (.get key) = .error e →
      (a.before events (i + 1)).store.cache = (a.before events i).store.cache ∧
      (a.before events (i + 1)).store.misses = (a.before events i).store.misses ∧
      (a.Untouched events key i j → (∀ k, i < k → k < j → events[k]? ≠ some (.ask (.get key))) →
        ∃ T n, tableContent (a.before events j).files path = .ok (.table T n) ∧
          (a.before events j).answerTo (.get key) = (s.readRow T key).map .record)) := by
  intro a
  obtain ⟨T, n, -, hreads, -, session, rfl⟩ := openAt_eq_ok hopen
  have hon : a.On T n := ⟨hreads, rfl⟩
  have hlength : j ≤ events.length := (List.getElem?_eq_some_iff.1 hj).1.le
  obtain ⟨⟨Tᵢ, nᵢ, honᵢ⟩, -⟩ := hon.before events i
  refine ⟨?_, ?_, ?_⟩
  · intro r hi hanswer huntouched
    refine hon.answerTo_later hij hlength ?_ huntouched
    rw [before_succ a hi]
    exact honᵢ.known_of_answerTo hanswer
  · intro request b answer hi hlast hanswer huntouched
    refine hon.answerTo_later hij hlength ?_ huntouched
    rw [before_succ a hi]
    exact honᵢ.known_of_put hlast hanswer
  · intro e hi hanswer
    obtain ⟨hunknown, hcache, hmisses⟩ := honᵢ.forgets_of_error hanswer
    rw [before_succ a hi]
    refine ⟨hcache, hmisses, fun huntouched hget => ?_⟩
    obtain ⟨⟨Tⱼ, nⱼ, honⱼ⟩, hsame⟩ := hon.before events j
    have hcontent := honⱼ.reads.content
    rw [hsame.path] at hcontent
    refine ⟨Tⱼ, nⱼ, hcontent, ?_⟩
    -- nothing is known of the key after the failure, and nothing in between changes that
    have hknown : (a.before events j).store.known key = none := by
      rw [hon.known_before hij hlength (fun k event hk hkj => huntouched k event (by omega) hkj)
        (.inr fun k hk hkj => hget k (by omega) hkj), before_succ a hi, known_congr hcache hmisses,
          hunknown]
    rw [honⱼ.answerTo_get, Store.answer, hknown, readRow_congr hsame.path hsame.format]

/-- Others damage a row and remove it again, while the store is asked for its key. -/
def meddling : List (Event MarkedItem) :=
  [.outside (({} : Table).put (.text "k") (.int 0)), .ask (.get "k"), .outside {}, .ask (.get "k"),
    .outside (({} : Table).put (.text "k") (.int 0)), .ask (.get "k")]

/-- The failure leaves no trace, but the absence that is found afterwards is kept. -/
theorem reads_are_stable_meddling :
    let a : Access MarkedItem := ⟨freshOpening.2.files, freshStore⟩
    (∃ e, (a.before meddling 1).answerTo (.get "k") = .error e) ∧
      (∃ T n, tableContent (a.before meddling 3).files { start := .relative, parts := ["d"] } =
        .ok (.table T n) ∧
        (a.before meddling 3).answerTo (.get "k") = (freshStore.readRow T "k").map .record) ∧
      (a.before meddling 5).answerTo (.get "k") = .ok (.record none) := by
  intro a
  have hcorrupt : (a.before meddling 1).answerTo (.get "k") =
      .error (.corruptRecord "d" "k" (.because "unexpected int value")) := by decide +kernel
  have habsent : (a.before meddling 3).answerTo (.get "k") = .ok (.record none) := by decide +kernel
  have hquiet {i : Nat} {rows : Table} (h : meddling[i + 1]? = some (.outside rows)) :
      a.Untouched meddling "k" i (i + 2) := by
    intro k event hk hk' hevent
    obtain rfl : k = i + 1 := by omega
    obtain rfl := Option.some.inj (h.symm.trans hevent)
    exact id
  obtain ⟨-, -, hreread⟩ := reads_are_stable _ _ _ _ _ openAt_fresh meddling "k" 1 3 (by decide) rfl
  obtain ⟨hstable, -, -⟩ := reads_are_stable _ _ _ _ _ openAt_fresh meddling "k" 3 5 (by decide) rfl
  refine ⟨⟨_, hcorrupt⟩, ?_, hstable none rfl habsent (hquiet rfl)⟩
  refine (hreread _ rfl hcorrupt).2.2 (hquiet rfl) ?_
  intro k hk hk'
  obtain rfl : k = 2 := by omega
  simp [meddling]

end Store

end CallAudit
