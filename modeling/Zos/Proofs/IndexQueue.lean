import Zos.Indexer.Queue
import Zos.Lib.Fallible

/-!
# The index queue loses no change

Every upsert adds one to the generation of the row, and a worker's statements
ask for the generation it claimed. A row that was deleted comes back with a
new id. So the id and the generation of an attempt fit a row only as long as
the path was not enqueued again, and that is the invariant: an attempt that
fits was claimed after the last enqueue.
-/

namespace Zos.Indexer

open Zos.Lib

/-- The path of the attempt was enqueued again after the claim. -/
def State.Stale (s : State) (a : Attempt) : Prop :=
  ∃ t, s.enqueuedAt a.task.rootId a.task.path = some t ∧ a.claimedAt < t

/-- The attempt was claimed after the last enqueue of its path. -/
def State.Current (s : State) (a : Attempt) : Prop :=
  ∃ t, s.enqueuedAt a.task.rootId a.task.path = some t ∧ t < a.claimedAt

theorem State.Current.not_stale {s : State} {a : Attempt} (h : s.Current a) :
    ¬ s.Stale a := by
  rintro ⟨t, ht, hlt⟩
  obtain ⟨t', ht', hlt'⟩ := h
  rw [ht] at ht'
  cases ht'
  omega

theorem QueueRow.ownedBy_iff {row : QueueRow} {task : QueueTask} {workerId : Nat} :
    row.ownedBy task workerId = true ↔ row.id = task.id ∧
      row.generation = task.generation ∧ row.status = .running ∧
        row.workerId = some workerId := by
  unfold QueueRow.ownedBy
  exact decide_eq_true_iff

/-- A row waits for the path, and nobody has claimed it. -/
def State.Waits (s : State) (rootId path : String) : Prop :=
  ∃ row ∈ s.rows, row.rootId = rootId ∧ row.path = path ∧ row.status = .queued

structure Inv (s : State) : Prop where
  keys : ∀ row ∈ s.rows, ∀ row' ∈ s.rows, row.rootId = row'.rootId →
    row.path = row'.path → row = row'
  ids : ∀ row ∈ s.rows, ∀ row' ∈ s.rows, row.id = row'.id → row = row'
  rowIds : ∀ row ∈ s.rows, row.id < s.nextId
  attemptIds : ∀ a ∈ s.attempts, a.task.id < s.nextId
  enqueued : ∀ row ∈ s.rows, s.enqueuedAt row.rootId row.path ≠ none
  enqueuedPast : ∀ rootId path t, s.enqueuedAt rootId path = some t → t < s.time
  claimedPast : ∀ a ∈ s.attempts, a.claimedAt < s.time
  /-- An attempt and the row it was made for, as long as that is there. -/
  fits : ∀ a ∈ s.attempts, ∀ row ∈ s.rows, a.task.id = row.id →
    a.task.rootId = row.rootId ∧ a.task.path = row.path ∧
      a.task.generation ≤ row.generation ∧
        (a.task.generation = row.generation → s.Current a)
  waits : ∀ rootId path, s.enqueuedAt rootId path ≠ none →
    (∀ a ∈ s.attempts, a.task.rootId = rootId → a.task.path = path → s.Stale a) →
      s.Waits rootId path

theorem inv_init {s : State} (h : Initial s) : Inv s where
  keys row hrow := by rw [h.1] at hrow; cases hrow
  ids row hrow := by rw [h.1] at hrow; cases hrow
  rowIds row hrow := by rw [h.1] at hrow; cases hrow
  attemptIds a ha := by rw [h.2.1] at ha; cases ha
  enqueued row hrow := by rw [h.1] at hrow; cases hrow
  enqueuedPast rootId path t ht := by rw [h.2.2] at ht; cases ht
  claimedPast a ha := by rw [h.2.1] at ha; cases ha
  fits a ha := by rw [h.2.1] at ha; cases ha
  waits rootId path hne := absurd (h.2.2 rootId path) hne

/-- An attempt owns a row only if it was claimed after the last enqueue. -/
theorem Inv.owned {s : State} (h : Inv s) {a : Attempt} (ha : a ∈ s.attempts)
    {row : QueueRow} (hrow : row ∈ s.rows) (hown : row.ownedBy a.task a.workerId = true) :
    a.task.rootId = row.rootId ∧ a.task.path = row.path ∧ s.Current a := by
  obtain ⟨hid, hgen, -, -⟩ := QueueRow.ownedBy_iff.mp hown
  obtain ⟨hroot, hpath, -, hcurrent⟩ := h.fits a ha row hrow hid.symm
  exact ⟨hroot, hpath, hcurrent hgen.symm⟩

theorem Inv.stale_owns_nothing {s : State} (h : Inv s) {a : Attempt} (ha : a ∈ s.attempts)
    (hstale : s.Stale a) {row : QueueRow} (hrow : row ∈ s.rows) :
    row.ownedBy a.task a.workerId = false :=
  Bool.eq_false_iff.mpr fun hown => (h.owned ha hrow hown).2.2.not_stale hstale

/-! ## Statements of the workers -/

/-- The statement changes none of the columns the queue is ordered by. -/
def SameKey (row row' : QueueRow) : Prop :=
  row'.id = row.id ∧ row'.rootId = row.rootId ∧ row'.path = row.path ∧
    row'.generation = row.generation

/-- The rows of `s'` are rows of `s` with the same keys, and time has passed. -/
structure Follows (s s' : State) : Prop where
  rows : ∃ f : QueueRow → QueueRow, (∀ row ∈ s.rows, SameKey row (f row)) ∧
    ∀ row' ∈ s'.rows, ∃ row ∈ s.rows, row' = f row
  nextId : s'.nextId = s.nextId
  time : s'.time = s.time + 1
  enqueuedAt : s'.enqueuedAt = s.enqueuedAt

theorem Follows.of_map {s s' : State} {f : QueueRow → QueueRow}
    (hkey : ∀ row, SameKey row (f row)) (hrows : s'.rows = s.rows.map f)
    (hsame : s'.nextId = s.nextId ∧ s'.time = s.time + 1 ∧ s'.enqueuedAt = s.enqueuedAt) :
    Follows s s' := by
  refine ⟨⟨f, fun row _ => hkey row, fun row' hrow' => ?_⟩, hsame.1, hsame.2.1, hsame.2.2⟩
  rw [hrows] at hrow'
  obtain ⟨row, hrow, rfl⟩ := List.mem_map.mp hrow'
  exact ⟨row, hrow, rfl⟩

theorem Follows.current {s s' : State} (h : Follows s s') {a : Attempt} :
    s'.Current a ↔ s.Current a := by
  unfold State.Current
  rw [h.enqueuedAt]

theorem Follows.stale {s s' : State} (h : Follows s s') {a : Attempt} :
    s'.Stale a ↔ s.Stale a := by
  unfold State.Stale
  rw [h.enqueuedAt]

/-- What remains to be shown for a statement of a worker is about the attempts
it adds and the rows that wait. -/
theorem Inv.follow {s s' : State} (h : Inv s) (hf : Follows s s')
    (hattempts : ∀ a ∈ s'.attempts, a ∈ s.attempts ∨
      ∃ row ∈ s.rows, a.task.id = row.id ∧ a.task.rootId = row.rootId ∧
        a.task.path = row.path ∧ a.task.generation = row.generation ∧ a.claimedAt = s.time)
    (hwaits : ∀ rootId path, s'.enqueuedAt rootId path ≠ none →
      (∀ a ∈ s'.attempts, a.task.rootId = rootId → a.task.path = path → s'.Stale a) →
        s'.Waits rootId path) : Inv s' := by
  obtain ⟨f, hkey, hrows⟩ := hf.rows
  -- A claim is made after everything that was enqueued.
  have hnew : ∀ a : Attempt, ∀ row ∈ s.rows, a.task.rootId = row.rootId →
      a.task.path = row.path → a.claimedAt = s.time → s.Current a := by
    intro a row hrow hroot hpath ha
    obtain ⟨t, ht⟩ := Option.ne_none_iff_exists'.mp (h.enqueued row hrow)
    refine ⟨t, by rw [hroot, hpath, ht], ?_⟩
    rw [ha]
    exact h.enqueuedPast _ _ _ ht
  refine {
    keys := fun row hrow row' hrow' hroot hpath => ?_
    ids := fun row hrow row' hrow' hid => ?_
    rowIds := fun row hrow => ?_
    attemptIds := fun a ha => ?_
    enqueued := fun row hrow => ?_
    enqueuedPast := fun rootId path t ht => ?_
    claimedPast := fun a ha => ?_
    fits := fun a ha row hrow hid => ?_
    waits := hwaits }
  · obtain ⟨x, hx, rfl⟩ := hrows row hrow
    obtain ⟨y, hy, rfl⟩ := hrows row' hrow'
    rw [h.keys x hx y hy (by rw [← (hkey x hx).2.1, hroot, (hkey y hy).2.1])
      (by rw [← (hkey x hx).2.2.1, hpath, (hkey y hy).2.2.1])]
  · obtain ⟨x, hx, rfl⟩ := hrows row hrow
    obtain ⟨y, hy, rfl⟩ := hrows row' hrow'
    rw [h.ids x hx y hy (by rw [← (hkey x hx).1, hid, (hkey y hy).1])]
  · obtain ⟨x, hx, rfl⟩ := hrows row hrow
    rw [(hkey x hx).1, hf.nextId]
    exact h.rowIds x hx
  · rw [hf.nextId]
    rcases hattempts a ha with ha | ⟨row, hrow, hid, -⟩
    · exact h.attemptIds a ha
    · rw [hid]
      exact h.rowIds row hrow
  · obtain ⟨x, hx, rfl⟩ := hrows row hrow
    rw [(hkey x hx).2.1, (hkey x hx).2.2.1, hf.enqueuedAt]
    exact h.enqueued x hx
  · rw [hf.enqueuedAt] at ht
    have := h.enqueuedPast rootId path t ht
    have := hf.time
    omega
  · have htime := hf.time
    rcases hattempts a ha with ha | ⟨-, -, -, -, -, -, ha⟩
    · have := h.claimedPast a ha
      omega
    · omega
  · obtain ⟨x, hx, rfl⟩ := hrows row hrow
    obtain ⟨hid', hroot', hpath', hgen'⟩ := hkey x hx
    rw [hroot', hpath', hgen', hf.current]
    rw [hid'] at hid
    rcases hattempts a ha with ha | ⟨y, hy, hyid, hyroot, hypath, hygen, hclaimed⟩
    · exact h.fits a ha x hx hid
    · obtain rfl := h.ids y hy x hx (hyid.symm.trans hid)
      exact ⟨hyroot, hypath, Nat.le_of_eq hygen,
        fun _ => hnew a y hy hyroot hypath hclaimed⟩

/-- Statements that make no attempt and leave the rows that wait alone. -/
theorem Inv.followSame {s s' : State} (h : Inv s) (hf : Follows s s')
    (hattempts : s'.attempts = s.attempts)
    (hqueued : ∀ row ∈ s.rows, row.status = .queued → row ∈ s'.rows) : Inv s' := by
  refine h.follow hf (fun a ha => .inl (hattempts ▸ ha)) fun rootId path hne hstale => ?_
  rw [hf.enqueuedAt] at hne
  obtain ⟨row, hrow, hroot, hpath, hstatus⟩ := h.waits rootId path hne fun a ha hr hp =>
    hf.stale.mp (hstale a (hattempts.symm ▸ ha) hr hp)
  exact ⟨row, hqueued row hrow hstatus, hroot, hpath, hstatus⟩

/-- An update of the rows an attempt owns. -/
theorem Inv.update {s s' : State} (h : Inv s) {a : Attempt} {g : QueueRow → QueueRow}
    (hkey : ∀ row, SameKey row (g row))
    (hrows : s'.rows = s.rows.map fun row =>
      if row.ownedBy a.task a.workerId then g row else row)
    (hsame : s'.nextId = s.nextId ∧ s'.time = s.time + 1 ∧ s'.enqueuedAt = s.enqueuedAt ∧
      s'.attempts = s.attempts) : Inv s' := by
  have hf : Follows s s' := by
    refine .of_map (fun row => ?_) hrows ⟨hsame.1, hsame.2.1, hsame.2.2.1⟩
    split
    · exact hkey row
    · exact ⟨rfl, rfl, rfl, rfl⟩
  refine h.followSame hf hsame.2.2.2 fun row hrow hqueued => ?_
  rw [hrows]
  refine List.mem_map.mpr ⟨row, hrow, if_neg fun hown => ?_⟩
  rw [(QueueRow.ownedBy_iff.mp hown).2.2.1] at hqueued
  cases hqueued

theorem Inv.completeTask {s : State} (h : Inv s) (a : Attempt) :
    Inv { s with rows := completeTask s.rows a.task a.workerId, time := s.time + 1 } := by
  refine h.followSame ⟨⟨id, fun row _ => ⟨rfl, rfl, rfl, rfl⟩, fun row hrow =>
    ⟨row, (List.mem_filter.mp hrow).1, rfl⟩⟩, rfl, rfl, rfl⟩ rfl fun row hrow hqueued => ?_
  refine List.mem_filter.mpr ⟨hrow, ?_⟩
  rw [Bool.not_eq_true', Bool.eq_false_iff]
  intro hown
  rw [(QueueRow.ownedBy_iff.mp hown).2.2.1] at hqueued
  cases hqueued

theorem QueueRow.expire_sameKey (row : QueueRow) (now : Nat) :
    SameKey row (row.expire now) := by
  unfold QueueRow.expire
  split <;> exact ⟨rfl, rfl, rfl, rfl⟩

theorem QueueRow.expire_queued {row : QueueRow} (h : row.status = .queued) (now : Nat) :
    row.expire now = row := by
  refine if_neg fun hexp => ?_
  rw [hexp.1] at h
  cases h

/-- A claim takes back the expired leases, and starts at most one row. -/
theorem claim_cases (rows : List QueueRow) (workerId now id : Nat) :
    claim rows workerId now id = (rows.map (·.expire now), none) ∨
    ∃ row ∈ rows, row.id = id ∧ claim rows workerId now id =
      (rows.map fun row => if row.id = id then (row.expire now).start workerId now
        else row.expire now, some (row.expire now).task) := by
  simp only [claim]
  split
  · exact .inl rfl
  · next found hfound =>
      obtain ⟨row, hrow, rfl⟩ := List.mem_map.mp (List.mem_of_find?_eq_some hfound)
      have hid := List.find?_some hfound
      simp only [Bool.decide_and, Bool.and_eq_true, decide_eq_true_eq] at hid
      refine .inr ⟨row, hrow, (row.expire_sameKey now).1 ▸ hid.1, ?_⟩
      rw [List.map_map]
      refine Prod.ext (List.map_congr_left fun row _ => ?_) rfl
      simp only [Function.comp_apply, (row.expire_sameKey now).1]

theorem Inv.claim {s : State} (h : Inv s) (workerId now id : Nat) :
    Inv { s with
      rows := (claim s.rows workerId now id).1
      attempts := s.attempts ++
        ((claim s.rows workerId now id).2.map fun task => ⟨workerId, task, s.time⟩).toList
      time := s.time + 1 } := by
  rcases claim_cases s.rows workerId now id with heq | ⟨taken, htaken, hid, heq⟩ <;> rw [heq]
  · refine h.followSame (.of_map (·.expire_sameKey now) rfl ⟨rfl, rfl, rfl⟩)
      (List.append_nil _) fun row hrow hqueued => ?_
    exact List.mem_map.mpr ⟨row, hrow, row.expire_queued hqueued now⟩
  · have htask := taken.expire_sameKey now
    have hf : Follows s { s with
        rows := s.rows.map fun row => if row.id = id then (row.expire now).start workerId now
          else row.expire now
        attempts := s.attempts ++ [⟨workerId, (taken.expire now).task, s.time⟩]
        time := s.time + 1 } := by
      refine .of_map (fun row => ?_) rfl ⟨rfl, rfl, rfl⟩
      split <;> exact row.expire_sameKey now
    refine h.follow hf ?_ ?_
    · intro a ha
      rcases List.mem_append.mp ha with ha | ha
      · exact .inl ha
      · obtain rfl := List.mem_singleton.mp ha
        exact .inr ⟨taken, htaken, htask.1, htask.2.1, htask.2.2.1, htask.2.2.2, rfl⟩
    · intro rootId path hne hstale
      obtain ⟨row, hrow, hroot, hpath, hstatus⟩ := h.waits rootId path hne fun a ha hr hp =>
        hf.stale.mp (hstale a (List.mem_append_left _ ha) hr hp)
      -- The row that is taken is not the one that waits: it was just claimed.
      have hother : row.id ≠ id := by
        intro hrowid
        obtain rfl := h.ids row hrow taken htaken (hrowid.trans hid.symm)
        obtain ⟨t, ht, hlt⟩ := hstale _ (List.mem_append_right _ List.mem_cons_self)
          (htask.2.1.trans hroot) (htask.2.2.1.trans hpath)
        have := h.enqueuedPast _ _ _ ht
        exact absurd (Nat.lt_trans hlt this) (Nat.lt_irrefl _)
      exact ⟨row, List.mem_map.mpr ⟨row, hrow, by
        rw [if_neg hother, row.expire_queued hstatus]⟩, hroot, hpath, hstatus⟩

/-! ## Enqueueing -/

/-- The row is for the path that is enqueued. -/
def Enqueued.For (e : Enqueued) (row : QueueRow) : Prop :=
  row.rootId = e.rootId ∧ row.path = e.path

instance (e : Enqueued) (row : QueueRow) : Decidable (e.For row) :=
  inferInstanceAs (Decidable (_ ∧ _))

theorem Enqueued.row_id (e : Enqueued) : e.row.id = e.id := rfl

/-- What an upsert does to a row that is there. -/
def Requeues (merge : QueueRow → Enqueued → QueueRow) : Prop :=
  ∀ row e, (merge row e).id = row.id ∧ (merge row e).rootId = row.rootId ∧
    (merge row e).path = row.path ∧ (merge row e).generation = row.generation + 1 ∧
      (merge row e).status = .queued

theorem mergeTask_requeues : Requeues QueueRow.mergeTask :=
  fun _ _ => ⟨rfl, rfl, rfl, rfl, rfl⟩

theorem mergeDownload_requeues : Requeues QueueRow.mergeDownload :=
  fun _ _ => ⟨rfl, rfl, rfl, rfl, rfl⟩

section

variable {merge : QueueRow → Enqueued → QueueRow} {rows : List QueueRow} {e : Enqueued}
  {row : QueueRow}

/-- A row after the upsert. -/
def Enqueued.touch (e : Enqueued) (merge : QueueRow → Enqueued → QueueRow)
    (row : QueueRow) : QueueRow :=
  if e.For row then merge row e else row

theorem touch_key (hmerge : Requeues merge) (row : QueueRow) :
    (e.touch merge row).id = row.id ∧ (e.touch merge row).rootId = row.rootId ∧
      (e.touch merge row).path = row.path := by
  unfold Enqueued.touch
  split
  · exact ⟨(hmerge row e).1, (hmerge row e).2.1, (hmerge row e).2.2.1⟩
  · exact ⟨rfl, rfl, rfl⟩

/-- The rows after an upsert are those before it, and a new one if the path had
none. -/
theorem mem_upsert (h : row ∈ upsert merge rows e) :
    (∃ old ∈ rows, row = e.touch merge old) ∨ (row = e.row ∧ ∀ old ∈ rows, ¬ e.For old) := by
  unfold upsert at h
  split at h
  · obtain ⟨old, hold, rfl⟩ := List.mem_map.mp h
    exact .inl ⟨old, hold, rfl⟩
  · next hany =>
      have hnone : ∀ old ∈ rows, ¬ e.For old := fun old hold hfor =>
        hany (List.any_eq_true.mpr ⟨old, hold, decide_eq_true hfor⟩)
      rcases List.mem_append.mp h with h | h
      · exact .inl ⟨row, h, (if_neg (hnone row h)).symm⟩
      · exact .inr ⟨List.mem_singleton.mp h, hnone⟩

theorem mem_upsert_of_other (h : row ∈ rows) (hfor : ¬ e.For row) :
    row ∈ upsert merge rows e := by
  unfold upsert
  split
  · exact List.mem_map.mpr ⟨row, h, if_neg hfor⟩
  · exact List.mem_append_left _ h

/-- After an upsert a row waits for the path. -/
theorem exists_mem_upsert (hmerge : Requeues merge) (rows : List QueueRow) (e : Enqueued) :
    ∃ row ∈ upsert merge rows e, e.For row ∧ row.status = .queued := by
  unfold upsert
  split
  · next hany =>
      obtain ⟨old, hold, hfor⟩ := List.any_eq_true.mp hany
      have hfor : e.For old := of_decide_eq_true hfor
      obtain ⟨-, hroot, hpath, -, hstatus⟩ := hmerge old e
      exact ⟨merge old e, List.mem_map.mpr ⟨old, hold, if_pos hfor⟩,
        ⟨hroot.trans hfor.1, hpath.trans hfor.2⟩, hstatus⟩
  · exact ⟨e.row, List.mem_append_right _ List.mem_cons_self, ⟨rfl, rfl⟩, rfl⟩

end

/-- Enqueueing leaves no attempt for the path that fits its row. -/
theorem Inv.upsert {s : State} (h : Inv s) {merge : QueueRow → Enqueued → QueueRow}
    (hmerge : Requeues merge) {e : Enqueued} (hid : e.id = s.nextId) :
    Inv (s.enqueued e.rootId e.path (upsert merge s.rows e)) := by
  have hat : ∀ {rootId path}, ¬ (rootId = e.rootId ∧ path = e.path) →
      (s.enqueued e.rootId e.path (Indexer.upsert merge s.rows e)).enqueuedAt rootId path =
        s.enqueuedAt rootId path := fun hne => if_neg hne
  have hself : (s.enqueued e.rootId e.path (Indexer.upsert merge s.rows e)).enqueuedAt
      e.rootId e.path = some s.time := if_pos ⟨rfl, rfl⟩
  refine {
    keys := fun row hrow row' hrow' hroot hpath => ?_
    ids := fun row hrow row' hrow' hrowid => ?_
    rowIds := fun row hrow => ?_
    attemptIds := fun a ha => Nat.lt_succ_of_lt (h.attemptIds a ha)
    enqueued := fun row hrow => ?_
    enqueuedPast := fun rootId path t ht => ?_
    claimedPast := fun a ha => Nat.lt_succ_of_lt (h.claimedPast a ha)
    fits := fun a ha row hrow hrowid => ?_
    waits := fun rootId path hne hstale => ?_ }
  · rcases mem_upsert hrow with ⟨old, hold, rfl⟩ | ⟨rfl, hnone⟩ <;>
      rcases mem_upsert hrow' with ⟨old', hold', rfl⟩ | ⟨rfl, hnone'⟩
    · rw [(touch_key hmerge old).2.1, (touch_key hmerge old').2.1] at hroot
      rw [(touch_key hmerge old).2.2, (touch_key hmerge old').2.2] at hpath
      rw [h.keys old hold old' hold' hroot hpath]
    · rw [(touch_key hmerge old).2.1] at hroot
      rw [(touch_key hmerge old).2.2] at hpath
      exact absurd ⟨hroot, hpath⟩ (hnone' old hold)
    · rw [(touch_key hmerge old').2.1] at hroot
      rw [(touch_key hmerge old').2.2] at hpath
      exact absurd ⟨hroot.symm, hpath.symm⟩ (hnone old' hold')
    · rfl
  · rcases mem_upsert hrow with ⟨old, hold, rfl⟩ | ⟨rfl, -⟩ <;>
      rcases mem_upsert hrow' with ⟨old', hold', rfl⟩ | ⟨rfl, -⟩
    · rw [(touch_key hmerge old).1, (touch_key hmerge old').1] at hrowid
      rw [h.ids old hold old' hold' hrowid]
    · have := h.rowIds old hold
      rw [(touch_key hmerge old).1, Enqueued.row_id, hid] at hrowid
      omega
    · have := h.rowIds old' hold'
      rw [(touch_key hmerge old').1, Enqueued.row_id, hid] at hrowid
      omega
    · rfl
  · rcases mem_upsert hrow with ⟨old, hold, rfl⟩ | ⟨rfl, -⟩
    · rw [(touch_key hmerge old).1]
      exact Nat.lt_succ_of_lt (h.rowIds old hold)
    · rw [Enqueued.row_id, hid]
      exact Nat.lt_succ_self _
  · rcases mem_upsert hrow with ⟨old, hold, rfl⟩ | ⟨rfl, -⟩
    · rw [(touch_key hmerge old).2.1, (touch_key hmerge old).2.2]
      by_cases hfor : e.For old
      · rw [hfor.1, hfor.2, hself]
        exact Option.some_ne_none _
      · rw [hat hfor]
        exact h.enqueued old hold
    · exact (hself ▸ Option.some_ne_none _ :)
  · by_cases hfor : rootId = e.rootId ∧ path = e.path
    · rw [hfor.1, hfor.2, hself] at ht
      cases ht
      exact Nat.lt_succ_self _
    · rw [hat hfor] at ht
      exact Nat.lt_succ_of_lt (h.enqueuedPast rootId path t ht)
  · rcases mem_upsert hrow with ⟨old, hold, rfl⟩ | ⟨rfl, -⟩
    · obtain ⟨hid', hroot', hpath'⟩ := touch_key (e := e) hmerge old
      rw [hid'] at hrowid
      obtain ⟨hroot, hpath, hle, hcurrent⟩ := h.fits a ha old hold hrowid
      rw [hroot', hpath']
      refine ⟨hroot, hpath, ?_⟩
      unfold Enqueued.touch
      split
      · -- The row has moved on by one generation.
        rw [(hmerge old e).2.2.2.1]
        exact ⟨Nat.le_succ_of_le hle, fun heq => by omega⟩
      · next hfor =>
          refine ⟨hle, fun heq => ?_⟩
          unfold State.Current
          rw [hat (by rw [hroot, hpath]; exact hfor)]
          exact hcurrent heq
    · have := h.attemptIds a ha
      rw [hrowid, Enqueued.row_id, hid] at this
      exact absurd this (Nat.lt_irrefl _)
  · by_cases hfor : rootId = e.rootId ∧ path = e.path
    · obtain ⟨row, hrow, hrowfor, hstatus⟩ := exists_mem_upsert hmerge s.rows e
      exact ⟨row, hrow, hrowfor.1.trans hfor.1.symm, hrowfor.2.trans hfor.2.symm, hstatus⟩
    · rw [hat hfor] at hne
      obtain ⟨row, hrow, hroot, hpath, hstatus⟩ := h.waits rootId path hne fun a ha hr hp => by
        obtain ⟨t, ht, hlt⟩ := hstale a ha hr hp
        rw [hat (by rw [hr, hp]; exact hfor)] at ht
        exact ⟨t, ht, hlt⟩
      exact ⟨row, mem_upsert_of_other hrow (by unfold Enqueued.For; rw [hroot, hpath]; exact hfor),
        hroot, hpath, hstatus⟩

/-! ## Runs -/

/-- A step is an upsert for some path, or a statement of a worker. -/
inductive Transition (s : State) : Action → State → Prop where
  | enqueued {action : Action} {merge : QueueRow → Enqueued → QueueRow} {e : Enqueued}
      (hmerge : Requeues merge) (hid : e.id = s.nextId) :
      Transition s action (s.enqueued e.rootId e.path (upsert merge s.rows e))
  | claimed (workerId now id : Nat) :
      Transition s (.claim workerId now id)
        { s with
          rows := (claim s.rows workerId now id).1
          attempts := s.attempts ++
            ((claim s.rows workerId now id).2.map fun task => ⟨workerId, task, s.time⟩).toList
          time := s.time + 1 }
  | updated {action : Action} {g : QueueRow → QueueRow} (a : Attempt)
      (hkey : ∀ row, SameKey row (g row)) :
      Transition s action
        { s with
          rows := s.rows.map fun row => if row.ownedBy a.task a.workerId then g row else row
          time := s.time + 1 }
  | completed {attempt : Nat} {a : Attempt} (ha : s.attempts[attempt]? = some a) :
      Transition s (.completeTask attempt)
        { s with rows := completeTask s.rows a.task a.workerId, time := s.time + 1 }

theorem step_transition {s s' : State} {action : Action} (h : step s action = some s') :
    Transition s action s' := by
  cases action with
  | enqueue =>
      cases h
      exact .enqueued mergeTask_requeues rfl
  | enqueueIndexTask now input =>
      simp only [step, Option.bind_eq_bind, Option.bind_eq_some_iff, toOption_eq_some_iff,
        enqueueIndexTask] at h
      obtain ⟨path, hpath, rows, hrows, h⟩ := h
      rw [hpath] at hrows
      cases hrows
      cases h
      exact .enqueued mergeTask_requeues rfl
  | finalizePublish =>
      cases h
      exact .enqueued mergeDownload_requeues rfl
  | claim workerId now id =>
      cases h
      exact .claimed workerId now id
  | renewLease attempt now =>
      obtain ⟨a, -, h⟩ := Option.bind_eq_some_iff.mp h
      cases h
      exact .updated (g := (·.renewed now)) a fun _ => ⟨rfl, rfl, rfl, rfl⟩
  | completeTask attempt =>
      obtain ⟨a, ha, h⟩ := Option.bind_eq_some_iff.mp h
      cases h
      exact .completed ha
  | retryOrFail attempt now error =>
      obtain ⟨a, -, h⟩ := Option.bind_eq_some_iff.mp h
      cases h
      exact .updated (g := (·.retried a.task now error)) a fun _ => ⟨rfl, rfl, rfl, rfl⟩

theorem Inv.step {s s' : State} {action : Action} (h : Inv s)
    (hstep : step s action = some s') : Inv s' := by
  cases step_transition hstep with
  | enqueued hmerge hid => exact h.upsert hmerge hid
  | claimed workerId now id => exact h.claim workerId now id
  | updated a hkey => exact h.update hkey rfl ⟨rfl, rfl, rfl, rfl⟩
  | completed ha => exact h.completeTask _

theorem inv_reach {s : State} (h : Reach step anyStep Initial s) : Inv s :=
  h.invariant (fun _ => inv_init) fun _ _ _ hs _ hstep => hs.step hstep

/-- The path of the row is still in the queue. -/
def Remains (rows : List QueueRow) (row : QueueRow) : Prop :=
  ∃ row' ∈ rows, row'.rootId = row.rootId ∧ row'.path = row.path

theorem remains_upsert {merge : QueueRow → Enqueued → QueueRow} (hmerge : Requeues merge)
    {rows : List QueueRow} {row : QueueRow} (hrow : row ∈ rows) (e : Enqueued) :
    Remains (upsert merge rows e) row := by
  by_cases hfor : e.For row
  · obtain ⟨row', hrow', hfor', -⟩ := exists_mem_upsert hmerge rows e
    exact ⟨row', hrow', hfor'.1.trans hfor.1.symm, hfor'.2.trans hfor.2.symm⟩
  · exact ⟨row, mem_upsert_of_other hrow hfor, rfl, rfl⟩

theorem remains_map {f : QueueRow → QueueRow} (hkey : ∀ row, SameKey row (f row))
    {rows : List QueueRow} {row : QueueRow} (hrow : row ∈ rows) : Remains (rows.map f) row :=
  ⟨f row, List.mem_map.mpr ⟨row, hrow, rfl⟩, (hkey row).2.1, (hkey row).2.2.1⟩

/-- A path leaves the queue only when an attempt that owns its row completes. -/
theorem step_remains {s s' : State} {action : Action} (hstep : step s action = some s')
    {row : QueueRow} (hrow : row ∈ s.rows) :
    Remains s'.rows row ∨ ∃ attempt a, action = .completeTask attempt ∧
      s.attempts[attempt]? = some a ∧ row.ownedBy a.task a.workerId = true := by
  cases step_transition hstep with
  | enqueued hmerge hid => exact .inl (remains_upsert hmerge hrow _)
  | claimed workerId now id =>
      refine .inl ?_
      rcases claim_cases s.rows workerId now id with heq | ⟨taken, -, -, heq⟩ <;> rw [heq]
      · exact remains_map (·.expire_sameKey now) hrow
      · refine remains_map (fun row => ?_) hrow
        split <;> exact row.expire_sameKey now
  | updated a hkey =>
      refine .inl (remains_map (fun row => ?_) hrow)
      split
      · exact hkey row
      · exact ⟨rfl, rfl, rfl, rfl⟩
  | @completed attempt a ha =>
      cases hown : row.ownedBy a.task a.workerId with
      | true => exact .inr ⟨attempt, a, rfl, ha, hown⟩
      | false => exact .inl ⟨row, List.mem_filter.mpr ⟨hrow, by rw [hown]; rfl⟩, rfl, rfl⟩

/-- In every state that is reached: the statements of an attempt whose path
was enqueued again change nothing; a path that was enqueued after every claim
of it stands in the queue as `queued`; a path leaves the queue only when an
attempt completes that was claimed after the last enqueue; and no two workers
can complete the same row. -/
theorem queue_loses_no_change {s : State} (h : Reach step anyStep Initial s) :
    (∀ a ∈ s.attempts, s.Stale a →
      completeTask s.rows a.task a.workerId = s.rows ∧
      (∀ now error, retryOrFail s.rows a.task a.workerId now error = s.rows) ∧
      ∀ now, renewLease s.rows a.task a.workerId now = s.rows) ∧
    (∀ rootId path, s.enqueuedAt rootId path ≠ none →
      (∀ a ∈ s.attempts, a.task.rootId = rootId → a.task.path = path → s.Stale a) →
        s.Waits rootId path) ∧
    (∀ action s', step s action = some s' → ∀ row ∈ s.rows, ¬ Remains s'.rows row →
      ∃ attempt a, action = .completeTask attempt ∧ s.attempts[attempt]? = some a ∧
        a.task.rootId = row.rootId ∧ a.task.path = row.path ∧ s.Current a) ∧
    ∀ row ∈ s.rows, ∀ a ∈ s.attempts, ∀ b ∈ s.attempts,
      row.ownedBy a.task a.workerId = true → row.ownedBy b.task b.workerId = true →
        a.workerId = b.workerId := by
  have hinv := inv_reach h
  refine ⟨fun a ha hstale => ?_, hinv.waits, fun action s' hstep row hrow hgone => ?_,
    fun row _ a _ b _ hown hown' => ?_⟩
  · have hnot : ∀ row ∈ s.rows, row.ownedBy a.task a.workerId = false :=
      fun row hrow => hinv.stale_owns_nothing ha hstale hrow
    have hmap : ∀ g : QueueRow → QueueRow, (s.rows.map fun row =>
        if row.ownedBy a.task a.workerId then g row else row) = s.rows := by
      intro g
      refine (List.map_congr_left fun row hrow => ?_).trans (List.map_id _)
      rw [if_neg (by rw [hnot row hrow]; decide)]
      rfl
    exact ⟨List.filter_eq_self.mpr fun row hrow => by rw [hnot row hrow]; rfl,
      fun now error => hmap (·.retried a.task now error), fun now => hmap (·.renewed now)⟩
  · rcases step_remains hstep hrow with hrest | ⟨attempt, a, rfl, ha, hown⟩
    · exact absurd hrest hgone
    · exact ⟨attempt, a, rfl, ha, hinv.owned (List.mem_of_getElem? ha) hrow hown⟩
  · have ha := (QueueRow.ownedBy_iff.mp hown).2.2.2
    have hb := (QueueRow.ownedBy_iff.mp hown').2.2.2
    exact Option.some.inj (ha.symm.trans hb)

def emptyQueue : State := ⟨[], 0, [], 0, fun _ _ => none⟩

/-- The claim of worker 7. -/
def firstAttempt : Attempt := ⟨7, ⟨0, "root", none, "a", false, .incremental, 1, 0⟩, 1⟩

/-- A path is enqueued again while it is being worked on. -/
def enqueuedTwice : List Action :=
  [.enqueue 0 "root" none "a" false .incremental 50, .claim 7 1 0,
    .finalizePublish 2 "root" none "a"]

theorem queue_loses_no_change_twice :
    ∃ s, run step emptyQueue enqueuedTwice = some s ∧ firstAttempt ∈ s.attempts ∧
      s.Stale firstAttempt ∧ s.Waits "root" "a" ∧
        completeTask s.rows firstAttempt.task firstAttempt.workerId = s.rows := by
  obtain ⟨s, hrun, hs⟩ := exists_run step emptyQueue enqueuedTwice
    (fun s => decide (s.enqueuedAt "root" "a" = some 2) && decide (s.attempts =
      [firstAttempt])) (by decide)
  simp only [Bool.and_eq_true, decide_eq_true_eq] at hs
  have hreach : Reach step anyStep Initial s :=
    .of_run (.init ⟨rfl, rfl, fun _ _ => rfl⟩) (fun _ _ _ => trivial) hrun
  have hmem : firstAttempt ∈ s.attempts := by rw [hs.2]; exact List.mem_cons_self
  have hstale : s.Stale firstAttempt := ⟨2, hs.1, by decide⟩
  obtain ⟨hsame, hwaits, -, -⟩ := queue_loses_no_change hreach
  refine ⟨s, hrun, hmem, hstale, hwaits _ _ ?_ fun a ha _ _ => ?_, (hsame _ hmem hstale).1⟩
  · rw [hs.1]
    exact Option.some_ne_none _
  · rw [hs.2] at ha
    rwa [List.mem_singleton.mp ha]

end Zos.Indexer
