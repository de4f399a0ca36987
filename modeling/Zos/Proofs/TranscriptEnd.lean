import Zos.Jobs.Transcript

/-!
# Which end of a transcript is shown

The items are read in ascending order with a limit of 500, so that in a longer session the first
500 are shown and the newest left out. Nothing is missing exactly if the items beyond the first 500
have nothing to show.
-/

namespace Zos.Jobs.Transcript

variable {n : Nat} {history before rest : List Append} {a : Append} {item : Item} {source : Source}
  {sessionId : String}

/-! ## The items of a history -/

/-- The items that are added, from a sequence on. -/
def recorded (n : Nat) : List Append → List Item
  | [] => []
  | a :: rest =>
    match a.source with
    | none => recorded n rest
    | some source => ⟨n, a.sessionId, source⟩ :: recorded (n + 1) rest

theorem foldl_append (db : Db) : history.foldl append db =
    ⟨db.items ++ recorded db.sequence history,
      db.sequence + (recorded db.sequence history).length⟩ := by
  induction history generalizing db with
  | nil => simp [recorded]
  | cons a rest ih =>
      rw [List.foldl_cons, ih, append, recorded]
      cases a.source with
      | none => rfl
      | some source =>
          simp only [List.append_assoc, List.singleton_append, List.length_cons, Db.mk.injEq,
            true_and]
          omega

theorem items_after : (after n history).items = recorded n history := by
  rw [after, foldl_append, List.nil_append]

theorem sequence_after : (after n history).sequence = n + (recorded n history).length := by
  rw [after, foldl_append]

theorem sequence_after_cons : (after n (a :: before)).sequence =
    (after (after n [a]).sequence before).sequence := by
  rw [after, List.foldl_cons, foldl_append, sequence_after]
  rfl

theorem recorded_append : recorded n (before ++ rest) =
    recorded n before ++ recorded (after n before).sequence rest := by
  have hitems : (after n (before ++ rest)).items = _ := items_after
  rw [after, List.foldl_append, ← after, foldl_append, items_after] at hitems
  exact hitems.symm

theorem le_sequence (h : item ∈ recorded n history) : n ≤ item.sequence := by
  induction history generalizing n with
  | nil => cases h
  | cons a rest ih =>
      rw [recorded] at h
      cases hsource : a.source with
      | none =>
          rw [hsource] at h
          exact ih h
      | some source =>
          rw [hsource] at h
          rcases List.mem_cons.mp h with rfl | h
          · exact Nat.le_refl n
          · exact Nat.le_of_succ_le (ih h)

theorem sorted_recorded : (recorded n history).Pairwise (·.sequence < ·.sequence) := by
  induction history generalizing n with
  | nil => exact .nil
  | cons a rest ih =>
      rw [recorded]
      cases a.source with
      | none => exact ih
      | some source => exact .cons (fun item hitem => le_sequence hitem) ih

/-- An item comes from an append of the history. -/
theorem exists_append_of_mem (h : item ∈ recorded n history) :
    ∃ before a rest, history = before ++ a :: rest ∧ a.source = some item.source ∧
      a.sessionId = item.sessionId ∧ item.sequence = (after n before).sequence := by
  induction history generalizing n with
  | nil => cases h
  | cons a rest ih =>
      have hlater {m : Nat} (hm : (after n [a]).sequence = m) (hmem : item ∈ recorded m rest) :
          ∃ before b rest', a :: rest = before ++ b :: rest' ∧ b.source = some item.source ∧
            b.sessionId = item.sessionId ∧ item.sequence = (after n before).sequence := by
        obtain ⟨before, b, rest', rfl, hsource, hsession, hsequence⟩ := ih hmem
        refine ⟨a :: before, b, rest', rfl, hsource, hsession, ?_⟩
        rw [hsequence, sequence_after_cons, hm]
      rw [recorded] at h
      cases hsource : a.source with
      | none =>
          rw [hsource] at h
          exact hlater (by rw [after, List.foldl_cons, append, hsource]; rfl) h
      | some source =>
          rw [hsource] at h
          rcases List.mem_cons.mp h with rfl | h
          · exact ⟨[], a, rest, rfl, hsource, rfl, rfl⟩
          · exact hlater (by rw [after, List.foldl_cons, append, hsource]; rfl) h

/-! ## The answer -/

/-- The items of the session. -/
def sessionItems (n : Nat) (history : List Append) (sessionId : String) : List Item :=
  (recorded n history).filter (·.sessionId = sessionId)

theorem transcript_after : transcript (after n history) sessionId =
    ((sessionItems n history sessionId).take 500).filterMap Item.entry := by
  rw [transcript, listTranscriptItems, items_after, sessionItems]

theorem sorted_sessionItems :
    (sessionItems n history sessionId).Pairwise (·.sequence < ·.sequence) :=
  sorted_recorded.sublist List.filter_sublist

theorem entry_eq_some {entry : Entry} : item.entry = some entry ↔ item.source.content ≠ "" ∧
    entry = ⟨item.source.role, item.source.content, item.sequence⟩ := by
  rw [Item.entry, Option.ite_none_left_eq_some, Option.some.injEq, eq_comm (a := entry)]

theorem increasing_filterMap {items : List Item} (h : items.Pairwise (·.sequence < ·.sequence)) :
    ((items.filterMap Item.entry).map Entry.sequence).Pairwise (· < ·) := by
  rw [List.pairwise_map, List.pairwise_filterMap]
  refine h.imp fun {x y} hlt entry hentry entry' hentry' => ?_
  rw [(entry_eq_some.mp hentry).2, (entry_eq_some.mp hentry').2]
  exact hlt

/-- The item of an append that is shown. -/
theorem mem_sessionItems (h : a.Shown sessionId source) :
    ⟨(after n before).sequence, sessionId, source⟩ ∈
      sessionItems n (before ++ a :: rest) sessionId := by
  obtain ⟨rfl, hsource, -⟩ := h
  rw [sessionItems, recorded_append, recorded, hsource]
  simp

/-- Of the appends that are shown there is a last one. -/
theorem exists_last_shown (h : ∃ b ∈ history, ∃ source, b.Shown sessionId source) :
    ∃ before a rest source, history = before ++ a :: rest ∧ a.Shown sessionId source ∧
      ∀ b ∈ rest, ∀ other, ¬ b.Shown sessionId other := by
  induction history with
  | nil =>
      obtain ⟨b, hb, -⟩ := h
      cases hb
  | cons a rest ih =>
      by_cases hrest : ∃ b ∈ rest, ∃ source, b.Shown sessionId source
      · obtain ⟨before, b, rest', source, rfl, hshown, hlast⟩ := ih hrest
        exact ⟨a :: before, b, rest', source, rfl, hshown, hlast⟩
      · obtain ⟨b, hb, source, hshown⟩ := h
        rcases List.mem_cons.mp hb with rfl | hb
        · exact ⟨[], b, rest, source, rfl, hshown, fun c hc other hother =>
            hrest ⟨c, hc, other, hother⟩⟩
        · exact absurd ⟨b, hb, source, hshown⟩ hrest

/-- If the newest is shown, nothing is left out behind it. -/
theorem entry_eq_none_of_showsNewest (h : ShowsNewest n history sessionId) :
    ∀ item ∈ (sessionItems n history sessionId).drop 500, item.entry = none := by
  intro item hitem
  by_contra hsome
  obtain ⟨entry, hentry⟩ := Option.ne_none_iff_exists'.mp hsome
  have hmem := List.mem_of_mem_filter (List.mem_of_mem_drop hitem)
  have hsession : item.sessionId = sessionId := by
    simpa using List.of_mem_filter (List.mem_of_mem_drop hitem)
  obtain ⟨before', b, rest', hhistory', hsource', hsession', hsequence'⟩ :=
    exists_append_of_mem hmem
  have hb : b.Shown sessionId item.source :=
    ⟨hsession'.trans hsession, hsource', (entry_eq_some.mp hentry).1⟩
  have hbmem : b ∈ history := by simp [hhistory']
  obtain ⟨before, a, rest, source, hhistory, ha, hlast⟩ :=
    exists_last_shown ⟨b, hbmem, item.source, hb⟩
  obtain ⟨shown, hshown, hsequence, -⟩ := h.newest before a rest source hhistory ha
    fun c hc other hother => absurd hother (hlast c hc other)
  -- The item lies at or before the last one that is shown.
  have hle : item.sequence ≤ (after n before).sequence := by
    rw [hhistory, recorded_append, recorded, ha.2.1] at hmem
    rcases List.mem_append.mp hmem with hmem | hmem
    · have hsorted : (recorded n (before ++ [a])).Pairwise (·.sequence < ·.sequence) :=
        sorted_recorded
      rw [recorded_append, recorded, ha.2.1] at hsorted
      exact Nat.le_of_lt ((List.pairwise_append.mp hsorted).2.2 item hmem _ List.mem_cons_self)
    · rcases List.mem_cons.mp hmem with rfl | hmem
      · exact Nat.le_refl _
      · obtain ⟨between, c, last, rfl, hc, hcSession, -⟩ := exists_append_of_mem hmem
        exact absurd ⟨hcSession.trans hsession, hc, hb.2.2⟩ (hlast c (by simp) item.source)
  -- What is shown lies before it.
  rw [transcript_after, List.mem_filterMap] at hshown
  obtain ⟨first, hfirst, hfirstEntry⟩ := hshown
  have hsorted : (sessionItems n history sessionId).Pairwise (·.sequence < ·.sequence) :=
    sorted_sessionItems
  rw [← List.take_append_drop 500 (sessionItems n history sessionId)] at hsorted
  have hlt := (List.pairwise_append.mp hsorted).2.2 first hfirst item hitem
  rw [(entry_eq_some.mp hfirstEntry).2] at hsequence
  dsimp only at hsequence
  omega

theorem shows_newest_iff (first : Nat) (history : List Append) (sessionId : String) :
    ShowsNewest first history sessionId ↔
      ∀ item ∈ ((after first history).items.filter (·.sessionId = sessionId)).drop 500,
        item.entry = none := by
  rw [items_after, ← sessionItems]
  refine ⟨entry_eq_none_of_showsNewest, fun h => ?_⟩
  have hall : transcript (after first history) sessionId =
      (sessionItems first history sessionId).filterMap Item.entry := by
    rw [transcript_after]
    conv_rhs => rw [← List.take_append_drop 500 (sessionItems first history sessionId),
      List.filterMap_append, List.filterMap_eq_nil_iff.mpr h, List.append_nil]
  refine ⟨?_, fun before a rest source hhistory ha _ => ?_, ?_⟩
  · rw [hall]
    exact increasing_filterMap sorted_sessionItems
  · subst hhistory
    rw [hall]
    refine ⟨⟨source.role, source.content, (after first before).sequence⟩, ?_, rfl, rfl⟩
    exact List.mem_filterMap.mpr ⟨_, mem_sessionItems ha, entry_eq_some.mpr ⟨ha.2.2, rfl⟩⟩
  · rw [hall, items_after]
    exact List.suffix_rfl

/-! ## A long session -/

theorem recorded_replicate {content : String} (h : a.source = some (.message content)) (m : Nat) :
    (recorded n (List.replicate m a)).length = m ∧
      ∀ item ∈ recorded n (List.replicate m a), item.sessionId = a.sessionId := by
  induction m generalizing n with
  | zero => exact ⟨rfl, nofun⟩
  | succ m ih =>
      obtain ⟨hlength, hsession⟩ := ih (n := n + 1)
      rw [List.replicate_succ, recorded, h]
      exact ⟨by rw [List.length_cons, hlength], List.forall_mem_cons.mpr ⟨rfl, hsession⟩⟩

/-- The last of 501 messages is not shown. -/
theorem last_message_is_missing :
    ¬ ShowsNewest 1 (List.replicate 501 (.message "s" (some "hello"))) "s" := by
  intro h
  have hsource : (Append.message "s" (some "hello")).source = some (.message "hello") := rfl
  obtain ⟨hlength, hsession⟩ := recorded_replicate hsource 500 (n := 1)
  have hkept : (recorded 1 (List.replicate 500 (.message "s" (some "hello")))).filter
      (·.sessionId = "s") = recorded 1 (List.replicate 500 (.message "s" (some "hello"))) :=
    List.filter_eq_self.mpr fun item hitem => decide_eq_true (hsession item hitem)
  have hitems : sessionItems 1 (List.replicate 501 (.message "s" (some "hello"))) "s" =
      recorded 1 (List.replicate 500 (.message "s" (some "hello"))) ++
        [⟨501, "s", .message "hello"⟩] := by
    rw [sessionItems, List.replicate_succ', recorded_append, recorded, hsource, sequence_after,
      hlength, List.filter_append, hkept]
    rfl
  have hnone := entry_eq_none_of_showsNewest h ⟨501, "s", .message "hello"⟩
    (by rw [hitems, List.drop_left' hlength]; exact List.mem_cons_self)
  cases hnone

end Zos.Jobs.Transcript
