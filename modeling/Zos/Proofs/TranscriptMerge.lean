import Zos.Web.Transcript

/-!
# When the transcript on the screen converges

The reducer sorts only where it merges, and not while a message without a sequence is among those
it merges. Every action but one therefore mends the order once nothing is pending: a snapshot, an
event and an acknowledgement merge. A rollback only takes a message away, so what was appended out
of order while the message was there stays so. The content of the list needs no condition: that
each message came once, from the current session, holds throughout.
-/

namespace Zos.Web.Transcript

open Zos.Lib

variable {persisted : Persisted} {s next : State} {m : TranscriptMessage}

theorem Persisted.same {session other : String} {n : TranscriptMessage}
    (hm : (session, m) ∈ persisted.messages) (hn : (other, n) ∈ persisted.messages)
    (hid : m.id = n.id) : m = n :=
  congrArg Prod.snd (List.inj_on_of_nodup_map persisted.ids hm hn hid)

/-! ## Merging -/

section Merge

variable {first second : List TranscriptMessage}

theorem mem_mergeTranscriptMessages :
    m ∈ mergeTranscriptMessages first second ↔ m ∈ (first ++ second).foldl setMessage [] := by
  rw [mergeTranscriptMessages]
  split
  · exact Iff.rfl
  · exact List.mem_mergeSort

theorem of_mem_merge (h : m ∈ mergeTranscriptMessages first second) : m ∈ first ++ second := by
  rcases mem_of_mem_foldl_upsert (mem_mergeTranscriptMessages.mp h) with hnil | hmem
  · cases hnil
  · exact hmem

theorem merge_once : ((mergeTranscriptMessages first second).map (·.id)).Nodup := by
  have hfold : (((first ++ second).foldl setMessage []).map (·.id)).Nodup :=
    foldl_upsert_keys List.nodup_nil
  rw [mergeTranscriptMessages]
  split
  · exact hfold
  · exact ((List.mergeSort_perm _ _).map _).nodup_iff.mpr hfold

theorem exists_mem_merge (h : m ∈ first ++ second) :
    ∃ n ∈ mergeTranscriptMessages first second, n.id = m.id := by
  obtain ⟨n, hn, hid, _⟩ : ∃ n ∈ (first ++ second).foldl setMessage [], n.id = m.id ∧ True :=
    exists_of_mem_foldl_upsert (R := fun _ _ => True) (fun _ => trivial) (fun _ _ _ => trivial)
      (fun _ _ _ => trivial) (fun _ _ _ _ _ => trivial) List.nodup_nil (.inr h)
  exact ⟨n, mem_mergeTranscriptMessages.mpr hn, hid⟩

theorem merge_inOrder (h : ∀ m ∈ mergeTranscriptMessages first second, m.sequence ≠ none) :
    InOrder (mergeTranscriptMessages first second) := by
  have hnone : ((first ++ second).foldl setMessage []).any (·.sequence = none) = false := by
    rw [List.any_eq_false]
    intro m hm
    simpa using h m (mem_mergeTranscriptMessages.mpr hm)
  rw [mergeTranscriptMessages, hnone]
  refine List.pairwise_mergeSort ?_ ?_ _
  · intro a b c hab hbc
    simp only [sequenceLe, decide_eq_true_eq] at hab hbc ⊢
    omega
  · intro a b
    simp only [sequenceLe, Bool.or_eq_true, decide_eq_true_eq]
    omega

end Merge

/-! ## What is kept throughout -/

/-- The ids of optimistic messages are no ids of persisted ones. -/
structure Books (persisted : Persisted) (s : State) : Prop where
  pending : ∀ entry ∈ s.pending, entry.2 ∈ s.issued
  rolledBack : ∀ id ∈ s.rolledBack, id ∈ s.issued
  apart : ∀ id ∈ s.issued, id ∉ persisted.messages.map (·.2.id)

theorem Books.ne (h : Books persisted s) {session id : String} (hid : id ∈ s.issued)
    (hm : (session, m) ∈ persisted.messages) : m.id ≠ id := by
  intro heq
  exact h.apart id hid (List.mem_map.mpr ⟨_, hm, heq⟩)

def State.Owns (persisted : Persisted) (s : State) (m : TranscriptMessage) : Prop :=
  ∃ session, s.shown.sessionId = some session ∧ (session, m) ∈ persisted.messages

def State.Waits (s : State) (m : TranscriptMessage) : Prop :=
  m.sequence = none ∧ ∃ session, s.shown.sessionId = some session ∧ (session, m.id) ∈ s.pending

structure Content (persisted : Persisted) (s : State) : Prop where
  books : Books persisted s
  once : (s.shown.messages.map (·.id)).Nodup
  complete : ∀ m ∈ s.seen, m ∈ s.shown.messages
  seen : ∀ m ∈ s.seen, s.Owns persisted m
  shown : ∀ m ∈ s.shown.messages, m ∈ s.seen ∨ s.Waits m

/-- The content is right, and the order too once nothing waits. -/
def Settled (persisted : Persisted) (s : State) : Prop :=
  Content persisted s ∧ (s.Quiet → InOrder s.shown.messages)

theorem not_waits (h : s.Quiet) : ¬ s.Waits m := by
  intro ⟨_, session, hsession, hpending⟩
  exact h _ hpending hsession

theorem Content.quiet (h : Content persisted s) (hquiet : s.Quiet) :
    Converged persisted s ↔ InOrder s.shown.messages := by
  refine ⟨Converged.inOrder, fun horder => ⟨h.complete, h.once, ?_, ?_, horder⟩⟩
  · intro m hm
    have hseen := (h.shown m hm).resolve_right (not_waits hquiet)
    exact ⟨hseen, h.seen m hseen⟩
  · intro m hm hrolled
    have hseen := (h.shown m hm).resolve_right (not_waits hquiet)
    obtain ⟨session, _, hpersisted⟩ := h.seen m hseen
    exact h.books.ne (h.books.rolledBack _ hrolled) hpersisted rfl

/-- Whatever is merged, the content is right if every message of it may be shown, and the order is
right if none of them waits. -/
theorem Content.merged {first second : List TranscriptMessage} (hbooks : Books persisted s)
    (hmessages : s.shown.messages = mergeTranscriptMessages first second)
    (hseen : ∀ m ∈ s.seen, s.Owns persisted m ∧ m ∈ first ++ second)
    (hall : ∀ m ∈ first ++ second, m ∈ s.seen ∨ s.Waits m) :
    Settled persisted s := by
  refine ⟨⟨hbooks, hmessages ▸ merge_once, ?_, fun m hm => (hseen m hm).1, ?_⟩, ?_⟩
  · intro m hm
    obtain ⟨⟨session, hsession, hpersisted⟩, hmem⟩ := hseen m hm
    obtain ⟨n, hn, hid⟩ := exists_mem_merge hmem
    rcases hall n (of_mem_merge hn) with hnseen | ⟨_, other, _, hpending⟩
    · obtain ⟨⟨_, _, hnpersisted⟩, _⟩ := hseen n hnseen
      rw [hmessages, ← Persisted.same hnpersisted hpersisted hid]
      exact hn
    · exact absurd hid.symm (hbooks.ne (hbooks.pending _ hpending) hpersisted)
  · intro m hm
    rw [hmessages] at hm
    exact hall m (of_mem_merge hm)
  · intro hquiet
    rw [hmessages]
    apply merge_inOrder
    intro m hm
    have hmem := (hall m (of_mem_merge hm)).resolve_right (not_waits hquiet)
    obtain ⟨⟨session, _, hpersisted⟩, _⟩ := hseen m hmem
    exact Option.isSome_iff_ne_none.mp (persisted.numbered _ hpersisted)

/-! ## One step -/

section Step

variable {sessionId id : String}

/-- What an input can do. -/
theorem step_cases {input : Input} (h : step persisted s input = some next) :
    (input.action = none ∧ next = s) ∨
      ∃ action, input.action = some action ∧ valid persisted s action ∧
        next = s.dispatch action := by
  simp only [step] at h
  split at h
  · next hnone => exact .inl ⟨hnone, (Option.some.inj h).symm⟩
  · next action hsome =>
      split at h
      · next hvalid => exact .inr ⟨action, hsome, hvalid, (Option.some.inj h).symm⟩
      · cases h

/-- The list on the screen, what was seen and what is pending of the session stay as they are. -/
structure Apart (s next : State) : Prop where
  session : next.shown.sessionId = s.shown.sessionId
  messages : next.shown.messages = s.shown.messages
  seen : next.seen = s.seen
  pending : ∀ session id, s.shown.sessionId = some session →
    ((session, id) ∈ next.pending ↔ (session, id) ∈ s.pending)

theorem Apart.quiet (h : Apart s next) : next.Quiet ↔ s.Quiet := by
  unfold State.Quiet
  rw [h.session]
  constructor
  · intro hquiet entry hentry heq
    exact hquiet entry ((h.pending entry.1 entry.2 heq).mpr hentry) heq
  · intro hquiet entry hentry heq
    exact hquiet entry ((h.pending entry.1 entry.2 heq).mp hentry) heq

theorem Apart.content (h : Apart s next) (hbooks : Books persisted next)
    (hs : Content persisted s) : Content persisted next := by
  refine ⟨hbooks, h.messages ▸ hs.once, ?_, ?_, ?_⟩
  · rw [h.seen, h.messages]
    exact hs.complete
  · rw [h.seen]
    intro m hm
    obtain ⟨session, hsession, hmem⟩ := hs.seen m hm
    exact ⟨session, h.session.trans hsession, hmem⟩
  · rw [h.messages, h.seen]
    intro m hm
    refine (hs.shown m hm).imp_right ?_
    intro ⟨hnone, session, hsession, hmem⟩
    exact ⟨hnone, session, h.session.trans hsession, (h.pending session m.id hsession).mpr hmem⟩

theorem Content.cleared (hbooks : Books persisted s) (hmessages : s.shown.messages = [])
    (hseen : s.seen = []) : Settled persisted s := by
  refine ⟨⟨hbooks, ?_, ?_, ?_, ?_⟩, ?_⟩ <;> simp [hmessages, hseen, InOrder]

theorem Books.optimistic (h : Books persisted s)
    (hvalid : valid persisted s (.optimistic sessionId m)) :
    Books persisted (s.dispatch (.optimistic sessionId m)) := by
  simp only [valid, decide_eq_true_eq] at hvalid
  refine ⟨?_, ?_, ?_⟩
  · intro entry hentry
    rcases List.mem_cons.mp hentry with rfl | hentry
    · exact List.mem_cons_self
    · exact List.mem_cons_of_mem _ (h.pending entry hentry)
  · intro id hid
    exact List.mem_cons_of_mem _ (h.rolledBack id hid)
  · intro id hid
    rcases List.mem_cons.mp hid with rfl | hid
    · exact hvalid.2.2
    · exact h.apart id hid

theorem Books.acknowledge (h : Books persisted s) :
    Books persisted (s.dispatch (.acknowledge sessionId id m)) :=
  ⟨fun entry hentry => h.pending entry (List.mem_of_mem_filter hentry), h.rolledBack, h.apart⟩

theorem Books.rollback (h : Books persisted s) (hpending : (sessionId, id) ∈ s.pending) :
    Books persisted (s.dispatch (.rollback sessionId id)) := by
  refine ⟨fun entry hentry => h.pending entry (List.mem_of_mem_filter hentry), ?_, h.apart⟩
  intro other hother
  rcases List.mem_cons.mp hother with rfl | hother
  · exact h.pending _ hpending
  · exact h.rolledBack other hother

/-- An answer of another session leaves what is pending of this one. -/
theorem pending_answered {session other : String} (hsession : session ≠ sessionId) :
    (session, other) ∈ s.pending.filter (· ≠ (sessionId, id)) ↔ (session, other) ∈ s.pending := by
  simp [hsession]

/-- What persisted messages of the current session bring. -/
theorem Content.bring {first second messages : List TranscriptMessage} (h : Content persisted s)
    (hbooks : Books persisted next)
    (hsession : s.shown.sessionId = some sessionId)
    (hkeeps : next.shown.sessionId = s.shown.sessionId)
    (hmessages : next.shown.messages = mergeTranscriptMessages first second)
    (hseen : next.seen = s.seen ++ messages)
    (hpersisted : ∀ m ∈ messages, (sessionId, m) ∈ persisted.messages)
    (hmem : ∀ m ∈ next.seen, m ∈ first ++ second)
    (hold : ∀ m ∈ first ++ second, m ∈ messages ∨ m ∈ s.shown.messages ∧
      (s.Waits m → next.Waits m)) :
    Settled persisted next := by
  refine Content.merged hbooks hmessages ?_ ?_
  · intro m hm
    refine ⟨?_, hmem m hm⟩
    rw [hseen] at hm
    rcases List.mem_append.mp hm with hm | hm
    · obtain ⟨session, hcurrent, howned⟩ := h.seen m hm
      exact ⟨session, hkeeps.trans hcurrent, howned⟩
    · exact ⟨sessionId, hkeeps.trans hsession, hpersisted m hm⟩
  · intro m hm
    rw [hseen, List.mem_append]
    rcases hold m hm with hnew | ⟨hshown, hwaits⟩
    · exact .inl (.inr hnew)
    · exact (h.shown m hshown).imp .inl hwaits

/-- Persisted messages that are merged with all that is shown. -/
theorem Content.join {first second messages : List TranscriptMessage} (h : Content persisted s)
    (hsession : s.shown.sessionId = some sessionId)
    (hkeeps : next.shown.sessionId = s.shown.sessionId)
    (hmessages : next.shown.messages = mergeTranscriptMessages first second)
    (hseen : next.seen = s.seen ++ messages)
    (hpersisted : ∀ m ∈ messages, (sessionId, m) ∈ persisted.messages)
    (hbooks : Books persisted next) (hpending : next.pending = s.pending)
    (hjoined : ∀ m, m ∈ first ++ second ↔ m ∈ messages ∨ m ∈ s.shown.messages) :
    Settled persisted next := by
  refine h.bring hbooks hsession hkeeps hmessages hseen hpersisted ?_ ?_
  · intro m hm
    rw [hseen] at hm
    exact (hjoined m).mpr ((List.mem_append.mp hm).symm.imp_right (h.complete m))
  · intro m hm
    refine ((hjoined m).mp hm).imp_right fun hm => ⟨hm, ?_⟩
    intro ⟨hnone, session, hcurrent, hwaits⟩
    exact ⟨hnone, session, hkeeps.trans hcurrent, hpending ▸ hwaits⟩

theorem Content.snapshot {messages : List TranscriptMessage} (h : Content persisted s)
    (hsession : s.shown.sessionId = some sessionId)
    (hvalid : valid persisted s (.snapshot sessionId messages)) :
    Settled persisted (s.dispatch (.snapshot sessionId messages)) := by
  have hshown : (s.dispatch (.snapshot sessionId messages)).shown = { s.shown with
      phase := .ready, messages := mergeTranscriptMessages messages s.shown.messages } :=
    if_neg (not_not_intro hsession)
  simp only [valid, List.all_eq_true, decide_eq_true_eq] at hvalid
  exact h.join hsession (by rw [hshown]) (by rw [hshown]) (if_pos hsession) hvalid
    ⟨h.books.pending, h.books.rolledBack, h.books.apart⟩ rfl fun _ => List.mem_append

theorem Content.event (h : Content persisted s) (hsession : s.shown.sessionId = some sessionId)
    (hvalid : valid persisted s (.event sessionId m)) :
    Settled persisted (s.dispatch (.event sessionId m)) := by
  have hshown : (s.dispatch (.event sessionId m)).shown = { s.shown with
      messages := mergeTranscriptMessages s.shown.messages [m] } :=
    if_neg (not_not_intro hsession)
  have hseen : (s.dispatch (.event sessionId m)).seen = s.seen ++ [m] := if_pos hsession
  simp only [valid, decide_eq_true_eq] at hvalid
  exact h.join hsession (by rw [hshown]) (by rw [hshown]) hseen (by simpa using hvalid)
    ⟨h.books.pending, h.books.rolledBack, h.books.apart⟩ rfl
    fun _ => List.mem_append.trans or_comm

theorem Content.acknowledge (h : Content persisted s)
    (hsession : s.shown.sessionId = some sessionId)
    (hvalid : valid persisted s (.acknowledge sessionId id m)) :
    Settled persisted (s.dispatch (.acknowledge sessionId id m)) := by
  have hshown : (s.dispatch (.acknowledge sessionId id m)).shown = { s.shown with
      messages := mergeTranscriptMessages (s.shown.messages.filter (·.id ≠ id)) [m] } :=
    if_neg (not_not_intro hsession)
  have hseen : (s.dispatch (.acknowledge sessionId id m)).seen = s.seen ++ [m] := if_pos hsession
  simp only [valid, decide_eq_true_eq] at hvalid
  refine h.bring h.books.acknowledge hsession
    (by rw [hshown]) (by rw [hshown]) hseen (by simpa using hvalid.2) ?_ ?_
  · intro n hn
    rw [hseen] at hn
    rcases List.mem_append.mp hn with hn | hn
    · -- a persisted message has not the id of the optimistic one
      obtain ⟨session, _, howned⟩ := h.seen n hn
      have hne := h.books.ne (h.books.pending _ hvalid.1) howned
      exact List.mem_append_left _ (List.mem_filter.mpr ⟨h.complete n hn, by simpa using hne⟩)
    · exact List.mem_append_right _ hn
  · intro n hn
    refine (List.mem_append.mp hn).symm.imp_right fun hn => ?_
    obtain ⟨hn, hne⟩ := List.mem_filter.mp hn
    refine ⟨hn, ?_⟩
    intro ⟨hnone, session, hcurrent, hpending⟩
    refine ⟨hnone, session, by rw [hshown]; exact hcurrent, List.mem_filter.mpr ⟨hpending, ?_⟩⟩
    exact decide_eq_true fun heq => of_decide_eq_true hne (congrArg Prod.snd heq)

theorem Content.optimistic (h : Content persisted s)
    (hsession : s.shown.sessionId = some sessionId)
    (hvalid : valid persisted s (.optimistic sessionId m)) :
    Settled persisted (s.dispatch (.optimistic sessionId m)) := by
  have hshown : (s.dispatch (.optimistic sessionId m)).shown = { s.shown with
      messages := mergeTranscriptMessages s.shown.messages [m] } :=
    if_neg (not_not_intro hsession)
  have hnone : m.sequence = none := by
    simp only [valid, decide_eq_true_eq] at hvalid
    exact hvalid.1
  refine Content.merged (h.books.optimistic hvalid) (by rw [hshown]) ?_ ?_
  · intro n hn
    obtain ⟨session, hcurrent, howned⟩ := h.seen n hn
    exact ⟨⟨session, by rw [hshown]; exact hcurrent, howned⟩,
      List.mem_append_left _ (h.complete n hn)⟩
  · intro n hn
    rcases List.mem_append.mp hn with hn | hn
    · refine (h.shown n hn).imp_right ?_
      intro ⟨hnone, session, hcurrent, hpending⟩
      exact ⟨hnone, session, by rw [hshown]; exact hcurrent, List.mem_cons_of_mem _ hpending⟩
    · cases List.mem_singleton.mp hn
      exact .inr ⟨hnone, sessionId, by rw [hshown]; exact hsession, List.mem_cons_self⟩

/-- With nothing left to wait for, a rollback leaves the persisted messages. -/
theorem Content.rollback_messages (h : Content persisted s)
    (hsession : s.shown.sessionId = some sessionId) (hpending : (sessionId, id) ∈ s.pending)
    (hlast : ∀ entry ∈ s.pending, entry.1 = sessionId → entry.2 = id) :
    s.shown.messages.filter (·.id ≠ id) = s.shown.messages.filter (·.sequence.isSome) := by
  apply List.filter_congr
  intro m hm
  rcases h.shown m hm with hseen | ⟨hnone, session, hcurrent, hwaits⟩
  · obtain ⟨session, _, howned⟩ := h.seen m hseen
    have hsome := persisted.numbered _ howned
    have hne := h.books.ne (h.books.pending _ hpending) howned
    simp_all
  · rw [hsession, Option.some.injEq] at hcurrent
    have hid : m.id = id := hlast _ hwaits hcurrent.symm
    simp [hnone, hid]

theorem Content.rollback (h : Content persisted s)
    (hsession : s.shown.sessionId = some sessionId) (hpending : (sessionId, id) ∈ s.pending) :
    Content persisted (s.dispatch (.rollback sessionId id)) := by
  have hshown : (s.dispatch (.rollback sessionId id)).shown = { s.shown with
      messages := s.shown.messages.filter (·.id ≠ id) } :=
    if_neg (not_not_intro hsession)
  refine ⟨h.books.rollback hpending, ?_, ?_, ?_, ?_⟩
  · rw [hshown]
    exact h.once.sublist (List.filter_sublist.map _)
  · intro m hm
    obtain ⟨session, _, howned⟩ := h.seen m hm
    have hne := h.books.ne (h.books.pending _ hpending) howned
    rw [hshown]
    exact List.mem_filter.mpr ⟨h.complete m hm, by simpa using hne⟩
  · intro m hm
    obtain ⟨session, hcurrent, howned⟩ := h.seen m hm
    exact ⟨session, by rw [hshown]; exact hcurrent, howned⟩
  · intro m hm
    rw [hshown] at hm
    obtain ⟨hm, hne⟩ := List.mem_filter.mp hm
    refine (h.shown m hm).imp_right ?_
    intro ⟨hnone, session, hcurrent, hwaits⟩
    refine ⟨hnone, session, by rw [hshown]; exact hcurrent, List.mem_filter.mpr ⟨hwaits, ?_⟩⟩
    exact decide_eq_true fun heq => of_decide_eq_true hne (congrArg Prod.snd heq)

theorem Settled.of_apart (h : Settled persisted s) (hapart : Apart s next)
    (hbooks : Books persisted next) : Settled persisted next := by
  refine ⟨hapart.content hbooks h.1, ?_⟩
  intro hquiet
  rw [hapart.messages]
  exact h.2 (hapart.quiet.mp hquiet)

/-- Every action settles the transcript, a rollback in the current session apart. -/
theorem Settled.dispatch {action : TranscriptAction} (h : Settled persisted s)
    (hvalid : valid persisted s action)
    (hrollback : ∀ sessionId id, action = .rollback sessionId id →
      s.shown.sessionId ≠ some sessionId) : Settled persisted (s.dispatch action) := by
  have hbooks := h.1.books
  cases action with
  | reset | prepare | begin sessionId =>
      exact Content.cleared ⟨hbooks.pending, hbooks.rolledBack, hbooks.apart⟩ rfl rfl
  | snapshot sessionId messages =>
      by_cases hsession : s.shown.sessionId = some sessionId
      · exact h.1.snapshot hsession hvalid
      · refine h.of_apart ⟨?_, ?_, if_neg hsession, fun _ _ _ => Iff.rfl⟩
          ⟨hbooks.pending, hbooks.rolledBack, hbooks.apart⟩ <;>
          simp [State.dispatch, transcriptReducer, hsession]
  | event sessionId m =>
      by_cases hsession : s.shown.sessionId = some sessionId
      · exact h.1.event hsession hvalid
      · refine h.of_apart ⟨?_, ?_, if_neg hsession, fun _ _ _ => Iff.rfl⟩
          ⟨hbooks.pending, hbooks.rolledBack, hbooks.apart⟩ <;>
          simp [State.dispatch, transcriptReducer, hsession]
  | optimistic sessionId m =>
      by_cases hsession : s.shown.sessionId = some sessionId
      · exact h.1.optimistic hsession hvalid
      · refine h.of_apart ⟨?_, ?_, rfl, ?_⟩ (hbooks.optimistic hvalid)
        · simp [State.dispatch, transcriptReducer, hsession]
        · simp [State.dispatch, transcriptReducer, hsession]
        · intro session id hcurrent
          have hne : session ≠ sessionId := by
            intro heq
            exact hsession (heq ▸ hcurrent)
          simp [State.dispatch, hne]
  | acknowledge sessionId id m =>
      by_cases hsession : s.shown.sessionId = some sessionId
      · exact h.1.acknowledge hsession hvalid
      · refine h.of_apart ⟨?_, ?_, if_neg hsession, ?_⟩ hbooks.acknowledge
        · simp [State.dispatch, transcriptReducer, hsession]
        · simp [State.dispatch, transcriptReducer, hsession]
        · intro session other hcurrent
          exact pending_answered fun heq => hsession (heq ▸ hcurrent)
  | rollback sessionId id =>
      have hsession := hrollback sessionId id rfl
      refine h.of_apart ⟨?_, ?_, rfl, ?_⟩ (hbooks.rollback (by simpa [valid] using hvalid))
      · simp [State.dispatch, transcriptReducer, hsession]
      · simp [State.dispatch, transcriptReducer, hsession]
      · intro session other hcurrent
        exact pending_answered fun heq => hsession (heq ▸ hcurrent)
  | failed sessionId =>
      refine h.of_apart ⟨?_, ?_, rfl, fun _ _ _ => Iff.rfl⟩
        ⟨hbooks.pending, hbooks.rolledBack, hbooks.apart⟩ <;>
        simp only [State.dispatch, transcriptReducer] <;> split <;> rfl

theorem quiet_rollback (hsession : s.shown.sessionId = some sessionId) :
    (s.dispatch (.rollback sessionId id)).Quiet ↔
      ∀ entry ∈ s.pending, entry.1 = sessionId → entry.2 = id := by
  have hcurrent : (s.dispatch (.rollback sessionId id)).shown.sessionId = some sessionId := by
    simp [State.dispatch, transcriptReducer, hsession]
  unfold State.Quiet
  rw [hcurrent]
  constructor
  · intro hquiet entry hentry heq
    by_cases hid : entry.2 = id
    · exact hid
    · refine absurd (congrArg some heq.symm) (hquiet entry (List.mem_filter.mpr ⟨hentry, ?_⟩))
      simpa using fun hsame => hid (congrArg Prod.snd hsame)
  · intro hlast entry hentry heq
    obtain ⟨hentry, hne⟩ := List.mem_filter.mp hentry
    have hfirst := (Option.some.inj heq).symm
    exact absurd (Prod.ext hfirst (hlast entry hentry hfirst)) (by simpa using hne)

end Step

/-! ## Runs -/

theorem Input.rollback_of_action {input : Input} {sessionId id : String}
    (h : input.action = some (.rollback sessionId id)) :
    input = .dispatch (.rollback sessionId id) := by
  cases input with
  | dispatch action => exact congrArg _ (Option.some.inj h)
  | deliver session event =>
      obtain ⟨m, _, heq⟩ := Option.map_eq_some_iff.mp h
      cases heq

/-- The content always stays right, and the order exactly where the step is allowed. -/
theorem Settled.step {input : Input} (h : Settled persisted s)
    (hstep : step persisted s input = some next) :
    Content persisted next ∧
      ((next.Quiet → InOrder next.shown.messages) ↔ Allowed s input) := by
  rcases step_cases hstep with ⟨hnone, rfl⟩ | ⟨action, haction, hvalid, rfl⟩
  · refine ⟨h.1, iff_of_true h.2 ?_⟩
    intro sessionId id heq
    subst heq
    cases hnone
  · by_cases hlast : ∃ sessionId id, action = .rollback sessionId id ∧
        s.shown.sessionId = some sessionId
    · obtain ⟨sessionId, id, rfl, hsession⟩ := hlast
      have hpending : (sessionId, id) ∈ s.pending := by simpa [valid] using hvalid
      refine ⟨h.1.rollback hsession hpending, ?_⟩
      have hmessages : (s.dispatch (.rollback sessionId id)).shown.messages =
          s.shown.messages.filter (·.id ≠ id) := by
        simp [State.dispatch, transcriptReducer, hsession]
      rw [quiet_rollback hsession, hmessages, Input.rollback_of_action haction]
      constructor
      · intro horder session other heq _ hlast
        cases heq
        rw [← h.1.rollback_messages hsession hpending hlast]
        exact horder hlast
      · intro hallowed hlast
        rw [h.1.rollback_messages hsession hpending hlast]
        exact hallowed sessionId id rfl hsession hlast
    · have hsettled := h.dispatch hvalid fun sessionId id heq hsession =>
        hlast ⟨sessionId, id, heq, hsession⟩
      refine ⟨hsettled.1, iff_of_true hsettled.2 ?_⟩
      intro sessionId id heq hsession
      subst heq
      cases haction
      exact absurd ⟨sessionId, id, rfl, hsession⟩ hlast

theorem settled_of_reach (h : Reach (step persisted) Allowed Initial s) : Settled persisted s := by
  refine h.invariant ?_ ?_
  · intro s hs
    cases hs
    exact Content.cleared ⟨nofun, nofun, nofun⟩ rfl rfl
  · intro s input next hs hallowed hstep
    have hnext := hs.step hstep
    exact ⟨hnext.1, hnext.2.mpr hallowed⟩

theorem converges_iff (persisted : Persisted) (t : Taken persisted) :
    (t.next.Quiet → Converged persisted t.next) ↔ Allowed t.state t.input := by
  have hnext := (settled_of_reach t.reached).step t.taken
  rw [← hnext.2]
  exact forall_congr' fun hquiet => hnext.1.quiet hquiet

def twoMessages : Persisted where
  messages := [("s", ⟨"user:1", .user, "first", "", some 7⟩),
    ("s", ⟨"event:1", .assistant, "answer", "", some 8⟩)]
  ids := by decide
  numbered := by decide

/-- An answer comes while a message waits that is refused in the end. -/
def answered : List Input :=
  [.dispatch (.begin "s"), .dispatch (.optimistic "s" ⟨"local:1", .user, "second", "", none⟩),
    .deliver "s" ⟨1, "agent.message", .chat, some 8, some "answer", none, ""⟩]

theorem converges_answered : ∃ t : Taken twoMessages,
    t.next.shown.messages = [⟨"event:1", .assistant, "answer", "", some 8⟩] ∧
      Converged twoMessages t.next := by
  obtain ⟨s, hrun, hs⟩ := exists_run (step twoMessages) ⟨initialTranscriptState, [], [], [], []⟩
    answered (fun s =>
      s.shown.messages.filter (·.sequence.isSome) =
          [⟨"event:1", .assistant, "answer", "", some 8⟩] ∧
        (step twoMessages s (.dispatch (.rollback "s" "local:1"))).any fun next =>
          next.pending = [] ∧
            next.shown.messages = [⟨"event:1", .assistant, "answer", "", some 8⟩]) (by decide)
  simp only [decide_eq_true_eq, Option.any_eq_true] at hs
  obtain ⟨hmessages, next, hnext, hpending, hshown⟩ := hs
  have hreach : Reach (step twoMessages) Allowed Initial s := by
    refine .of_run (.init rfl) ?_ hrun
    intro input hinput s sessionId id heq
    subst heq
    simp [answered] at hinput
  let t : Taken twoMessages := ⟨s, hreach, _, next, hnext⟩
  refine ⟨t, hshown, (converges_iff _ t).mpr ?_ ?_⟩
  · intro sessionId id _ _ _
    rw [hmessages]
    exact List.pairwise_singleton ..
  · intro entry hentry
    rw [hpending] at hentry
    cases hentry

/-! ## Out of order -/

/-- The acknowledgement of the first message comes after the answer to it, while a second message
waits that is refused in the end. -/
def refusedSecond : List Input :=
  [.dispatch (.begin "s"),
    .dispatch (.optimistic "s" ⟨"local:1", .user, "first", "", none⟩),
    .dispatch (.optimistic "s" ⟨"local:2", .user, "second", "", none⟩),
    .deliver "s" ⟨1, "agent.message", .chat, some 8, some "answer", none, ""⟩,
    .dispatch (.acknowledge "s" "local:1" ⟨"user:1", .user, "first", "", some 7⟩),
    .dispatch (.rollback "s" "local:2")]

theorem answer_before_question :
    ∃ s, Reach (step twoMessages) anyStep Initial s ∧ s.Quiet ∧ ¬ Converged twoMessages s := by
  obtain ⟨s, hreach, hs⟩ := Reach.exists_of_run (step twoMessages)
    ⟨initialTranscriptState, [], [], [], []⟩ refusedSecond
    (fun s => s.pending = [] ∧ s.shown.messages.map (·.sequence) = [some 8, some 7]) (by decide)
  obtain ⟨hpending, hsequences⟩ := of_decide_eq_true hs
  refine ⟨s, hreach, by simp [State.Quiet, hpending], ?_⟩
  intro h
  have horder : (s.shown.messages.map (·.sequence)).Pairwise (·.getD 0 ≤ ·.getD 0) := by
    rw [List.pairwise_map]
    exact h.inOrder.imp of_decide_eq_true
  rw [hsequences] at horder
  revert horder
  decide

end Zos.Web.Transcript
