import Mathlib
import Zos.Lib.Keyed
import Zos.Terminals.Tabs

/-!
# Tabs and the sessions of their connections

A connection is attached under the id in small letters, a tab is destroyed under the id it was
stored with. The two names agree exactly for ids without capitals; only `initialize` can store
another one, from the legacy id of a browser.
-/

namespace Zos.Terminals.Tabs

open Zos.Lib

/-! ## Session ids -/

theorem isTerminalSessionId_toLowerCase (value : String) :
    isTerminalSessionId (toLowerCase value) = isTerminalSessionId value := by
  have hmap : (value.toList.map Char.toLower).map Char.toLower = value.toList.map Char.toLower := by
    rw [List.map_map]
    exact List.map_congr_left fun c _ => Char.toLower_toLower_eq_toLower c
  rw [isTerminalSessionId, isTerminalSessionId, toLowerCase, String.toList_ofList, hmap]

theorem not_whiteSpace_of_range {c : Char} (hlow : 0x2d ≤ c.toNat) (hhigh : c.toNat ≤ 0x66) :
    whiteSpace c = false := by
  unfold whiteSpace whiteSpaceCode
  rw [Bool.or_eq_false_iff]
  constructor
  · simp only [List.contains_eq_mem, List.mem_cons, List.not_mem_nil, or_false,
      decide_eq_false_iff_not]
    omega
  · simp only [Bool.and_eq_false_iff, decide_eq_false_iff_not]
    omega

theorem le_iff_toNat {a b : Char} : a ≤ b ↔ a.toNat ≤ b.toNat := Iff.rfl

/-- What may stand in an id. -/
def idChar (c : Char) : Prop := 0x2d ≤ c.toNat ∧ c.toNat ≤ 0x66

theorem idChar_of_hexDigit {c : Char} (h : hexDigit c) : idChar c := by
  unfold hexDigit at h
  simp only [Bool.or_eq_true, Bool.and_eq_true, decide_eq_true_eq, le_iff_toNat, Char.reduceToNat]
    at h
  unfold idChar
  omega

theorem idChar_of_uuidShape {test : Char → Bool} (h : test ∈ uuidShape) {c : Char}
    (hc : test c) : idChar c := by
  have hcases : test = hexDigit ∨ test = dash ∨ test = version ∨ test = variant := by
    simpa [uuidShape, List.mem_replicate, or_assoc, or_comm, or_left_comm] using h
  rcases hcases with rfl | rfl | rfl | rfl
  · exact idChar_of_hexDigit hc
  · rw [of_decide_eq_true hc]
    exact ⟨by decide, by decide⟩
  · unfold version at hc
    simp only [Bool.and_eq_true, decide_eq_true_eq, le_iff_toNat, Char.reduceToNat] at hc
    unfold idChar
    omega
  · have hmem : c ∈ ['8', '9', 'a', 'b'] := by simpa [variant] using hc
    fin_cases hmem <;> exact ⟨by decide, by decide⟩

theorem hasShape_forall {P : Char → Prop} {tests : List (Char → Bool)} {cs : List Char}
    (hP : ∀ test ∈ tests, ∀ c, test c → P c) (h : hasShape tests cs) : ∀ c ∈ cs, P c := by
  induction tests generalizing cs with
  | nil =>
      cases cs with
      | nil => exact fun c hc => absurd hc List.not_mem_nil
      | cons c cs => cases h
  | cons test tests ih =>
      cases cs with
      | nil => cases h
      | cons c cs =>
          rw [hasShape, Bool.and_eq_true] at h
          intro other hother
          rcases List.mem_cons.mp hother with rfl | hmem
          · exact hP test List.mem_cons_self _ h.1
          · exact ih (fun test htest => hP test (List.mem_cons_of_mem _ htest)) h.2 other hmem

theorem not_whiteSpace_of_accepted {value : String} (h : isTerminalSessionId value) :
    ∀ c ∈ value.toList, whiteSpace c = false := by
  intro c hc
  have hlower : idChar c.toLower :=
    hasShape_forall (fun _ htest _ => idChar_of_uuidShape htest) h _ (List.mem_map_of_mem hc)
  cases hupper : c.isUpper with
  | false =>
      rw [Char.toLower_eq_of_not_isUpper (by rw [hupper]; exact Bool.false_ne_true)] at hlower
      exact not_whiteSpace_of_range hlower.1 hlower.2
  | true =>
      unfold Char.isUpper at hupper
      simp only [decide_eq_true_eq, ge_iff_le, UInt32.le_iff_toNat_le] at hupper
      apply not_whiteSpace_of_range
      · exact Nat.le_trans (by decide) hupper.1
      · exact Nat.le_trans hupper.2 (by decide)

theorem dropWhile_of_forall {cs : List Char} (h : ∀ c ∈ cs, whiteSpace c = false) :
    cs.dropWhile whiteSpace = cs := by
  cases cs with
  | nil => rfl
  | cons c cs => rw [List.dropWhile_cons_of_neg (by rw [h c List.mem_cons_self]; decide)]

theorem trim_of_accepted {value : String} (h : isTerminalSessionId value) :
    trim value = value := by
  have hplain := not_whiteSpace_of_accepted h
  rw [trim, trimBy, List.rdropWhile, dropWhile_of_forall hplain, dropWhile_of_forall,
    List.reverse_reverse, String.ofList_toList]
  exact fun c hc => hplain c (List.mem_reverse.mp hc)

theorem normalizeSessionId_of_accepted {value : String} (h : isTerminalSessionId value) :
    normalizeSessionId (some value) = some (toLowerCase value) := by
  rw [normalizeSessionId, Option.bind_some, trim_of_accepted h, if_pos h]

theorem terminalSessionName_inj (digest : Digest) {rootId first second : String}
    (hfirst : isTerminalSessionId first) (hsecond : isTerminalSessionId second) :
    terminalSessionName digest rootId first = terminalSessionName digest rootId second ↔
      first = second := by
  refine ⟨fun h => ?_, fun h => by rw [h]⟩
  exact digest.separates rootId first second hfirst hsecond
    (List.append_cancel_left (String.ofList_injective h))

/-! ## The tables -/

structure Valid (db : Tables) : Prop where
  accepted : ∀ tab ∈ db.tabs, isTerminalSessionId tab.id
  nodup : (db.tabs.map Tab.id).Nodup

theorem Valid.insert {db db' : Tables} {rootId : String} {maxSessions : Nat}
    {requestedId : Option String} {random : RandomId} (hdb : Valid db)
    (hid : ∀ id ∈ requestedId, isTerminalSessionId id)
    (h : insertTerminalTab db rootId maxSessions requestedId random = some db') : Valid db' := by
  unfold insertTerminalTab at h
  dsimp only at h
  split at h
  · cases h
  · rename_i hfree
    cases h
    rw [not_or, not_or, getTerminalTab, Option.not_isSome_iff_eq_none, List.find?_eq_none] at hfree
    constructor
    · intro tab htab
      rcases List.mem_append.mp htab with hold | hnew
      · exact hdb.accepted tab hold
      · rw [List.mem_singleton.mp hnew]
        cases requestedId with
        | none => exact random.accepted
        | some id => exact hid id rfl
    · refine nodup_map_concat.mpr ⟨hdb.nodup, fun tab htab heq => ?_⟩
      exact hfree.2.2 tab htab (decide_eq_true heq)

theorem Valid.of_tabs {db db' : Tables} (h : Valid db) (htabs : db'.tabs = db.tabs) : Valid db' :=
  ⟨htabs ▸ h.accepted, htabs ▸ h.nodup⟩

theorem Valid.filter {db db' : Tables} {test : Tab → Bool} (h : Valid db)
    (htabs : db'.tabs = db.tabs.filter test) : Valid db' := by
  constructor
  · rw [htabs]
    exact fun tab htab => h.accepted tab (List.mem_of_mem_filter htab)
  · rw [htabs]
    exact h.nodup.sublist (List.filter_sublist.map _)

theorem Valid.openTabs {db db' : Tables} {rootId : String} {maxSessions : Nat}
    {legacy : Option String} {random : RandomId} (hdb : Valid db)
    (hid : ∀ id ∈ legacy, isTerminalSessionId id)
    (h : initializeTerminalTabs db rootId maxSessions legacy random = some db') : Valid db' := by
  unfold initializeTerminalTabs at h
  split at h
  · have hset : Valid (createTerminalTabSet db rootId) := hdb.of_tabs rfl
    exact hset.insert hid h
  · cases legacy with
    | none =>
        cases h
        exact hdb
    | some id =>
        dsimp only at h
        cases hfound : getTerminalTab db id with
        | none =>
            rw [hfound] at h
            exact Valid.insert hdb hid h
        | some tab =>
            rw [hfound] at h
            dsimp only at h
            split at h
            · cases h
            · cases h
              exact hdb

theorem Valid.step {maxSessions : Nat} {db db' : Tables} {action : Action} (hdb : Valid db)
    (h : step maxSessions db action = some db') : Valid db' := by
  cases action with
  | addRoot id =>
      unfold Tabs.step at h
      dsimp only at h
      split at h
      · cases h
      · cases h
        exact hdb.of_tabs rfl
  | removeRoot id =>
      cases h
      exact hdb.filter rfl
  | openTabs rootId legacySessionId random =>
      obtain ⟨root, -, hinit⟩ := Option.bind_eq_some_iff.mp h
      dsimp only at hinit
      split at hinit
      · cases hinit
      · rename_i hlegal
        refine Valid.openTabs hdb (fun id hid => ?_) hinit
        rw [Option.mem_def] at hid
        rw [hid] at hlegal
        simpa using hlegal
  | create rootId random =>
      obtain ⟨root, -, hcreate⟩ := Option.bind_eq_some_iff.mp h
      refine Valid.insert (Valid.of_tabs hdb ?_) (fun id hid => by cases hid) hcreate
      split <;> rfl
  | delete id =>
      obtain ⟨tab, -, rfl⟩ := Option.map_eq_some_iff.mp h
      exact hdb.filter rfl

def Empty (db : Tables) : Prop := db = ⟨[], [], []⟩

theorem valid_of_reach {maxSessions : Nat} {db : Tables}
    (h : Reach (step maxSessions) anyStep Empty db) : Valid db := by
  refine h.invariant ?_ fun _ _ _ hdb _ hstep => Valid.step hdb hstep
  rintro _ rfl
  exact ⟨fun tab htab => absurd htab List.not_mem_nil, List.nodup_nil⟩

theorem getTerminalTab_inv {db : Tables} {id : String} {tab : Tab}
    (h : getTerminalTab db id = some tab) : tab ∈ db.tabs ∧ tab.id = id := by
  unfold getTerminalTab at h
  have hid := List.find?_some h
  exact ⟨List.mem_of_find?_eq_some h, of_decide_eq_true hid⟩

theorem Valid.getTerminalTab {db : Tables} (hdb : Valid db) {tab : Tab} (htab : tab ∈ db.tabs) :
    getTerminalTab db tab.id = some tab := by
  cases hfound : Tabs.getTerminalTab db tab.id with
  | none =>
      rw [Tabs.getTerminalTab, List.find?_eq_none] at hfound
      exact absurd (decide_eq_true rfl) (hfound tab htab)
  | some found =>
      obtain ⟨hmem, hid⟩ := getTerminalTab_inv hfound
      rw [List.inj_on_of_nodup_map hdb.nodup hmem htab hid]

/-! ## Connections -/

/-- A connection that was made on the root of a tab under some spelling of the tab's id. -/
structure Visit (maxSessions : Nat) where
  db : Tables
  reached : Reach (step maxSessions) anyStep Empty db
  tab : Tab
  tab_mem : tab ∈ db.tabs
  manager : Manager
  request : Request
  random : RandomId
  connected : Connected
  accepted : connect db manager request random = some connected
  sameRoot : connected.rootId = tab.rootId
  sameId : normalizeSessionId request.target = normalizeSessionId (some tab.id)

theorem connect_inv {db : Tables} {manager : Manager} {request : Request} {random : RandomId}
    {connected : Connected} (h : connect db manager request random = some connected) :
    connected.sessionId = (normalizeSessionId request.target).getD random.id ∧
      connected.persistent = ((request.manager manager connected.rootId).flag connected.rootId
        connected.sessionId).getD (tabOf db request.target).isSome := by
  unfold connect at h
  obtain ⟨root, -, hroot⟩ := Option.bind_eq_some_iff.mp h
  dsimp only at hroot
  split at hroot
  · cases hroot
  · rename_i hown
    split at hroot
    · cases hroot
    · obtain ⟨persistent, hacquire, rfl⟩ := Option.map_eq_some_iff.mp hroot
      refine ⟨rfl, ?_⟩
      unfold Manager.acquire at hacquire
      split at hacquire
      · cases hacquire
      · rw [← Option.some.inj hacquire]
        refine congrArg (Option.getD _) ?_
        rw [Bool.or_eq_true, not_or] at hown
        unfold Request.target
        -- a tab that was found is one of this root, or the request was refused above
        have hany : ∀ found : Option Tab, ¬ found.any (·.rootId ≠ root) = true →
            found.any (·.rootId = root) = found.isSome := by
          intro found hfound
          cases found with
          | none => rfl
          | some tab => simpa using hfound
        split
        · exact hany _ hown.2
        · exact hany _ hown.1

theorem tabOf_isSome_iff {db : Tables} (hdb : Valid db) (id : Option String) :
    (tabOf db id).isSome ↔ ∃ other ∈ db.tabs, some other.id = id := by
  constructor
  · intro h
    obtain ⟨tab, htab⟩ := Option.isSome_iff_exists.mp h
    obtain ⟨value, hvalue, hfind⟩ := Option.bind_eq_some_iff.mp htab
    obtain ⟨rfl, -⟩ := Option.filter_eq_some_iff.mp hvalue
    obtain ⟨hmem, hid⟩ := getTerminalTab_inv hfind
    exact ⟨tab, hmem, congrArg some hid⟩
  · rintro ⟨other, hother, rfl⟩
    have hne : other.id ≠ "" := by
      intro hempty
      have haccepted := hdb.accepted other hother
      rw [hempty] at haccepted
      exact absurd haccepted (by decide)
    rw [tabOf, Option.filter_some, if_pos (decide_eq_true hne), Option.bind_some,
      hdb.getTerminalTab hother]
    rfl

theorem Visit.valid {maxSessions : Nat} (visit : Visit maxSessions) : Valid visit.db :=
  valid_of_reach visit.reached

theorem Visit.tab_accepted {maxSessions : Nat} (visit : Visit maxSessions) :
    isTerminalSessionId visit.tab.id := visit.valid.accepted _ visit.tab_mem

theorem Visit.attached {maxSessions : Nat} (visit : Visit maxSessions) (digest : Digest) :
    attachedSession digest visit.connected =
      terminalSessionName digest visit.tab.rootId (toLowerCase visit.tab.id) := by
  rw [attachedSession, (connect_inv visit.accepted).1, visit.sameId,
    normalizeSessionId_of_accepted visit.tab_accepted, visit.sameRoot, Option.getD_some]

theorem Visit.destroyed {maxSessions : Nat} (visit : Visit maxSessions) (digest : Digest) :
    destroyedSession digest visit.db visit.tab.id =
      some (terminalSessionName digest visit.tab.rootId visit.tab.id) := by
  rw [destroyedSession, terminalTab, if_pos visit.tab_accepted,
    visit.valid.getTerminalTab visit.tab_mem, Option.map_some]

/-- The flag of the session, if it was there before the connection. -/
def Visit.flag {maxSessions : Nat} (visit : Visit maxSessions) : Option Bool :=
  (visit.request.manager visit.manager visit.tab.rootId).flag visit.tab.rootId
    (toLowerCase visit.tab.id)

/-- The session is persistent, or it is made and a tab is stored under the id as it is given. -/
def Visit.Persists {maxSessions : Nat} (visit : Visit maxSessions) : Prop :=
  match visit.flag with
  | some flag => flag = true
  | none => ∃ other ∈ visit.db.tabs, some other.id = visit.request.target

theorem Visit.persistent_iff {maxSessions : Nat} (visit : Visit maxSessions) :
    visit.connected.persistent ↔ visit.Persists := by
  obtain ⟨hid, hpersistent⟩ := connect_inv visit.accepted
  rw [visit.sameId, normalizeSessionId_of_accepted visit.tab_accepted, Option.getD_some] at hid
  rw [hpersistent, hid, visit.sameRoot, Visit.Persists, Visit.flag]
  cases Manager.flag _ _ _ with
  | some flag => rfl
  | none => exact tabOf_isSome_iff visit.valid _

theorem destroyed_is_attached_iff (maxSessions : Nat) (digest : Digest)
    (visit : Visit maxSessions) :
    (destroyedSession digest visit.db visit.tab.id =
        some (attachedSession digest visit.connected) ∧ visit.connected.persistent) ↔
      toLowerCase visit.tab.id = visit.tab.id ∧ visit.Persists := by
  have hlower : isTerminalSessionId (toLowerCase visit.tab.id) := by
    rw [isTerminalSessionId_toLowerCase]
    exact visit.tab_accepted
  rw [visit.destroyed, visit.attached, Option.some.injEq,
    terminalSessionName_inj digest visit.tab_accepted hlower, visit.persistent_iff, eq_comm]

/-! ## A legacy id in capitals -/

theorem length_of_hasShape {tests : List (Char → Bool)} {cs : List Char}
    (h : hasShape tests cs) : cs.length = tests.length := by
  induction tests generalizing cs with
  | nil =>
      cases cs with
      | nil => rfl
      | cons c cs => cases h
  | cons test tests ih =>
      cases cs with
      | nil => cases h
      | cons c cs =>
          rw [hasShape, Bool.and_eq_true] at h
          rw [List.length_cons, List.length_cons, ih h.2]

theorem take_of_accepted {value : String} (h : isTerminalSessionId value) :
    value.toList.take 48 = value.toList := by
  have hlength : value.toList.length = 36 := by
    rw [← List.length_map Char.toLower, length_of_hasShape h]
    rfl
  exact List.take_of_length_le (by omega)

/-- The id itself is long enough to be told apart. -/
def plainDigest : Digest where
  hex _ sessionId := sessionId
  separates _ first second hfirst hsecond h := by
    rw [take_of_accepted hfirst, take_of_accepted hsecond] at h
    exact String.toList_injective h

def capitals : String := "ABCDEF00-0000-4000-8000-000000000000"

def randomId : RandomId where
  id := "00000000-0000-4000-8000-000000000000"
  accepted := by decide +kernel
  lower := by decide +kernel

/-- A browser hands over its session, and connects to the tab that this makes. -/
def capitalVisit : Visit 32 where
  db := ⟨["root"], ["root"], [⟨capitals, "root"⟩]⟩
  reached := by
    have hrun : run (step 32) ⟨[], [], []⟩
        [.addRoot "root", .openTabs (some "root") (some capitals) randomId] =
          some ⟨["root"], ["root"], [⟨capitals, "root"⟩]⟩ := by decide +kernel
    exact Reach.of_run (.init rfl) (fun _ _ _ => trivial) hrun
  tab := ⟨capitals, "root"⟩
  tab_mem := List.mem_singleton_self _
  manager := ⟨fun _ => none, fun _ _ => none⟩
  request := ⟨some "root", some capitals, none, none, .absent, true⟩
  random := randomId
  connected := ⟨"root", "abcdef00-0000-4000-8000-000000000000", true⟩
  accepted := by decide +kernel
  sameRoot := rfl
  sameId := rfl

theorem capitals_leave_session :
    ∃ (digest : Digest) (visit : Visit 32), visit.request.target = some visit.tab.id ∧
      destroyedSession digest visit.db visit.tab.id ≠
        some (attachedSession digest visit.connected) :=
  ⟨plainDigest, capitalVisit, by decide +kernel, by decide +kernel⟩

end Zos.Terminals.Tabs
