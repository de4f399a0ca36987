/-!
# Terminal tab sets

`packages/db/src/repositories/terminal-tabs.ts` over the two tables of the migration
`015_terminal_tabs`: which tab of a root is active, and which ordinals its tabs carry. Each
operation is one immediate transaction, so a call that throws leaves both tables as they were. The
times and the state that a call answers with are left out: nothing is decided by them.
-/

namespace Zos.Terminals.TabSets

structure Tab where
  id : String
  rootId : String
  ordinal : Nat
  customTitle : Option String
  deriving DecidableEq, Repr

def Tab.place (tab : Tab) : String × Nat := (tab.rootId, tab.ordinal)

structure TabSet where
  rootId : String
  activeTabId : Option String
  nextOrdinal : Nat
  deriving DecidableEq, Repr

structure Db where
  nasRoots : List String
  sets : List TabSet
  tabs : List Tab
  /-- The root and the ordinal of every row ever inserted. No operation reads it. -/
  given : List (String × Nat)
  deriving DecidableEq, Repr

def getTerminalTab (db : Db) (id : String) : Option Tab := db.tabs.find? (·.id = id)

def getTerminalTabSet (db : Db) (rootId : String) : Option TabSet :=
  db.sets.find? (·.rootId = rootId)

/-! ## Statements -/

def updateSets (db : Db) (rootId : String) (change : TabSet → TabSet) : Db :=
  { db with sets := db.sets.map fun set => if set.rootId = rootId then change set else set }

/-- The update of a set's active tab. The trigger refuses a tab that is not one of the root. -/
def setActive (db : Db) (rootId : String) (active : Option String) (change : TabSet → TabSet) :
    Option Db :=
  if db.sets.any (·.rootId = rootId) ∧
      active.any (fun id => ! db.tabs.any fun tab => tab.id = id && tab.rootId = rootId)
  then none
  else some (updateSets db rootId fun set => { change set with activeTabId := active })

/-- The key, the pair of root and ordinal, and the reference to the root are checked. -/
def insertRow (db : Db) (tab : Tab) : Option Db :=
  if tab.id ∈ db.tabs.map (·.id) ∨ tab.place ∈ db.tabs.map Tab.place ∨ tab.rootId ∉ db.nasRoots
  then none
  else some { db with tabs := db.tabs ++ [tab], given := db.given ++ [tab.place] }

/-- `length` stops at a NUL, and `trim` takes spaces only. -/
def titleAllowed (title : String) : Bool :=
  let chars := title.toList
  let length := (chars.takeWhile (· ≠ '\x00')).length
  1 ≤ length && length ≤ 64 && chars.head? ≠ some ' ' && chars.getLast? ≠ some ' '

/-! ## Operations -/

def createTerminalTabSet (db : Db) (rootId : String) : Option Db :=
  if rootId ∈ db.sets.map (·.rootId) ∨ rootId ∉ db.nasRoots then none
  else some { db with sets := db.sets ++ [⟨rootId, none, 1⟩] }

def insertTerminalTab (db : Db) (rootId : String) (maxSessions : Nat)
    (requestedId : Option String) (randomUUID : String) : Option Db :=
  if db.tabs.length ≥ maxSessions then none
  else (getTerminalTabSet db rootId).bind fun set =>
    let tab : Tab := ⟨requestedId.getD randomUUID, rootId, set.nextOrdinal, none⟩
    (insertRow db tab).bind fun db =>
      setActive db rootId (some tab.id) fun set => { set with nextOrdinal := tab.ordinal + 1 }

def initializeTerminalTabs (db : Db) (rootId : String) (maxSessions : Nat)
    (legacySessionId : Option String) (randomUUID : String) : Option Db :=
  match getTerminalTabSet db rootId, legacySessionId.filter (· ≠ "") with
  | none, _ =>
      (createTerminalTabSet db rootId).bind fun db =>
        insertTerminalTab db rootId maxSessions legacySessionId randomUUID
  | some _, none => some db
  | some _, some legacy =>
      match getTerminalTab db legacy with
      | some tab => if tab.rootId ≠ rootId then none else some db
      | none => insertTerminalTab db rootId maxSessions (some legacy) randomUUID

def createTerminalTab (db : Db) (rootId : String) (maxSessions : Nat) (randomUUID : String) :
    Option Db :=
  (if (getTerminalTabSet db rootId).isSome then some db else createTerminalTabSet db rootId).bind
    fun db => insertTerminalTab db rootId maxSessions none randomUUID

def activateTerminalTab (db : Db) (id : String) : Option Db :=
  (getTerminalTab db id).bind fun tab => setActive db tab.rootId (some tab.id) fun set => set

def renameTerminalTab (db : Db) (id : String) (customTitle : Option String) : Option Db :=
  (getTerminalTab db id).bind fun tab =>
    if customTitle.any (! titleAllowed ·) then none
    else some { db with tabs := db.tabs.map fun other =>
      if other.id = tab.id then { other with customTitle := customTitle } else other }

/-- The two expressions of the `ORDER BY`. -/
def replacementOrder (ordinal : Nat) (first second : Tab) : Bool :=
  let above (tab : Tab) : Nat := if tab.ordinal > ordinal then 0 else 1
  let signed (tab : Tab) : Int := if tab.ordinal > ordinal then tab.ordinal else -tab.ordinal
  above first < above second || above first = above second && signed first ≤ signed second

def replacement (db : Db) (tab : Tab) : Option Tab :=
  ((db.tabs.filter fun other => other.rootId = tab.rootId && other.id ≠ tab.id).mergeSort
    (replacementOrder tab.ordinal)).head?

def deleteRow (db : Db) (id : String) : Db := { db with tabs := db.tabs.filter (·.id ≠ id) }

def deleteTerminalTab (db : Db) (id : String) : Option Db :=
  (getTerminalTab db id).bind fun tab =>
    (if (getTerminalTabSet db tab.rootId).any (·.activeTabId = some tab.id) then
      setActive db tab.rootId ((replacement db tab).map (·.id)) fun set => set
    else some db).map fun db => deleteRow db tab.id

/-! ## Histories -/

inductive Call where
  | initializeTabs (rootId : String) (legacySessionId : Option String) (randomUUID : String)
  | create (rootId randomUUID : String)
  | activate (id : String)
  | rename (id : String) (customTitle : Option String)
  | delete (id : String)
  deriving Repr

def attempt (maxSessions : Nat) (db : Db) : Call → Option Db
  | .initializeTabs rootId legacy random =>
      initializeTerminalTabs db rootId maxSessions legacy random
  | .create rootId random => createTerminalTab db rootId maxSessions random
  | .activate id => activateTerminalTab db id
  | .rename id customTitle => renameTerminalTab db id customTitle
  | .delete id => deleteTerminalTab db id

/-- A call that throws, or finds no tab, changes nothing. -/
def call (maxSessions : Nat) (db : Db) (action : Call) : Db :=
  (attempt maxSessions db action).getD db

def run (maxSessions : Nat) (nasRoots : List String) (calls : List Call) : Db :=
  calls.foldl (call maxSessions) ⟨nasRoots, [], [], []⟩

/-! ## Purpose -/

/-- What becomes of the active tab when `tab` is deleted: the tab of the root with the next higher
ordinal, or else the next lower one. -/
def Db.Succeeds (db : Db) (tab : Tab) : Option String → Prop
  | none => ∀ other ∈ db.tabs, other.rootId = tab.rootId → other = tab
  | some id => ∃ next ∈ db.tabs, next.id = id ∧ next.rootId = tab.rootId ∧
      (tab.ordinal < next.ordinal ∧
          (∀ other ∈ db.tabs, other.rootId = tab.rootId → tab.ordinal < other.ordinal →
            next.ordinal ≤ other.ordinal) ∨
        next.ordinal < tab.ordinal ∧
          (∀ other ∈ db.tabs, other.rootId = tab.rootId → other.ordinal ≤ tab.ordinal) ∧
          ∀ other ∈ db.tabs, other.rootId = tab.rootId → other.ordinal < tab.ordinal →
            other.ordinal ≤ next.ordinal)

structure Consistent (maxSessions : Nat) (db : Db) : Prop where
  inactive : ∀ set ∈ db.sets,
    (set.activeTabId = none ↔ ∀ tab ∈ db.tabs, tab.rootId ≠ set.rootId)
  active : ∀ set ∈ db.sets, ∀ id, set.activeTabId = some id →
    ∃ tab ∈ db.tabs, tab.id = id ∧ tab.rootId = set.rootId
  distinct : (db.tabs.map Tab.place).Nodup
  below : ∀ set ∈ db.sets, ∀ tab ∈ db.tabs, tab.rootId = set.rootId →
    tab.ordinal < set.nextOrdinal
  givenOnce : db.given.Nodup
  bounded : db.tabs.length ≤ maxSessions
  succession : ∀ tab ∈ db.tabs, ∀ set ∈ db.sets, set.rootId = tab.rootId →
    set.activeTabId = some tab.id →
    ∃ left ∈ (call maxSessions db (.delete tab.id)).sets,
      left.rootId = tab.rootId ∧ db.Succeeds tab left.activeTabId ∧
        tab ∉ (call maxSessions db (.delete tab.id)).tabs

end Zos.Terminals.TabSets
