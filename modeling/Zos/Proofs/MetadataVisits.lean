import Zos.Photostaff.Metadata

/-!
# Flattening as one pass over the leaves

`flatten_value` goes down a report and looks at its limits at every node. The nodes without
children, each with its key and its depth, say all of it: to flatten a value is to go through
them one by one, and what each visit keeps holds for all that the tools report.
-/

namespace Zos.Photostaff

/-- A node without children that are looked at; there is no value in a null or an empty node. -/
structure Visit where
  source : String
  path : String
  depth : Nat
  value : Option Scalar

/-- An inner node without visits is a visit of its own. -/
def orEmpty (source path : String) (depth : Nat) : List Visit → List Visit
  | [] => [⟨source, path, depth, none⟩]
  | visits => visits

mutual

def visits (source path : String) (depth : Nat) : Value → List Visit
  | .array items => orEmpty source path depth (visitItems source path (depth + 1) items)
  | .object fields => orEmpty source path depth (visitFields source path (depth + 1) fields)
  | .null => [⟨source, path, depth, none⟩]
  | .scalar value => [⟨source, path, depth, some value⟩]

def visitItems (source path : String) (depth : Nat) : List Value → List Visit
  | [] => []
  | item :: rest => visits source path depth item ++ visitItems source path depth rest

def visitFields (source path : String) (depth : Nat) : List (String × Value) → List Visit
  | [] => []
  | (key, item) :: rest =>
      (if omittedKey key then [] else visits source (path ++ "." ++ key) depth item) ++
        visitFields source path depth rest

end

/-- One leaf. -/
def Flattened.visit (acc : Flattened) (v : Visit) : Flattened :=
  if maxMetadataDepth < v.depth || acc.full then acc.truncated
  else match v.value with
    | none => acc
    | some value =>
        storeScalar v.source v.path (truncateScalar value acc).1 (truncateScalar value acc).2

/-! ## The recursion -/

/-- Cutting a text changes nothing but the warnings. -/
theorem truncateScalar_snd (value : Scalar) (acc : Flattened) :
    (truncateScalar value acc).2 =
      { acc with warnings := (truncateScalar value acc).2.warnings } := by
  unfold truncateScalar
  split
  · split <;> rfl
  · rfl

theorem truncated_eq (acc : Flattened) :
    acc.truncated = { acc with warnings := acc.truncated.warnings } := by
  unfold Flattened.truncated
  split <;> rfl

theorem truncated_full (acc : Flattened) : acc.truncated.full = acc.full := by
  unfold Flattened.truncated
  split <;> rfl

theorem truncated_truncated (acc : Flattened) : acc.truncated.truncated = acc.truncated := by
  unfold Flattened.truncated
  split
  · rfl
  · rw [if_pos (by simp)]

/-- Where nothing more is taken, every visit leaves the same warning. -/
theorem foldl_refused {acc : Flattened} {list : List Visit} (hne : list ≠ [])
    (h : ∀ v ∈ list, (maxMetadataDepth < v.depth || acc.full) = true) :
    list.foldl Flattened.visit acc = acc.truncated := by
  induction list generalizing acc with
  | nil => exact absurd rfl hne
  | cons v list ih =>
      rw [List.forall_mem_cons] at h
      rw [List.foldl_cons, Flattened.visit, if_pos h.1]
      by_cases hrest : list = []
      · rw [hrest]
        rfl
      · rw [ih hrest (by rw [truncated_full]; exact h.2), truncated_truncated]

theorem orEmpty_ne_nil (source path : String) (depth : Nat) (list : List Visit) :
    orEmpty source path depth list ≠ [] := by
  cases list <;> simp [orEmpty]

theorem foldl_orEmpty {source path : String} {depth : Nat} {acc : Flattened} {list : List Visit}
    (h : ¬ (maxMetadataDepth < depth || acc.full) = true) :
    (orEmpty source path depth list).foldl Flattened.visit acc =
      list.foldl Flattened.visit acc := by
  cases list with
  | nil => simp [orEmpty, Flattened.visit, h]
  | cons v list => rfl

theorem visits_ne_nil (source path : String) (depth : Nat) (value : Value) :
    visits source path depth value ≠ [] := by
  cases value with
  | null => simp [visits]
  | scalar value => simp [visits]
  | array items => exact orEmpty_ne_nil _ _ _ _
  | object fields => exact orEmpty_ne_nil _ _ _ _

theorem depth_orEmpty {source path : String} {depth : Nat} {list : List Visit}
    (h : ∀ v ∈ list, depth ≤ v.depth) : ∀ v ∈ orEmpty source path depth list, depth ≤ v.depth := by
  cases list with
  | nil => simp [orEmpty]
  | cons v list => exact h

mutual

theorem visits_depth (source path : String) (depth : Nat) (value : Value) :
    ∀ v ∈ visits source path depth value, depth ≤ v.depth := by
  match value with
  | .null => simp [visits]
  | .scalar value => simp [visits]
  | .array items =>
      exact depth_orEmpty fun v hv =>
        Nat.le_of_succ_le (visitItems_depth source path (depth + 1) items v hv)
  | .object fields =>
      exact depth_orEmpty fun v hv =>
        Nat.le_of_succ_le (visitFields_depth source path (depth + 1) fields v hv)

theorem visitItems_depth (source path : String) (depth : Nat) (items : List Value) :
    ∀ v ∈ visitItems source path depth items, depth ≤ v.depth := by
  match items with
  | [] => exact nofun
  | item :: rest =>
      rw [visitItems, List.forall_mem_append]
      exact ⟨visits_depth source path depth item, visitItems_depth source path depth rest⟩

theorem visitFields_depth (source path : String) (depth : Nat) (fields : List (String × Value)) :
    ∀ v ∈ visitFields source path depth fields, depth ≤ v.depth := by
  match fields with
  | [] => exact nofun
  | (key, item) :: rest =>
      rw [visitFields, List.forall_mem_append]
      refine ⟨?_, visitFields_depth source path depth rest⟩
      split
      · exact nofun
      · exact visits_depth source _ depth item

end

mutual

theorem flattenValue_eq (source path : String) (depth : Nat) (value : Value) (acc : Flattened) :
    flattenValue source path depth value acc =
      (visits source path depth value).foldl Flattened.visit acc := by
  rw [flattenValue.eq_def]
  split
  · next hrefused =>
      refine (foldl_refused (visits_ne_nil _ _ _ _) fun v hv => ?_).symm
      have hdepth := visits_depth source path depth value v hv
      simp only [Bool.or_eq_true, decide_eq_true_eq] at hrefused ⊢
      exact hrefused.imp_left fun h => Nat.lt_of_lt_of_le h hdepth
  · next hopen =>
      match value with
      | .null => simp [visits, Flattened.visit, hopen]
      | .scalar value => simp [visits, Flattened.visit, hopen]
      | .array items =>
          rw [visits, foldl_orEmpty hopen]
          exact flattenItems_eq source path (depth + 1) items acc
      | .object fields =>
          rw [visits, foldl_orEmpty hopen]
          exact flattenFields_eq source path (depth + 1) fields acc

theorem flattenItems_eq (source path : String) (depth : Nat) (items : List Value)
    (acc : Flattened) : flattenItems source path depth items acc =
      (visitItems source path depth items).foldl Flattened.visit acc := by
  match items with
  | [] => rfl
  | item :: rest =>
      rw [flattenItems, visitItems, List.foldl_append, ← flattenValue_eq source path depth item]
      exact flattenItems_eq source path depth rest _

theorem flattenFields_eq (source path : String) (depth : Nat) (fields : List (String × Value))
    (acc : Flattened) : flattenFields source path depth fields acc =
      (visitFields source path depth fields).foldl Flattened.visit acc := by
  match fields with
  | [] => rfl
  | (key, item) :: rest =>
      rw [flattenFields, visitFields, List.foldl_append]
      split
      · exact flattenFields_eq source path depth rest _
      · rw [← flattenValue_eq source _ depth item]
        exact flattenFields_eq source path depth rest _

end

/-! ## Objects -/

/-- The visits of each field that `sanitize_object` does not pass over. -/
def runs (sourceOverride : Option String) (fields : List (String × Value)) : List (List Visit) :=
  (fields.filter fun field => ¬ (field.1 = "SourceFile" || omittedKey field.1)).map fun field =>
    let (group, name) := groupAndField sourceOverride field.1
    visits group name 0 field.2

/-- The loop of `sanitize_object`, which ends when a limit is reached. -/
def Flattened.through : List (List Visit) → Flattened → Flattened
  | [], acc => acc
  | run :: rest, acc =>
      if (run.foldl visit acc).full then run.foldl visit acc
      else through rest (run.foldl visit acc)

theorem sanitizeFields_eq (sourceOverride : Option String) (fields : List (String × Value))
    (acc : Flattened) :
    sanitizeFields sourceOverride fields acc = acc.through (runs sourceOverride fields) := by
  induction fields generalizing acc with
  | nil => rfl
  | cons field rest ih =>
      obtain ⟨key, value⟩ := field
      rw [sanitizeFields, runs]
      split
      · next hskip => rw [List.filter_cons_of_neg (by simpa [imp_iff_not_or] using hskip), ih, runs]
      · next hskip =>
          rw [List.filter_cons_of_pos (by simpa using hskip), List.map_cons, Flattened.through]
          simp only [flattenValue_eq]
          split
          · rfl
          · rw [ih, runs]

/-- The counters of an object start from what is collected. -/
def Flattened.restart (acc : Flattened) : Flattened :=
  { acc with leaves := acc.values.length, bytes := groupsBytes acc.groups }

theorem sanitizeObject_eq (sourceOverride : Option String) (fields : List (String × Value))
    (acc : Flattened) :
    sanitizeObject sourceOverride (.object fields) acc =
      acc.restart.through (runs sourceOverride fields) :=
  sanitizeFields_eq sourceOverride fields acc.restart

abbrev Reports := List (Option String × List (String × Value))

/-- The calls of `sanitize_object` with shared groups and values. -/
def collect (objects : Reports) (acc : Flattened) : Flattened :=
  objects.foldl (fun acc object => sanitizeObject object.1 (.object object.2) acc) acc

def Reports.visits (objects : Reports) : List Visit :=
  objects.flatMap fun object => (runs object.1 object.2).flatten

/-- A scalar of the reports, with its keys. -/
abbrev Leaf := String × String × Scalar

def leavesOf (visits : List Visit) : List Leaf :=
  visits.filterMap fun v => v.value.map (v.source, v.path, ·)

theorem leavesOf_append (a b : List Visit) : leavesOf (a ++ b) = leavesOf a ++ leavesOf b :=
  List.filterMap_append ..

/-- What a visit keeps for the leaves so far, and the end of a loop for those left out, holds for
all leaves in the end. -/
theorem collect_rule {I : List Leaf → Flattened → Prop}
    (hrestart : ∀ done acc, I done acc → I done acc.restart)
    (hvisit : ∀ done acc v, I done acc → I (done ++ leavesOf [v]) (acc.visit v))
    (hbreak : ∀ done acc rest, I done acc → acc.full = true → I (done ++ rest) acc)
    (objects : Reports) {acc : Flattened} (h : I [] acc) :
    I (leavesOf objects.visits) (collect objects acc) := by
  have hfoldl : ∀ (list : List Visit) done acc, I done acc →
      I (done ++ leavesOf list) (list.foldl Flattened.visit acc) := by
    intro list
    induction list with
    | nil => intro done acc h; simpa [leavesOf] using h
    | cons v rest ih =>
        intro done acc h
        have hrest := ih _ _ (hvisit done acc v h)
        rwa [List.append_assoc, ← leavesOf_append] at hrest
  have hthrough : ∀ (list : List (List Visit)) done acc, I done acc →
      I (done ++ leavesOf list.flatten) (acc.through list) := by
    intro list
    induction list with
    | nil => intro done acc h; simpa [leavesOf, Flattened.through] using h
    | cons run rest ih =>
        intro done acc h
        have hrun := hfoldl run done acc h
        rw [Flattened.through, List.flatten_cons, leavesOf_append, ← List.append_assoc]
        split
        · next hfull => exact hbreak _ _ _ hrun hfull
        · exact ih _ _ hrun
  suffices hall : ∀ (objects : Reports) done acc, I done acc →
      I (done ++ leavesOf objects.visits) (collect objects acc) from hall objects [] acc h
  intro objects
  induction objects with
  | nil => intro done acc h; simpa [Reports.visits, leavesOf, collect] using h
  | cons object rest ih =>
      intro done acc h
      have hobject := hthrough (runs object.1 object.2) done _ (hrestart done acc h)
      rw [← sanitizeObject_eq] at hobject
      have hrest := ih _ _ hobject
      rwa [List.append_assoc, ← leavesOf_append] at hrest

/-- The objects among what the tools report; `sanitize_object` returns at anything else. -/
def reports (output : ToolOutput) : Reports :=
  ([(none, some output.embedded), (some "sidecar_xmp", output.sidecar),
    (some "video", output.probe)] : List (Option String × Option Value)).filterMap fun report =>
      match report.2 with
      | some (.object fields) => some (report.1, fields)
      | _ => none

/-- `normalize_metadata` before the first object. -/
def unread (warnings : List String) : Flattened := ⟨[], [], warnings, 0, 0⟩

theorem normalizeMetadata_eq_collect (output : ToolOutput) (warnings : List String) :
    normalizeMetadata output warnings = collect (reports output) (unread warnings) := by
  obtain ⟨embedded, sidecar, probe⟩ := output
  rcases embedded with _ | _ | _ | _ <;> rcases sidecar with _ | (_ | _ | _ | _) <;>
    rcases probe with _ | (_ | _ | _ | _) <;> rfl

end Zos.Photostaff
