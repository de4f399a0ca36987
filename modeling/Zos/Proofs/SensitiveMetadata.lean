import Zos.Proofs.MetadataVisits

/-!
# Sensitive metadata in the API

A scalar is stored under `source:path`, and its sensitive flag is found by
that key. The API looks a group entry up as `source.path`. For one entry the
two texts differ, so an entry is hidden only when the key of some other entry
happens to be its text, and that entry has one colon less. Going on like this
the colons run out: whenever anything sensitive is stored, something sensitive
is shown.
-/

namespace Zos.Photostaff

/-! ## Entries of the groups -/

def Groups.Has (groups : Groups) (source path : String) : Prop :=
  ∃ entries, (source, entries) ∈ groups ∧ ∃ values, (path, values) ∈ entries

/-- A property of the entries that `f` turns on, and that it keeps. -/
theorem exists_mem_alter {β : Type} {f : Option β → β} {Q : β → Prop} {R : Prop}
    (hnone : Q (f none) ↔ R) (hsome : ∀ b, Q (f (some b)) ↔ Q b ∨ R) {key k : String}
    (l : List (String × β)) :
    (∃ b, (k, b) ∈ alter f key l ∧ Q b) ↔ (∃ b, (k, b) ∈ l ∧ Q b) ∨ k = key ∧ R := by
  induction l with
  | nil =>
      simp only [alter, List.mem_singleton, Prod.mk.injEq, List.not_mem_nil, false_and,
        exists_false, false_or]
      exact ⟨fun ⟨b, ⟨hk, hb⟩, hQ⟩ => ⟨hk, hnone.mp (hb ▸ hQ)⟩,
        fun ⟨hk, hR⟩ => ⟨_, ⟨hk, rfl⟩, hnone.mpr hR⟩⟩
  | cons entry rest ih =>
      obtain ⟨k₀, v⟩ := entry
      rw [alter]
      split
      · next heq =>
          subst heq
          simp only [List.mem_cons, Prod.mk.injEq, or_and_right, exists_or]
          constructor
          · rintro (⟨b, ⟨rfl, rfl⟩, hb⟩ | h)
            · rcases (hsome v).mp hb with hv | hR
              · exact .inl (.inl ⟨v, ⟨rfl, rfl⟩, hv⟩)
              · exact .inr ⟨rfl, hR⟩
            · exact .inl (.inr h)
          · rintro ((⟨b, ⟨rfl, rfl⟩, hb⟩ | h) | ⟨rfl, hR⟩)
            · exact .inl ⟨_, ⟨rfl, rfl⟩, (hsome b).mpr (.inl hb)⟩
            · exact .inr h
            · exact .inl ⟨_, ⟨rfl, rfl⟩, (hsome v).mpr (.inr hR)⟩
      · simp only [List.mem_cons, or_and_right, exists_or, ih]
        exact or_assoc.symm

theorem exists_key_alter {β : Type} {f : Option β → β} {key k : String}
    (l : List (String × β)) :
    (∃ b, (k, b) ∈ alter f key l) ↔ (∃ b, (k, b) ∈ l) ∨ k = key := by
  simpa using exists_mem_alter (f := f) (Q := fun _ => True) (R := True) (by simp) (by simp) l

/-- Both ways to write into the groups add the entry they write to. -/
theorem has_alter {f : Option (List Scalar) → List Scalar} {groups : Groups}
    {source path source' path' : String} :
    Groups.Has (alter (fun entries => alter f path (entries.getD [])) source groups)
      source' path' ↔ groups.Has source' path' ∨ source' = source ∧ path' = path := by
  refine exists_mem_alter ?_ (fun entries => ?_) groups
  · rw [exists_key_alter]
    simp
  · rw [exists_key_alter]
    rfl

theorem has_push {groups : Groups} {source path source' path' : String} {value : Scalar} :
    (groups.push source path value).Has source' path' ↔
      groups.Has source' path' ∨ source' = source ∧ path' = path := has_alter

theorem has_assign {groups : Groups} {source path source' path' : String}
    {values : List Scalar} :
    (groups.assign source path values).Has source' path' ↔
      groups.Has source' path' ∨ source' = source ∧ path' = path := has_alter

/-! ## What flattening writes -/

mutual

/-- What every stored scalar keeps is kept by flattening. -/
theorem flattenValue_keeps {P : Flattened → Prop}
    (hwarn : ∀ acc warnings, P acc → P { acc with warnings := warnings })
    (hstore : ∀ source path value acc, P acc → P (storeScalar source path value acc))
    (source path : String) (depth : Nat) (value : Value) (acc : Flattened) (h : P acc) :
    P (flattenValue source path depth value acc) := by
  rw [flattenValue.eq_def]
  split
  · rw [truncated_eq]
    exact hwarn _ _ h
  · match value with
    | .array items => exact flattenItems_keeps hwarn hstore source path _ items acc h
    | .object fields => exact flattenFields_keeps hwarn hstore source path _ fields acc h
    | .null => exact h
    | .scalar value =>
        refine hstore _ _ (truncateScalar value acc).1 (truncateScalar value acc).2 ?_
        rw [truncateScalar_snd]
        exact hwarn _ _ h

theorem flattenItems_keeps {P : Flattened → Prop}
    (hwarn : ∀ acc warnings, P acc → P { acc with warnings := warnings })
    (hstore : ∀ source path value acc, P acc → P (storeScalar source path value acc))
    (source path : String) (depth : Nat) (items : List Value) (acc : Flattened)
    (h : P acc) : P (flattenItems source path depth items acc) := by
  match items with
  | [] => exact h
  | item :: rest =>
      rw [flattenItems.eq_def]
      exact flattenItems_keeps hwarn hstore source path depth rest _
        (flattenValue_keeps hwarn hstore source path depth item acc h)

theorem flattenFields_keeps {P : Flattened → Prop}
    (hwarn : ∀ acc warnings, P acc → P { acc with warnings := warnings })
    (hstore : ∀ source path value acc, P acc → P (storeScalar source path value acc))
    (source path : String) (depth : Nat) (fields : List (String × Value)) (acc : Flattened)
    (h : P acc) : P (flattenFields source path depth fields acc) := by
  match fields with
  | [] => exact h
  | (key, item) :: rest =>
      rw [flattenFields.eq_def]
      refine flattenFields_keeps hwarn hstore source path depth rest _ ?_
      split
      · exact h
      · exact flattenValue_keeps hwarn hstore source _ depth item acc h

end

theorem sanitizeFields_keeps {P : Flattened → Prop}
    (hwarn : ∀ acc warnings, P acc → P { acc with warnings := warnings })
    (hstore : ∀ source path value acc, P acc → P (storeScalar source path value acc))
    (sourceOverride : Option String) (fields : List (String × Value)) (acc : Flattened)
    (h : P acc) : P (sanitizeFields sourceOverride fields acc) := by
  induction fields generalizing acc with
  | nil => exact h
  | cons field rest ih =>
      obtain ⟨key, value⟩ := field
      rw [sanitizeFields]
      split
      · exact ih acc h
      · have hvalue := flattenValue_keeps hwarn hstore
          (groupAndField sourceOverride key).1 (groupAndField sourceOverride key).2 0 value
          acc h
        dsimp only
        split
        · exact hvalue
        · exact ih _ hvalue

/-- The counters start anew with each object. -/
theorem sanitizeObject_keeps {P : Flattened → Prop}
    (hwarn : ∀ acc warnings, P acc → P { acc with warnings := warnings })
    (hstore : ∀ source path value acc, P acc → P (storeScalar source path value acc))
    (hcount : ∀ acc leaves bytes, P acc → P { acc with leaves := leaves, bytes := bytes })
    (sourceOverride : Option String) (value : Value) (acc : Flattened) (h : P acc) :
    P (sanitizeObject sourceOverride value acc) := by
  unfold sanitizeObject
  split
  · exact sanitizeFields_keeps hwarn hstore _ _ _ (hcount _ _ _ h)
  · exact h

/-- The rows and the groups are about the same scalars. -/
structure Recorded (acc : Flattened) : Prop where
  rows : ∀ source path, acc.groups.Has source path →
    ∃ row ∈ acc.values, row.key = flattenedKey source path
  groups : ∀ row ∈ acc.values, row.sensitive = sensitiveKey row.key ∧
    ∃ source path, acc.groups.Has source path ∧ row.key = flattenedKey source path

theorem Recorded.storeScalar {acc : Flattened} (h : Recorded acc) (source path : String)
    (value : Scalar) : Recorded (storeScalar source path value acc) := by
  unfold Photostaff.storeScalar
  split
  · exact h
  · refine ⟨fun source' path' hhas => ?_, fun row hrow => ?_⟩
    · rcases has_push.mp hhas with hhas | ⟨rfl, rfl⟩
      · obtain ⟨row, hrow, hkey⟩ := h.rows source' path' hhas
        exact ⟨row, List.mem_append_left _ hrow, hkey⟩
      · exact ⟨_, List.mem_append_right _ List.mem_cons_self, rfl⟩
    · rcases List.mem_append.mp hrow with hrow | hrow
      · obtain ⟨hflag, source', path', hhas, hkey⟩ := h.groups row hrow
        exact ⟨hflag, source', path', has_push.mpr (.inl hhas), hkey⟩
      · obtain rfl := List.mem_singleton.mp hrow
        exact ⟨rfl, source, path, has_push.mpr (.inr ⟨rfl, rfl⟩), rfl⟩

theorem Recorded.sanitizeObject {acc : Flattened} (h : Recorded acc)
    (sourceOverride : Option String) (value : Value) :
    Recorded (sanitizeObject sourceOverride value acc) :=
  sanitizeObject_keeps (fun _ _ h => ⟨h.rows, h.groups⟩)
    (fun source path value _ h => h.storeScalar source path value)
    (fun _ _ _ h => ⟨h.rows, h.groups⟩) sourceOverride value acc h

/-- The object of a tool that may not have run. -/
def sanitizeOption (sourceOverride : Option String) (value : Option Value)
    (acc : Flattened) : Flattened :=
  match value with
  | some value => sanitizeObject sourceOverride value acc
  | none => acc

theorem normalizeMetadata_eq (output : ToolOutput) (warnings : List String) :
    normalizeMetadata output warnings =
      sanitizeOption (some "video") output.probe (sanitizeOption (some "sidecar_xmp")
        output.sidecar (sanitizeObject none output.embedded ⟨[], [], warnings, 0, 0⟩)) := rfl

theorem normalizeMetadata_recorded (output : ToolOutput) (warnings : List String) :
    Recorded (normalizeMetadata output warnings) := by
  have hoption : ∀ sourceOverride value acc, Recorded acc →
      Recorded (sanitizeOption sourceOverride value acc) := by
    intro sourceOverride value acc h
    cases value with
    | none => exact h
    | some value => exact h.sanitizeObject sourceOverride value
  have hempty : Recorded ⟨[], [], warnings, 0, 0⟩ :=
    ⟨(fun _ _ ⟨_, h, _⟩ => nomatch h), fun _ h => nomatch h⟩
  rw [normalizeMetadata_eq]
  exact hoption _ _ _ (hoption _ _ _ (hempty.sanitizeObject none output.embedded))

/-! ## What the API shows -/

theorem mem_entries {raw : Groups} {source path : String} :
    (∃ values, (source, path, values) ∈ raw.flatMap fun group =>
      group.2.map fun entry => (group.1, entry.1, entry.2)) ↔ raw.Has source path := by
  simp only [List.mem_flatMap, List.mem_map, Prod.mk.injEq]
  constructor
  · rintro ⟨values, ⟨source', entries⟩, hgroup, ⟨path', values'⟩, hentry, rfl, rfl, -⟩
    exact ⟨entries, hgroup, values', hentry⟩
  · rintro ⟨entries, hgroup, values, hentry⟩
    exact ⟨values, (source, entries), hgroup, (path, values), hentry, rfl, rfl, rfl⟩

/-- An entry goes to the one side or to the other. -/
def assignTo (sensitiveSet : List String) (acc : Groups × Groups)
    (entry : String × String × List Scalar) : Groups × Groups :=
  if sensitiveSet.contains (entry.1 ++ "." ++ entry.2.1) then
    (acc.1, Groups.assign acc.2 entry.1 entry.2.1 entry.2.2)
  else (Groups.assign acc.1 entry.1 entry.2.1 entry.2.2, acc.2)

theorem splitGroups_eq (sensitiveSet : List String) (raw : Groups) :
    splitGroups sensitiveSet raw =
      (raw.flatMap fun group => group.2.map fun entry => (group.1, entry.1, entry.2)).foldl
        (assignTo sensitiveSet) ([], []) :=
  rfl

theorem exists_mem_entry {entries : List (String × String × List Scalar)}
    {entry : String × String × List Scalar} {source path : String} :
    (∃ values, (source, path, values) ∈ entry :: entries) ↔
      (source = entry.1 ∧ path = entry.2.1) ∨ ∃ values, (source, path, values) ∈ entries := by
  simp only [List.mem_cons, exists_or]
  refine or_congr_left ⟨?_, ?_⟩
  · rintro ⟨_, rfl⟩
    exact ⟨rfl, rfl⟩
  · rintro ⟨rfl, rfl⟩
    exact ⟨_, rfl⟩

theorem foldl_assignTo_has (sensitiveSet : List String) (source path : String)
    (entries : List (String × String × List Scalar)) (acc : Groups × Groups) :
    ((entries.foldl (assignTo sensitiveSet) acc).1.Has source path ↔ acc.1.Has source path ∨
      (∃ values, (source, path, values) ∈ entries) ∧
        sensitiveSet.contains (source ++ "." ++ path) = false) ∧
    ((entries.foldl (assignTo sensitiveSet) acc).2.Has source path ↔ acc.2.Has source path ∨
      (∃ values, (source, path, values) ∈ entries) ∧
        sensitiveSet.contains (source ++ "." ++ path) = true) := by
  induction entries generalizing acc with
  | nil => simp
  | cons entry rest ih =>
      obtain ⟨ih₁, ih₂⟩ := ih (assignTo sensitiveSet acc entry)
      rw [List.foldl_cons, ih₁, ih₂, exists_mem_entry, assignTo]
      by_cases hsame : source = entry.1 ∧ path = entry.2.1
      · obtain ⟨rfl, rfl⟩ := hsame
        cases hset : sensitiveSet.contains (entry.1 ++ "." ++ entry.2.1) <;> simp [has_assign]
      · split <;> simp [has_assign, hsame]

theorem splitGroups_has (sensitiveSet : List String) (raw : Groups) (source path : String) :
    ((splitGroups sensitiveSet raw).1.Has source path ↔ raw.Has source path ∧
      sensitiveSet.contains (source ++ "." ++ path) = false) ∧
    ((splitGroups sensitiveSet raw).2.Has source path ↔ raw.Has source path ∧
      sensitiveSet.contains (source ++ "." ++ path) = true) := by
  rw [splitGroups_eq]
  obtain ⟨h₁, h₂⟩ := foldl_assignTo_has sensitiveSet source path (raw.flatMap fun group =>
    group.2.map fun entry => (group.1, entry.1, entry.2)) ([], [])
  have hempty : ¬ Groups.Has [] source path := by
    rintro ⟨_, h, _⟩
    cases h
  rw [mem_entries] at h₁ h₂
  exact ⟨h₁.trans (or_iff_right hempty), h₂.trans (or_iff_right hempty)⟩

/-- After a publish the flagged keys of the asset are those of its new rows. -/
theorem mem_sensitiveKeys (db : MetadataDb) (assetId : String) {key : String}
    {metadata : Flattened} :
    key ∈ (db.completePublish assetId metadata).sensitiveKeys assetId ↔
      ∃ row ∈ metadata.values, row.sensitive = true ∧ row.key = key := by
  simp only [MetadataDb.sensitiveKeys, MetadataDb.completePublish, List.filter_append,
    List.map_append, List.mem_append, List.mem_map, List.mem_filter, Bool.and_eq_true,
    decide_eq_true_eq]
  constructor
  · rintro (⟨row, ⟨⟨-, hne⟩, heq, -⟩, -⟩ | ⟨_, ⟨⟨row, hrow, rfl⟩, -, hflag⟩, hkey⟩)
    · exact absurd heq (by simpa using hne)
    · exact ⟨row, hrow, hflag, hkey⟩
  · rintro ⟨row, hrow, hflag, hkey⟩
    exact .inr ⟨(assetId, row), ⟨⟨row, hrow, rfl⟩, rfl, hflag⟩, hkey⟩

/-- What the API promises about an asset: no sensitive entry among the groups
it shows, and a flag when there is one. -/
def Hides (metadata : Flattened) (detail : MetadataDetail) : Prop :=
  (∀ source path, detail.groups.Has source path →
    sensitiveKey (flattenedKey source path) = false) ∧
  ((∃ source path, metadata.groups.Has source path ∧
    sensitiveKey (flattenedKey source path) = true) → detail.sensitiveOmitted = true)

/-- No scalar was stored under a sensitive key. -/
def NoSensitive (metadata : Flattened) : Prop :=
  ∀ row ∈ metadata.values, row.sensitive = false

instance (metadata : Flattened) : Decidable (NoSensitive metadata) :=
  inferInstanceAs (Decidable (∀ row ∈ metadata.values, _))

def colons (s : String) : Nat := s.toList.count ':'

theorem colons_flattenedKey (source path : String) :
    colons (flattenedKey source path) = colons source + 1 + colons path := by
  simp only [colons, flattenedKey, String.toList_append, List.count_append]
  rfl

theorem colons_dotted (source path : String) :
    colons (source ++ "." ++ path) = colons source + colons path := by
  simp only [colons, String.toList_append, List.count_append]
  rfl

/-- If every sensitive entry were hidden there would be none. -/
theorem not_all_hidden {metadata : Flattened} (h : Recorded metadata)
    (hcover : ∀ source path, metadata.groups.Has source path →
      sensitiveKey (flattenedKey source path) = true →
        ∃ row ∈ metadata.values, row.sensitive = true ∧ row.key = source ++ "." ++ path)
    (n : Nat) : ∀ source path, metadata.groups.Has source path →
      sensitiveKey (flattenedKey source path) = true →
        colons (source ++ "." ++ path) ≠ n := by
  induction n using Nat.strongRecOn with
  | ind n ih =>
      intro source path hhas hsensitive hn
      obtain ⟨row, hrow, hflag, hkey⟩ := hcover source path hhas hsensitive
      obtain ⟨hsame, source', path', hhas', hkey'⟩ := h.groups row hrow
      -- The entry that hides this one has a colon less.
      have hcolons : colons (source' ++ "." ++ path') < n := by
        have := congrArg colons (hkey.symm.trans hkey')
        rw [colons_flattenedKey, hn] at this
        rw [colons_dotted]
        omega
      refine ih _ hcolons source' path' hhas' ?_ rfl
      rw [← hkey', ← hsame, hflag]

theorem hides_iff {metadata : Flattened} (h : Recorded metadata) (db : MetadataDb)
    (assetId : String) :
    Hides metadata (getPhotostaffMetadataDetail (db.completePublish assetId metadata)
      assetId false) ↔ NoSensitive metadata := by
  have hraw : ((db.completePublish assetId metadata).raw assetId).getD ([], []) =
      (metadata.groups, metadata.warnings) := by
    simp [MetadataDb.completePublish]
  constructor
  · rintro ⟨hgroups, -⟩ row hrow
    rw [Bool.eq_false_iff]
    intro hflag
    obtain ⟨hsame, source, path, hhas, hkey⟩ := h.groups row hrow
    refine not_all_hidden h (fun source path hhas hsensitive => ?_) _ source path hhas
      (by rw [← hkey, ← hsame, hflag]) rfl
    -- An entry that is sensitive and not shown is found in the set.
    rw [← mem_sensitiveKeys db assetId, ← List.contains_iff_mem]
    refine (Bool.not_eq_false _).mp fun hnot => ?_
    have hshown := (splitGroups_has _ metadata.groups source path).1.mpr ⟨hhas, hnot⟩
    have := hgroups source path (by
      simp only [getPhotostaffMetadataDetail, hraw]
      exact hshown)
    rw [hsensitive] at this
    cases this
  · intro hno
    have hnone : ∀ source path, metadata.groups.Has source path →
        sensitiveKey (flattenedKey source path) = false := by
      intro source path hhas
      obtain ⟨row, hrow, hkey⟩ := h.rows source path hhas
      rw [← hkey, ← (h.groups row hrow).1]
      exact hno row hrow
    refine ⟨fun source path hshown => ?_, fun ⟨source, path, hhas, hsensitive⟩ => ?_⟩
    · simp only [getPhotostaffMetadataDetail, hraw] at hshown
      exact hnone source path ((splitGroups_has _ _ source path).1.mp hshown).1
    · rw [hnone source path hhas] at hsensitive
      cases hsensitive

/-! ## Two objects that differ in sensitive values -/

mutual

/-- The same keys throughout, and the same scalars except under sensitive keys. -/
def Similar (source path : String) : Value → Value → Prop
  | .null, .null => True
  | .scalar a, .scalar b => a = b ∨ sensitiveKey (flattenedKey source path) = true
  | .array items, .array items' => SimilarItems source path items items'
  | .object fields, .object fields' => SimilarFields source path fields fields'
  | _, _ => False

def SimilarItems (source path : String) : List Value → List Value → Prop
  | [], [] => True
  | item :: rest, item' :: rest' =>
      Similar source path item item' ∧ SimilarItems source path rest rest'
  | _, _ => False

def SimilarFields (source path : String) :
    List (String × Value) → List (String × Value) → Prop
  | [], [] => True
  | (key, item) :: rest, (key', item') :: rest' =>
      key = key' ∧ Similar source (path ++ "." ++ key) item item' ∧
        SimilarFields source path rest rest'
  | _, _ => False

end

/-- The same of the fields `sanitize_object` starts with. -/
def SimilarTop (sourceOverride : Option String) :
    List (String × Value) → List (String × Value) → Prop
  | [], [] => True
  | (key, value) :: rest, (key', value') :: rest' =>
      key = key' ∧ Similar (groupAndField sourceOverride key).1
        (groupAndField sourceOverride key).2 value value' ∧
        SimilarTop sourceOverride rest rest'
  | _, _ => False

def SimilarObject (sourceOverride : Option String) : Value → Value → Prop
  | .object fields, .object fields' => SimilarTop sourceOverride fields fields'
  | value, value' => value = value'

def SimilarOption (sourceOverride : Option String) : Option Value → Option Value → Prop
  | none, none => True
  | some value, some value' => SimilarObject sourceOverride value value'
  | _, _ => False

structure SimilarOutput (output output' : ToolOutput) : Prop where
  embedded : SimilarObject none output.embedded output'.embedded
  sidecar : SimilarOption (some "sidecar_xmp") output.sidecar output'.sidecar
  probe : SimilarOption (some "video") output.probe output'.probe

/-- Equal but for the warnings. -/
structure Agree (acc acc' : Flattened) : Prop where
  groups : acc.groups = acc'.groups
  values : acc.values = acc'.values
  leaves : acc.leaves = acc'.leaves
  bytes : acc.bytes = acc'.bytes

theorem Agree.full {acc acc' : Flattened} (h : Agree acc acc') : acc.full = acc'.full := by
  unfold Flattened.full
  rw [h.leaves, h.bytes]

theorem Agree.warned {acc acc' : Flattened} (h : Agree acc acc') (w w' : List String) :
    Agree { acc with warnings := w } { acc' with warnings := w' } :=
  ⟨h.groups, h.values, h.leaves, h.bytes⟩

theorem Agree.storeScalar {acc acc' : Flattened} (h : Agree acc acc') (source path : String)
    (value : Scalar) :
    Agree (storeScalar source path value acc) (storeScalar source path value acc') := by
  unfold Photostaff.storeScalar
  rw [h.bytes]
  split
  · exact h
  · exact ⟨by rw [h.groups], by rw [h.groups, h.values], by rw [h.leaves], rfl⟩

/-- Where nothing sensitive is stored, a sensitive scalar found no room. -/
theorem storeScalar_of_noSensitive {source path : String} {value : Scalar}
    {acc : Flattened} (h : NoSensitive (storeScalar source path value acc))
    (hsensitive : sensitiveKey (flattenedKey source path) = true) :
    storeScalar source path value acc = acc := by
  unfold storeScalar at h ⊢
  split
  · rfl
  · next hfits =>
      rw [if_neg hfits] at h
      have := h _ (List.mem_append_right _ List.mem_cons_self)
      rw [show (metadataValue source (flattenedKey source path) value
        (sensitiveKey (flattenedKey source path)) _).sensitive = _ from rfl,
        hsensitive] at this
      cases this

theorem storeScalar_values (source path : String) (value : Scalar) (acc : Flattened) :
    acc.values ⊆ (storeScalar source path value acc).values := by
  unfold storeScalar
  split
  · exact List.Subset.refl _
  · exact List.subset_append_left _ _

theorem NoSensitive.mono {acc acc' : Flattened} (h : NoSensitive acc')
    (hsub : acc.values ⊆ acc'.values) : NoSensitive acc :=
  fun row hrow => h row (hsub hrow)

theorem flattenItems_values (source path : String) (depth : Nat) (items : List Value)
    (acc : Flattened) : acc.values ⊆ (flattenItems source path depth items acc).values :=
  flattenItems_keeps (P := fun acc' => acc.values ⊆ acc'.values) (fun _ _ h => h)
    (fun _ _ _ _ h => List.Subset.trans h (storeScalar_values ..)) source path depth items acc
    (List.Subset.refl _)

theorem flattenFields_values (source path : String) (depth : Nat)
    (fields : List (String × Value)) (acc : Flattened) :
    acc.values ⊆ (flattenFields source path depth fields acc).values :=
  flattenFields_keeps (P := fun acc' => acc.values ⊆ acc'.values) (fun _ _ h => h)
    (fun _ _ _ _ h => List.Subset.trans h (storeScalar_values ..)) source path depth fields acc
    (List.Subset.refl _)

theorem sanitizeFields_values (sourceOverride : Option String)
    (fields : List (String × Value)) (acc : Flattened) :
    acc.values ⊆ (sanitizeFields sourceOverride fields acc).values :=
  sanitizeFields_keeps (P := fun acc' => acc.values ⊆ acc'.values) (fun _ _ h => h)
    (fun _ _ _ _ h => List.Subset.trans h (storeScalar_values ..)) sourceOverride fields acc
    (List.Subset.refl _)

mutual

theorem flattenValue_agree {source path : String} {depth : Nat} {value value' : Value}
    {acc acc' : Flattened} (hsim : Similar source path value value') (h : Agree acc acc')
    (hno : NoSensitive (flattenValue source path depth value acc))
    (hno' : NoSensitive (flattenValue source path depth value' acc')) :
    Agree (flattenValue source path depth value acc)
      (flattenValue source path depth value' acc') := by
  rw [flattenValue.eq_def] at hno hno' ⊢
  rw [flattenValue.eq_def source path depth value' acc']
  rw [← h.full] at hno' ⊢
  split
  · rw [truncated_eq acc, truncated_eq acc']
    exact h.warned _ _
  · next hroom =>
      rw [if_neg hroom] at hno hno'
      match value, value' with
      | .null, .null => exact h
      | .array items, .array items' => exact flattenItems_agree hsim h hno hno'
      | .object fields, .object fields' => exact flattenFields_agree hsim h hno hno'
      | .scalar a, .scalar b =>
          have hacc : Agree (truncateScalar a acc).2 (truncateScalar b acc').2 := by
            rw [truncateScalar_snd a, truncateScalar_snd b]
            exact h.warned _ _
          rcases hsim with rfl | hsensitive
          · have hsame : (truncateScalar a acc).1 = (truncateScalar a acc').1 := by
              unfold truncateScalar
              split
              · split <;> rfl
              · rfl
            dsimp only
            rw [hsame]
            exact hacc.storeScalar source path _
          · dsimp only at hno hno' ⊢
            rw [storeScalar_of_noSensitive hno hsensitive,
              storeScalar_of_noSensitive hno' hsensitive]
            exact hacc

theorem flattenItems_agree {source path : String} {depth : Nat} {items items' : List Value}
    {acc acc' : Flattened} (hsim : SimilarItems source path items items')
    (h : Agree acc acc') (hno : NoSensitive (flattenItems source path depth items acc))
    (hno' : NoSensitive (flattenItems source path depth items' acc')) :
    Agree (flattenItems source path depth items acc)
      (flattenItems source path depth items' acc') := by
  match items, items' with
  | [], [] => exact h
  | item :: rest, item' :: rest' =>
      rw [flattenItems.eq_def] at hno hno' ⊢
      rw [flattenItems.eq_def source path depth (item' :: rest') acc']
      dsimp only at hno hno' ⊢
      exact flattenItems_agree hsim.2 (flattenValue_agree hsim.1 h
        (hno.mono (flattenItems_values ..)) (hno'.mono (flattenItems_values ..))) hno hno'

theorem flattenFields_agree {source path : String} {depth : Nat}
    {fields fields' : List (String × Value)} {acc acc' : Flattened}
    (hsim : SimilarFields source path fields fields') (h : Agree acc acc')
    (hno : NoSensitive (flattenFields source path depth fields acc))
    (hno' : NoSensitive (flattenFields source path depth fields' acc')) :
    Agree (flattenFields source path depth fields acc)
      (flattenFields source path depth fields' acc') := by
  match fields, fields' with
  | [], [] => exact h
  | (key, item) :: rest, (key', item') :: rest' =>
      obtain ⟨rfl, hitem, hrest⟩ := hsim
      rw [flattenFields.eq_def] at hno hno' ⊢
      rw [flattenFields.eq_def source path depth ((key, item') :: rest') acc']
      dsimp only at hno hno' ⊢
      refine flattenFields_agree hrest ?_ hno hno'
      have hhead := hno.mono (flattenFields_values ..)
      have hhead' := hno'.mono (flattenFields_values ..)
      split
      · exact h
      · next homitted =>
          rw [if_neg homitted] at hhead hhead'
          exact flattenValue_agree hitem h hhead hhead'

end

theorem sanitizeFields_agree {sourceOverride : Option String}
    {fields fields' : List (String × Value)} {acc acc' : Flattened}
    (hsim : SimilarTop sourceOverride fields fields') (h : Agree acc acc')
    (hno : NoSensitive (sanitizeFields sourceOverride fields acc))
    (hno' : NoSensitive (sanitizeFields sourceOverride fields' acc')) :
    Agree (sanitizeFields sourceOverride fields acc)
      (sanitizeFields sourceOverride fields' acc') := by
  induction fields generalizing fields' acc acc' with
  | nil =>
      match fields' with
      | [] => exact h
  | cons field rest ih =>
      match fields' with
      | (key', value') :: rest' =>
          obtain ⟨key, value⟩ := field
          obtain ⟨rfl, hvalue, hrest⟩ := hsim
          rw [sanitizeFields] at hno hno' ⊢
          rw [sanitizeFields]
          split
          · next hskip =>
              rw [if_pos hskip] at hno hno'
              exact ih hrest h hno hno'
          · next hskip =>
              rw [if_neg hskip] at hno hno'
              dsimp only at hno hno' ⊢
              have hhead : NoSensitive (flattenValue (groupAndField sourceOverride key).1
                  (groupAndField sourceOverride key).2 0 value acc) := by
                split at hno
                · exact hno
                · exact hno.mono (sanitizeFields_values ..)
              have hhead' : NoSensitive (flattenValue (groupAndField sourceOverride key).1
                  (groupAndField sourceOverride key).2 0 value' acc') := by
                split at hno'
                · exact hno'
                · exact hno'.mono (sanitizeFields_values ..)
              have hagree := flattenValue_agree hvalue h hhead hhead'
              rw [← hagree.full] at hno' ⊢
              split
              · exact hagree
              · next hroom =>
                  rw [if_neg hroom] at hno hno'
                  exact ih hrest hagree hno hno'

theorem sanitizeObject_agree {sourceOverride : Option String} {value value' : Value}
    {acc acc' : Flattened} (hsim : SimilarObject sourceOverride value value')
    (h : Agree acc acc') (hno : NoSensitive (sanitizeObject sourceOverride value acc))
    (hno' : NoSensitive (sanitizeObject sourceOverride value' acc')) :
    Agree (sanitizeObject sourceOverride value acc)
      (sanitizeObject sourceOverride value' acc') := by
  match value, value' with
  | .object fields, .object fields' =>
      refine sanitizeFields_agree hsim ⟨h.groups, h.values, ?_, ?_⟩ hno hno'
      · rw [h.values]
      · rw [h.groups]
  | .null, value' | .scalar _, value' | .array _, value' =>
      obtain rfl : _ = value' := hsim
      exact h
  | .object fields, .null | .object fields, .scalar _ | .object fields, .array _ => cases hsim

theorem sanitizeOption_values (sourceOverride : Option String) (value : Option Value)
    (acc : Flattened) : acc.values ⊆ (sanitizeOption sourceOverride value acc).values := by
  cases value with
  | none => exact List.Subset.refl _
  | some value =>
      exact sanitizeObject_keeps (P := fun acc' => acc.values ⊆ acc'.values) (fun _ _ h => h)
        (fun _ _ _ _ h => List.Subset.trans h (storeScalar_values ..)) (fun _ _ _ h => h) _ _ _
        (List.Subset.refl _)

theorem sanitizeOption_agree {sourceOverride : Option String} {value value' : Option Value}
    {acc acc' : Flattened} (hsim : SimilarOption sourceOverride value value')
    (h : NoSensitive acc → NoSensitive acc' → Agree acc acc')
    (hno : NoSensitive (sanitizeOption sourceOverride value acc))
    (hno' : NoSensitive (sanitizeOption sourceOverride value' acc')) :
    Agree (sanitizeOption sourceOverride value acc)
      (sanitizeOption sourceOverride value' acc') := by
  have hagree := h (hno.mono (sanitizeOption_values ..)) (hno'.mono (sanitizeOption_values ..))
  match value, value' with
  | none, none => exact hagree
  | some value, some value' => exact sanitizeObject_agree hsim hagree hno hno'

theorem normalizeMetadata_agree {output output' : ToolOutput}
    (hsim : SimilarOutput output output') {warnings : List String}
    (hno : NoSensitive (normalizeMetadata output warnings))
    (hno' : NoSensitive (normalizeMetadata output' warnings)) :
    Agree (normalizeMetadata output warnings) (normalizeMetadata output' warnings) := by
  rw [normalizeMetadata_eq] at hno hno' ⊢
  rw [normalizeMetadata_eq]
  refine sanitizeOption_agree hsim.probe (fun hno hno' => ?_) hno hno'
  refine sanitizeOption_agree hsim.sidecar (fun hno hno' => ?_) hno hno'
  exact sanitizeObject_agree hsim.embedded ⟨rfl, rfl, rfl, rfl⟩ hno hno'

/-! ## The detail that is returned -/

/-- The detail of an asset right after the metadata of its file was published,
as it is read without the sensitive groups. -/
def publishedDetail (db : MetadataDb) (assetId : String) (output : ToolOutput)
    (warnings : List String) : MetadataDetail :=
  getPhotostaffMetadataDetail
    (db.completePublish assetId (normalizeMetadata output warnings)) assetId false

/-- The groups that are shown depend on the groups and the rows alone. -/
theorem publishedDetail_groups (db : MetadataDb) (assetId : String)
    {output output' : ToolOutput} {warnings : List String}
    (h : Agree (normalizeMetadata output warnings) (normalizeMetadata output' warnings)) :
    (publishedDetail db assetId output warnings).groups =
      (publishedDetail db assetId output' warnings).groups := by
  simp only [publishedDetail, getPhotostaffMetadataDetail, MetadataDb.sensitiveKeys,
    MetadataDb.completePublish, if_pos, Option.getD_some, h.groups, h.values]

/-- Sensitive metadata is hidden exactly when there is none; and two reports
that differ in sensitive values alone give the same groups when neither has a
sensitive value that was stored. -/
theorem sensitive_hidden_iff (db : MetadataDb) (assetId : String) (output : ToolOutput)
    (warnings : List String) :
    (Hides (normalizeMetadata output warnings) (publishedDetail db assetId output warnings) ↔
      NoSensitive (normalizeMetadata output warnings)) ∧
    ∀ output', SimilarOutput output output' →
      NoSensitive (normalizeMetadata output warnings) →
      NoSensitive (normalizeMetadata output' warnings) →
        (publishedDetail db assetId output warnings).groups =
          (publishedDetail db assetId output' warnings).groups :=
  ⟨hides_iff (normalizeMetadata_recorded output warnings) db assetId,
    fun _ hsim hno hno' =>
      publishedDetail_groups db assetId (normalizeMetadata_agree hsim hno hno')⟩

def emptyDb : MetadataDb := ⟨fun _ => none, []⟩

/-- What exiftool reports about a photo with its place and its camera. -/
def photoReport (latitude : String) : ToolOutput where
  embedded := .object [("EXIF:Model", .scalar (.text "X100")),
    ("EXIF:GPSLatitude", .scalar (.number latitude))]
  sidecar := none
  probe := none

/-- A photo without anything sensitive. -/
def plainReport : ToolOutput where
  embedded := .object [("EXIF:Model", .scalar (.text "X100"))]
  sidecar := none
  probe := none

theorem sensitive_hidden_plain :
    Hides (normalizeMetadata plainReport []) (publishedDetail emptyDb "asset" plainReport []) ∧
      (publishedDetail emptyDb "asset" plainReport []).groups =
        [("exif", [("Model", [.text "X100"])])] :=
  ⟨(sensitive_hidden_iff emptyDb "asset" plainReport []).1.mpr (by decide +kernel),
    by decide +kernel⟩

/-- The place is shown, nothing is said to be left out, and two photos that
differ in the place alone are told apart. -/
theorem sensitive_shown :
    (publishedDetail emptyDb "asset" (photoReport "52.5") []).groups =
      [("exif", [("Model", [.text "X100"]), ("GPSLatitude", [.number "52.5"])])] ∧
    (publishedDetail emptyDb "asset" (photoReport "52.5") []).sensitiveOmitted = false ∧
    ¬ Hides (normalizeMetadata (photoReport "52.5") [])
      (publishedDetail emptyDb "asset" (photoReport "52.5") []) ∧
    SimilarOutput (photoReport "52.5") (photoReport "48.1") ∧
    (publishedDetail emptyDb "asset" (photoReport "52.5") []).groups ≠
      (publishedDetail emptyDb "asset" (photoReport "48.1") []).groups := by
  refine ⟨by decide +kernel, by decide +kernel, fun h => ?_,
    ⟨⟨rfl, .inl rfl, rfl, .inr (by decide), trivial⟩, trivial, trivial⟩, by decide +kernel⟩
  have hshown : (publishedDetail emptyDb "asset" (photoReport "52.5") []).groups.Has "exif"
      "GPSLatitude" :=
    ⟨[("Model", [.text "X100"]), ("GPSLatitude", [.number "52.5"])], by decide +kernel,
      [.number "52.5"], by decide⟩
  exact absurd (h.1 _ _ hshown) (by decide)

end Zos.Photostaff
