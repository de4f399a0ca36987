import Zos.Photostaff.Search

/-!
# What is indexed can be found

The daemon stores the lower case of a text, a query looks for the text in NFKC, trimmed and in
lower case. An asset is found by each of its keywords and texts exactly if for each of them what a
query looks for is what was stored, for it or for another keyword of the asset or another text
under its key.
-/

namespace Zos.Photostaff.Search

variable {env : Env} {db : Db} {assetId libraryUpdatedAt : String} {metadata : Flattened}

/-- An asset that was published is found by its keywords and by its texts. -/
structure Findable (env : Env) (db : Db) (libraryUpdatedAt assetId : String) : Prop where
  keywords : ∀ row ∈ db.keywords, row.assetId = assetId →
    assetId ∈ db.matchingIds env libraryUpdatedAt ⟨[row.keyword], []⟩
  values : ∀ row ∈ db.values, row.assetId = assetId → row.sensitive = false →
    ∀ text, row.textValue = some text →
      assetId ∈ db.matchingIds env libraryUpdatedAt ⟨[], [⟨row.key, text⟩]⟩

/-! ## Keywords -/

theorem mem_foldl_insertOrIgnore {rows inserted : List KeywordRow} {row : KeywordRow}
    (h : row ∈ inserted.foldl insertOrIgnore rows) : row ∈ rows ∨ row ∈ inserted := by
  induction inserted generalizing rows with
  | nil => exact .inl h
  | cons first inserted ih =>
      obtain hrows | hrest := ih h
      · rw [insertOrIgnore] at hrows
        split at hrows
        · exact .inl hrows
        · exact (List.mem_append.mp hrows).imp_right (by simp_all)
      · exact .inr (.tail _ hrest)

theorem subset_foldl_insertOrIgnore (rows inserted : List KeywordRow) :
    rows ⊆ inserted.foldl insertOrIgnore rows := by
  induction inserted generalizing rows with
  | nil => exact List.Subset.refl rows
  | cons first inserted ih =>
      refine List.Subset.trans ?_ (ih _)
      unfold insertOrIgnore
      split
      · exact List.Subset.refl rows
      · exact List.subset_append_left rows [first]

/-- A row that is ignored has its key in the table already. -/
theorem exists_insertOrIgnore (rows : List KeywordRow) (row : KeywordRow) :
    ∃ other ∈ insertOrIgnore rows row,
      other.assetId = row.assetId ∧ other.normalizedKeyword = row.normalizedKeyword := by
  unfold insertOrIgnore
  split
  · next hany => simpa using hany
  · exact ⟨row, by simp, rfl, rfl⟩

theorem exists_foldl_insertOrIgnore (rows : List KeywordRow) {inserted : List KeywordRow}
    {row : KeywordRow} (h : row ∈ inserted) : ∃ other ∈ inserted.foldl insertOrIgnore rows,
      other.assetId = row.assetId ∧ other.normalizedKeyword = row.normalizedKeyword := by
  induction inserted generalizing rows with
  | nil => cases h
  | cons first inserted ih =>
      obtain rfl | hrest := List.mem_cons.mp h
      · obtain ⟨other, hother, hkey⟩ := exists_insertOrIgnore rows row
        exact ⟨other, subset_foldl_insertOrIgnore _ inserted hother, hkey⟩
      · exact ih _ hrest

/-- The normalised keywords of an asset are the lower cases of its keywords. -/
theorem exists_keywordRows_iff (assetId : String) {keywords : List String} {text : String} :
    (∃ row ∈ keywordRows env assetId keywords, row.normalizedKeyword = text) ↔
      ∃ keyword ∈ keywords, env.toLowercase keyword = text := by
  constructor
  · rintro ⟨row, hrow, rfl⟩
    obtain ⟨keyword, hkeyword, rfl⟩ :=
      List.mem_map.mp ((mem_foldl_insertOrIgnore hrow).resolve_left List.not_mem_nil)
    exact ⟨keyword, hkeyword, rfl⟩
  · rintro ⟨keyword, hkeyword, rfl⟩
    have hrow : keywordRow env assetId keyword ∈ keywords.map (keywordRow env assetId) :=
      List.mem_map_of_mem hkeyword
    obtain ⟨row, hrow, -, hnormalized⟩ := exists_foldl_insertOrIgnore [] hrow
    exact ⟨row, hrow, hnormalized⟩

theorem assetId_of_mem_keywordRows {keywords : List String} {row : KeywordRow}
    (h : row ∈ keywordRows env assetId keywords) : row.assetId = assetId := by
  obtain ⟨keyword, -, rfl⟩ :=
    List.mem_map.mp ((mem_foldl_insertOrIgnore h).resolve_left List.not_mem_nil)
  rfl

/-! ## The published asset -/

/-- The published asset is the only one with its id, and it is up to date. -/
theorem mem_matchingIds_iff (filters : Filters) (hfilters : filters.conditions.length ≤ 25) :
    assetId ∈ (db.completePublish env assetId libraryUpdatedAt metadata).matchingIds env
        libraryUpdatedAt filters ↔
      (filters.keywords = [] ∨ (db.completePublish env assetId libraryUpdatedAt metadata).hasKeyword
        env assetId filters.keywords = true) ∧
      ∀ condition ∈ filters.conditions, (db.completePublish env assetId libraryUpdatedAt
        metadata).hasValue env assetId condition = true := by
  rw [Db.matchingIds, List.mem_map]
  constructor
  · rintro ⟨asset, hasset, rfl⟩
    obtain ⟨-, hmatch⟩ := List.mem_filter.mp hasset
    simp only [Db.isMatch, Bool.and_eq_true, Bool.or_eq_true, List.isEmpty_iff,
      List.take_of_length_le hfilters, List.all_eq_true] at hmatch
    exact ⟨hmatch.1.1.2, hmatch.1.2⟩
  · rintro ⟨hkeywords, hconditions⟩
    refine ⟨⟨assetId, libraryUpdatedAt, true, some metadataSchemaVersion⟩,
      List.mem_filter.mpr ⟨by simp [Db.completePublish], ?_⟩, rfl⟩
    simp only [Db.isMatch, Bool.and_eq_true, Bool.or_eq_true, List.isEmpty_iff,
      List.take_of_length_le hfilters, List.all_eq_true, decide_true, and_self, or_true, and_true,
      true_and]
    exact ⟨hkeywords, hconditions⟩

theorem hasKeyword_iff (keyword : String) :
    (db.completePublish env assetId libraryUpdatedAt metadata).hasKeyword env assetId [keyword] =
        true ↔
      ∃ other ∈ keywordsOf env metadata.groups,
        env.toLowercase other = normalizeText env keyword := by
  rw [← exists_keywordRows_iff assetId]
  simp only [Db.hasKeyword, Db.completePublish, List.any_append, Bool.or_eq_true, List.any_eq_true]
  constructor
  · rintro (⟨row, hrow, hfound⟩ | ⟨row, hrow, hfound⟩)
    · simp_all
    · exact ⟨row, hrow, by simpa using (Bool.and_eq_true_iff.mp hfound).2⟩
  · rintro ⟨row, hrow, hnormalized⟩
    exact .inr ⟨row, hrow, by simp [assetId_of_mem_keywordRows hrow, hnormalized]⟩

theorem hasValue_iff (condition : EqCondition) :
    (db.completePublish env assetId libraryUpdatedAt metadata).hasValue env assetId condition =
        true ↔
      ∃ value ∈ metadata.values, value.key = condition.key ∧ value.sensitive = false ∧
        ∃ text, value.value = .text text ∧
          env.toLowercase text = normalizeText env condition.value := by
  have hvalue (value : MetadataValue) : (valueRow env assetId value).dateValue.or
      (valueRow env assetId value).normalizedTextValue = some (normalizeText env condition.value) ↔
        ∃ text, value.value = .text text ∧
          env.toLowercase text = normalizeText env condition.value := by
    cases hscalar : value.value <;> simp [valueRow, hscalar]
  simp only [Db.hasValue, Db.completePublish, List.any_append, Bool.or_eq_true, List.any_eq_true]
  constructor
  · rintro (⟨row, hrow, hfound⟩ | ⟨row, hrow, hfound⟩)
    · simp_all
    · obtain ⟨value, hmem, rfl⟩ := List.mem_map.mp hrow
      simp only [Bool.and_eq_true, decide_eq_true_eq, hvalue, Bool.not_eq_true'] at hfound
      exact ⟨value, hmem, hfound.1.2, hfound.1.1.2, hfound.2⟩
  · rintro ⟨value, hmem, hkey, hsensitive, htext⟩
    refine .inr ⟨_, List.mem_map_of_mem hmem, ?_⟩
    simp only [Bool.and_eq_true, decide_eq_true_eq, hvalue, Bool.not_eq_true']
    exact ⟨⟨⟨rfl, hsensitive⟩, hkey⟩, htext⟩

/-! ## Texts that agree -/

/-- What a query looks for was stored, for each keyword and each text. -/
structure Agreeing (env : Env) (assetId : String) (metadata : Flattened) : Prop where
  keywords : ∀ row ∈ keywordRows env assetId (keywordsOf env metadata.groups),
    ∃ other ∈ keywordsOf env metadata.groups,
      env.toLowercase other = normalizeText env row.keyword
  values : ∀ value ∈ metadata.values, value.sensitive = false →
    ∀ text, value.value = .text text → ∃ other ∈ metadata.values, other.key = value.key ∧
      other.sensitive = false ∧ ∃ text', other.value = .text text' ∧
        env.toLowercase text' = normalizeText env text

theorem mem_keywords_iff {row : KeywordRow} :
    row ∈ (db.completePublish env assetId libraryUpdatedAt metadata).keywords ∧
        row.assetId = assetId ↔
      row ∈ keywordRows env assetId (keywordsOf env metadata.groups) := by
  simp only [Db.completePublish, List.mem_append, List.mem_filter]
  exact ⟨fun h => h.1.resolve_left fun hold => by simp_all,
    fun h => ⟨.inr h, assetId_of_mem_keywordRows h⟩⟩

/-- A published asset is found by its keywords and texts exactly if both sides agree on them. -/
theorem indexed_found_iff (env : Env) (db : Db) (assetId libraryUpdatedAt : String)
    (output : ToolOutput) (warnings : List String) :
    Findable env (db.completePublish env assetId libraryUpdatedAt
        (normalizeMetadata output warnings)) libraryUpdatedAt assetId ↔
      Agreeing env assetId (normalizeMetadata output warnings) := by
  constructor
  · intro h
    refine ⟨fun row hrow => ?_, fun value hmem hsensitive text htext => ?_⟩
    · obtain ⟨hmem, hasset⟩ := mem_keywords_iff.mpr hrow
      obtain ⟨hfound, -⟩ := (mem_matchingIds_iff _ (by simp)).mp (h.keywords row hmem hasset)
      exact (hasKeyword_iff _).mp (hfound.resolve_left (by simp))
    · have hrow := h.values (valueRow env assetId value)
        (List.mem_append_right _ (List.mem_map_of_mem hmem)) rfl hsensitive text
        (by simp [valueRow, htext])
      obtain ⟨-, hfound⟩ := (mem_matchingIds_iff _ (by simp)).mp hrow
      exact (hasValue_iff _).mp (hfound _ (.head _))
  · intro h
    refine ⟨fun row hmem hasset => ?_, fun row hmem hasset hsensitive text htext => ?_⟩
    · have hfound := h.keywords row (mem_keywords_iff.mp ⟨hmem, hasset⟩)
      exact (mem_matchingIds_iff _ (by simp)).mpr ⟨.inr ((hasKeyword_iff _).mpr hfound), by simp⟩
    · obtain hold | hnew := List.mem_append.mp hmem
      · simp_all
      · obtain ⟨value, hvalue, rfl⟩ := List.mem_map.mp hnew
        have hscalar : value.value = .text text := by
          cases hscalar : value.value <;> simp_all [valueRow]
        refine (mem_matchingIds_iff _ (by simp)).mpr ⟨.inl rfl, fun condition hcondition => ?_⟩
        obtain rfl := List.mem_singleton.mp hcondition
        exact (hasValue_iff _).mpr (h.values value hvalue hsensitive text hscalar)

/-- Operations on texts, as they are on the text of the report below. -/
def decomposed : Env where
  rustTrim := id
  toLowercase text := if text = "Cafe\u0301" then "cafe\u0301" else text
  nfkc text := if text = "Cafe\u0301" then "Caf\u00e9" else text
  trim := id
  toLocaleLowerCase text := if text = "Caf\u00e9" then "caf\u00e9" else text

/-- A keyword with an accent of its own, as some systems write it. -/
theorem decomposed_keyword_not_found : ∃ env output, ¬ Findable env
    (Db.completePublish env ⟨[], [], []⟩ "a" "t" (normalizeMetadata output [])) "t" "a" := by
  refine ⟨decomposed, ⟨.object [("XMP:Subject", .scalar (.text "Cafe\u0301"))], none, none⟩,
    fun h => ?_⟩
  have hfound := h.keywords ⟨"a", "Cafe\u0301", "cafe\u0301"⟩ (by decide +kernel) rfl
  exact absurd hfound (by decide +kernel)

end Zos.Photostaff.Search
