import Mathlib.Data.List.Nodup

/-!
# Rows kept by key

Association lists with one entry a key, and lists in which a row takes the place of
the one with its key when it is the better of the two.
-/

namespace Zos.Lib

/-- A row that is added keeps the keys apart if its key is new. -/
theorem nodup_map_concat {α κ : Type} {key : α → κ} {rows : List α} {row : α} :
    ((rows ++ [row]).map key).Nodup ↔
      (rows.map key).Nodup ∧ ∀ old ∈ rows, key old ≠ key row := by
  rw [List.map_append, List.nodup_append]
  simp

/-- Where the keys are apart, the row of a key is the one that is found. -/
theorem find?_key_iff {α κ : Type} [DecidableEq κ] {key : α → κ} {rows : List α}
    (h : (rows.map key).Nodup) {k : κ} {row : α} :
    rows.find? (key · = k) = some row ↔ row ∈ rows ∧ key row = k := by
  refine ⟨fun hfound =>
    ⟨List.mem_of_find?_eq_some hfound, by simpa using List.find?_some hfound⟩, ?_⟩
  intro ⟨hrow, hkey⟩
  cases hfound : rows.find? (key · = k) with
  | none => simpa [hkey] using List.find?_eq_none.mp hfound row hrow
  | some found =>
      have hsame : key found = key row := by
        rw [hkey]
        simpa using List.find?_some hfound
      rw [List.inj_on_of_nodup_map h (List.mem_of_find?_eq_some hfound) hrow hsame]

section Assoc

variable {κ β : Type} [BEq κ] [LawfulBEq κ] [DecidableEq κ] {entries : List (κ × β)}
  {key other : κ} {value : β}

theorem lookup_filter_of_ne (h : other ≠ key) :
    (entries.filter (·.1 ≠ key)).lookup other = entries.lookup other := by
  induction entries with
  | nil => rfl
  | cons entry rest ih =>
      by_cases hentry : entry.1 = key
      · rw [List.filter_cons_of_neg (by simp [hentry]), ih, List.lookup_cons,
          beq_false_of_ne (hentry ▸ h)]
      · rw [List.filter_cons_of_pos (by simp [hentry]), List.lookup_cons, List.lookup_cons, ih]

theorem lookup_filter (entries : List (κ × β)) (key other : κ) :
    (entries.filter (·.1 ≠ key)).lookup other =
      if other = key then none else entries.lookup other := by
  split
  · next h =>
      rw [h, List.lookup_eq_none_iff]
      intro entry hentry
      have hne : entry.1 ≠ key := by simpa using List.of_mem_filter hentry
      simpa using hne.symm
  · next h => exact lookup_filter_of_ne h

theorem lookup_replace (entries : List (κ × β)) (key other : κ) (value : β) :
    ((key, value) :: entries.filter (·.1 ≠ key)).lookup other =
      if other = key then some value else entries.lookup other := by
  rw [List.lookup_cons]
  by_cases h : other = key
  · simp [h]
  · rw [if_neg h, beq_false_of_ne h]
    exact lookup_filter_of_ne h

omit [DecidableEq κ] in
theorem mem_of_lookup (h : entries.lookup key = some value) : (key, value) ∈ entries := by
  obtain ⟨before, rest, hentries, -⟩ := List.lookup_eq_some_iff.mp h
  simp [hentries]

end Assoc

section Upsert

variable {α κ : Type} [DecidableEq κ]

/-- Puts a row in, or in the place of the one with its key where it is the better. -/
def upsert (key : α → κ) (better : α → α → Bool) (rows : List α) (row : α) : List α :=
  match rows.find? (key · = key row) with
  | none => rows ++ [row]
  | some old =>
      if better row old then rows.map fun r => if key r = key row then row else r
      else rows

variable {key : α → κ} {better : α → α → Bool} {rows : List α} {row x : α}

theorem upsert_keys (h : (rows.map key).Nodup) :
    ((upsert key better rows row).map key).Nodup := by
  unfold upsert
  split
  · next hfind =>
      have hnew : ∀ r ∈ rows, key r ≠ key row := by simpa using hfind
      exact nodup_map_concat.mpr ⟨h, hnew⟩
  · split
    · have hsame : (rows.map fun r => if key r = key row then row else r).map key =
          rows.map key := by
        rw [List.map_map]
        refine List.map_congr_left fun r _ => ?_
        by_cases hr : key r = key row <;> simp [hr]
      rwa [hsame]
    · exact h

theorem mem_of_mem_upsert (h : x ∈ upsert key better rows row) : x = row ∨ x ∈ rows := by
  unfold upsert at h
  split at h
  · simpa [or_comm] using h
  · split at h
    · obtain ⟨r, hr, rfl⟩ := List.mem_map.mp h
      split
      · exact .inl rfl
      · exact .inr hr
    · exact .inr h

section Represented

variable {R : α → α → Prop} (hrefl : ∀ x, R x x)
  (hbetter : ∀ row old, better row old = true → R old row)
  (hworse : ∀ row old, better row old = false → R row old)

include hrefl hbetter hworse

theorem exists_of_mem_upsert (hkeys : (rows.map key).Nodup) (hx : x ∈ rows ∨ x = row) :
    ∃ y ∈ upsert key better rows row, key y = key x ∧ R x y := by
  unfold upsert
  split
  · exact ⟨x, by simpa using hx, rfl, hrefl x⟩
  · next old hfind =>
      have hold : old ∈ rows := List.mem_of_find?_eq_some hfind
      have hkey : key old = key row := by simpa using List.find?_some hfind
      -- a row of the list with the key at hand is the old one
      have hsame : ∀ r ∈ rows, key r = key row → r = old := fun r hr h =>
        List.inj_on_of_nodup_map hkeys hr hold (h.trans hkey.symm)
      split
      · next hb =>
          by_cases h : key x = key row
          · refine ⟨row, List.mem_map.mpr ⟨old, hold, if_pos hkey⟩, h.symm, ?_⟩
            obtain hmem | rfl := hx
            · exact hsame x hmem h ▸ hbetter row old hb
            · exact hrefl x
          · have hmem : x ∈ rows := hx.resolve_right fun e => h (e ▸ rfl)
            exact ⟨x, List.mem_map.mpr ⟨x, hmem, if_neg h⟩, rfl, hrefl x⟩
      · next hb =>
          obtain hmem | rfl := hx
          · exact ⟨x, hmem, rfl, hrefl x⟩
          · exact ⟨old, hold, hkey, hworse x old (by simpa using hb)⟩

/-- A list kept by key has, for each row that came, one with its key that is no worse;
`R` says what that means. -/
theorem exists_of_mem_foldl_upsert (htrans : ∀ x y z, R x y → R y z → R x z) {new : List α}
    (hkeys : (rows.map key).Nodup) (hx : x ∈ rows ∨ x ∈ new) :
    ∃ y ∈ new.foldl (upsert key better) rows, key y = key x ∧ R x y := by
  induction new generalizing rows x with
  | nil => exact ⟨x, hx.resolve_right (by simp), rfl, hrefl x⟩
  | cons row rest ih =>
      rw [List.mem_cons, ← or_assoc] at hx
      obtain hmem | hrest := hx
      · obtain ⟨y, hy, hkey, hR⟩ := exists_of_mem_upsert hrefl hbetter hworse hkeys hmem
        obtain ⟨z, hz, hkey', hR'⟩ := ih (upsert_keys hkeys) (.inl hy)
        exact ⟨z, hz, hkey'.trans hkey, htrans x y z hR hR'⟩
      · exact ih (upsert_keys hkeys) (.inr hrest)

end Represented

theorem foldl_upsert_keys {new : List α} (h : (rows.map key).Nodup) :
    ((new.foldl (upsert key better) rows).map key).Nodup := by
  induction new generalizing rows with
  | nil => exact h
  | cons row rest ih => exact ih (upsert_keys h)

theorem mem_of_mem_foldl_upsert {new : List α} (h : x ∈ new.foldl (upsert key better) rows) :
    x ∈ rows ∨ x ∈ new := by
  induction new generalizing rows with
  | nil => exact .inl h
  | cons row rest ih =>
      obtain hmem | hrest := ih h
      · obtain rfl | hrows := mem_of_mem_upsert hmem
        · exact .inr List.mem_cons_self
        · exact .inl hrows
      · exact .inr (List.mem_cons_of_mem _ hrest)

end Upsert

end Zos.Lib
