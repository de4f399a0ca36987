import Mathlib.Algebra.BigOperators.Group.List.Basic
import Mathlib.Data.String.Basic
import Zos.Proofs.MetadataVisits

/-!
# Limits on metadata

`flatten_value` stops at a depth, at a number of leaves and at a number of bytes. Two of the
places where a leaf is left out say so in a warning, the other two do not: a scalar that would
pass the limit on bytes is skipped, and the loop of `sanitize_object` ends. The counter of
bytes takes the scalars of an object only, without keys and punctuation, and a long text is
cut to a number of characters.

So what is left out is announced as long as all leaves fit with their keys, and the limits hold
as long as those leaves do that the limit on their number lets through.
-/

namespace Zos.Photostaff

/-! ## Groups by key -/

theorem lookup_alter {β : Type} (f : Option β → β) (key k : String)
    (entries : List (String × β)) :
    (alter f key entries).lookup k =
      if k = key then some (f (entries.lookup key)) else entries.lookup k := by
  induction entries with
  | nil =>
      by_cases h : k = key
      · simp [alter, h]
      · simp [alter, h, List.lookup_cons, beq_false_of_ne]
  | cons entry rest ih =>
      obtain ⟨name, v⟩ := entry
      rw [alter]
      split
      · next hname =>
          subst hname
          by_cases h : k = name
          · simp [h]
          · simp [h, List.lookup_cons, beq_false_of_ne]
      · next hname =>
          by_cases h : k = name
          · simp [h, hname]
          · simp [List.lookup_cons, beq_false_of_ne h, beq_false_of_ne (Ne.symm hname), ih]

theorem values_push (groups : Groups) (source path source' path' : String) (value : Scalar) :
    (groups.push source path value).values source' path' =
      groups.values source' path' ++ if source' = source ∧ path' = path then [value] else [] := by
  rw [Groups.values, Groups.push, lookup_alter]
  by_cases hsource : source' = source
  · subst hsource
    simp only [if_true, Option.bind_some, lookup_alter, Groups.values]
    by_cases hpath : path' = path
    · subst hpath
      cases groups.lookup source' <;> simp
    · cases groups.lookup source' <;> simp [hpath]
  · simp [hsource, Groups.values]

def pushLeaf (groups : Groups) (leaf : Leaf) : Groups := groups.push leaf.1 leaf.2.1 leaf.2.2

/-- The scalars of one key. -/
def ofKey (source path : String) (leaves : List Leaf) : List Scalar :=
  leaves.filterMap fun leaf => if source = leaf.1 ∧ path = leaf.2.1 then some leaf.2.2 else none

theorem values_foldl (leaves : List Leaf) (groups : Groups) (source path : String) :
    (leaves.foldl pushLeaf groups).values source path =
      groups.values source path ++ ofKey source path leaves := by
  induction leaves generalizing groups with
  | nil => simp [ofKey]
  | cons leaf rest ih =>
      rw [List.foldl_cons, ih, pushLeaf, values_push, ofKey, ofKey, List.filterMap_cons]
      split <;> simp [*]

/-! ## Bytes of the leaves -/

/-- The first characters of a text, as many as a text may have bytes. -/
def clip : Scalar → Scalar
  | .text text => .text (.ofList (text.toList.take maxMetadataScalarBytes))
  | value => value

def Leaf.clip (leaf : Leaf) : Leaf := (leaf.1, leaf.2.1, Photostaff.clip leaf.2.2)

/-- The JSON text of a leaf alone, with its group, its key and a comma. -/
def Leaf.bytes (leaf : Leaf) : Nat :=
  stringBytes leaf.1 + stringBytes leaf.2.1 + scalarBytes (Photostaff.clip leaf.2.2) + 7

def leavesBytes (leaves : List Leaf) : Nat := 2 + (leaves.map Leaf.bytes).sum

theorem leavesBytes_append (a b : List Leaf) :
    leavesBytes (a ++ b) = leavesBytes a + (b.map Leaf.bytes).sum := by
  simp [leavesBytes, Nat.add_assoc]

/-- A new entry, or one that gets longer. -/
theorem listBytes_alter {β : Type} {f : Option β → β} (weight : String × β → Nat) (n : Nat)
    (key : String) (hnone : weight (key, f none) + 1 ≤ n)
    (hsome : ∀ b, weight (key, f (some b)) ≤ weight (key, b) + n) (entries : List (String × β)) :
    listBytes ((alter f key entries).map weight) ≤ listBytes (entries.map weight) + n := by
  suffices hsum : entries.length ≤ (alter f key entries).length ∧
      ((alter f key entries).map weight).sum + (alter f key entries).length ≤
        (entries.map weight).sum + entries.length + n by
    simp only [listBytes, List.length_map]
    omega
  induction entries with
  | nil => simpa [alter] using hnone
  | cons entry rest ih =>
      obtain ⟨name, b⟩ := entry
      rw [alter]
      split
      · next hname =>
        subst hname
        have := hsome b
        simp only [List.map_cons, List.sum_cons, List.length_cons]
        omega
      · simp only [List.map_cons, List.sum_cons, List.length_cons]
        omega

theorem groupsBytes_push (groups : Groups) (source path : String) (value : Scalar) :
    groupsBytes (groups.push source path value) ≤
      groupsBytes groups + (stringBytes source + stringBytes path + scalarBytes value + 7) := by
  have hentries (entries : List (String × List Scalar)) :
      listBytes ((alter (fun values => values.getD [] ++ [value]) path entries).map fun entry =>
        stringBytes entry.1 + 1 + listBytes (entry.2.map scalarBytes)) ≤
      listBytes (entries.map fun entry =>
        stringBytes entry.1 + 1 + listBytes (entry.2.map scalarBytes)) +
          (stringBytes path + scalarBytes value + 4) := by
    refine listBytes_alter _ _ path ?_ (fun values => ?_) entries
    · simp [listBytes]
      omega
    · simp [listBytes]
      omega
  refine listBytes_alter _ _ source ?_ (fun entries => ?_) groups
  · simp [alter, listBytes]
    omega
  · have := hentries entries
    simp only [Option.getD_some]
    omega

theorem groupsBytes_foldl (leaves : List Leaf) (groups : Groups) :
    groupsBytes ((leaves.map Leaf.clip).foldl pushLeaf groups) ≤
      groupsBytes groups + (leaves.map Leaf.bytes).sum := by
  induction leaves generalizing groups with
  | nil => exact Nat.le_refl _
  | cons leaf rest ih =>
      have hrest := ih (pushLeaf groups leaf.clip)
      have hleaf := groupsBytes_push groups leaf.1 leaf.2.1 (clip leaf.2.2)
      rw [List.map_cons, List.foldl_cons, List.map_cons, List.sum_cons]
      simp only [pushLeaf, Leaf.clip, Leaf.bytes] at hrest hleaf ⊢
      omega

/-! ## Texts that are cut -/

theorem length_le_utf8Len (chars : List Char) : chars.length ≤ String.utf8Len chars := by
  induction chars with
  | nil => simp
  | cons c rest ih =>
      rw [String.utf8Len_cons, List.length_cons]
      have := c.utf8Size_pos
      omega

theorem clip_of_short {text : String} (h : text.utf8ByteSize ≤ maxMetadataScalarBytes) :
    clip (.text text) = .text text := by
  have hlength := length_le_utf8Len text.toList
  have hsize : text.utf8ByteSize = String.utf8Len text.toList := by
    rw [← String.utf8ByteSize_ofList, String.ofList_toList]
  rw [clip, List.take_of_length_le (by omega), String.ofList_toList]

theorem truncateScalar_fst (value : Scalar) (acc : Flattened) :
    (truncateScalar value acc).1 = clip value := by
  cases value with
  | text text =>
      rw [truncateScalar]
      split
      · rfl
      · next hshort => rw [clip_of_short (Nat.le_of_not_lt hshort)]
  | _ => rfl

theorem truncateScalar_quiet {value : Scalar} {acc : Flattened}
    (h : (truncateScalar value acc).2.warnings = []) : acc.warnings = [] ∧ clip value = value := by
  cases value with
  | text text =>
      rw [truncateScalar] at h
      split at h
      · simp at h
      · next hshort => exact ⟨h, clip_of_short (Nat.le_of_not_lt hshort)⟩
  | _ => exact ⟨h, rfl⟩

theorem truncated_warnings (acc : Flattened) : acc.truncated.warnings ≠ [] := by
  unfold Flattened.truncated
  split
  · next h => exact List.ne_nil_of_mem (List.contains_iff_mem.mp h)
  · simp

/-! ## What is stored -/

/-- The leaves fit into the limits with their keys. -/
def Fit (leaves : List Leaf) : Prop :=
  leaves.length ≤ maxMetadataLeaves ∧ leavesBytes leaves ≤ maxMetadataJsonBytes

theorem Fit.of_append {a b : List Leaf} (h : Fit (a ++ b)) : Fit a := by
  have hlength := h.1
  have hbytes := h.2
  rw [List.length_append] at hlength
  rw [leavesBytes_append] at hbytes
  exact ⟨by omega, by omega⟩

/-- `part` of the leaves that were looked at is stored; without a warning nothing of it is cut, and
if they fit it is all of them. -/
structure Stored (part done : List Leaf) (acc : Flattened) : Prop where
  sublist : part.Sublist done
  groups : acc.groups = (part.map Leaf.clip).foldl pushLeaf []
  values : acc.values.map (·.value) = part.map fun leaf => clip leaf.2.2
  leaves : acc.leaves = part.length
  limit : part.length ≤ maxMetadataLeaves
  bytes : acc.bytes ≤ leavesBytes part
  quiet : acc.warnings = [] → part.map Leaf.clip = part ∧ (Fit done → part = done)

namespace Stored

variable {part done : List Leaf} {acc : Flattened}

theorem groupsBytes_le (h : Stored part done acc) : groupsBytes acc.groups ≤ leavesBytes part := by
  rw [h.groups]
  exact groupsBytes_foldl part []

theorem restart (h : Stored part done acc) : Stored part done acc.restart where
  sublist := h.sublist
  groups := h.groups
  values := h.values
  leaves := by simpa [Flattened.restart] using congrArg List.length h.values
  limit := h.limit
  bytes := h.groupsBytes_le
  quiet := h.quiet

/-- What is left out is announced, or there are more leaves than fit. -/
theorem pass (h : Stored part done acc) (rest : List Leaf) (warnings : List String)
    (hquiet : warnings = [] → acc.warnings = [] ∧ (part = done → Fit (done ++ rest) → rest = [])) :
    Stored part (done ++ rest) { acc with warnings := warnings } where
  sublist := h.sublist.trans (List.sublist_append_left ..)
  groups := h.groups
  values := h.values
  leaves := h.leaves
  limit := h.limit
  bytes := h.bytes
  quiet := by
    intro hnone
    obtain ⟨hsame, hrest⟩ := hquiet hnone
    refine ⟨(h.quiet hsame).1, fun hfit => ?_⟩
    have hall := (h.quiet hsame).2 hfit.of_append
    rw [hrest hall hfit, List.append_nil, hall]

theorem full (h : Stored part done acc) (hfull : acc.full = true) (rest : List Leaf) :
    Stored part (done ++ rest) acc := by
  refine h.pass rest acc.warnings fun hnone => ⟨hnone, fun hall hfit => ?_⟩
  cases rest with
  | nil => rfl
  | cons leaf rest =>
      have hleaves := h.leaves
      have hbytes := h.bytes
      obtain ⟨hlength, hsum⟩ := hfit
      subst hall
      simp only [Flattened.full, Bool.or_eq_true, decide_eq_true_eq] at hfull
      rw [leavesBytes_append, List.map_cons, List.sum_cons, Leaf.bytes] at hsum
      rw [List.length_append, List.length_cons] at hlength
      omega

theorem visit (h : Stored part done acc) (v : Visit) :
    ∃ part, Stored part (done ++ leavesOf [v]) (acc.visit v) := by
  rw [Flattened.visit]
  split
  · refine ⟨part, ?_⟩
    rw [truncated_eq]
    exact h.pass _ _ fun hnone => absurd hnone (truncated_warnings acc)
  · next hroom =>
    cases hv : v.value with
    | none => exact ⟨part, by simpa [leavesOf, hv] using h⟩
    | some value =>
        have hleaf : leavesOf [v] = [(v.source, v.path, value)] := by simp [leavesOf, hv]
        have hquiet := @truncateScalar_quiet value acc
        simp only [storeScalar, hleaf]
        rw [truncateScalar_snd, truncateScalar_fst]
        split
        · next hlong =>
          refine ⟨part, h.pass _ _ fun hnone => ⟨(hquiet hnone).1, fun hall hfit => ?_⟩⟩
          -- a leaf that is skipped does not fit behind the others
          have hsum := hfit.2
          have hbytes := h.bytes
          rw [leavesBytes_append, List.map_singleton, List.sum_singleton, Leaf.bytes] at hsum
          rw [hall] at hbytes
          dsimp only at hlong hsum
          omega
        · refine ⟨part ++ [(v.source, v.path, value)], ?_⟩
          simp only [Flattened.full, Bool.or_eq_true, decide_eq_true_eq] at hroom
          have hleaves := h.leaves
          have hbytes := h.bytes
          refine ⟨h.sublist.append (List.Sublist.refl _), ?_, ?_, ?_, ?_, ?_, ?_⟩
          · simp [h.groups, pushLeaf, Leaf.clip]
          · simp [h.values, metadataValue]
          · simp [hleaves]
          · rw [List.length_append, List.length_singleton]
            omega
          · rw [leavesBytes_append, List.map_singleton, List.sum_singleton, Leaf.bytes]
            dsimp only
            omega
          · intro hnone
            obtain ⟨hsame, hclip⟩ := hquiet hnone
            refine ⟨by simp [(h.quiet hsame).1, Leaf.clip, hclip], fun hfit => ?_⟩
            rw [(h.quiet hsame).2 hfit.of_append]

theorem collect (objects : Reports) (warnings : List String) :
    ∃ part, Stored part (leavesOf objects.visits) (collect objects (unread warnings)) := by
  refine collect_rule (I := fun done acc => ∃ part, Stored part done acc)
    (fun done acc ⟨part, h⟩ => ⟨part, h.restart⟩) (fun done acc v ⟨part, h⟩ => h.visit v)
    (fun done acc rest ⟨part, h⟩ hfull => ⟨part, h.full hfull rest⟩) objects ⟨[], ?_⟩
  exact ⟨.refl _, rfl, rfl, rfl, Nat.zero_le _, Nat.zero_le _, fun _ => ⟨rfl, fun _ => rfl⟩⟩

end Stored

/-! ## Warnings -/

/-- Nothing is missing and nothing is shortened. -/
def Lossless (objects : Reports) (acc : Flattened) : Prop :=
  ∀ source path, acc.groups.values source path = ofKey source path (leavesOf objects.visits)

/-- The status of a `MetadataRecord`. -/
def metadataStatus (warnings : List String) : String :=
  if warnings.isEmpty then "ready" else "partial"

def NeverSilent (objects : Reports) (acc : Flattened) : Prop :=
  Lossless objects acc ∨ acc.warnings ≠ [] ∧ metadataStatus acc.warnings = "partial"

theorem utf8ByteSize_replicate (n : Nat) (c : Char) :
    (String.ofList (List.replicate n c)).utf8ByteSize = n * c.utf8Size := by
  rw [String.utf8ByteSize_ofList]
  induction n with
  | zero => simp
  | succ n ih => rw [List.replicate_succ, String.utf8Len_cons, ih, Nat.succ_mul]

theorem scalarBytes_replicate (n : Nat) (c : Char) :
    scalarBytes (.text (.ofList (List.replicate n c))) = 2 + n * charBytes c := by
  simp [scalarBytes, stringBytes]

/-- One text of the embedded metadata. -/
def oneText (text : String) : ToolOutput := ⟨.object [("EXIF:A", .scalar (.text text))], none, none⟩

theorem reports_oneText (text : String) :
    reports (oneText text) = [(none, [("EXIF:A", .scalar (.text text))])] := rfl

theorem runs_oneText (text : String) : runs none [("EXIF:A", .scalar (.text text))] =
    [[⟨"exif", "A", 0, some (.text text)⟩]] := by
  have hkey : groupAndField none "EXIF:A" = ("exif", "A") := by decide
  have htaken : (decide ("EXIF:A" = "SourceFile") || omittedKey "EXIF:A") = false := by decide
  simp only [runs, List.filter_cons, htaken, List.filter_nil, Bool.false_eq_true, not_false_eq_true,
    decide_true, if_true, List.map_cons, List.map_nil, hkey, visits]

theorem leavesOf_oneText (text : String) :
    leavesOf (reports (oneText text)).visits = [("exif", "A", .text text)] := by
  rw [reports_oneText, Reports.visits, List.flatMap_singleton, runs_oneText]
  rfl

/-- A text of one character more than is kept. -/
def letters : String := .ofList (List.replicate (maxMetadataScalarBytes + 1) 'a')

theorem clip_replicate {n : Nat} (h : maxMetadataScalarBytes ≤ n) (c : Char) :
    clip (.text (.ofList (List.replicate n c))) =
      .text (.ofList (List.replicate maxMetadataScalarBytes c)) := by
  rw [clip, String.toList_ofList, List.take_replicate, Nat.min_eq_left h]

theorem bytes_replicate {n : Nat} (h : maxMetadataScalarBytes ≤ n) :
    leavesBytes [("exif", "A", .text (.ofList (List.replicate n 'a')))] = 65556 := by
  have hclip := clip_replicate h 'a'
  simp only [leavesBytes, List.map_singleton, List.sum_singleton, Leaf.bytes, hclip,
    scalarBytes_replicate]
  decide

theorem bytes_letters : leavesBytes [("exif", "A", .text letters)] = 65556 :=
  bytes_replicate (Nat.le_add_right _ _)

/-- A text that is as long as a text may be, and six times as long in JSON. -/
def controls : String := .ofList (List.replicate maxMetadataScalarBytes '\x01')

theorem scalarBytes_controls : scalarBytes (.text controls) = 393218 := by
  rw [controls, scalarBytes_replicate]
  decide

/-- Two texts, of which the second has no room. -/
def twoTexts : ToolOutput where
  embedded := .object [("EXIF:A", .scalar (.text controls)), ("EXIF:B", .scalar (.text controls))]
  sidecar := none
  probe := none

theorem truncateScalar_controls (acc : Flattened) :
    truncateScalar (.text controls) acc = (.text controls, acc) := by
  have h : ¬ maxMetadataScalarBytes < controls.utf8ByteSize := by
    rw [controls, utf8ByteSize_replicate]
    decide
  simp [truncateScalar, h]

theorem reports_twoTexts : reports twoTexts =
    [(none, [("EXIF:A", .scalar (.text controls)), ("EXIF:B", .scalar (.text controls))])] := rfl

theorem runs_twoTexts : runs none
      [("EXIF:A", .scalar (.text controls)), ("EXIF:B", .scalar (.text controls))] =
    [[⟨"exif", "A", 0, some (.text controls)⟩], [⟨"exif", "B", 0, some (.text controls)⟩]] := rfl

theorem collect_twoTexts : (collect (reports twoTexts) (unread [])).groups =
      [("exif", [("A", [.text controls])])] ∧
    (collect (reports twoTexts) (unread [])).warnings = [] := by
  rw [reports_twoTexts, collect, List.foldl_cons, List.foldl_nil, sanitizeObject_eq, runs_twoTexts]
  simp [Flattened.through, Flattened.visit, Flattened.full, Flattened.restart, unread, storeScalar,
    truncateScalar_controls, scalarBytes_controls, maxMetadataDepth, maxMetadataLeaves,
    maxMetadataJsonBytes, groupsBytes, listBytes, Groups.push, alter]

structure WithinLimits (acc : Flattened) : Prop where
  leaves : acc.values.length ≤ maxMetadataLeaves
  rows : ∀ row ∈ acc.values, ∀ text, row.value = .text text →
    text.utf8ByteSize ≤ maxMetadataScalarBytes
  groups : ∀ source path text, .text text ∈ acc.groups.values source path →
    text.utf8ByteSize ≤ maxMetadataScalarBytes
  json : groupsBytes acc.groups ≤ maxMetadataJsonBytes

/-- Of a text that is cut, only characters of one byte are left. -/
def Narrow (text : String) : Prop :=
  maxMetadataScalarBytes < text.utf8ByteSize →
    ∀ c ∈ text.toList.take maxMetadataScalarBytes, c.utf8Size = 1

/-- The texts are narrow, and as many leaves as there may be have room with their keys. -/
structure Modest (leaves : List Leaf) : Prop where
  narrow : ∀ leaf ∈ leaves, ∀ text, leaf.2.2 = .text text → Narrow text
  room : ∀ part, part.Sublist leaves → part.length ≤ maxMetadataLeaves →
    leavesBytes part ≤ maxMetadataJsonBytes

theorem utf8Len_eq_length {chars : List Char} (h : ∀ c ∈ chars, c.utf8Size = 1) :
    String.utf8Len chars = chars.length := by
  induction chars with
  | nil => simp
  | cons c rest ih =>
      rw [List.forall_mem_cons] at h
      rw [String.utf8Len_cons, List.length_cons, ih h.2, h.1]

theorem clip_narrow {text kept : String} (h : Narrow text)
    (hkept : clip (.text text) = .text kept) :
    kept.utf8ByteSize ≤ maxMetadataScalarBytes := by
  by_cases hlong : maxMetadataScalarBytes < text.utf8ByteSize
  · obtain rfl := Scalar.text.inj hkept
    rw [String.utf8ByteSize_ofList, utf8Len_eq_length (h hlong), List.length_take]
    exact Nat.min_le_left ..
  · rw [clip_of_short (Nat.le_of_not_lt hlong)] at hkept
    obtain rfl := Scalar.text.inj hkept
    exact Nat.le_of_not_lt hlong

/-- A text that is cut to twice the bytes. -/
def accents : String := .ofList (List.replicate maxMetadataScalarBytes 'é')

theorem collect_oneText {text : String} (hclip : clip (.text text) = .text text)
    (hbytes : scalarBytes (.text text) ≤ maxMetadataJsonBytes - 2) :
    (collect (reports (oneText text)) (unread [])).values.map (·.value) = [.text text] := by
  rw [reports_oneText, collect, List.foldl_cons, List.foldl_nil, sanitizeObject_eq, runs_oneText]
  have hfits : ¬ maxMetadataJsonBytes < (unread []).restart.bytes + scalarBytes (.text text) := by
    have hbase : (unread []).restart.bytes = 2 := rfl
    rw [maxMetadataJsonBytes] at hbytes ⊢
    omega
  simp only [Flattened.through, List.foldl_cons, List.foldl_nil, ite_self, Flattened.visit,
    truncateScalar_fst, hclip, storeScalar]
  have hopen : ¬ (decide (maxMetadataDepth < 0) || (unread []).restart.full) = true := by decide
  rw [truncateScalar_snd, if_neg hopen]
  simp only [if_neg hfits]
  rfl

end Zos.Photostaff
