import Zos.Photostaff.CaptureDate
import Zos.Proofs.TimestampOrder

/-!
# Capture times

A capture text with an offset is written back with that offset, so the texts of two photos are in
the order of their instants only if both were taken in UTC; and a text that is not RFC 3339 is
kept without being looked at, whatever it says. Both are right exactly for texts in UTC and for
texts that begin with a date and a time.
-/

namespace Zos.Photostaff

open Zos.Lib Zos.Time

/-- `YYYY-MM-DDTHH:MM:SS` of the calendar. -/
def IsWallClock (text : List Char) : Prop :=
  ∃ wall, (wallDate wall).1 ≤ 9999 ∧ text = wallText '-' 'T' wall

/-- A text in UTC for the instant that the value denotes. -/
def IsUtcOf (crate : TimeCrate) (value text : List Char) : Prop :=
  ∃ date utc, crate.parse (trimmed value) = some date ∧ utc.offsetMinutes = 0 ∧
    utc.instant = date.instant ∧ crate.format utc = some text

/-- The result for a value is normalised. -/
def Normalised (crate : TimeCrate) (value : List Char) : Prop :=
  ∀ date, parseCaptureDate crate value = some date →
    IsWallClock date.wallClock ∧ ∀ text, date.utc = some text → IsUtcOf crate value text

/-- Photos taken in different seconds have their texts in that order. -/
def InOrder (crate : TimeCrate) (value value' : List Char) : Prop :=
  ∀ date date' capture capture' text text', crate.parse (trimmed value) = some date →
    crate.parse (trimmed value') = some date' → parseCaptureDate crate value = some capture →
    parseCaptureDate crate value' = some capture' → capture.utc = some text →
    capture'.utc = some text' → date.instant < date'.instant → text < text'

/-- A date and a time with these separators stand at the beginning. -/
def BeginsWith (text : List Char) (dash separator : Char) : Prop :=
  ∃ wall, (wallDate wall).1 ≤ 9999 ∧ text.take 19 = wallText dash separator wall

/-- What a value has to be. -/
def Proper (crate : TimeCrate) (value : List Char) : Prop :=
  ∀ capture, parseCaptureDate crate value = some capture →
    match crate.parse (trimmed value) with
    | some date => ((crate.format date).isSome = true → date.offsetMinutes = 0) ∧
        (BeginsWith (trimmed value) '-' 'T' ∨ BeginsWith (trimmed value) '-' ' ')
    | none => ∃ dash separator, (dash = '-' ∨ dash = ':') ∧ (separator = 'T' ∨ separator = ' ') ∧
        BeginsWith (trimmed value) dash separator

/-! ## Texts of wall clocks -/

def datePart (dash : Char) (wall : Nat) : List Char :=
  decimal 4 (wallDate wall).1 ++ dash ::
    (decimal 2 (monthAndDay (wallDate wall).1 (wallDate wall).2).1 ++ dash ::
      decimal 2 ((monthAndDay (wallDate wall).1 (wallDate wall).2).2 + 1))

variable {dash separator : Char} {wall : Nat}

theorem wallText_eq : wallText dash separator wall =
    datePart dash wall ++ separator :: clockText (wall % secondsPerDay) := by
  simp [wallText, datePart]

theorem length_wallText : (wallText dash separator wall).length = 19 := by
  simp [wallText, clockText]

theorem wallDate_lt {wall wall' : Nat} (h : wall / secondsPerDay < wall' / secondsPerDay) :
    (wallDate wall).1 < (wallDate wall').1 ∨
      (wallDate wall).1 = (wallDate wall').1 ∧ (wallDate wall).2 < (wallDate wall').2 := by
  unfold wallDate
  rw [locate_fuel daysInYear_pos (Nat.le_refl _) h.le]
  exact locate_lt_locate _ 0 h

theorem wallText_lt {wall wall' : Nat} (h : wall < wall') (hyear : (wallDate wall').1 ≤ 9999) :
    wallText '-' 'T' wall < wallText '-' 'T' wall' := by
  have hmonth : (monthAndDay (wallDate wall').1 (wallDate wall').2).1 ≤ 12 :=
    monthAndDay_fst_le (locate_snd_lt daysInYear_pos (Nat.le_refl _) 0)
  have hday := monthAndDay_snd_lt (wallDate wall').1 (wallDate wall').2
  by_cases hdays : wall / secondsPerDay < wall' / secondsPerDay
  · simp only [wallText]
    refine decimal_append_lt (by omega) ?_
    rcases wallDate_lt hdays with hy | ⟨hy, hd⟩
    · exact .inl hy
    refine .inr ⟨hy, List.cons_lt_cons_iff.mpr (.inr ⟨rfl, ?_⟩)⟩
    rw [hy]
    refine decimal_append_lt (by omega) ?_
    rcases monthAndDay_lt (y := (wallDate wall').1) hd with hm | ⟨hm, hd⟩
    · exact .inl hm
    refine .inr ⟨hm, List.cons_lt_cons_iff.mpr (.inr ⟨rfl, ?_⟩)⟩
    exact decimal_append_lt (by omega) (.inl (by omega))
  · have hsame : wall / secondsPerDay = wall' / secondsPerDay :=
      Nat.le_antisymm (Nat.div_le_div_right h.le) (Nat.le_of_not_lt hdays)
    have hdate : wallDate wall = wallDate wall' := by rw [wallDate, hsame, wallDate]
    rw [wallText_eq, wallText_eq, datePart, datePart, hdate]
    refine List.append_left_lt (List.cons_lt_cons_iff.mpr (.inr ⟨rfl, clockText_lt ?_ ?_⟩))
    · have hwall := Nat.div_add_mod wall secondsPerDay
      have hwall' := Nat.div_add_mod wall' secondsPerDay
      rw [hsame] at hwall
      omega
    · exact Nat.mod_lt _ (by decide)

theorem utf8Len_append (s t : List Char) : utf8Len (s ++ t) = utf8Len s + utf8Len t := by
  simp [utf8Len]

theorem utf8Len_cons (c : Char) (t : List Char) : utf8Len (c :: t) = c.utf8Size + utf8Len t := by
  simp [utf8Len]

theorem utf8Len_decimal (w n : Nat) : utf8Len (decimal w n) = w := by
  have hone : ∀ digit < 10, (Nat.digitChar digit).utf8Size = 1 := by decide
  induction w generalizing n with
  | zero => rfl
  | succ w ih =>
      rw [decimal, utf8Len_append, ih, utf8Len_cons, hone _ (Nat.mod_lt _ (by decide))]
      rfl

theorem utf8Len_wallText (hdash : dash.utf8Size = 1) (hseparator : separator.utf8Size = 1) :
    utf8Len (wallText dash separator wall) = 19 := by
  have hcolon : (':' : Char).utf8Size = 1 := by decide
  simp only [wallText, clockText, utf8Len_append, utf8Len_cons, utf8Len_decimal, hdash,
    hseparator, hcolon]

/-! ## Reading a text -/

theorem spacesToT_of_notMem {s : List Char} (h : ' ' ∉ s) : spacesToT s = s := by
  conv_rhs => rw [← List.map_id s]
  refine List.map_congr_left fun c hc => if_neg ?_
  rintro rfl
  exact h hc

theorem eq_of_spacesToT {s t : List Char} (h : spacesToT s = t) (hT : 'T' ∉ t) : s = t := by
  rw [← h, spacesToT_of_notMem]
  intro hspace
  refine hT ?_
  rw [← h]
  exact List.mem_map.mpr ⟨' ', hspace, rfl⟩

/-- A character that is no digit and no separator is not in a date or a time. -/
theorem notMem_parts {c : Char} (hdigit : ¬ ('0' ≤ c ∧ c ≤ '9')) (hdash : c ≠ dash)
    (hcolon : c ≠ ':') :
    c ∉ datePart dash wall ∧ c ∉ clockText (wall % secondsPerDay) := by
  have hdecimal (w n : Nat) : c ∉ decimal w n := fun h => hdigit (mem_decimal h)
  simp [datePart, clockText, hdecimal, hdash, hcolon]

/-- Only a space or a `T` becomes the `T` between the date and the time. -/
theorem spacesToT_iff {s : List Char} (hdash : dash = '-' ∨ dash = ':') :
    spacesToT s = wallText dash 'T' wall ↔
      s = wallText dash 'T' wall ∨ s = wallText dash ' ' wall := by
  have hT : 'T' ∉ datePart dash wall ∧ 'T' ∉ clockText (wall % secondsPerDay) :=
    notMem_parts (by decide) (by rintro rfl; simp at hdash) (by decide)
  have hspace : ' ' ∉ datePart dash wall ∧ ' ' ∉ clockText (wall % secondsPerDay) :=
    notMem_parts (by decide) (by rintro rfl; simp at hdash) (by decide)
  simp only [wallText_eq]
  constructor
  · intro h
    obtain ⟨date, rest, rfl, hdate, hrest⟩ := List.map_eq_append_iff.mp h
    obtain ⟨c, clock, rfl, hc, hclock⟩ := List.map_eq_cons_iff.mp hrest
    rw [eq_of_spacesToT hdate hT.1, eq_of_spacesToT hclock hT.2]
    split at hc
    · next hblank => exact .inr (by rw [hblank])
    · exact .inl (by rw [hc])
  · have hkeep (c : Char) :
        spacesToT (datePart dash wall ++ c :: clockText (wall % secondsPerDay)) =
        datePart dash wall ++ (if c = ' ' then 'T' else c) :: clockText (wall % secondsPerDay) := by
      have happend : spacesToT (datePart dash wall ++ c :: clockText (wall % secondsPerDay)) =
          spacesToT (datePart dash wall) ++
            (if c = ' ' then 'T' else c) :: spacesToT (clockText (wall % secondsPerDay)) := by
        simp [spacesToT]
      rw [happend, spacesToT_of_notMem hspace.1, spacesToT_of_notMem hspace.2]
    rintro (rfl | rfl)
    · rw [hkeep, if_neg (by decide)]
    · rw [hkeep, if_pos rfl]

/-! ## Dashes -/

theorem set_wallText (dash dash' : Char) :
    ((wallText dash separator wall).set 4 dash').set 7 dash' = wallText dash' separator wall := by
  simp [wallText, decimal]

theorem getElem?_wallText :
    (wallText dash separator wall)[4]? = some dash ∧
      (wallText dash separator wall)[7]? = some dash := by
  simp [wallText, decimal]

theorem take_dashes (s : List Char) : (dashes s).take 19 = dashes (s.take 19) := by
  unfold dashes
  rw [List.getElem?_take_of_lt (by omega), List.getElem?_take_of_lt (by omega)]
  split
  · rw [List.take_set, List.take_set]
  · rfl

theorem dashes_iff {s : List Char} : dashes s = wallText '-' separator wall ↔
    s = wallText '-' separator wall ∨ s = wallText ':' separator wall := by
  constructor
  · intro h
    unfold dashes at h
    split at h
    · next hcolons =>
        refine .inr ?_
        have hself (i : Nat) (hi : s[i]? = some ':') : s.set i ':' = s := by
          obtain ⟨hlt, heq⟩ := List.getElem?_eq_some_iff.mp hi
          rw [← heq, List.set_getElem_self]
        have hback : (((s.set 4 '-').set 7 '-').set 4 ':').set 7 ':' = s := by
          rw [List.set_comm '-' ':' (by decide), List.set_set, List.set_set, hself 4 hcolons.1,
            hself 7 hcolons.2]
        rw [← hback, h, set_wallText]
    · exact .inl h
  · rintro (rfl | rfl)
    · rw [dashes, if_neg]
      rw [getElem?_wallText.1]
      simp
    · rw [dashes, if_pos getElem?_wallText, set_wallText]

/-! ## Single values -/

variable {crate : TimeCrate} {value : List Char}

/-- Two beginnings of a text with as many bytes are one. -/
theorem eq_of_utf8Len {s t text : List Char} (hs : s <+: text) (ht : t <+: text)
    (h : utf8Len s = utf8Len t) : s = t := by
  have hempty (rest : List Char) (hrest : utf8Len rest = 0) : rest = [] := by
    cases rest with
    | nil => rfl
    | cons c rest =>
        rw [utf8Len_cons] at hrest
        exact absurd c.utf8Size_pos (by omega)
  obtain ⟨rest, rfl⟩ | ⟨rest, rfl⟩ := List.prefix_or_prefix_of_prefix hs ht
  · rw [hempty rest (by rw [utf8Len_append] at h; omega), List.append_nil]
  · rw [hempty rest (by rw [utf8Len_append] at h; omega), List.append_nil]

/-- The first nineteen bytes and the first nineteen characters, if these are a date and a time. -/
theorem getBytes_wallText {text chars : List Char} (h : getBytes text 19 = some chars)
    (hseparator : separator = 'T' ∨ separator = ' ') :
    chars = wallText '-' separator wall ↔ text.take 19 = wallText '-' separator wall := by
  have hprefixed : chars <+: text := (List.mem_inits _ _).mp (List.mem_of_find?_eq_some h)
  have hbytes : utf8Len chars = 19 := by simpa using List.find?_some h
  have hsize : separator.utf8Size = 1 := by rcases hseparator with rfl | rfl <;> decide
  constructor
  · intro hchars
    rw [← hchars]
    have hlength : chars.length = 19 := by rw [hchars, length_wallText]
    rw [List.prefix_iff_eq_take.mp hprefixed, hlength]
  · intro htake
    rw [← htake]
    refine eq_of_utf8Len hprefixed (List.take_prefix _ _) ?_
    rw [hbytes, htake, utf8Len_wallText (by decide) hsize]

theorem isUtcOf_iff {date : OffsetDateTime} (hparse : crate.parse (trimmed value) = some date) :
    (∀ text, crate.format date = some text → IsUtcOf crate value text) ↔
      ((crate.format date).isSome = true → date.offsetMinutes = 0) := by
  constructor
  · intro h hsome
    obtain ⟨text, htext⟩ := Option.isSome_iff_exists.mp hsome
    obtain ⟨-, utc, -, hutc, -, hformat⟩ := h text htext
    exact (crate.zulu _ _ htext).mp ((crate.zulu _ _ hformat).mpr hutc)
  · intro h text htext
    exact ⟨date, date, hparse, h (Option.isSome_iff_exists.mpr ⟨text, htext⟩), rfl, htext⟩

/-- What is kept of a text that is not RFC 3339. -/
theorem isWallClock_kept_iff (text : List Char) :
    IsWallClock ((dashes (spacesToT text)).take 19) ↔ ∃ dash separator, (dash = '-' ∨ dash = ':') ∧
      (separator = 'T' ∨ separator = ' ') ∧ BeginsWith text dash separator := by
  have htake : (dashes (spacesToT text)).take 19 = dashes (spacesToT (text.take 19)) := by
    rw [take_dashes, spacesToT, spacesToT, List.map_take]
  rw [htake]
  constructor
  · rintro ⟨wall, hyear, h⟩
    rw [dashes_iff, spacesToT_iff (.inl rfl), spacesToT_iff (.inr rfl)] at h
    obtain (h | h) | (h | h) := h
    · exact ⟨'-', 'T', .inl rfl, .inl rfl, wall, hyear, h⟩
    · exact ⟨'-', ' ', .inl rfl, .inr rfl, wall, hyear, h⟩
    · exact ⟨':', 'T', .inr rfl, .inl rfl, wall, hyear, h⟩
    · exact ⟨':', ' ', .inr rfl, .inr rfl, wall, hyear, h⟩
  · rintro ⟨dash, separator, hdash, hseparator, wall, hyear, h⟩
    refine ⟨wall, hyear, ?_⟩
    rw [dashes_iff, spacesToT_iff (.inl rfl), spacesToT_iff (.inr rfl), h]
    rcases hdash with rfl | rfl <;> rcases hseparator with rfl | rfl <;> simp

theorem isWallClock_bytes_iff {text chars : List Char} (h : getBytes text 19 = some chars) :
    IsWallClock (spacesToT chars) ↔ BeginsWith text '-' 'T' ∨ BeginsWith text '-' ' ' := by
  simp only [IsWallClock, BeginsWith, spacesToT_iff (.inl rfl), getBytes_wallText h (.inl rfl),
    getBytes_wallText h (.inr rfl), and_or_left, exists_or]

theorem normalised_iff : Normalised crate value ↔ Proper crate value := by
  refine forall_congr' fun capture => forall_congr' fun hcapture => ?_
  unfold parseCaptureDate at hcapture
  cases hparse : crate.parse (trimmed value) with
  | none =>
      rw [hparse] at hcapture
      simp only [] at hcapture
      split at hcapture
      · cases hcapture
        exact (and_iff_left fun _ => nofun).trans (isWallClock_kept_iff _)
      · cases hcapture
  | some date =>
      rw [hparse] at hcapture
      cases hbytes : getBytes (trimmed value) 19 with
      | none =>
          rw [hbytes] at hcapture
          cases hcapture
      | some chars =>
          rw [hbytes] at hcapture
          cases hcapture
          rw [and_comm]
          exact and_congr (isUtcOf_iff hparse) (isWallClock_bytes_iff hbytes)

/-! ## Pairs of values -/

/-- A text that was parsed and formatted is in UTC. -/
theorem Proper.format {capture : CaptureDate} {text : List Char} {date : OffsetDateTime}
    (h : Proper crate value) (hparse : crate.parse (trimmed value) = some date)
    (hcapture : parseCaptureDate crate value = some capture) (hutc : capture.utc = some text) :
    date.offsetMinutes = 0 ∧ crate.format date = some text := by
  have hproper := h capture hcapture
  unfold parseCaptureDate at hcapture
  rw [hparse] at hproper hcapture
  cases hbytes : getBytes (trimmed value) 19 with
  | none =>
      rw [hbytes] at hcapture
      cases hcapture
  | some chars =>
      rw [hbytes] at hcapture
      cases hcapture
      exact ⟨hproper.1 (Option.isSome_iff_exists.mpr ⟨text, hutc⟩), hutc⟩

/-- Capture times are normalised and in order exactly for proper values. -/
theorem capture_times_normalised_iff (crate : TimeCrate)
    (value value' : List Char) :
    Normalised crate value ∧ Normalised crate value' ∧ InOrder crate value value' ↔
      Proper crate value ∧ Proper crate value' := by
  rw [normalised_iff, normalised_iff]
  refine ⟨fun h => ⟨h.1, h.2.1⟩, fun h => ⟨h.1, h.2, ?_⟩⟩
  intro date date' capture capture' text text' hparse hparse' hcapture hcapture' hutc hutc' hlt
  obtain ⟨hoffset, hformat⟩ := h.1.format hparse hcapture hutc
  obtain ⟨hoffset', hformat'⟩ := h.2.format hparse' hcapture' hutc'
  refine crate.ordered _ _ _ _ hformat hformat' ?_
  rw [OffsetDateTime.instant, OffsetDateTime.instant, hoffset, hoffset'] at hlt
  omega

/-! ## The formatter -/

/-- Only a text in UTC ends in `Z`. -/
theorem format_last {date : OffsetDateTime} {text : List Char} (h : date.format = some text) :
    text.getLast? = some 'Z' ↔ date.offsetMinutes = 0 := by
  have hdigit : ∀ digit < 10, Nat.digitChar digit ≠ 'Z' := by decide
  unfold OffsetDateTime.format at h
  split at h
  · cases h
    unfold offsetText
    split
    · next hzero => simp [hzero]
    · next hzero =>
        refine iff_of_false ?_ hzero
        simp [decimal, hdigit _ (Nat.mod_lt _ (by decide))]
  · cases h

theorem format_lt {date date' : OffsetDateTime} {text text' : List Char}
    (h : date.format = some text) (h' : date'.format = some text') (hlt : date.wall < date'.wall) :
    text < text' := by
  unfold OffsetDateTime.format at h h'
  split at h
  · split at h'
    · next hyear =>
        cases h
        cases h'
        exact append_lt_append_of_lt _ _ (by simp [length_wallText]) (wallText_lt hlt hyear)
    · cases h'
  · cases h

def rfc3339 (parse : List Char → Option OffsetDateTime) : TimeCrate where
  parse := parse
  format := OffsetDateTime.format
  zulu _ _ := format_last
  ordered _ _ _ _ := format_lt

/-- A crate that reads two texts. -/
def twoDays : TimeCrate := rfc3339 fun text =>
  if text = "2024-05-01T08:00:00Z".toList then some ⟨63881769600, 0, 0⟩
  else some ⟨63881856000, 0, 0⟩

theorem capture_times_normalised_days :
    Normalised twoDays "2024-05-01T08:00:00Z".toList ∧
      Normalised twoDays " 2024-05-02T08:00:00Z".toList ∧
      InOrder twoDays "2024-05-01T08:00:00Z".toList " 2024-05-02T08:00:00Z".toList := by
  have hparse (value : List Char) : ∃ date, twoDays.parse value = some date ∧
      date.offsetMinutes = 0 := by
    simp only [twoDays, rfc3339]
    split <;> exact ⟨_, rfl, rfl⟩
  refine (capture_times_normalised_iff twoDays _ _).mpr ⟨?_, ?_⟩
  · intro capture _
    obtain ⟨date, hdate, hzero⟩ := hparse (trimmed "2024-05-01T08:00:00Z".toList)
    rw [hdate]
    exact ⟨fun _ => hzero, .inl ⟨63881769600, by decide +kernel, by decide +kernel⟩⟩
  · intro capture _
    obtain ⟨date, hdate, hzero⟩ := hparse (trimmed " 2024-05-02T08:00:00Z".toList)
    rw [hdate]
    exact ⟨fun _ => hzero, .inl ⟨63881856000, by decide +kernel, by decide +kernel⟩⟩

/-- Ten in the morning, two hours east of Greenwich. -/
def eastern : OffsetDateTime := ⟨63881776800, 0, 120⟩

/-- It is written as it was read, not in UTC. -/
theorem capture_time_keeps_offset :
    eastern.format = some "2024-05-01T10:00:00+02:00".toList ∧ ∃ parse,
      parse "2024-05-01T10:00:00+02:00".toList = some eastern ∧
      ¬ Normalised (rfc3339 parse) "2024-05-01T10:00:00+02:00".toList := by
  have hformat : eastern.format = some "2024-05-01T10:00:00+02:00".toList := by decide +kernel
  refine ⟨hformat, fun _ => some eastern, rfl, fun h => ?_⟩
  rw [normalised_iff] at h
  have hcapture : parseCaptureDate (rfc3339 fun _ => some eastern)
      "2024-05-01T10:00:00+02:00".toList =
      some ⟨eastern.format, "2024-05-01T10:00:00".toList, some 120⟩ := by
    rw [hformat]
    decide +kernel
  have hzero := (h _ hcapture).1 (by simp only [rfc3339, hformat, Option.isSome_some])
  exact absurd hzero (by decide)

end Zos.Photostaff
