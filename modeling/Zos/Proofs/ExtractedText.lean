import Zos.Indexer.Extractor
import Zos.Lib.Fallible

/-!
# Extracted text and its limit

Texts that are built up character by character or term by term stay within the limit, and so does
what is decompressed. Bytes that are cut first and decoded afterwards may grow: whether they still
fit is decided by the parts of them that are no characters, such as a character that the cut went
through.
-/

namespace Zos.Indexer.Extractor

open Zos.Lib Zos.Indexer.SearchTerms

theorem byteLength_append (a b : Text) : byteLength (a ++ b) = byteLength a + byteLength b :=
  Utf8.byteCount_append a b

theorem byteLength_decode (bytes : Bytes) :
    byteLength (Utf8.decode bytes) = bytes.length + Utf8.growth bytes :=
  Utf8.byteCount_decode bytes

/-! ## Texts that are built up -/

theorem pushTerm_le {limit : Nat} {output : Text} (h : byteLength output ≤ limit) (term : Text) :
    byteLength (pushTerm limit output term) ≤ limit := by
  unfold pushTerm
  generalize (if output = [] then 0 else 1) = separator
  split
  · exact h
  · dsimp only
    split
    · exact h
    · next hroom =>
        split
        · next hseparator =>
            rw [byteLength_append, show byteLength (' ' :: term) = 1 + byteLength term from rfl]
            omega
        · rw [byteLength_append]
          omega

theorem pushTerms_le {limit : Nat} {output : Text} (h : byteLength output ≤ limit)
    (terms : List Text) : byteLength (terms.foldl (pushTerm limit) output) ≤ limit := by
  induction terms generalizing output with
  | nil => exact h
  | cons term terms ih => exact ih (pushTerm_le h term)

theorem pushTokens_le {limit : Nat} {output : Text} (h : byteLength output ≤ limit)
    (tokens : List Text) : byteLength (pushTokens limit output tokens) ≤ limit := by
  induction tokens generalizing output with
  | nil => exact h
  | cons token tokens ih =>
      have hterms := pushTerms_le h (termsOf token)
      rw [pushTokens]
      split
      · exact hterms
      · exact ih hterms

section

variable {u : Unicode} {xml : Bytes → List XmlEvent} {limit : Nat}

theorem normalizedTerms_le (body : Text) : byteLength (normalizedTerms u body limit) ≤ limit :=
  pushTokens_le (Nat.zero_le limit) _

theorem pushChars_le {output : Text} (h : byteLength output ≤ limit) (text : Text) :
    byteLength (pushChars limit output text) ≤ limit := by
  induction text generalizing output with
  | nil => exact h
  | cons c text ih =>
      rw [pushChars]
      split
      · exact h
      · refine ih ?_
        rw [byteLength_append, show byteLength [c] = c.utf8Size from rfl]
        omega

theorem appendLimited_le {output : Text} (h : byteLength output ≤ limit) (text : Text) :
    byteLength (appendLimited u output text limit) ≤ limit := by
  rw [appendLimited]
  split
  · exact h
  · next hroom =>
      rw [not_or] at hroom
      refine pushChars_le ?_ text
      split
      · exact h
      · rw [byteLength_append, show byteLength [' '] = 1 from rfl]
        omega

theorem extractXmlText_le {output final : Text} {cells cells' : Nat} {events : List XmlEvent}
    (h : byteLength output ≤ limit)
    (hrun : extractXmlText u limit output cells events = .ok (final, cells')) :
    byteLength final ≤ limit := by
  induction events generalizing output cells with
  | nil =>
      cases hrun
      exact h
  | cons event events ih =>
      cases event with
      | start name =>
          rw [extractXmlText] at hrun
          split at hrun
          · split at hrun
            · cases hrun
            · exact ih h hrun
          · exact ih h hrun
      | text content =>
          cases content with
          | error message => cases hrun
          | ok text =>
              have happended := @appendLimited_le u limit output h text
              rw [extractXmlText] at hrun
              split at hrun
              · cases hrun
                exact happended
              · exact ih happended hrun
      | other => exact ih h hrun
      | error message => cases hrun

/-- What the reading of an archive keeps. -/
structure ArchiveWithin (limit : Nat) (output : Text) (read : List Bytes) : Prop where
  output : byteLength output ≤ limit
  read : ∀ bytes ∈ read, bytes.length ≤ selectedEntryLimit limit + 1

theorem readEntries_within {output final : Text} {cells : Nat} {read all : List Bytes}
    {entries : List Entry} (h : ArchiveWithin limit output read)
    (hrun : readEntries u xml limit output cells read entries = .ok (final, all)) :
    ArchiveWithin limit final all := by
  induction entries generalizing output cells read with
  | nil =>
      cases hrun
      exact h
  | cons entry entries ih =>
      rw [readEntries] at hrun
      split at hrun
      · cases hrun
      · next content hcontent =>
          dsimp only at hrun
          split at hrun
          · cases hrun
          · next output' cells' hxml =>
              have hnext : ArchiveWithin limit output'
                  (read ++ [content.take (selectedEntryLimit limit + 1)]) := by
                refine ⟨extractXmlText_le h.output hxml, ?_⟩
                intro bytes hbytes
                rcases List.mem_append.mp hbytes with hbytes | hbytes
                · exact h.read bytes hbytes
                · rw [List.mem_singleton.mp hbytes]
                  exact List.length_take_le ..
              split at hrun
              · cases hrun
                exact hnext
              · exact ih hnext hrun

theorem extractOoxml_within {archive : Except String (List (Except String Entry))}
    {office : Office} {sourceLimit : Nat} {text : Text} {read : List Bytes}
    (h : extractOoxml u xml archive office sourceLimit limit = .ok (text, read)) :
    ArchiveWithin limit text read := by
  unfold extractOoxml at h
  split at h
  · cases h
  · split at h
    · cases h
    · obtain ⟨selected, _, hread⟩ := bind_ok_iff.mp h
      have hstart : ArchiveWithin limit [] [] := ⟨Nat.zero_le limit, nofun⟩
      exact readEntries_within hstart hread

/-! ## Bytes that are decoded -/

theorem byteLength_eq_zero {text : Text} : byteLength text = 0 ↔ text = [] := by
  cases text with
  | nil => exact iff_of_true rfl rfl
  | cons c text =>
      have hsize := c.utf8Size_pos
      rw [show byteLength (c :: text) = c.utf8Size + byteLength text from rfl]
      exact iff_of_false (by omega) (List.cons_ne_nil _ _)

theorem readAsyncLimited_eq {output : LimitedOutput} (h : output.bytes.length ≤ limit)
    (reads : List Bytes) :
    let written := output.bytes ++ (reads.takeWhile (· ≠ [])).flatten
    readAsyncLimited limit output reads =
      ⟨written.take limit, output.overflow || decide (limit < written.length)⟩ := by
  induction reads generalizing output with
  | nil =>
      have hoverflow : ¬ limit < output.bytes.length := Nat.not_lt_of_le h
      simp [readAsyncLimited, List.take_of_length_le h, hoverflow]
  | cons read reads ih =>
      by_cases hread : read = []
      · have hoverflow : ¬ limit < output.bytes.length := Nat.not_lt_of_le h
        simp [readAsyncLimited, hread, List.take_of_length_le h, hoverflow]
      have hlength : read.length ≠ 0 := fun h => hread (List.length_eq_zero_iff.mp h)
      rw [readAsyncLimited, if_neg hlength, List.takeWhile_cons_of_pos (by simpa using hread),
        List.flatten_cons]
      generalize (reads.takeWhile (· ≠ [])).flatten = rest at ih ⊢
      dsimp only at ih ⊢
      rw [ih (by simp only [List.length_append, List.length_take]; omega)]
      by_cases hfits : output.bytes.length + read.length ≤ limit
      · have hall : min read.length (limit - output.bytes.length) = read.length := by omega
        simp [hall]
      · -- the rest of the read is dropped, and with it all that comes later
        have hlost : limit - output.bytes.length < read.length := by omega
        have hlong : limit < output.bytes.length + (read.length + rest.length) := by omega
        simp [hlost, hlong, List.take_append, Nat.sub_eq_zero_of_le, Nat.le_of_lt hlost]

theorem runCommandWithInput_ok {program : String} {run : ToolRun} {bytes : Bytes} :
    runCommandWithInput program limit run = .ok bytes ↔
      run.Wrote bytes ∧ bytes.length ≤ limit := by
  cases run with
  | exited success stdout stderr =>
      rw [runCommandWithInput, ToolRun.exit]
      simp only [bind, Except.bind]
      rw [readAsyncLimited_eq (Nat.zero_le _)]
      simp only [List.nil_append, Bool.false_or, decide_eq_true_eq]
      split
      · next hlong =>
        refine iff_of_false nofun fun ⟨⟨_, _, h, hwritten⟩, hle⟩ => ?_
        cases h
        rw [hwritten] at hlong
        omega
      · next hle =>
        rw [List.take_of_length_le (Nat.le_of_not_lt hle)]
        cases success with
        | false => exact iff_of_false nofun fun ⟨⟨_, _, h, _⟩, _⟩ => nomatch h
        | true =>
            constructor
            · intro h
              cases h
              exact ⟨⟨stdout, stderr, rfl, rfl⟩, Nat.le_of_not_lt hle⟩
            · rintro ⟨⟨_, _, h, rfl⟩, -⟩
              cases h
              rfl
  | _ => exact iff_of_false nofun fun ⟨⟨_, _, h, _⟩, _⟩ => nomatch h

theorem runCommandWithoutOutput_ok {program : String} {run : ToolRun} :
    runCommandWithoutOutput program run = .ok () ↔ ∃ printed, run.Wrote printed := by
  cases run with
  | exited success stdout stderr =>
      cases success with
      | false => exact iff_of_false nofun fun ⟨_, _, _, h, _⟩ => nomatch h
      | true => exact iff_of_true rfl ⟨_, stdout, stderr, rfl, rfl⟩
  | _ => exact iff_of_false nofun fun ⟨_, _, _, h, _⟩ => nomatch h

/-- A text with the line break before the next page. -/
theorem byteLength_break {text : Text} (h : byteLength text ≤ limit)
    (hroom : ¬(text ≠ [] ∧ limit ≤ byteLength text)) :
    byteLength (if text = [] then text else text ++ ['\n']) ≤ limit := by
  split
  · exact h
  · next hne =>
      have hlt : ¬limit ≤ byteLength text := fun hle => hroom ⟨hne, hle⟩
      rw [byteLength_append, show byteLength ['\n'] = 1 from rfl]
      omega

/-- A page after which the text is too long. -/
theorem ocrPages_full {text : Text} {pages : List Page} (h : limit < byteLength text) :
    (∀ final, ocrPages limit text pages = .ok final → byteLength final ≤ limit) ↔
      ∃ error rest, pages = .error error :: rest := by
  have hne : text ≠ [] := fun hnil => by
    rw [hnil] at h
    exact absurd h (Nat.not_lt_zero limit)
  have hnot : ¬ byteLength text ≤ limit := Nat.not_le_of_lt h
  cases pages with
  | nil => exact iff_of_false (fun hall => hnot (hall text rfl)) nofun
  | cons page pages =>
      cases page with
      | error error => exact iff_of_true nofun ⟨error, pages, rfl⟩
      | ok run =>
          have hstop : ocrPages limit text (.ok run :: pages) = .ok text := by
            rw [ocrPages, if_pos ⟨hne, Nat.le_of_lt h⟩]
          exact iff_of_false (fun hall => hnot (hall text hstop)) nofun

theorem ocrPages_le_iff {text : Text} {pages : List Page} (h : byteLength text ≤ limit) :
    (∀ final, ocrPages limit text pages = .ok final → byteLength final ≤ limit) ↔
      PagesFit limit (byteLength text) pages := by
  have hstop {text : Text} (h : byteLength text ≤ limit) {r : Except IndexerError Text}
      (hr : r = .ok text) : ∀ final, r = .ok final → byteLength final ≤ limit := by
    rintro final hfinal
    cases hr.symm.trans hfinal
    exact h
  induction pages generalizing text with
  | nil => exact iff_of_true (hstop h rfl) trivial
  | cons page pages ih =>
      cases page with
      | error error => exact iff_of_true nofun trivial
      | ok run =>
          rw [ocrPages, PagesFit]
          by_cases hfull : text ≠ [] ∧ limit ≤ byteLength text
          · rw [if_pos hfull]
            refine iff_of_true (hstop h rfl) fun hlt => ?_
            rw [if_neg (byteLength_eq_zero.not.mpr hfull.1)] at hlt
            omega
          rw [if_neg hfull]
          have hbreak := byteLength_break h hfull
          have hused : (if byteLength text = 0 then 0 else byteLength text + 1) =
              byteLength (if text = [] then text else text ++ ['\n']) := by
            by_cases hnil : text = []
            · rw [if_pos (byteLength_eq_zero.mpr hnil), if_pos hnil, byteLength_eq_zero.mpr hnil]
            · rw [if_neg (byteLength_eq_zero.not.mpr hnil), if_neg hnil, byteLength_append]
              rfl
          dsimp only
          rw [hused]
          generalize (if text = [] then text else text ++ ['\n']) = text at hbreak
          by_cases hroom : limit - byteLength text = 0
          · rw [if_pos hroom]
            exact iff_of_true (hstop hbreak rfl) fun hlt => by omega
          rw [if_neg hroom]
          cases hrun : runCommandWithInput "tesseract" (limit - byteLength text) run with
          | error error =>
              refine iff_of_true nofun fun _ written hwritten hle => ?_
              cases hrun.symm.trans (runCommandWithInput_ok.mpr ⟨hwritten, hle⟩)
          | ok page =>
              have hpage := runCommandWithInput_ok.mp hrun
              have hlength : byteLength (text ++ Utf8.decode page) =
                  byteLength text + lossyLength page := by
                rw [byteLength_append, byteLength_decode, lossyLength]
              have hfirst : (byteLength text < limit → ∀ written, run.Wrote written →
                  written.length ≤ limit - byteLength text →
                  if byteLength text + lossyLength written ≤ limit then
                    PagesFit limit (byteLength text + lossyLength written) pages
                  else ∃ error rest, pages = .error error :: rest) ↔
                  if byteLength text + lossyLength page ≤ limit then
                    PagesFit limit (byteLength text + lossyLength page) pages
                  else ∃ error rest, pages = .error error :: rest := by
                refine ⟨fun h => h (by omega) page hpage.1 hpage.2, fun h _ written hw hle => ?_⟩
                cases hrun.symm.trans (runCommandWithInput_ok.mpr ⟨hw, hle⟩)
                exact h
              rw [hfirst, ← hlength]
              by_cases hfits : byteLength (text ++ Utf8.decode page) ≤ limit
              · rw [if_pos hfits]
                exact ih hfits
              · rw [if_neg hfits]
                exact ocrPages_full (Nat.lt_of_not_le hfits)

/-! ## Files -/

theorem forall_bind_ok {α β : Type} {x : Except IndexerError α} {f : α → Except IndexerError β}
    {P : β → Prop} : (∀ b, (x >>= f) = .ok b → P b) ↔
      ∀ a, x = .ok a → ∀ b, f a = .ok b → P b := by
  simp only [bind_ok_iff]
  exact ⟨fun h a ha b hb => h b ⟨a, ha, hb⟩, fun h b ⟨a, ha, hb⟩ => h a ha b hb⟩

theorem forall_unit_bind_ok {β : Type} {x : Except IndexerError Unit}
    {f : Unit → Except IndexerError β} {P : β → Prop} :
    (∀ b, (x >>= f) = .ok b → P b) ↔ (x = .ok () → ∀ b, f () = .ok b → P b) :=
  forall_bind_ok.trans ⟨fun h => h (), fun h _ => h⟩

theorem forall_ok {α : Type} {a : α} {P : α → Prop} :
    (∀ b, (.ok a : Except IndexerError α) = .ok b → P b) ↔ P a :=
  ⟨fun h => h a rfl, fun h _ hb => Except.ok.inj hb ▸ h⟩

theorem ensureDocumentSize_ok {size sourceLimit : Nat} :
    ensureDocumentSize size sourceLimit = .ok () ↔ size ≤ sourceLimit := by
  rw [ensureDocumentSize]
  split
  · exact iff_of_false nofun (by omega)
  · exact iff_of_true rfl (by omega)

theorem extractPdf_le_iff {settings : IndexerSettings} {file : Source} :
    (∀ found, extractPdf u settings file = .ok found →
      byteLength found.body ≤ settings.maxExtractedTextBytes) ↔
    (file.size ≤ settings.maxSourceDocumentBytes → ∀ written,
      file.pdftotext.Wrote written → written.length ≤ settings.maxExtractedTextBytes →
      if visibleCharacters u (Utf8.decode written) < minPdfTextCharacters ∧ file.ocrEnabled then
        ∀ printed, file.pdftoppm.Wrote printed → ∀ pages, file.pages = .ok pages →
          PagesFit settings.maxExtractedTextBytes 0 (pages.take settings.maxOcrPages)
      else lossyLength written ≤ settings.maxExtractedTextBytes) := by
  rw [extractPdf, forall_unit_bind_ok, ensureDocumentSize_ok]
  refine imp_congr_right fun _ => ?_
  rw [forall_bind_ok]
  simp only [runCommandWithInput_ok, and_imp]
  refine forall₃_congr fun written _ _ => ?_
  split
  · rw [forall_unit_bind_ok, runCommandWithoutOutput_ok, forall_exists_index]
    refine forall₂_congr fun printed _ => ?_
    rw [forall_bind_ok]
    refine forall₂_congr fun pages _ => ?_
    rw [forall_bind_ok, ← show byteLength [] = 0 from rfl, ← ocrPages_le_iff (Nat.zero_le _)]
    exact forall₂_congr fun text _ => forall_ok
  · rw [lossyLength, ← byteLength_decode]
    exact forall_ok

theorem extractBody_le_iff {settings : IndexerSettings} {file : Source} :
    (∀ found, extractBody u xml settings file = .ok found →
      byteLength found.body ≤ settings.maxExtractedTextBytes) ↔ Fits u settings file := by
  rw [extractBody]
  by_cases hplain : isPlainText file.extension = true
  · have hpdf : file.extension ≠ "pdf" := fun h => by
      rw [h] at hplain
      exact absurd hplain (by decide)
    have hcut (content : Bytes) : readTextLimited content settings.maxExtractedTextBytes =
        content.take settings.maxExtractedTextBytes := by
      rw [readTextLimited]
      split
      · rw [List.take_take, Nat.min_eq_left (Nat.le_succ _)]
      · next hshort =>
        rw [List.length_take] at hshort
        rw [List.take_of_length_le (by omega), List.take_of_length_le (by omega)]
    rw [if_pos hplain, forall_bind_ok]
    simp only [forall_ok, hcut, byteLength_decode]
    exact ⟨fun h => ⟨fun _ => h, fun h => absurd h hpdf⟩, fun h => h.plain hplain⟩
  rw [if_neg hplain]
  by_cases hpdf : file.extension = "pdf"
  · rw [if_pos hpdf, extractPdf_le_iff]
    exact ⟨fun h => ⟨fun h => absurd h hplain, fun _ => h⟩, fun h => h.pdf hpdf⟩
  · rw [if_neg hpdf]
    refine iff_of_true (fun found h => ?_) ⟨fun h => absurd h hplain, fun h => absurd h hpdf⟩
    split at h
    · obtain ⟨_, _, h⟩ := bind_ok_iff.mp h
      obtain ⟨⟨text, read⟩, hooxml, h⟩ := bind_ok_iff.mp h
      cases h
      exact (extractOoxml_within hooxml).output
    · cases h
      exact Nat.zero_le _

theorem extractBody_decompressed {settings : IndexerSettings} {file : Source} {found : Extraction}
    (h : extractBody u xml settings file = .ok found) : ∀ read ∈ found.decompressed,
      read.length ≤ selectedEntryLimit settings.maxExtractedTextBytes + 1 := by
  rw [extractBody] at h
  split at h
  · obtain ⟨content, _, h⟩ := bind_ok_iff.mp h
    cases h
    exact nofun
  · split at h
    · obtain ⟨_, _, h⟩ := bind_ok_iff.mp h
      obtain ⟨output, _, h⟩ := bind_ok_iff.mp h
      dsimp only at h
      split at h
      · obtain ⟨_, _, h⟩ := bind_ok_iff.mp h
        obtain ⟨_, _, h⟩ := bind_ok_iff.mp h
        obtain ⟨_, _, h⟩ := bind_ok_iff.mp h
        cases h
        exact nofun
      · cases h
        exact nofun
    · split at h
      · obtain ⟨_, _, h⟩ := bind_ok_iff.mp h
        obtain ⟨⟨text, read⟩, hooxml, h⟩ := bind_ok_iff.mp h
        cases h
        exact (extractOoxml_within hooxml).read
      · cases h
        exact nofun

end

/-- The limit is respected when what is decoded has room for its replacement characters. -/
theorem limit_respected_iff (u : Unicode) (xml : Bytes → List XmlEvent)
    (settings : IndexerSettings) (file : Source) :
    RespectsLimit u xml settings file ↔ Fits u settings file := by
  rw [← @extractBody_le_iff u xml]
  constructor
  · intro h found hfound
    exact (h _ (bind_ok_iff.mpr ⟨found, hfound, rfl⟩)).body
  · intro h found hfound
    obtain ⟨extraction, hbody, hok⟩ := bind_ok_iff.mp hfound
    cases hok
    exact ⟨h extraction hbody, normalizedTerms_le _, extractBody_decompressed hbody⟩

/-! ## A character that is cut -/

/-- Letters up to the last byte before the limit, and a character of two bytes. -/
def cutText (limit : Nat) : Text := List.replicate (limit - 1) 'a' ++ ['é']

theorem length_encode_letters (n : Nat) : (Utf8.encode (List.replicate n 'a')).length = n := by
  induction n with
  | zero => rfl
  | succ n ih =>
      rw [List.replicate_succ, Utf8.encode, List.flatMap_cons, List.length_append]
      rw [Utf8.encode] at ih
      rw [ih, show (Utf8.encodeChar 'a').length = 1 by decide]
      omega

theorem readTextLimited_cutText {limit : Nat} (h : 0 < limit) :
    readTextLimited (Utf8.encode (cutText limit)) limit =
      Utf8.encode (List.replicate (limit - 1) 'a') ++ [0xc3] := by
  have hsplit : Utf8.encode (cutText limit) =
      (Utf8.encode (List.replicate (limit - 1) 'a') ++ [0xc3]) ++ [0xa9] := by
    rw [cutText, Utf8.encode, List.flatMap_append, List.append_assoc]
    rfl
  have hfront : (Utf8.encode (List.replicate (limit - 1) 'a') ++ [0xc3]).length = limit := by
    rw [List.length_append, length_encode_letters, List.length_singleton]
    omega
  rw [hsplit]
  generalize Utf8.encode (List.replicate (limit - 1) 'a') ++ [0xc3] = front at hfront
  have hlength : (front ++ [0xa9]).length = limit + 1 := by
    rw [List.length_append, hfront, List.length_singleton]
  rw [readTextLimited, List.take_of_length_le (Nat.le_of_eq hlength), hlength,
    if_pos (Nat.lt_succ_self limit), ← hfront, List.take_left]

/-- The first half of the last character becomes three bytes. -/
theorem byteLength_cutText {limit : Nat} (h : 0 < limit) :
    byteLength (Utf8.decode (readTextLimited (Utf8.encode (cutText limit)) limit)) =
      limit + 2 := by
  have hletters (n : Nat) : byteLength (List.replicate n 'a') = n := by
    simp [byteLength, show Char.utf8Size 'a' = 1 by decide]
  rw [readTextLimited_cutText h, Utf8.decode_encode_append, byteLength_append, hletters,
    show byteLength (Utf8.decode [0xc3]) = 3 by decide]
  omega

/-- A text in valid UTF-8, with the smallest limit that the settings allow. -/
def cutFile : Source where
  extension := "txt"
  size := 64 * 1024 + 1
  content := .ok (Utf8.encode (cutText (64 * 1024)))
  pdftotext := .unavailable
  pdftoppm := .unavailable
  pages := .ok []
  archive := .ok []
  ocrEnabled := false

def smallestLimit : IndexerSettings := ⟨64 * 1024, 1024 * 1024, 1⟩

/-- Tables of Unicode that know nothing but the blank. -/
def blankOnly : Unicode where
  alnum := isCjk
  whitespace c := c = ' '
  nfkcLower := id
  alnum_visible c h := by
    rw [decide_eq_false_iff_not]
    rintro rfl
    exact absurd h (by decide)
  space := by decide
  cjk_visible c h := by
    rw [decide_eq_false_iff_not]
    rintro rfl
    exact absurd h (by decide)

theorem cut_character_exceeds_limit :
    (∃ found, extractFile blankOnly (fun _ => []) smallestLimit cutFile = .ok found ∧
        byteLength found.body = 64 * 1024 + 2) ∧
      ¬RespectsLimit blankOnly (fun _ => []) smallestLimit cutFile := by
  have hplain : isPlainText cutFile.extension = true := by decide
  have hrun : ∃ found, extractFile blankOnly (fun _ => []) smallestLimit cutFile = .ok found ∧
      byteLength found.body = 64 * 1024 + 2 := by
    rw [extractFile, extractBody, if_pos hplain]
    exact ⟨_, rfl, byteLength_cutText (by decide)⟩
  refine ⟨hrun, ?_⟩
  intro hrespects
  obtain ⟨found, hfound, hlength⟩ := hrun
  have hwithin := (hrespects found hfound).body
  rw [hlength] at hwithin
  exact absurd hwithin (by decide)

end Zos.Indexer.Extractor
