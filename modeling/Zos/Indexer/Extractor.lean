import Zos.Indexer.SearchTerms
import Zos.Lib.ByteOrder
import Zos.Lib.Lossy

/-!
# Text extraction

`extract_file` of `apps/indexer/src/extractor.rs` makes a text of a file and cuts it at
`max_extracted_text_bytes`, in another way for every kind of file. What the file system, the
programs `pdftotext`, `pdftoppm` and `tesseract`, the ZIP reader and the XML reader return is
input. The hash and the MIME type are left out.

A run also says what it decompressed.
-/

namespace Zos.Indexer.Extractor

open Zos.Lib Zos.Indexer.SearchTerms

abbrev Bytes := List Nat

inductive ErrorCode where
  | storage
  | internal
  | sizeLimit
  | toolUnavailable
  | commandTimeout
  | commandFailed
  | corruptDocument
  deriving DecidableEq, Repr

structure IndexerError where
  code : ErrorCode
  message : String
  retryable : Bool
  deriving DecidableEq, Repr

structure IndexerSettings where
  maxExtractedTextBytes : Nat
  maxSourceDocumentBytes : Nat
  maxOcrPages : Nat

/-! ## Plain text -/

def readTextLimited (content : Bytes) (limit : Nat) : Bytes :=
  let bytes := content.take (limit + 1)
  if limit < bytes.length then bytes.take limit else bytes

def ensureDocumentSize (size limit : Nat) : Except IndexerError Unit :=
  if limit < size then
    .error ⟨.sizeLimit, "Document exceeds the configured source limit of " ++ toString limit ++
      " bytes", false⟩
  else .ok ()

/-! ## Programs -/

inductive ToolRun where
  /-- There is no such program. -/
  | unavailable
  /-- It cannot be started, waited for or read from. -/
  | broken (error : IndexerError)
  | timedOut
  /-- The reads from its standard output, and what it wrote on the other. -/
  | exited (success : Bool) (stdout : List Bytes) (stderr : Bytes)

structure LimitedOutput where
  bytes : Bytes
  overflow : Bool

/-- The loop of `read_async_limited`. -/
def readAsyncLimited (limit : Nat) : LimitedOutput → List Bytes → LimitedOutput
  | output, [] => output
  | output, read :: reads =>
      if read.length = 0 then output
      else
        let remaining := limit - output.bytes.length
        let retained := min read.length remaining
        readAsyncLimited limit
          ⟨output.bytes ++ read.take retained, output.overflow || retained < read.length⟩ reads

/-- Whether it succeeded and what it wrote, once it has exited. -/
def ToolRun.exit (program : String) : ToolRun → Except IndexerError (Bool × List Bytes × Bytes)
  | .unavailable =>
      .error ⟨.toolUnavailable, "Required extractor is unavailable: " ++ program, true⟩
  | .broken error => .error error
  | .timedOut => .error ⟨.commandTimeout, program ++ " exceeded the configured timeout", true⟩
  | .exited success stdout stderr => .ok (success, stdout, stderr)

/-- The bytes that are decoded. -/
def runCommandWithInput (program : String) (outputLimit : Nat) (run : ToolRun) :
    Except IndexerError Bytes := do
  let (success, stdout, stderr) ← run.exit program
  let output := readAsyncLimited outputLimit ⟨[], false⟩ stdout
  if output.overflow then
    .error ⟨.sizeLimit, program ++ " output exceeded the configured text limit", false⟩
  else if !success then
    .error ⟨.commandFailed, program ++ " failed: " ++
      .ofList (Utf8.decode (stderr.take (64 * 1024))), false⟩
  else .ok output.bytes

def runCommandWithoutOutput (program : String) (run : ToolRun) : Except IndexerError Unit := do
  let (success, _) ← run.exit program
  if success then .ok () else .error ⟨.commandFailed, program ++ " failed", false⟩

/-- An image that may be opened, and `tesseract` on it. -/
abbrev Page := Except IndexerError ToolRun

/-- The loop over the images. -/
def ocrPages (limit : Nat) : Text → List Page → Except IndexerError Text
  | text, [] => .ok text
  | _, .error error :: _ => .error error
  | text, .ok run :: pages =>
      if text ≠ [] ∧ limit ≤ byteLength text then .ok text
      else
        let text := if text = [] then text else text ++ ['\n']
        let remaining := limit - byteLength text
        if remaining = 0 then .ok text
        else
          match runCommandWithInput "tesseract" remaining run with
          | .error error => .error error
          | .ok page => ocrPages limit (text ++ Utf8.decode page) pages

/-! ## Archives -/

structure Entry where
  name : Text
  /-- As the archive says. -/
  size : Nat
  /-- What comes out of it when it is opened again. -/
  content : Except String Bytes

inductive XmlEvent where
  | start (name : Text)
  /-- A text after decoding and unescaping. -/
  | text (content : Except String Text)
  | other
  | error (message : String)

def maxZipEntries : Nat := 20000
def maxXmlCells : Nat := 1000000
def minSelectedXmlEntryBytes : Nat := 1024 * 1024
def maxSelectedXmlEntryBytes : Nat := 64 * 1024 * 1024

def selectedEntryLimit (outputLimit : Nat) : Nat :=
  max minSelectedXmlEntryBytes (min (outputLimit * 8) maxSelectedXmlEntryBytes)

inductive Office where
  | docx
  | xlsx
  | pptx
  deriving DecidableEq, Repr

def Office.includes : Office → Text → Bool
  | .docx, name =>
      name = "word/document.xml".toList || "word/header".toList.isPrefixOf name ||
        "word/footer".toList.isPrefixOf name
  | .xlsx, name =>
      name = "xl/sharedStrings.xml".toList || "xl/worksheets/sheet".toList.isPrefixOf name
  | .pptx, name =>
      "ppt/slides/slide".toList.isPrefixOf name && ".xml".toList.isSuffixOf name

def corrupt (message : String) : IndexerError := ⟨.corruptDocument, message, false⟩

/-- The first loop over the entries. -/
def selectEntries (office : Office) (expandedLimit entryLimit : Nat) :
    Nat → List Entry → List (Except String Entry) → Except IndexerError (List Entry)
  | _, selected, [] => .ok selected
  | _, _, .error message :: _ => .error (corrupt message)
  | expanded, selected, .ok entry :: entries =>
      let expanded := min (expanded + entry.size) (2 ^ 64 - 1)
      if expandedLimit < expanded then
        .error ⟨.sizeLimit, "OOXML expanded data exceeds the safety limit", false⟩
      else if office.includes entry.name then
        if entryLimit < entry.size then
          .error ⟨.sizeLimit, "OOXML XML entry exceeds the safety limit", false⟩
        else selectEntries office expandedLimit entryLimit expanded (selected ++ [entry]) entries
      else selectEntries office expandedLimit entryLimit expanded selected entries

section

variable (u : Unicode)

/-- The characters that still fit. -/
def pushChars (limit : Nat) : Text → Text → Text
  | output, [] => output
  | output, c :: text =>
      if limit < byteLength output + c.utf8Size then output
      else pushChars limit (output ++ [c]) text

def appendLimited (output text : Text) (limit : Nat) : Text :=
  if text.all u.whitespace ∨ limit ≤ byteLength output then output
  else pushChars limit (if output = [] then output else output ++ [' ']) text

def extractXmlText (limit : Nat) : Text → Nat → List XmlEvent → Except IndexerError (Text × Nat)
  | output, cells, [] => .ok (output, cells)
  | output, cells, .start name :: events =>
      if name = ['c'] then
        if maxXmlCells < cells + 1 then
          .error ⟨.sizeLimit, "OOXML cell count exceeds the safety limit", false⟩
        else extractXmlText limit output (cells + 1) events
      else extractXmlText limit output cells events
  | _, _, .text (.error message) :: _ => .error (corrupt message)
  | output, cells, .text (.ok text) :: events =>
      let output := appendLimited u output text limit
      if limit ≤ byteLength output then .ok (output, cells)
      else extractXmlText limit output cells events
  | output, cells, .other :: events => extractXmlText limit output cells events
  | _, _, .error message :: _ => .error (corrupt message)

variable (xml : Bytes → List XmlEvent)

/-- The second loop, over the selected entries; with what was decompressed of each. -/
def readEntries (limit : Nat) :
    Text → Nat → List Bytes → List Entry → Except IndexerError (Text × List Bytes)
  | output, _, read, [] => .ok (output, read)
  | output, cells, read, entry :: entries =>
      match entry.content with
      | .error message => .error (corrupt message)
      | .ok content =>
          let bounded := content.take (selectedEntryLimit limit + 1)
          match extractXmlText u limit output cells (xml bounded) with
          | .error error => .error error
          | .ok (output, cells) =>
              if limit ≤ byteLength output then .ok (output, read ++ [bounded])
              else readEntries limit output cells (read ++ [bounded]) entries

def extractOoxml (archive : Except String (List (Except String Entry))) (office : Office)
    (sourceLimit outputLimit : Nat) : Except IndexerError (Text × List Bytes) :=
  match archive with
  | .error message => .error (corrupt ("Invalid OOXML archive: " ++ message))
  | .ok entries =>
      if maxZipEntries < entries.length then
        .error ⟨.sizeLimit, "OOXML archive has too many entries", false⟩
      else do
        let expandedLimit := min (sourceLimit * 4) (2 * 1024 * 1024 * 1024)
        let selected ← selectEntries office expandedLimit (selectedEntryLimit outputLimit) 0 []
          entries
        readEntries u xml outputLimit [] 0 []
          (selected.mergeSort fun left right => Utf8.ByteOrder left.name right.name)

/-! ## Files -/

inductive ExtractionSource where
  | plainText
  | pdfText
  | office (office : Office)
  | ocr
  deriving DecidableEq, Repr

structure ExtractedFile where
  body : Text
  terms : Text
  source : Option ExtractionSource
  status : String
  decompressed : List Bytes

/-- A file with everything that is read of it. -/
structure Source where
  /-- In lower case. -/
  extension : String
  size : Nat
  content : Except IndexerError Bytes
  pdftotext : ToolRun
  pdftoppm : ToolRun
  /-- In the order of their names. -/
  pages : Except IndexerError (List Page)
  archive : Except String (List (Except String Entry))
  ocrEnabled : Bool

def isPlainText (extension : String) : Bool :=
  ["txt", "md", "markdown", "json", "jsonl", "toml", "yaml", "yml", "xml", "csv", "tsv", "log",
    "ini", "conf", "cfg", "sh", "bash", "zsh", "fish", "js", "jsx", "ts", "tsx", "css", "html",
    "htm", "py", "rb", "rs", "go", "java", "c", "h", "cpp", "hpp", "sql"].contains extension

def officeOf (extension : String) : Option Office :=
  if extension = "docx" then some .docx
  else if extension = "xlsx" then some .xlsx
  else if extension = "pptx" then some .pptx
  else none

def minPdfTextCharacters : Nat := 32

def visibleCharacters (text : Text) : Nat := (text.filter (!u.whitespace ·)).length

structure Extraction where
  body : Text
  source : Option ExtractionSource
  status : String
  decompressed : List Bytes

def extractPdf (settings : IndexerSettings) (file : Source) : Except IndexerError Extraction := do
  ensureDocumentSize file.size settings.maxSourceDocumentBytes
  let limit := settings.maxExtractedTextBytes
  let output ← runCommandWithInput "pdftotext" limit file.pdftotext
  let text := Utf8.decode output
  if visibleCharacters u text < minPdfTextCharacters ∧ file.ocrEnabled then
    runCommandWithoutOutput "pdftoppm" file.pdftoppm
    let pages ← file.pages
    let text ← ocrPages limit [] (pages.take settings.maxOcrPages)
    .ok ⟨text, some .ocr, "ready", []⟩
  else .ok ⟨text, some .pdfText, "ready", []⟩

def extractBody (settings : IndexerSettings) (file : Source) : Except IndexerError Extraction :=
  let limit := settings.maxExtractedTextBytes
  if isPlainText file.extension then do
    let bytes := readTextLimited (← file.content) limit
    .ok ⟨Utf8.decode bytes, some .plainText, "ready", []⟩
  else if file.extension = "pdf" then extractPdf u settings file
  else
    match officeOf file.extension with
    | some office => do
        ensureDocumentSize file.size settings.maxSourceDocumentBytes
        let (text, read) ← extractOoxml u xml file.archive office
          settings.maxSourceDocumentBytes limit
        .ok ⟨text, some (.office office), "ready", read⟩
    | none => .ok ⟨[], none, "skipped", []⟩

def extractFile (settings : IndexerSettings) (file : Source) :
    Except IndexerError ExtractedFile := do
  let found ← extractBody u xml settings file
  .ok ⟨found.body, normalizedTerms u found.body settings.maxExtractedTextBytes, found.source,
    found.status, found.decompressed⟩

/-! ## Purpose -/

structure ExtractedFile.Within (limit : Nat) (file : ExtractedFile) : Prop where
  body : byteLength file.body ≤ limit
  terms : byteLength file.terms ≤ limit
  decompressed : ∀ read ∈ file.decompressed, read.length ≤ selectedEntryLimit limit + 1

def RespectsLimit (settings : IndexerSettings) (file : Source) : Prop :=
  ∀ found, extractFile u xml settings file = .ok found →
    found.Within settings.maxExtractedTextBytes

/-- How long bytes are with a replacement character for each part that is no character. -/
def lossyLength (bytes : Bytes) : Nat := bytes.length + Utf8.growth bytes

/-- All that a program wrote that ended well; a read of nothing is the end of it. -/
def ToolRun.Wrote (run : ToolRun) (written : Bytes) : Prop :=
  ∃ stdout stderr, run = .exited true stdout stderr ∧
    (stdout.takeWhile (· ≠ [])).flatten = written

/-- Pages after some that take up `used` bytes. One that does not fit is the last, unless the image
after it cannot be opened, and then there is no text at all. -/
def PagesFit (limit : Nat) : Nat → List Page → Prop
  | _, [] | _, .error _ :: _ => True
  | used, .ok run :: pages =>
      let used := if used = 0 then 0 else used + 1
      used < limit → ∀ written, run.Wrote written → written.length ≤ limit - used →
        if used + lossyLength written ≤ limit then
          PagesFit limit (used + lossyLength written) pages
        else ∃ error rest, pages = .error error :: rest

/-- The bytes that are decoded have room for their replacement characters. -/
structure Fits (settings : IndexerSettings) (file : Source) : Prop where
  plain : isPlainText file.extension = true → ∀ content, file.content = .ok content →
    lossyLength (content.take settings.maxExtractedTextBytes) ≤ settings.maxExtractedTextBytes
  pdf : file.extension = "pdf" → file.size ≤ settings.maxSourceDocumentBytes → ∀ written,
    file.pdftotext.Wrote written → written.length ≤ settings.maxExtractedTextBytes →
    if visibleCharacters u (Utf8.decode written) < minPdfTextCharacters ∧ file.ocrEnabled then
      ∀ printed, file.pdftoppm.Wrote printed → ∀ pages, file.pages = .ok pages →
        PagesFit settings.maxExtractedTextBytes 0 (pages.take settings.maxOcrPages)
    else lossyLength written ≤ settings.maxExtractedTextBytes

end

end Zos.Indexer.Extractor
