import Mathlib.Algebra.GroupWithZero.Nat
import Zos.Lib.Runs

/-!
# Search terms

`normalized_terms` of `apps/indexer/src/extractor.rs` writes, for every token between blanks, the
token itself and the single characters and pairs of the Chinese, Japanese and Korean characters in
it. `literalFtsQuery` of `packages/db/src/repositories/index-search.ts` makes one prefix term of
each run of letters and digits in a query. The tables of Unicode are parameters; texts are
sequences of scalar values.
-/

namespace Zos.Indexer.SearchTerms

open Zos.Lib (runs)

abbrev Text := List Char

def isCjk (c : Char) : Bool :=
  let within (low high : Nat) : Bool := low ≤ c.toNat && c.toNat ≤ high
  within 0x3400 0x4DBF || within 0x4E00 0x9FFF || within 0xF900 0xFAFF ||
    within 0x3040 0x30FF || within 0xAC00 0xD7AF

structure Unicode where
  /-- `\p{L}` and `\p{N}`. -/
  alnum : Char → Bool
  /-- `White_Space`. -/
  whitespace : Char → Bool
  /-- `nfkc().flat_map(char::to_lowercase)`. -/
  nfkcLower : Text → Text
  alnum_visible : ∀ c, alnum c = true → whitespace c = false
  space : whitespace ' ' = true
  cjk_visible : ∀ c, isCjk c = true → whitespace c = false

def byteLength (text : Text) : Nat := (text.map Char.utf8Size).sum

def pushTerm (limit : Nat) (output term : Text) : Text :=
  if term = [] ∨ limit ≤ byteLength output then output
  else
    let separator := if output = [] then 0 else 1
    if limit < byteLength output + separator + byteLength term then output
    else if separator = 1 then output ++ ' ' :: term
    else output ++ term

/-- The loop over the characters of a token that are Chinese, Japanese or Korean. -/
def cjkTerms : Text → List Text
  | [] => []
  | [c] => [[c]]
  | c :: next :: rest => [c] :: [c, next] :: cjkTerms (next :: rest)

def termsOf (token : Text) : List Text := token :: cjkTerms (token.filter isCjk)

def pushTokens (limit : Nat) : Text → List Text → Text
  | output, [] => output
  | output, token :: rest =>
    let output := (termsOf token).foldl (pushTerm limit) output
    if limit ≤ byteLength output then output else pushTokens limit output rest

section

variable (u : Unicode)

/-- `split_whitespace`. -/
def splitWhitespace (text : Text) : List Text := runs (!u.whitespace ·) text

def normalizedTerms (body : Text) (limit : Nat) : Text :=
  pushTokens limit [] (splitWhitespace u (u.nfkcLower body))

/-- The tokens of a column. -/
def words (text : Text) : List Text := runs u.alnum text

/-- The quoted terms of `literalFtsQuery`, each with a star; without any it throws. -/
def literalFtsQuery (query : Text) : Except String (List Text) :=
  match runs (fun c => u.alnum c || c == '_') query with
  | [] => .error "Search query must contain a letter or number"
  | terms => .ok terms

/-- A row matches if each term is the beginning of a token of the body or of the terms. -/
def matchesRow (body terms query : Text) : Bool :=
  match literalFtsQuery u query with
  | .ok quoted => quoted.all fun term =>
      (words u body ++ words u terms).any fun token => term.isPrefixOf token
  | .error _ => false

end

/-- Terms one after the other, without a limit. -/
def glue : Text → List Text → Text
  | output, [] => output
  | output, term :: rest => glue (if output = [] then term else output ++ ' ' :: term) rest

/-- A body whose terms are not cut by the limit. -/
structure Body (u : Unicode) where
  text : Text
  limit : Nat
  uncut : byteLength (glue [] ((splitWhitespace u (u.nfkcLower text)).flatMap termsOf)) ≤ limit

/-- A run of Chinese, Japanese and Korean characters. -/
structure CjkQuery where
  text : Text
  ne_nil : text ≠ []
  cjk : ∀ c ∈ text, isCjk c = true

section

variable {u : Unicode}

def Body.Matches (body : Body u) (query : CjkQuery) : Prop :=
  matchesRow u body.text (normalizedTerms u body.text body.limit) query.text = true

def Body.Contains (body : Body u) (query : CjkQuery) : Prop :=
  query.text <:+: u.nfkcLower body.text

/-- The letters of the query that stand together. -/
def CjkQuery.terms (u : Unicode) (query : CjkQuery) : List Text := runs u.alnum query.text

/-- A word of the body begins with the term, as the body is or normalised. -/
def Body.Begins (body : Body u) (term : Text) : Prop :=
  ∃ word ∈ words u body.text ++ words u (u.nfkcLower body.text), term <+: word

/-- The term is one character of the body, or two that are neighbours when all others are left out
of a token. -/
def Body.Listed (body : Body u) (term : Text) : Prop :=
  (∃ c ∈ u.nfkcLower body.text, term = [c]) ∨
    ∃ token ∈ splitWhitespace u (u.nfkcLower body.text), ∃ c d,
      [c, d] <:+: token.filter isCjk ∧ term = [c, d]

end

end Zos.Indexer.SearchTerms
