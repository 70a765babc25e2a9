import Dnf.Foundation.Replace
import Dnf.Foundation.StrFormat
import Mathlib.Data.List.TakeWhile

/-!
# Query formats

`repoquery --queryformat` takes a format in the manner of rpm, `%-40{name}`, and `rpm2py_format` turns it into one of Python's. The escapes for a line break and a tab are expanded, the names of options are replaced by the names of attributes, and then each tag becomes a replacement field and the braces of everything else are doubled. A tag that is not allowed is kept as it stands.
-/

namespace Dnf.Repoquery

open Foundation
open Foundation.StrFormat

/-- What Python knows of characters: decimal digits with their values, the characters of words, and lower case. -/
structure Characters where
  decimal : Char → Option Nat
  isWord : Char → Bool
  lower : List Char → List Char
  decimal_ascii : ∀ c, c.toNat < 128 → decimal c = if c.isDigit then some (c.toNat - 48) else none
  isWord_ascii : ∀ c, c.toNat < 128 → isWord c = (c.isAlphanum || c == '_')

def allowedQueryTags : List (List Char) :=
  ["name", "arch", "epoch", "version", "release", "reponame", "repoid", "from_repo", "evr", "debug_name", "source_name", "source_debug_name", "installtime",
    "buildtime", "size", "downloadsize", "installsize", "provides", "requires", "obsoletes", "conflicts", "suggests", "recommends", "enhances", "supplements",
    "sourcerpm", "description", "summary", "license", "url", "reason", "group", "vendor", "packager"].map String.toList

def isAllowed (key : List Char) : Bool := allowedQueryTags.contains key

def optsMapping : List (List Char × List Char) :=
  [("conflicts", "conflicts"), ("enhances", "enhances"), ("obsoletes", "obsoletes"), ("provides", "provides"), ("recommends", "recommends"),
    ("requires", "requires"), ("requires-pre", "requires_pre"), ("suggests", "suggests"), ("supplements", "supplements")].map
    fun entry => (entry.1.toList, entry.2.toList)

variable (characters : Characters)

/-! ### Tags -/

/-- `matchobj.groups()` -/
structure Match where
  fill : List Char
  key : List Char

/-- `matchobj.group()` -/
def Match.group (m : Match) : List Char := '%' :: (m.fill ++ '{' :: (m.key ++ ['}']))

def Characters.isDigit (c : Char) : Bool := (characters.decimal c).isSome

def Characters.inKey (c : Char) : Bool := c = ':' || characters.isWord c

/-- What follows the percent sign of a match and its minus. -/
def Characters.matchRest (minus text : List Char) : Option Match :=
  match text.dropWhile characters.isDigit with
  | '{' :: rest =>
      let key := rest.takeWhile characters.inKey
      if key ≠ [] ∧ (rest.dropWhile characters.inKey).head? = some '}' then some ⟨minus ++ text.takeWhile characters.isDigit, key⟩ else none
  | _ => none

/-- `QFORMAT_MATCH` at the beginning of a text. -/
def Characters.matchTag (text : List Char) : Option Match :=
  match text with
  | '%' :: '-' :: rest => characters.matchRest ['-'] rest
  | '%' :: rest => characters.matchRest [] rest
  | _ => none

/-- `QFORMAT_MATCH.finditer`: the matches, each with the text in front of it, and the text behind the last. `spos` is the text since the last match, and `skip` what is left of that match. -/
def Characters.finditer (spos : List Char) : Nat → List Char → List (List Char × Match) × List Char
  | _, [] => ([], spos)
  | skip + 1, _ :: rest => Characters.finditer spos skip rest
  | 0, c :: rest =>
      match characters.matchTag (c :: rest) with
      | some m =>
          let (items, tail) := Characters.finditer [] (m.group.length - 1) rest
          ((spos, m) :: items, tail)
      | none => Characters.finditer (spos ++ [c]) 0 rest

/-! ### `rpm2py_format` -/

def brackets (txt : List Char) : List Char := replace ['}'] ['}', '}'] (replace ['{'] ['{', '{'] txt)

def Characters.fmtRepl (m : Match) : List Char :=
  let key := characters.lower m.key
  if !isAllowed key then brackets m.group
  else
    let fill :=
      match m.fill with
      | [] => []
      | c :: digits => ':' :: if c = '-' then '>' :: digits else '<' :: c :: digits
    ['{', '0', '.'] ++ key ++ fill ++ ['}']

def expandEscapes (queryformat : List Char) : List Char := replace ['\\', 't'] ['\t'] (replace ['\\', 'n'] ['\n'] queryformat)

def mapOpts (queryformat : List Char) : List Char := optsMapping.foldl (fun queryformat entry => replace entry.1 entry.2 queryformat) queryformat

def Characters.rpm2pyFormat (queryformat : List Char) : List Char :=
  let (items, tail) := characters.finditer [] 0 (mapOpts (expandEscapes queryformat))
  items.flatMap (fun item => brackets item.1 ++ characters.fmtRepl item.2) ++ brackets tail

/-- `rpm2py_format(qf).format(pkg)`; `value` gives the texts of the attributes of the package, and `none` is an exception. -/
def Characters.formatPackage (maxsize : Nat) (value : List Char → List Char) (queryformat : List Char) : Option (List Char) :=
  strFormat characters.decimal maxsize value .literal (characters.rpm2pyFormat queryformat)

end Dnf.Repoquery
