import Dispatch.Settings

/-!
# Settings documents

Settings are written in TOML, as lines `key = true` or `key = false`. Since every key takes a
boolean, and unknown keys are refused, a document with anything else in it, such as a table, a
dotted key or a value of another kind, cannot be a layer of settings, so this grammar accepts all
documents that are one:

* a line is blank, a comment, or a key, `=` and a boolean, with spaces and tabs between them and
  possibly a comment after them;
* a line ends with LF or CR LF, and a CR anywhere else is an error;
* a key is bare, or quoted with escapes, or quoted without; the decoded names decide, and no name
  occurs twice;
* a byte order mark before the first line is skipped.

A source of settings is a document or a file that should contain one; `Source.read` tells apart
what may be wrong with it.
-/

namespace Dispatch.Settings

/-! ### Characters -/

/-- Space or tab. -/
def isSpace (c : Char) : Bool := c == ' ' || c == '\t'

/-- A character of a comment or quoted key: no control character but tab. -/
def isPlain (c : Char) : Bool := c == '\t' || (0x20 ≤ c.toNat && c.toNat != 0x7F)

/-- A character of a bare key. -/
def isBare (c : Char) : Bool := c.isAlphanum || c == '_' || c == '-'

/-! ### Escapes -/

/-- The value of a hexadecimal digit. -/
def hexDigit? (c : Char) : Option Nat :=
  if '0' ≤ c ∧ c ≤ '9' then some (c.toNat - '0'.toNat)
  else if 'a' ≤ c ∧ c ≤ 'f' then some (c.toNat - 'a'.toNat + 10)
  else if 'A' ≤ c ∧ c ≤ 'F' then some (c.toNat - 'A'.toNat + 10)
  else none

/-- The number that hexadecimal digits write. -/
def hexNumber? (digits : List Char) : Option Nat :=
  digits.foldlM (fun n c => (hexDigit? c).map (16 * n + ·)) 0

/-- The character with a given code point, if there is one. -/
def charOf? (n : Nat) : Option Char := if n.isValidChar then some (.ofNat n) else none

/-- The escapes of one letter, with what they stand for. -/
def letterEscapes : List (Char × Char) :=
  [('b', '\x08'), ('t', '\t'), ('n', '\n'), ('f', '\x0C'), ('r', '\r'), ('e', '\x1B'),
   ('"', '"'), ('\\', '\\')]

/-- The letters that open a numeric escape, with the number of digits that follow. -/
def numericEscapes : List (Char × Nat) := [('x', 2), ('u', 4), ('U', 8)]

/-- The character that an escape stands for and the number of characters it takes after the letter
`c`, which follows the backslash. -/
def escape? (c : Char) (rest : List Char) : Option (Char × Nat) :=
  match letterEscapes.lookup c with
  | some decoded => some (decoded, 0)
  | none => do
    let width ← numericEscapes.lookup c
    if rest.length < width then none
    let decoded ← charOf? (← hexNumber? (rest.take width))
    return (decoded, width)

/-! ### Keys -/

/-- Reads a key quoted with escapes, up to the closing quote, and gives what follows. The key is
read `skip` characters further on. -/
def quotedKey? (skip : Nat) : List Char → Option (List Char × List Char)
  | [] => none
  | c :: rest =>
    match skip with
    | skip + 1 => quotedKey? skip rest
    | 0 =>
      if c = '"' then some ([], rest)
      else if c = '\\' then
        match rest with
        | [] => none
        | letter :: digits => do
          let (decoded, width) ← escape? letter digits
          let (key, after) ← quotedKey? (width + 1) rest
          return (decoded :: key, after)
      else if isPlain c then do
        let (key, after) ← quotedKey? 0 rest
        return (c :: key, after)
      else none

/-- Reads a key quoted without escapes. -/
def literalKey? (cs : List Char) : Option (List Char × List Char) :=
  let key := cs.takeWhile (· != '\'')
  match cs.dropWhile (· != '\'') with
  | _ :: after => if key.all isPlain then some (key, after) else none
  | [] => none

/-- Reads a bare key. -/
def bareKey? (cs : List Char) : Option (List Char × List Char) :=
  let key := cs.takeWhile isBare
  if key.isEmpty then none else some (key, cs.dropWhile isBare)

/-- Reads a key in any of its forms and gives what follows. -/
def key? (cs : List Char) : Option (List Char × List Char) :=
  match cs with
  | '"' :: rest => quotedKey? 0 rest
  | '\'' :: rest => literalKey? rest
  | _ => bareKey? cs

/-! ### Lines -/

/-- Reads a boolean and gives what follows. -/
def boolean? (cs : List Char) : Option (Bool × List Char) :=
  match cs with
  | 't' :: 'r' :: 'u' :: 'e' :: rest => some (true, rest)
  | 'f' :: 'a' :: 'l' :: 's' :: 'e' :: rest => some (false, rest)
  | _ => none

/-- Whether the rest of a line says nothing: it is empty or a comment. -/
def isIdle : List Char → Bool
  | [] => true
  | c :: rest => c == '#' && rest.all isPlain

/-- What is left after the spaces in front. -/
def skipSpaces (cs : List Char) : List Char := cs.dropWhile isSpace

/-- Reads a line. One without an assignment gives an empty list, one with gives its key and
value. -/
def line? (cs : List Char) : Option (List (String × Bool)) :=
  let cs := skipSpaces cs
  if isIdle cs then some []
  else do
    let (key, cs) ← key? cs
    match skipSpaces cs with
    | '=' :: cs => do
      let (value, cs) ← boolean? (skipSpaces cs)
      if isIdle (skipSpaces cs) then return [(.ofList key, value)] else none
    | _ => none

/-- The lines of a text: it is cut at every LF, and a CR before an LF goes with it. -/
def linesOf : List Char → List (List Char)
  | [] => [[]]
  | c :: rest =>
    if c = '\n' then [] :: linesOf rest
    else if c = '\r' ∧ rest.head? = some '\n' then linesOf rest
    else
      match linesOf rest with
      | [] => [[c]]
      | line :: lines => (c :: line) :: lines

/-! ### Documents -/

/-- The layer with one more key. A key that is unknown or already set is refused. -/
def Layer.set? (layer : Layer) (key : String) (value : Bool) : Option Layer :=
  if key = "recast-decimals" ∧ layer.recastDecimals.isNone then
    some { layer with recastDecimals := some value }
  else if key = "memoize" ∧ layer.memoize.isNone then
    some { layer with memoize := some value }
  else if key = "require-imports" ∧ layer.requireImports.isNone then
    some { layer with requireImports := some value }
  else none

/-- The text without a byte order mark in front. -/
def dropMark : List Char → List Char
  | '\uFEFF' :: rest => rest
  | cs => cs

/-- The layer that a document writes. -/
def Layer.ofText? (text : String) : Option Layer := do
  let assignments ← (linesOf (dropMark text.toList)).mapM line?
  assignments.flatten.foldlM (fun layer a => layer.set? a.1 a.2) {}

/-! ### Sources -/

/-- Where settings come from. -/
inductive Source
  | text (document : String)
  /-- A file with its bytes, or none if there is no such file. -/
  | file (path : String) (bytes : Option ByteArray)

/-- Why a file gave no text. -/
inductive FileError
  | missing
  | notText
deriving DecidableEq

/-- The failure in words. -/
def FileError.message : FileError → String
  | missing => "No such file or directory (os error 2)"
  | notText => "stream did not contain valid UTF-8"

/-- What is wrong with a source. -/
inductive SourceError
  /-- The text is not a layer of settings. -/
  | malformed
  | unreadable (path : String) (cause : FileError)
deriving DecidableEq

/-- The error in words. What makes a text malformed is not said. -/
def SourceError.message : SourceError → String
  | malformed => "TOML parse error"
  | unreadable path cause => "I/O error reading " ++ path ++ ": " ++ cause.message

/-- The text of a source. -/
def Source.contents : Source → Except SourceError String
  | text document => .ok document
  | file path none => .error (.unreadable path .missing)
  | file path (some bytes) =>
    match String.fromUTF8? bytes with
    | some document => .ok document
    | none => .error (.unreadable path .notText)

/-- The layer of a source. -/
def Source.read (source : Source) : Except SourceError Layer := do
  match Layer.ofText? (← source.contents) with
  | some layer => return layer
  | none => throw .malformed

end Dispatch.Settings
