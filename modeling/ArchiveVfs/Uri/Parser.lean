import ArchiveVfs.Text.Percent
import ArchiveVfs.Uri.Basic

/-!
# Reading URIs

The text is cut at the first colon, at `//` behind it, at the first number sign,
at the first question mark, at the first slash of what is left and at the last
colon of the authority, in this order. A text is refused when it has no colon,
when its scheme is shorter than two characters or has others than letters,
digits, `+`, `-` and `.`, or when its port is no number below 65536.
-/

namespace ArchiveVfs.Uri

open Text

/-- Why a text is no URI. -/
inductive ParseFault where
  /-- There is no colon. -/
  | noScheme
  /-- What stands before the first colon is no scheme. -/
  | badScheme
  /-- What stands behind the last colon of the authority is no port. -/
  | badPort
  deriving DecidableEq, Repr

/-- The characters of schemes. -/
def isSchemeChar (c : Char) : Bool :=
  c.isAlphanum || c = '+' || c = '-' || c = '.'

/-- Schemes have two characters or more, so that a drive letter is none. -/
def isScheme (cs : List Char) : Bool :=
  2 ≤ cs.length && cs.all isSchemeChar

/-- The number that a run of decimal digits spells. -/
def digitsValue (cs : List Char) : Nat :=
  cs.foldl (fun value c => value * 10 + (c.toNat - 48)) 0

/-- The number of a written port: digits, one plus sign allowed before them. -/
def portValue? (cs : List Char) : Option UInt16 :=
  let digits := if cs.head? = some '+' then cs.tail else cs
  if !digits.isEmpty && digits.all Char.isDigit && digitsValue digits ≤ 65535 then
    some (UInt16.ofNat (digitsValue digits))
  else none

/-- Host and port of an authority; nothing behind the colon is no port. -/
def readAuthority (authority : List Char) : Except ParseFault (List Char × Option UInt16) :=
  match cutLast ':' authority with
  | none => .ok (authority, none)
  | some (host, []) => .ok (host, none)
  | some (host, port) =>
    match portValue? port with
    | some value => .ok (host, some value)
    | none => .error .badPort

/-- A query pair; without an equals sign the value is empty. -/
def readPair (piece : List Char) : String × String :=
  match cutFirst '=' piece with
  | some (key, value) =>
    (String.ofList (Percent.decode key), String.ofList (Percent.decode value))
  | none => (String.ofList (Percent.decode piece), "")

/-- The pairs of a query; empty pieces are skipped. -/
def readQuery (cs : List Char) : List (String × String) :=
  ((cs.splitOn '&').filter fun piece => !piece.isEmpty).map readPair

/-- What stands before `sep`, and what stands behind it if it is there. -/
def cutOff (sep : Char) (cs : List Char) : List Char × Option (List Char) :=
  match cutFirst sep cs with
  | some (before, after) => (before, some after)
  | none => (cs, none)

/-- The authority, which ends before the first slash, and the path from there. -/
def cutPath (cs : List Char) : List Char × List Char :=
  (cs.takeWhile (· ≠ '/'), cs.dropWhile (· ≠ '/'))

/-- Reads what follows the scheme's colon. -/
def readRest (scheme rest : List Char) : Except ParseFault Uri :=
  let hasAuthority := ['/', '/'].isPrefixOf rest
  let body := if hasAuthority then rest.drop 2 else rest
  let (body, fragment) := cutOff '#' body
  let (body, query) := cutOff '?' body
  let uri : Uri :=
    { scheme := lowerCase (String.ofList scheme)
      query := readQuery (query.getD [])
      fragment := fragment.map fun cs => String.ofList (Percent.decode cs) }
  if hasAuthority then
    let (authority, path) := cutPath body
    (readAuthority authority).map fun (host, port) =>
      { uri with
        host := String.ofList host
        port
        localPath := String.ofList (Percent.decode path) }
  else .ok { uri with localPath := String.ofList (Percent.decode body) }

/-- Reads a URI. -/
def parse (text : String) : Except ParseFault Uri :=
  match cutFirst ':' text.toList with
  | none => .error .noScheme
  | some (scheme, rest) =>
    if isScheme scheme then readRest scheme rest else .error .badScheme

end ArchiveVfs.Uri
