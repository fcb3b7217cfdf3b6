import MessageBus.TextSearch
import Mathlib.Data.List.DropRight

/-!
# Configuration files `CIniFile`

A transcription of `mmlib/ini_file/ini_file.cpp`, and what the grammar of such a
file says about an item.  The file is in memory as a whole, with a NUL behind
it; pointers into it are places.
-/

namespace MessageBus.IniFile

open TextSearch

abbrev Text := List UInt8

def success : ℤ := 0
def eIniFile : ℤ := -401

def lineFeed : UInt8 := 10
def carriageReturn : UInt8 := 13
def openBracket : UInt8 := 91
def closeBracket : UInt8 := 93
def equals : UInt8 := 61
def semicolon : UInt8 := 59

def isBlank (byte : UInt8) : Bool := byte = 32 ∨ byte = 9

/-- `m_szBuffer` without the NUL behind it; `m_iSize` is its length. -/
structure CIniFile where
  buffer : Text
  nul_free : ∀ byte ∈ buffer, byte ≠ 0

/-! ## Strings -/

/-- What `TrimString` takes away. -/
def isWhite (byte : UInt8) : Bool :=
  isBlank byte ∨ byte = carriageReturn ∨ byte = lineFeed

def trimString (szString : Text) : Text :=
  (szString.rdropWhile isWhite).dropWhile isWhite

/-- `*(m_szBuffer + place)`. -/
def byteAt (buffer : Text) (place : ℕ) : UInt8 := buffer.getD place 0

/-- The loop that copies a value, with `n` and `iPos`. -/
def copyValue (iValueLen : ℕ) : ℕ → ℕ → Text → Text
  | _, _, [] => []
  | n, iPos, byte :: rest =>
      if iValueLen - 1 ≤ iPos ∨ byte = carriageReturn ∨ byte = lineFeed ∨
          byte = 0 then []
      else if isBlank byte = true ∧ iPos = 0 then
        copyValue iValueLen (n + 1) iPos rest
      else if byte = semicolon then
        match rest with
        | [] => []
        | following :: rest =>
            if 0 < n ∧ following = semicolon then
              byte :: copyValue iValueLen (n + 2) (iPos + 1) rest
            else []
      else byte :: copyValue iValueLen (n + 1) (iPos + 1) rest

/-! ## `GetString` -/

/-- The search for the section. -/
def sectionLoop (buffer szSection : Text) (fuel : ℕ) : Option Outcome :=
  searchLoop buffer szSection (fun pszSection => pszSection = 0)
    (fun pszSection =>
      byteAt buffer (pszSection - 1) = openBracket ∧
        byteAt buffer (pszSection + szSection.length) = closeBracket ∧
        (1 < pszSection → byteAt buffer (pszSection - 2) = lineFeed))
    fuel 0

/-- `pszNextSection`, the end of the buffer when there is no more section. -/
def nextSection (buffer : Text) (pszTemp fuel : ℕ) : Option ℕ :=
  (searchLoop buffer [openBracket] (fun _ => false)
    (fun pszNextSection => byteAt buffer (pszNextSection - 1) = lineFeed)
    fuel pszTemp).map fun
      | .found pszNextSection => pszNextSection
      | _ => buffer.length

/-- The search for the item from the section on. -/
def itemLoop (buffer szItem : Text) (pszTemp fuel : ℕ) : Option Outcome :=
  (nextSection buffer pszTemp fuel).bind fun pszNextSection =>
    searchLoop buffer szItem (fun pszItem => pszNextSection ≤ pszItem)
      (fun pszItem =>
        byteAt buffer (pszItem - 1) = lineFeed ∧
          (isBlank (byteAt buffer (pszItem + szItem.length)) = true ∨
            byteAt buffer (pszItem + szItem.length) = equals))
      fuel pszTemp

/-- A section that is not found before the end of the buffer leaves nothing for
the search for the item. -/
def afterSection (buffer szItem : Text) : Outcome → ℕ → Option Outcome
  | .failed, _ => some .failed
  | .found pszTemp, fuel => itemLoop buffer szItem pszTemp fuel
  | .ended pszTemp, fuel => itemLoop buffer szItem pszTemp fuel

/-- The two searches. -/
def findItem (buffer szSection szItem : Text) (fuel : ℕ) : Option Outcome :=
  (sectionLoop buffer szSection fuel).bind (afterSection buffer szItem · fuel)

/-- The value behind the next `=`; `none` for `E_INI_FILE`. -/
def extractValue (buffer : Text) (iValueLen pszItem : ℕ) : Option Text :=
  match strstr buffer [equals] pszItem with
  | none => none
  | some pszValue =>
      if buffer.length ≤ pszValue + 1 then none
      else some (copyValue iValueLen 0 0 (buffer.drop (pszValue + 1)))

namespace CIniFile

variable (file : CIniFile) (szSection szItem : Text)

def isValid : Bool := file.buffer ≠ []

/-- What `GetString` returns after the searches, and the text in `szValue`.  A
default that fills `szValue` has no NUL, so that `TrimString` does not stop in
it. -/
def answer (szDefault : Text) (iValueLen : ℕ) :
    Outcome → Option (ℤ × Text)
  | .failed => some (eIniFile, szDefault.take iValueLen)
  | .ended _ =>
      if szDefault.length < iValueLen then
        some (success, trimString szDefault)
      else none
  | .found pszItem =>
      match extractValue file.buffer iValueLen pszItem with
      | none => some (eIniFile, szDefault.take iValueLen)
      | some value => some (success, trimString value)

/-- `GetString`; `none` as long as it has not returned within `fuel` rounds of
each loop. -/
def getString (szDefault : Text) (iValueLen fuel : ℕ) : Option (ℤ × Text) :=
  if file.isValid = false then some (eIniFile, szDefault.take iValueLen)
  else
    (findItem file.buffer szSection szItem fuel).bind
      (file.answer szDefault iValueLen)

end CIniFile

/-! ## Numbers -/

def digitValue (byte : UInt8) : Option ℕ :=
  if 48 ≤ byte ∧ byte ≤ 57 then some (byte.toNat - 48)
  else if 97 ≤ byte ∧ byte ≤ 102 then some (byte.toNat - 87)
  else if 65 ≤ byte ∧ byte ≤ 70 then some (byte.toNat - 55)
  else none

/-- The digits that a text starts with. -/
def leadingDigits (base : ℕ) : Text → List ℕ
  | [] => []
  | byte :: rest =>
      match digitValue byte with
      | none => []
      | some digit =>
          if digit < base then digit :: leadingDigits base rest else []

/-- White space, a sign, and the digits; `0x` may stand before hexadecimal
ones. -/
def scanNumber (base : ℕ) (text : Text) : Bool × List ℕ :=
  let text := text.dropWhile fun byte => byte = 32 ∨ 9 ≤ byte ∧ byte ≤ 13
  let negative := text.head? = some 45
  let text := if negative ∨ text.head? = some 43 then text.tail else text
  let marked := base = 16 ∧ text.head? = some 48 ∧
    (text[1]? = some 120 ∨ text[1]? = some 88) ∧
    leadingDigits base (text.drop 2) ≠ []
  (negative, leadingDigits base (if marked then text.drop 2 else text))

def digitsNumber (base : ℕ) (digits : List ℕ) : ℕ :=
  Nat.ofDigits base digits.reverse

def strtoull (base : ℕ) (text : Text) : ℕ :=
  let (negative, digits) := scanNumber base text
  let number := digitsNumber base digits
  if 2 ^ 64 ≤ number then 2 ^ 64 - 1
  else if negative then (2 ^ 64 - number) % 2 ^ 64
  else number

/-- `atoi`, which is `strtol` cut to an `int`. -/
def atoi (text : Text) : ℤ :=
  let (negative, digits) := scanNumber 10 text
  let number : ℤ := digitsNumber 10 digits
  Int.bmod
    (if negative then max (-2 ^ 63) (-number) else min (2 ^ 63 - 1) number)
    (2 ^ 32)

/-- `sscanf` of `%x`, which stores nothing when there is no digit. -/
def sscanfHex (text : Text) (piValue : ℤ) : ℤ :=
  if (scanNumber 16 text).2 = [] then piValue
  else Int.bmod (strtoull 16 text) (2 ^ 32)

namespace CIniFile

variable (file : CIniFile) (szSection szItem : Text)

/-- `GetInt`, and what it leaves in `*piValue`. -/
def getInt (iDefault piValue : ℤ) (fuel : ℕ) : Option (ℤ × ℤ) :=
  if file.isValid = false then some (eIniFile, piValue)
  else
    (file.getString szSection szItem [] 32 fuel).map fun (ret, szInt) =>
      if ret ≠ 0 then (eIniFile, iDefault)
      else if szInt.take 2 = [48, 120] ∨ szInt.take 2 = [48, 88] then
        (success, sscanfHex (szInt.drop 2) piValue)
      else (success, atoi szInt)

def getULongLong (ullDefault pullValue : ℕ) (fuel : ℕ) : Option (ℤ × ℕ) :=
  if file.isValid = false then some (eIniFile, pullValue)
  else
    (file.getString szSection szItem [] 32 fuel).map fun (ret, szULongLong) =>
      if ret ≠ 0 then (eIniFile, ullDefault)
      else (success, strtoull 10 szULongLong)

end CIniFile

/-! ## The grammar -/

/-- The lines of a section: from behind the first line with its name to the next
line that starts with a bracket. -/
def sectionLines (szSection : Text) (lines : List Text) : List Text :=
  ((lines.dropWhile fun line =>
      ¬ (openBracket :: szSection ++ [closeBracket]) <+: line).tail).takeWhile
    fun line => line.head? ≠ some openBracket

/-- The line starts with the item, as a word. -/
def IsItemLine (szItem line : Text) : Prop :=
  szItem <+: line ∧
    ∃ byte ∈ (line.drop szItem.length).head?, isBlank byte = true ∨ byte = equals

instance (szItem line : Text) : Decidable (IsItemLine szItem line) :=
  inferInstanceAs (Decidable (_ ∧ _))

/-- What stands behind the first `=` of the line of an item. -/
def itemValue (szItem line : Text) : Option Text :=
  if IsItemLine szItem line ∧ equals ∈ line then
    some (line.dropWhile (· ≠ equals)).tail
  else none

/-- What the text has for an item of a section. -/
def entry (szSection szItem text : Text) : Option Text :=
  (sectionLines szSection (text.splitOn lineFeed)).findSome? (itemValue szItem)

/-- Two semicolons stand for one, and one starts a comment. -/
def uncomment : Text → Text
  | [] => []
  | byte :: rest =>
      if byte = semicolon then
        match rest with
        | [] => []
        | following :: rest =>
            if following = semicolon then byte :: uncomment rest else []
      else byte :: uncomment rest

/-- The value in a buffer, from what stands behind the `=`. -/
def readValue (iValueLen : ℕ) (raw : Text) : Text :=
  let raw := raw.takeWhile (· ≠ carriageReturn)
  let value :=
    if raw.head? = some semicolon then []
    else uncomment (raw.dropWhile (isBlank ·))
  (value.take (iValueLen - 1)).rdropWhile (isBlank ·)

end MessageBus.IniFile
