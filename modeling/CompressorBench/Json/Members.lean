import CompressorBench.Json.Basic
import CompressorBench.Text.Quoted

/-!
# Members of a description

What a JSON value says when it describes something: a missing member stands for nothing, for zero,
or for no.

A text may be spelled in pieces, which are put one after the other: strings, a string that is
repeated a number of times, and bytes by their hexadecimal digits. So a long text, or one that is
not UTF-8, has a short description.
-/

namespace CompressorBench.Json

/-! ## Texts in pieces -/

/-- Appends the bytes that pairs of hexadecimal digits stand for. -/
def appendHex (bytes : ByteArray) : List Char → ByteArray
  | high :: low :: rest =>
    match Text.hexValue? high, Text.hexValue? low with
    | some high, some low => appendHex (bytes.push (high * 16 + low).toUInt8) rest
    | _, _ => bytes
  | _ => bytes

/-- Appends a unit a number of times. -/
def appendRepeated (bytes unit : ByteArray) : Nat → ByteArray
  | 0 => bytes
  | count + 1 => appendRepeated (bytes ++ unit) unit count

/-- Appends the bytes of a piece. -/
def appendPiece (bytes : ByteArray) : Json → ByteArray
  | .str text => bytes ++ text.toUTF8
  | .arr [.str unit, .int count] => appendRepeated bytes unit.toUTF8 count.toNat
  | .obj [("hex", .str digits)] => appendHex bytes digits.toList
  | _ => bytes

/-- The bytes of a text, which is a string or an array of pieces. -/
def spelledBytes : Json → ByteArray
  | .str text => text.toUTF8
  | .arr pieces => pieces.foldl appendPiece ByteArray.empty
  | _ => ByteArray.empty

/-- A text, which is a string or an array of pieces. Bytes that are not UTF-8 spell no text. -/
def spelledText (value : Json) : String := (String.fromUTF8? value.spelledBytes).getD ""

example : spelledText (.arr [.str "a", .arr [.str "bc", .int 2], .obj [("hex", .str "C3a9")]])
    = "abcbcé" := by decide +kernel

/-! ## Members -/

/-- The member with a name, `null` if there is none. -/
def member (value : Json) (name : String) : Json := (value.get? name).getD .null

/-- The text of a member. -/
def textMember (value : Json) (name : String) : String := (value.member name).spelledText

/-- The bytes of a member. -/
def bytesMember (value : Json) (name : String) : ByteArray := (value.member name).spelledBytes

/-- The number of a member. -/
def natMember (value : Json) (name : String) : Nat := (value.member name).asNat?.getD 0

/-- Whether a member is there and true. -/
def flagMember (value : Json) (name : String) : Bool := (value.member name).asBool?.getD false

/-- The items of a member. -/
def itemsMember (value : Json) (name : String) : List Json :=
  (value.member name).asArray?.getD []

/-- The texts of a member. -/
def textsMember (value : Json) (name : String) : List String :=
  (value.itemsMember name).map spelledText

end CompressorBench.Json
