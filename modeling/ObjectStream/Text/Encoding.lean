import ObjectStream.Text.Utf8
import ObjectStream.Text.Quoted

/-!
The text encodings that a stream may name, and encoding and decoding under them.
-/

namespace ObjectStream

/-- A text encoding. -/
inductive Encoding where
  | ascii
  | latin1
  | utf8
  deriving DecidableEq

namespace Encoding

/-- The encoding with this name. Case, hyphens and underscores do not matter. -/
def ofName? (name : String) : Option Encoding :=
  let key := String.ofList <| (name.toList.filter fun c => c != '-' && c != '_').map Char.toLower
  if key ∈ ["ascii", "usascii"] then some .ascii
  else if key ∈ ["latin1", "latin", "iso88591", "l1"] then some .latin1
  else if key ∈ ["utf8", "u8"] then some .utf8
  else none

/-- The name an encoding goes by in messages. -/
def name : Encoding → String
  | .ascii => "ascii"
  | .latin1 => "latin-1"
  | .utf8 => "utf-8"

/-- A character that an encoding has no byte for, and its place in the text. -/
structure Unencodable where
  encoding : Encoding
  char : Char
  position : Nat
  deriving DecidableEq

/-- The wording of the failure. -/
def Unencodable.message (e : Unencodable) : String :=
  Text.quoted e.encoding.name ++ " codec can't encode character " ++ Text.quotedSingle e.char ++
    " in position " ++ toString e.position

/-- One byte for each character below `limit`; `position` counts the characters before. -/
def encodeBytes (encoding : Encoding) (limit : Nat) :
    (position : Nat) → (written : Bytes) → List Char → Except Unencodable Bytes
  | _, written, [] => .ok written.reverse
  | position, written, c :: rest =>
    if c.toNat < limit then
      encodeBytes encoding limit (position + 1) (UInt8.ofNat c.toNat :: written) rest
    else .error ⟨encoding, c, position⟩

/-- The bytes of a text. -/
def encode (encoding : Encoding) (text : String) : Except Unencodable Bytes :=
  match encoding with
  | .utf8 => .ok (Text.utf8 text)
  | .ascii => encodeBytes .ascii 0x80 0 [] text.toList
  | .latin1 => encodeBytes .latin1 0x100 0 [] text.toList

/-- The text in which each byte is the character of that number. -/
def ofLatin1 (bs : Bytes) : String :=
  String.ofList (bs.map fun b => Char.ofNat b.toNat)

/-- The text that the bytes stand for. -/
def decode? (encoding : Encoding) (bs : Bytes) : Option String :=
  match encoding with
  | .utf8 => Text.ofUtf8? bs
  | .ascii => if bs.all (· < 0x80) then some (ofLatin1 bs) else none
  | .latin1 => some (ofLatin1 bs)

end Encoding

end ObjectStream
