import ObjectStream.Host
import ObjectStream.Number.TwosComplement
import ObjectStream.Text.Utf8

/-!
Images of keys.

The image of a key is a byte string made so that equal keys have equal images: numbers that are
whole have the image of the integer, whatever their type, and the payload of a not-a-number leaves no
trace. A table files a key under its image. Objects that can change have no image and are no keys,
apart from instances and host objects, whose image names only what they are.

While an entry is put into an instance, the image of that instance does not name its class. So an
entry of an instance whose key holds the instance itself is filed where only a further entry that is
put into this instance meets it: looked up from outside, its key is not there.
-/

namespace ObjectStream

namespace Image

/-- The image of an integer. -/
def ofInt (n : Int) : Bytes :=
  if fitsWord n then 2 :: Bytes.ofNatLE 8 (Int64.ofInt n).toUInt64.toNat
  else 12 :: TwosComplement.encode n

/-- The image of a double: that of the integer if it is one. -/
def ofDouble (x : Double) : Bytes :=
  match x.toInt? with
  | some n => ofInt n
  | none => 3 :: Bytes.ofNatLE 8 x.settled.bits.toNat

/-- The image of a complex number: that of its real part if it is real. -/
def ofComplex (re im : Double) : Bytes :=
  if im.isZero then ofDouble re
  else 4 :: Bytes.ofNatLE 8 re.settled.bits.toNat ++ Bytes.ofNatLE 8 im.settled.bits.toNat

/-- A number made from a byte string, for a short sum of its bytes. -/
def hash (image : Array UInt8) : UInt64 :=
  image.foldl (fun h b => (h ^^^ b.toUInt64) * 0x100000001b3) 0xcbf29ce484222325

end Image

namespace Store

variable {H : Type} [HostObject H]

/-- The image of a value as a key for the object `holder`, behind the bytes `before` it, with tuples
    nested at most `fuel` deep. -/
def imageWithin (s : Store H) (holder : Option Nat) :
    (fuel : Nat) → (before : Array UInt8) → Value → Except KeyError (Array UInt8)
  | _, before, .none => .ok (before.push 0)
  | _, before, .bool b => .ok (before ++ Image.ofInt b.toInt)
  | _, before, .int n => .ok (before ++ Image.ofInt n.toInt)
  | _, before, .long n => .ok (before ++ Image.ofInt n)
  | _, before, .float x => .ok (before ++ Image.ofDouble x)
  | _, before, .complex re im => .ok (before ++ Image.ofComplex re im)
  | _, before, .str text => .ok ((before.push 5 ++ Text.utf8 text).push 0xff)
  | _, before, .bytes bs => .ok (before.push 6 ++ bs ++ Bytes.ofNatLE 8 bs.length)
  | _, before, .emptyTuple => .ok (before.push 7 ++ Bytes.ofNatLE 8 0)
  | fuel, before, .ref id =>
    match s.cells[id]? with
    | some (.tuple items) =>
      match fuel with
      | 0 => .error .endless
      | fuel + 1 =>
        items.foldlM (s.imageWithin holder fuel) (before.push 7 ++ Bytes.ofNatLE 8 items.length)
    | some (.frozenset members) => .ok (before.push 8 ++ Bytes.ofNatLE 8 members.size)
    | some (.global g) => .ok (before.push 9 ++ Text.utf8 g.qualname)
    | some (.inst cls _) =>
      .ok (before.push 10 ++ if holder = some id then [] else Text.utf8 cls.qualname)
    | some (.object content) => .ok (before.push 11 ++ Text.utf8 (HostObject.type content).path)
    | _ => .error (.unhashable (s.typeName (.ref id)))

/-- The image of a value as a key for the object `holder`, if an entry is being put into one. A tuple
    holds only objects older than itself, so tuples are nested at most as deep as there are
    objects. -/
def image (s : Store H) (holder : Option Nat) (v : Value) : Except KeyError (Array UInt8) :=
  s.imageWithin holder (s.size + 1) #[] v

end Store

end ObjectStream
