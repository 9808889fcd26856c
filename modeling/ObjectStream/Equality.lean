import ObjectStream.Hashing

/-!
Equality of values.

Numbers are equal by value whatever their type, byte strings and byte arrays by content, and sets
and dictionaries without regard to order. An object equals itself. Different objects are compared by
content, and a comparison of cyclic objects may run around the cycles without end; then there is no
answer.

While an object is filled it is closed, and a comparison that has to open it has no answer either.
-/

namespace ObjectStream

/-- A value as a number. -/
inductive Number where
  | int (n : Int)
  | float (x : Double)
  | complex (re im : Double)

namespace Number

/-- The number that a value is. -/
def ofValue? : Value → Option Number
  | .bool b => some (.int b.toInt)
  | .int n => some (.int n.toInt)
  | .long n => some (.int n)
  | .float x => some (.float x)
  | .complex re im => some (.complex re im)
  | _ => none

/-- Equality of real numbers: an integer equals the double that is exactly that integer. -/
def sameReal : Number → Number → Bool
  | .int m, .int n => m == n
  | .float x, .float y => x.same y
  | .float x, .int n => x.toInt? == some n
  | .int n, .float x => x.toInt? == some n
  | _, _ => false

/-- Equality of numbers: a complex number equals a real one if its imaginary part is zero. -/
def same : Number → Number → Bool
  | .complex re im, .complex re' im' => re.same re' && im.same im'
  | .complex re im, y => im.isZero && sameReal (.float re) y
  | x, .complex re im => im.isZero && sameReal (.float re) x
  | x, y => sameReal x y

end Number

/-- Whether all members pass a test, asked in order up to the first that fails or has no answer. -/
def allPass {α : Type} (test : α → Option Bool) : List α → Option Bool
  | [] => some true
  | a :: rest =>
    match test a with
    | some true => allPass test rest
    | other => other

namespace Store

variable {H : Type} [HostObject H]

/-- The place of a key in a table, while `holder` is being filled, where `same old new` compares a key
    of the table with it. -/
def placeBy {α : Type} (s : Store H) (holder : Option Nat) (same : Value → Value → Option Bool)
    (t : Keyed α) (key : Value) : Except KeyError (Option Nat) := do
  match t.find (HostObject.probing H) (← s.image holder key) (fun old => same old key) with
  | some place => .ok place
  | none => .error .endless

/-- The place of a key, where a value that is no key has none. -/
def keyPlace {α : Type} (s : Store H) (holder : Option Nat) (same : Value → Value → Option Bool)
    (t : Keyed α) (key : Value) : Option (Option Nat) :=
  match s.placeBy holder same t key with
  | .ok place => some place
  | .error (.unhashable _) => some none
  | .error .endless => none

/-- Equality of lists of values, item by item. -/
def sameItems (same : Value → Value → Option Bool) (a b : List Value) : Option Bool :=
  if a.length = b.length then allPass (fun (x, y) => same x y) (a.zip b) else some false

/-- Equality of dictionaries, while `holder` is being filled: as many entries, and every key of `a` has
    its value in `b`. -/
def sameDictFor (s : Store H) (holder : Option Nat) (same : Value → Value → Option Bool) (a b : Dict) :
    Option Bool :=
  if a.size = b.size then
    allPass (fun (key, content) =>
      match s.keyPlace holder same b key with
      | none => none
      | some none => some false
      | some (some place) =>
        match b.at? place with
        | some other => same other content
        | none => some false) a.entries.toList
  else some false

/-- Equality of sets, while `holder` is being filled: as many members, and every member of `a` is in
    `b`. -/
def sameMembersFor (s : Store H) (holder : Option Nat) (same : Value → Value → Option Bool)
    (a b : Members) : Option Bool :=
  if a.size = b.size then
    allPass (fun key =>
      match s.keyPlace holder same b key with
      | none => none
      | some place => some place.isSome) a.keys
  else some false

/-- Equality of dictionaries. -/
def sameDict (s : Store H) (same : Value → Value → Option Bool) (a b : Dict) : Option Bool :=
  s.sameDictFor none same a b

/-- Equality of sets. -/
def sameMembers (s : Store H) (same : Value → Value → Option Bool) (a b : Members) : Option Bool :=
  s.sameMembersFor none same a b

/-- Equality of the contents of two objects. A set is asked before a frozen set. -/
def sameCells (s : Store H) (holder : Option Nat) (same : Value → Value → Option Bool) :
    Cell H → Cell H → Option Bool
  | .bytearray a, .bytearray b => some (a == b)
  | .list a, .list b => sameItems same a.toList b.toList
  | .tuple a, .tuple b => sameItems same a b
  | .dict a, .dict b => s.sameDictFor holder same a b
  | .set a, .set b => s.sameMembersFor holder same a b
  | .set a, .frozenset b => s.sameMembersFor holder same a b
  | .frozenset a, .set b => s.sameMembersFor holder same b a
  | .frozenset a, .frozenset b => s.sameMembersFor holder same a b
  | .global a, .global b => some (a.same b)
  | .inst c a, .inst d b =>
    if c.key = d.key ∨ (c.module = d.module ∧ c.qualname = d.qualname) then s.sameDictFor holder same a b
    else some false
  | .object a, .object b =>
    if HostObject.type a = HostObject.type b then
      match HostObject.same a b with
      | some pairs => allPass (fun (x, y) => same x y) pairs
      | none => some false
    else some false
  | _, _ => some false

/-- Whether a comparison of two objects opens them: they can change, and are compared by content. -/
def opened : Cell H → Cell H → Bool
  | .bytearray _, .bytearray _ | .list _, .list _ | .dict _, .dict _ | .set _, .set _
  | .set _, .frozenset _ | .frozenset _, .set _ | .inst _ _, .inst _ _ => true
  | _, _ => false

/-- Equality of values that are not both numbers, while `holder` is being filled. -/
def sameBy (s : Store H) (holder : Option Nat) (same : Value → Value → Option Bool) (a b : Value) :
    Option Bool :=
  match a, b with
  | .none, .none => some true
  | .str x, .str y => some (x == y)
  | .bytes x, .bytes y => some (x == y)
  | .emptyTuple, .emptyTuple => some true
  | .bytes x, .ref j =>
    match s.cells[j]? with
    | some (.bytearray y) => some (x == y)
    | _ => some false
  | .ref i, .bytes y =>
    match s.cells[i]? with
    | some (.bytearray x) => some (x == y)
    | _ => some false
  | .ref i, .ref j =>
    if i = j then some true
    else match s.cells[i]?, s.cells[j]? with
      | some x, some y =>
        if (holder = some i ∨ holder = some j) ∧ opened x y then none
        else s.sameCells holder same x y
      | _, _ => some false
  | _, _ => some false

/-- Equality of values while `holder` is being filled, with comparisons nested at most `fuel`
    deep. -/
def equalWithin (s : Store H) (holder : Option Nat) : (fuel : Nat) → Value → Value → Option Bool
  | 0, _, _ => none
  | fuel + 1, a, b =>
    match Number.ofValue? a, Number.ofValue? b with
    | some x, some y => some (x.same y)
    | _, _ => s.sameBy holder (s.equalWithin holder fuel) a b

/-- Equality of values while `holder` is being filled; `none` where the comparison has no answer. A
    comparison that goes deeper than there are pairs of objects has met a pair inside itself and
    repeats for ever. -/
def equalFor (s : Store H) (holder : Option Nat) (a b : Value) : Option Bool :=
  s.equalWithin holder (s.size * s.size + 2) a b

/-- Equality of values; `none` where the comparison has no end. -/
def equal? (s : Store H) (a b : Value) : Option Bool := s.equalFor none a b

/-- The place of a key in a table. -/
def place {α : Type} (s : Store H) (t : Keyed α) (key : Value) : Except KeyError (Option Nat) :=
  s.placeBy none s.equal? t key

/-- Puts an entry into the table of the object `holder`, or into one of no object, and hands back the
    content that it replaces. -/
def insertFor {α : Type} (s : Store H) (holder : Option Nat) (t : Keyed α) (key : Value)
    (content : α) : Except KeyError (Option α × Keyed α) := do
  let image ← s.image holder key
  match t.find (HostObject.probing H) image (fun old => s.equalFor holder old key) with
  | none => .error .endless
  | some place => .ok (place.bind t.at?, t.put place image key content)

/-- Puts an entry into a table, and hands back the content that it replaces. -/
def insert {α : Type} (s : Store H) (t : Keyed α) (key : Value) (content : α) :
    Except KeyError (Option α × Keyed α) :=
  s.insertFor none t key content

/-- The content under a key; a value that is no key has none. -/
def lookup? {α : Type} (s : Store H) (t : Keyed α) (key : Value) : Except KeyError (Option α) :=
  match s.place t key with
  | .ok place => .ok (place.bind t.at?)
  | .error (.unhashable _) => .ok none
  | .error .endless => .error .endless

/-- Puts entries into a table one after the other; a later entry replaces an earlier one. -/
def insertAll {α : Type} (s : Store H) (t : Keyed α) (entries : List (Value × α)) :
    Except KeyError (Keyed α) :=
  entries.foldlM (fun t (key, content) => (s.insert t key content).map Prod.snd) t

/-- A dictionary of the entries. -/
def dictOf (s : Store H) (entries : List (Value × Value)) : Except KeyError Dict :=
  s.insertAll .empty entries

/-- A set of the members. -/
def membersOf (s : Store H) (members : List Value) : Except KeyError Members :=
  s.insertAll .empty (members.map fun v => (v, ()))

/-- The value that the first rule gives whose pattern equals `v`. -/
def firstMatch? (s : Store H) (rules : List (Value × Value)) (v : Value) : Option Value :=
  (rules.find? fun rule => s.equal? rule.1 v == some true).map Prod.snd

end Store

/-- Stores an entry in the dictionary or the instance with this number, and hands back the content
    that it replaces. -/
def Action.putEntry {H : Type} [HostObject H] (id : Nat) (key content : Value) :
    Action H (Option Value) := do
  let s ← get
  match s.cells[id]? with
  | none => .fail "no such object"
  | some cell =>
    match s.insertFor (some id) cell.entries key content with
    | .error e => throw (.ofKey e)
    | .ok (old, d) =>
      set (s.modify id (Cell.withEntries fun _ => d))
      pure old

end ObjectStream
