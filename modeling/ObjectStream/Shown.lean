import ObjectStream.Host
import ObjectStream.Number.FloatText
import ObjectStream.Text.ByteLiteral
import ObjectStream.Text.Quoted

/-!
Values as shown to a reader.

Containers show their contents down to a fixed depth, so the text of a cyclic object is finite.
-/

namespace ObjectStream

/-- The depth of nesting below which three dots stand for contents. -/
def shownDepth : Nat := 25

/-- A global as shown to a reader. -/
def Global.shown (g : Global) : String :=
  match g.module with
  | some m => "<global " ++ m ++ "." ++ g.qualname ++ ">"
  | none => "<global " ++ g.qualname ++ ">"

/-- A symbol as shown to a reader. -/
def Symbol.shown : Symbol → String
  | .function _ => "Symbol::Function(..)"
  | .ofClass c => "Symbol::Class(" ++ c.module ++ "." ++ c.qualname ++ ")"

/-- Texts with commas between them. -/
def commaed (texts : List String) : String := ", ".intercalate texts

/-- Entries between braces. -/
def shownEntries (entry : Value → String) (entries : List (Value × Value)) : String :=
  "\x7b" ++ commaed (entries.map fun (k, v) => entry k ++ ": " ++ entry v) ++ "\x7d"

/-- Members between braces. -/
def shownMembers (member : Value → String) (members : List Value) : String :=
  "\x7b" ++ commaed (members.map member) ++ "\x7d"

/-- An optional text as shown to a reader. -/
def shownOption : Option String → String
  | some text => "Some(" ++ text ++ ")"
  | none => "None"

namespace Store

variable {H : Type} [HostObject H]

/-- An object as shown to a reader, its contents shown by `item`. -/
def shownCell (item : Value → String) : Cell H → String
  | .bytearray data => "bytearray(" ++ ByteLiteral.write ByteLiteral.shortEscape data ++ ")"
  | .list items => "[" ++ commaed (items.toList.map item) ++ "]"
  | .tuple items =>
    "(" ++ commaed (items.map item) ++ if items.length = 1 then ",)" else ")"
  | .dict entries => shownEntries item entries.entries.toList
  | .set members => if members.size = 0 then "set()" else shownMembers item members.keys
  | .frozenset members =>
    "frozenset(" ++ (if members.size = 0 then "" else shownMembers item members.keys) ++ ")"
  | .global g => g.shown
  | .inst cls attributes =>
    "<" ++ cls.qualname ++ " " ++ shownEntries item attributes.entries.toList ++ ">"
  | .object content => HostObject.text content

/-- A value as shown to a reader, with contents shown `depth` deep. -/
def shownWithin (s : Store H) : (depth : Nat) → Value → String
  | 0, _ => "..."
  | depth + 1, v =>
    match v with
    | .none => "None"
    | .bool true => "True"
    | .bool false => "False"
    | .int n => toString n.toInt
    | .long n => Digits.signedText n
    | .float x => x.text
    | .complex re im => "(" ++ re.text ++ im.signedText ++ "j)"
    | .str text => Text.quoted text
    | .bytes bs => ByteLiteral.write ByteLiteral.shortEscape bs
    | .emptyTuple => "()"
    | .ref id =>
      match s.cells[id]? with
      | some cell => shownCell (s.shownWithin depth) cell
      | none => "<unknown>"

/-- A value as shown to a reader. -/
def shown (s : Store H) (v : Value) : String := s.shownWithin shownDepth v

/-- A dictionary on its own as shown to a reader. -/
def shownDict (s : Store H) (d : Dict) : String := shownEntries s.shown d.entries.toList

/-- A set on its own as shown to a reader. -/
def shownSet (s : Store H) (members : Members) : String := shownMembers s.shown members.keys

/-- A reduction as shown to a reader. -/
def shownReduction (s : Store H) (r : Reduction) : String :=
  "Reduction \x7b callable: " ++ s.shown r.callable ++ ", args: " ++ s.shown r.args ++
    ", state: " ++ shownOption (r.state.map s.shown) ++
    ", list_items: " ++ toString r.listItems.isSome ++
    ", dict_items: " ++ toString r.dictItems.isSome ++
    ", state_setter: " ++ shownOption (r.stateSetter.map s.shown) ++ " \x7d"

end Store

/-- A class as shown to a reader. -/
def Class.shown {H : Type} (c : Class) (hooks : ClassHooks H) : String :=
  "ClassDef \x7b module: " ++ Text.quoted c.module ++ ", qualname: " ++ Text.quoted c.qualname ++
    ", get_state: " ++ toString hooks.getState.isSome ++
    ", set_state: " ++ toString hooks.setState.isSome ++ " \x7d"

end ObjectStream
