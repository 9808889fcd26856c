/-!
Old and new spellings of global names.

Streams of the first three protocols may use the old names of modules and of single names in them.
A renaming of a single name goes before that of its module. Some old names are only read.
-/

namespace ObjectStream.LegacyName

/-- Old and new paths of modules. -/
def modules : List (String × String) := [
  ("__builtin__", "builtins"),
  ("copy_reg", "copyreg"),
  ("Queue", "queue"),
  ("SocketServer", "socketserver"),
  ("ConfigParser", "configparser"),
  ("repr", "reprlib"),
  ("_winreg", "winreg"),
  ("thread", "_thread"),
  ("httplib", "http.client"),
  ("htmlentitydefs", "html.entities"),
  ("urlparse", "urllib.parse"),
  ("robotparser", "urllib.robotparser"),
  ("cPickle", "pickle"),
  ("_abcoll", "collections.abc"),
  ("UserDict", "collections"),
  ("UserList", "collections"),
  ("UserString", "collections")]

/-- Old and new names that are mapped both ways. -/
def names : List ((String × String) × (String × String)) := [
  (("__builtin__", "xrange"), ("builtins", "range")),
  (("__builtin__", "reduce"), ("functools", "reduce")),
  (("__builtin__", "intern"), ("sys", "intern")),
  (("__builtin__", "unichr"), ("builtins", "chr")),
  (("__builtin__", "unicode"), ("builtins", "str")),
  (("__builtin__", "long"), ("builtins", "int")),
  (("itertools", "izip"), ("builtins", "zip")),
  (("itertools", "imap"), ("builtins", "map")),
  (("itertools", "ifilter"), ("builtins", "filter")),
  (("itertools", "ifilterfalse"), ("itertools", "filterfalse")),
  (("itertools", "izip_longest"), ("itertools", "zip_longest")),
  (("UserDict", "IterableUserDict"), ("collections", "UserDict"))]

/-- Old names that are only read. -/
def namesReadOnly : List ((String × String) × (String × String)) := [
  (("__builtin__", "basestring"), ("builtins", "str")),
  (("exceptions", "StandardError"), ("builtins", "Exception")),
  (("UserDict", "UserDict"), ("collections", "UserDict"))]

/-- The new spelling of a name. -/
def toCurrent (module name : String) : String × String :=
  match (names ++ namesReadOnly).lookup (module, name) with
  | some current => current
  | none => ((modules.lookup module).getD module, name)

/-- The old spelling of a name. -/
def toLegacy (module name : String) : String × String :=
  match (names.map Prod.swap).lookup (module, name) with
  | some legacy => legacy
  | none => (((modules.map Prod.swap).lookup module).getD module, name)

end ObjectStream.LegacyName
