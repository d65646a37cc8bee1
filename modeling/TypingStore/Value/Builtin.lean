import TypingStore.Failure

/-!
# Built-in names

Plain data comes with operations and parts that go by names of their own. They can be named, but
not changed, and no others can be added.

* `Value.refusal`: why a field of plain data cannot be changed.
-/

namespace TypingStore.Value

/-- The names of the parts of a number. -/
def numberParts : List String := ["denominator", "imag", "numerator", "real"]

/-- The names that every value comes with. -/
def commonOperations : List String :=
  ["__delattr__", "__dir__", "__doc__", "__eq__", "__format__", "__ge__", "__getattribute__",
    "__getstate__", "__gt__", "__hash__", "__init__", "__init_subclass__", "__le__", "__lt__",
    "__ne__", "__new__", "__reduce__", "__reduce_ex__", "__repr__", "__setattr__", "__sizeof__",
    "__str__", "__subclasshook__"]

/-- The names of the operations on numbers. -/
def numberOperations : List String :=
  ["__abs__", "__add__", "__and__", "__bool__", "__ceil__", "__divmod__", "__float__",
    "__floor__", "__floordiv__", "__getnewargs__", "__index__", "__int__", "__invert__",
    "__lshift__", "__mod__", "__mul__", "__neg__", "__or__", "__pos__", "__pow__", "__radd__",
    "__rand__", "__rdivmod__", "__rfloordiv__", "__rlshift__", "__rmod__", "__rmul__", "__ror__",
    "__round__", "__rpow__", "__rrshift__", "__rshift__", "__rsub__", "__rtruediv__", "__rxor__",
    "__sub__", "__truediv__", "__trunc__", "__xor__", "as_integer_ratio", "bit_count",
    "bit_length", "conjugate", "from_bytes", "to_bytes"]

/-- The names of the operations on texts, lists and tuples alike. -/
def rowOperations : List String :=
  ["__add__", "__contains__", "__getitem__", "__iter__", "__len__", "__mul__", "__rmul__"]

/-- The names of the operations on texts. -/
def textOperations : List String :=
  ["__getnewargs__", "__mod__", "__rmod__", "capitalize", "casefold", "center", "count", "encode",
    "endswith", "expandtabs", "find", "format", "format_map", "index", "isalnum", "isalpha",
    "isascii", "isdecimal", "isdigit", "isidentifier", "islower", "isnumeric", "isprintable",
    "isspace", "istitle", "isupper", "join", "ljust", "lower", "lstrip", "maketrans", "partition",
    "removeprefix", "removesuffix", "replace", "rfind", "rindex", "rjust", "rpartition", "rsplit",
    "rstrip", "split", "splitlines", "startswith", "strip", "swapcase", "title", "translate",
    "upper", "zfill"]

/-- The names of the operations on lists. -/
def listOperations : List String :=
  ["__class_getitem__", "__delitem__", "__iadd__", "__imul__", "__reversed__", "__setitem__",
    "append", "clear", "copy", "count", "extend", "index", "insert", "pop", "remove", "reverse",
    "sort"]

/-- The names of the operations on tuples. -/
def tupleOperations : List String :=
  ["__class_getitem__", "__getnewargs__", "count", "index"]

/-- The names of the operations that plain data comes with. -/
def operations : Value → List String
  | .absent => "__bool__" :: commonOperations
  | .bool _ | .int _ _ => numberOperations ++ commonOperations
  | .text _ _ => textOperations ++ rowOperations ++ commonOperations
  | .list _ _ => listOperations ++ rowOperations ++ commonOperations
  | .tuple _ _ => tupleOperations ++ rowOperations ++ commonOperations
  | _ => commonOperations

/-- The names of the parts that plain data comes with. -/
def partNames : Value → List String
  | .bool _ | .int _ _ => numberParts
  | _ => []

/-- Why plain data cannot take `new` for one of its fields. -/
def refusal (v : Value) (field : String) (new : Value) : Failure :=
  if field = "__class__" then .notClass new.kindName
  else if field ∈ v.partNames then .unwritableField "int" field
  else if field ∈ v.operations then .readOnlyField v.kindName field
  else .noSuchField v.kindName field

end TypingStore.Value
