/-!
# Scalar types

The scalar types of schemas and how generated code writes them: the type a model field is checked
with and the type that a plain dictionary is described with.
-/

namespace EventSchema

/-- How the values of a scalar attribute are checked. -/
inductive ScalarType where
  /-- A text. -/
  | text
  /-- An integer. -/
  | integer
  /-- A truth value. -/
  | boolean
  /-- A double, or an integer that becomes one. -/
  | double
  /-- Any JSON value. -/
  | json
  /-- Any value: the type is not known. -/
  | unknown
  deriving DecidableEq

namespace ScalarType

/-- The scalar types by their names in schemas. -/
def table : List (String × ScalarType) :=
  [("string_t", .text), ("integer_t", .integer), ("long_t", .integer), ("boolean_t", .boolean),
    ("float_t", .double), ("double_t", .double), ("json_t", .json), ("bytestring_t", .text),
    ("timestamp_t", .integer), ("port_t", .integer), ("cidr_t", .text), ("country_t", .text),
    ("datetime_t", .text), ("email_t", .text), ("file_hash_t", .text), ("file_name_t", .text),
    ("file_path_t", .text), ("fingerprint_t", .text), ("hostname_t", .text), ("ip_t", .text),
    ("mac_t", .text), ("path_t", .text), ("process_name_t", .text), ("resource_uid_t", .text),
    ("subnet_t", .text), ("url_t", .text), ("username_t", .text), ("uuid_t", .text)]

/-- The scalar type of a name. A name that is not listed takes any value. -/
def ofName (name : String) : ScalarType := (table.lookup name).getD .unknown

/-- Whether a name is written like that of a scalar type. -/
def isScalarName (name : String) : Bool := name.endsWith "_t"

/-- The type that a model field is checked with. -/
def modelText : ScalarType → String
  | .text => "StrictStr"
  | .integer => "StrictInt"
  | .boolean => "StrictBool"
  | .double => "StrictFloat"
  | .json => "JsonValue"
  | .unknown => "Any"

/-- The type that a plain dictionary is described with. -/
def plainText : ScalarType → String
  | .text => "str"
  | .integer => "int"
  | .boolean => "bool"
  | .double => "float"
  | .json => "Any"
  | .unknown => "Any"

end ScalarType

end EventSchema
