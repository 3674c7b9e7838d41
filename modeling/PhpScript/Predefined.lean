import PhpScript.Request.Basic
import PhpScript.Request.Form
import PhpScript.Scope
import PhpScript.Settings.Basic

/-!
# Predefined constants and variables

What the global scope holds before a script is run: the native functions, constants of the language
and the machine, and the inputs of the request.
-/

namespace PhpScript.Predefined

def version : String := "8.3.0"

def languageConstants : List (String × Value) :=
  [("TRUE", .bool true), ("FALSE", .bool false), ("NULL", .null),
    ("PHP_VERSION", .str version), ("PHP_MAJOR_VERSION", .int 8), ("PHP_MINOR_VERSION", .int 3),
    ("PHP_RELEASE_VERSION", .int 0), ("PHP_EXTRA_VERSION", .str ""), ("PHP_VERSION_ID", .int 80300),
    ("PHP_EOL", .str "\n"), ("PHP_INT_MAX", .int Int64.maxValue),
    ("PHP_INT_MIN", .int Int64.minValue), ("PHP_INT_SIZE", .int 8),
    ("PHP_FLOAT_EPSILON", .float (Float.ofBits 0x3cb0000000000000)),
    ("PHP_FLOAT_MAX", .float (Float.ofBits 0x7fefffffffffffff)),
    ("PHP_FLOAT_MIN", .float (Float.ofBits 0x0010000000000000)),
    ("PHP_FLOAT_DIG", .int 15), ("PHP_OS", .str "Linux"), ("PHP_OS_FAMILY", .str "Linux"),
    ("DIRECTORY_SEPARATOR", .str "/"), ("NAN", .float Binary64.notANumber),
    ("INF", .float (Binary64.infinity false))]

def mathConstants : List (String × UInt64) :=
  [("M_PI", 0x400921fb54442d18), ("M_E", 0x4005bf0a8b145769), ("M_LOG2E", 0x3ff71547652b82fe),
    ("M_LOG10E", 0x3fdbcb7b1526e50e), ("M_LN2", 0x3fe62e42fefa39ef), ("M_LN10", 0x40026bb1bbb55516),
    ("M_PI_2", 0x3ff921fb54442d18), ("M_PI_4", 0x3fe921fb54442d18), ("M_1_PI", 0x3fd45f306dc9c883),
    ("M_2_PI", 0x3fe45f306dc9c883), ("M_2_SQRTPI", 0x3ff20dd750429b6d),
    ("M_SQRT2", 0x3ff6a09e667f3bcd), ("M_SQRT1_2", 0x3fe6a09e667f3bcd),
    ("M_SQRT3", 0x3ffbb67ae8584caa), ("M_SQRTPI", 0x3ffc5bf891b4ef6b),
    ("M_LNPI", 0x3ff250d048e7a1bd), ("M_EULER", 0x3fe2788cfc6fb619)]

def argumentConstants : List (String × Value) :=
  [("PHP_ROUND_HALF_UP", .int 1), ("PHP_ROUND_HALF_DOWN", .int 2), ("PHP_ROUND_HALF_EVEN", .int 3),
    ("PHP_ROUND_HALF_ODD", .int 4), ("COUNT_NORMAL", .int 0), ("COUNT_RECURSIVE", .int 1)]

def levelConstants : List (String × Value) :=
  Severity.all.map (fun severity => (severity.constantName, .int severity.level))
    ++ [("E_ALL", .int Severity.everything)]

def constants : List (String × Value) :=
  languageConstants ++ mathConstants.map (fun (name, bits) => (name, .float (Float.ofBits bits)))
    ++ argumentConstants ++ levelConstants

def pairs (entries : List (String × String)) : Table Key Value :=
  Table.ofList (entries.map fun (name, value) => (Key.ofString name, .str value))

def arguments (request : Request) (filename : String) : Table Key Value :=
  Table.ofValues (.str filename :: request.arguments.map .str)

def server (request : Request) (filename : String) (now : Moment) : Table Key Value :=
  let microseconds := now.seconds * 1000000 + now.microseconds
  let arguments := arguments request filename
  let entries : List (String × Value) :=
    [("PHP_SELF", .str filename), ("SCRIPT_NAME", .str filename),
      ("SCRIPT_FILENAME", .str filename), ("PATH_TRANSLATED", .str filename),
      ("DOCUMENT_ROOT", .str ""), ("QUERY_STRING", .str request.query),
      ("REQUEST_TIME_FLOAT", .float (Binary64.ofInt microseconds / 1000000.0)),
      ("REQUEST_TIME", .int (Integer.wrap now.seconds)), ("argv", .array arguments),
      ("argc", .int (Int64.ofNat arguments.size))]
  ((pairs request.environment).insertAll (entries.map fun (name, value) => (.str name, value)))
    |>.insertAll (request.server.map fun (name, value) => (Key.ofString name, .str value))

/-- The variables that a script starts with. -/
def bindings (request : Request) (filename : String) (now : Moment) : Table String Value :=
  let query := Form.query request.query
  let body := Form.query request.body
  let cookies := Form.cookies request.cookie
  let server := server request filename now
  let ofServer (name : String) : Value := (server.get? (.str name)).getD .null
  Table.ofList
    [("_GET", .array query), ("_POST", .array body), ("_COOKIE", .array cookies),
      ("_REQUEST", .array ((query.insertAll body.entries).insertAll cookies.entries)),
      ("_ENV", .array (pairs request.environment)), ("_FILES", .array Table.empty),
      ("_SERVER", .array server), ("argv", ofServer "argv"), ("argc", ofServer "argc")]

/-- The global scope that a script starts with. -/
def scope (request : Request) (filename : String) (now : Moment) : GlobalScope :=
  { bindings := bindings request filename now
    constants := Table.ofList constants
    natives := Table.ofList Native.names }

end PhpScript.Predefined
