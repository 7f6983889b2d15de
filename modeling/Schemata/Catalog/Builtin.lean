import Schemata.Catalog.Basic

/-!
The built-in targets. In a template `{0}`, `{1}` and so on stand for the lowered arguments and
`{...}` for all of them; kinds without a row are written as the fallback text, or as bytes.
-/

namespace Schemata.Catalog

open Naming

def jsonTarget : TargetDraft where
  fileExt := "json"
  comment := some ""
  flatten := some false
  lift := some false
  naming := ⟨.preserve, .preserve, .preserve, .preserve, .snake⟩

def yamlTarget : TargetDraft where
  fileExt := "yaml"
  comment := some "#"
  flatten := some false
  lift := some false
  naming := ⟨.preserve, .preserve, .preserve, .preserve, .snake⟩

def tomlTarget : TargetDraft where
  fileExt := "toml"
  comment := some "#"
  flatten := some false
  lift := some false
  naming := ⟨.preserve, .preserve, .preserve, .preserve, .snake⟩

def hclTarget : TargetDraft where
  fileExt := "hcl"
  comment := some "#"
  flatten := some false
  lift := some false
  naming := ⟨.preserve, .preserve, .preserve, .preserve, .snake⟩

def goRows : List (String × Row) := [
  ("bool", ⟨"bool", "false"⟩),
  ("int8", ⟨"int8", "0"⟩),
  ("uint8", ⟨"uint8", "0"⟩),
  ("int16", ⟨"int16", "0"⟩),
  ("uint16", ⟨"uint16", "0"⟩),
  ("int32", ⟨"int32", "0"⟩),
  ("uint32", ⟨"uint32", "0"⟩),
  ("int64", ⟨"int64", "0"⟩),
  ("uint64", ⟨"uint64", "0"⟩),
  ("float32", ⟨"float32", "0"⟩),
  ("float64", ⟨"float64", "0"⟩),
  ("string", ⟨"string", "\"\""⟩),
  ("bytes", ⟨"[]byte", "nil"⟩),
  ("char", ⟨"rune", "0"⟩),
  ("datetime", ⟨"time.Time", "time.Time{}"⟩),
  ("date", ⟨"time.Time", "time.Time{}"⟩),
  ("time", ⟨"time.Time", "time.Time{}"⟩),
  ("duration", ⟨"time.Duration", "0"⟩),
  ("uuid", ⟨"uuid.UUID", "uuid.Nil"⟩),
  ("decimal", ⟨"string", "\"\""⟩),
  ("url", ⟨"string", "\"\""⟩),
  ("email", ⟨"string", "\"\""⟩),
  ("monostate", ⟨"struct{}", "struct{}{}"⟩),
  ("list", ⟨"[]{0}", "nil"⟩),
  ("array", ⟨"[{1}]{0}", "[{1}]{0}{}"⟩),
  ("map", ⟨"map[{0}]{1}", "make(map[{0}]{1})"⟩),
  ("unordered_map", ⟨"map[{0}]{1}", "make(map[{0}]{1})"⟩),
  ("set", ⟨"map[{0}]struct{}", "make(map[{0}]struct{})"⟩),
  ("unordered_set", ⟨"map[{0}]struct{}", "make(map[{0}]struct{})"⟩),
  ("optional", ⟨"*{0}", "nil"⟩),
  ("pointer", ⟨"*{0}", "nil"⟩),
  ("unique_ptr", ⟨"*{0}", "nil"⟩),
  ("shared_ptr", ⟨"*{0}", "nil"⟩),
  ("variant", ⟨"any", "nil"⟩),
  ("struct_ref", ⟨"{0}", "{0}{}"⟩)]

def goTarget : TargetDraft where
  fileExt := "go"
  comment := some "//"
  fallback := "any"
  flatten := some true
  lift := some true
  rows := goRows
  naming := ⟨.pascal, .pascal, .pascal, .lowercase, .snake⟩

def rustRows : List (String × Row) := [
  ("bool", ⟨"bool", "false"⟩),
  ("int8", ⟨"i8", "0"⟩),
  ("uint8", ⟨"u8", "0"⟩),
  ("int16", ⟨"i16", "0"⟩),
  ("uint16", ⟨"u16", "0"⟩),
  ("int32", ⟨"i32", "0"⟩),
  ("uint32", ⟨"u32", "0"⟩),
  ("int64", ⟨"i64", "0"⟩),
  ("uint64", ⟨"u64", "0"⟩),
  ("float32", ⟨"f32", "0.0"⟩),
  ("float64", ⟨"f64", "0.0"⟩),
  ("string", ⟨"String", "String::new()"⟩),
  ("bytes", ⟨"Vec<u8>", "Vec::new()"⟩),
  ("char", ⟨"char", "'\\0'"⟩),
  ("datetime", ⟨"DateTime<Utc>", "Utc::now()"⟩),
  ("date", ⟨"NaiveDate", "NaiveDate::default()"⟩),
  ("time", ⟨"NaiveTime", "NaiveTime::default()"⟩),
  ("duration", ⟨"Duration", "Duration::default()"⟩),
  ("uuid", ⟨"Uuid", "Uuid::nil()"⟩),
  ("decimal", ⟨"Decimal", "Decimal::ZERO"⟩),
  ("url", ⟨"String", "String::new()"⟩),
  ("email", ⟨"String", "String::new()"⟩),
  ("monostate", ⟨"()", "()"⟩),
  ("list", ⟨"Vec<{0}>", "Vec::new()"⟩),
  ("array", ⟨"[{0}; {1}]", "Default::default()"⟩),
  ("map", ⟨"BTreeMap<{0}, {1}>", "BTreeMap::new()"⟩),
  ("unordered_map", ⟨"HashMap<{0}, {1}>", "HashMap::new()"⟩),
  ("set", ⟨"BTreeSet<{0}>", "BTreeSet::new()"⟩),
  ("unordered_set", ⟨"HashSet<{0}>", "HashSet::new()"⟩),
  ("optional", ⟨"Option<{0}>", "None"⟩),
  ("tuple", ⟨"({...})", "Default::default()"⟩),
  ("pair", ⟨"({0}, {1})", "Default::default()"⟩),
  ("pointer", ⟨"Box<{0}>", "Box::default()"⟩),
  ("unique_ptr", ⟨"Box<{0}>", "Box::default()"⟩),
  ("shared_ptr", ⟨"Arc<{0}>", "Arc::default()"⟩),
  ("struct_ref", ⟨"{0}", "{0}::default()"⟩)]

def rustTarget : TargetDraft where
  fileExt := "rs"
  comment := some "//"
  flatten := some true
  lift := some true
  rows := rustRows
  naming := ⟨.pascal, .snake, .pascal, .snake, .snake⟩

def cppRows : List (String × Row) := [
  ("bool", ⟨"bool", "false"⟩),
  ("int8", ⟨"int8_t", "0"⟩),
  ("uint8", ⟨"uint8_t", "0"⟩),
  ("int16", ⟨"int16_t", "0"⟩),
  ("uint16", ⟨"uint16_t", "0"⟩),
  ("int32", ⟨"int32_t", "0"⟩),
  ("uint32", ⟨"uint32_t", "0"⟩),
  ("int64", ⟨"int64_t", "0"⟩),
  ("uint64", ⟨"uint64_t", "0"⟩),
  ("float32", ⟨"float", "0.0f"⟩),
  ("float64", ⟨"double", "0.0"⟩),
  ("string", ⟨"std::string", ""⟩),
  ("bytes", ⟨"std::vector<uint8_t>", ""⟩),
  ("char", ⟨"char", "'\\0'"⟩),
  ("datetime", ⟨"std::chrono::system_clock::time_point", ""⟩),
  ("date", ⟨"std::chrono::year_month_day", ""⟩),
  ("time", ⟨"std::chrono::seconds", ""⟩),
  ("duration", ⟨"std::chrono::nanoseconds", ""⟩),
  ("uuid", ⟨"std::array<uint8_t, 16>", ""⟩),
  ("decimal", ⟨"double", "0.0"⟩),
  ("url", ⟨"std::string", ""⟩),
  ("email", ⟨"std::string", ""⟩),
  ("monostate", ⟨"std::monostate", ""⟩),
  ("list", ⟨"std::vector<{0}>", ""⟩),
  ("array", ⟨"std::array<{0}, {1}>", ""⟩),
  ("map", ⟨"std::map<{0}, {1}>", ""⟩),
  ("unordered_map", ⟨"std::unordered_map<{0}, {1}>", ""⟩),
  ("set", ⟨"std::set<{0}>", ""⟩),
  ("unordered_set", ⟨"std::unordered_set<{0}>", ""⟩),
  ("optional", ⟨"std::optional<{0}>", "std::nullopt"⟩),
  ("tuple", ⟨"std::tuple<{...}>", ""⟩),
  ("variant", ⟨"std::variant<{...}>", ""⟩),
  ("pair", ⟨"std::pair<{0}, {1}>", ""⟩),
  ("pointer", ⟨"{0}*", "nullptr"⟩),
  ("unique_ptr", ⟨"std::unique_ptr<{0}>", "nullptr"⟩),
  ("shared_ptr", ⟨"std::shared_ptr<{0}>", "nullptr"⟩),
  ("struct_ref", ⟨"{0}", ""⟩)]

def cppTarget : TargetDraft where
  fileExt := "h"
  comment := some "//"
  flatten := some true
  lift := some false
  rows := cppRows
  naming := ⟨.pascal, .snake, .upperSnake, .snake, .snake⟩

def pythonRows : List (String × Row) := [
  ("bool", ⟨"bool", "False"⟩),
  ("int8", ⟨"int", "0"⟩),
  ("uint8", ⟨"int", "0"⟩),
  ("int16", ⟨"int", "0"⟩),
  ("uint16", ⟨"int", "0"⟩),
  ("int32", ⟨"int", "0"⟩),
  ("uint32", ⟨"int", "0"⟩),
  ("int64", ⟨"int", "0"⟩),
  ("uint64", ⟨"int", "0"⟩),
  ("float32", ⟨"float", "0.0"⟩),
  ("float64", ⟨"float", "0.0"⟩),
  ("string", ⟨"str", "\"\""⟩),
  ("bytes", ⟨"bytes", "b\"\""⟩),
  ("char", ⟨"str", "\"\""⟩),
  ("datetime", ⟨"datetime", "field(default_factory=datetime.now)"⟩),
  ("date", ⟨"date", "field(default_factory=date.today)"⟩),
  ("time", ⟨"time", "field(default_factory=time)"⟩),
  ("duration", ⟨"timedelta", "field(default_factory=timedelta)"⟩),
  ("uuid", ⟨"UUID", "field(default_factory=uuid4)"⟩),
  ("decimal", ⟨"Decimal", "Decimal(0)"⟩),
  ("url", ⟨"str", "\"\""⟩),
  ("email", ⟨"str", "\"\""⟩),
  ("monostate", ⟨"None", "None"⟩),
  ("list", ⟨"list[{0}]", "field(default_factory=list)"⟩),
  ("array", ⟨"list[{0}]", "field(default_factory=list)"⟩),
  ("map", ⟨"dict[{0}, {1}]", "field(default_factory=dict)"⟩),
  ("unordered_map", ⟨"dict[{0}, {1}]", "field(default_factory=dict)"⟩),
  ("set", ⟨"set[{0}]", "field(default_factory=set)"⟩),
  ("unordered_set", ⟨"set[{0}]", "field(default_factory=set)"⟩),
  ("optional", ⟨"Optional[{0}]", "None"⟩),
  ("tuple", ⟨"tuple[{...}]", "()"⟩),
  ("variant", ⟨"Union[{...}]", "None"⟩),
  ("pair", ⟨"tuple[{0}, {1}]", "()"⟩),
  ("pointer", ⟨"Optional[{0}]", "None"⟩),
  ("unique_ptr", ⟨"Optional[{0}]", "None"⟩),
  ("shared_ptr", ⟨"Optional[{0}]", "None"⟩),
  ("struct_ref", ⟨"{0}", "field(default_factory={0})"⟩)]

def pythonTarget : TargetDraft where
  fileExt := "py"
  comment := some "#"
  fallback := "Any"
  flatten := some true
  lift := some false
  rows := pythonRows
  naming := ⟨.pascal, .snake, .screaming, .snake, .snake⟩

def typescriptRows : List (String × Row) := [
  ("bool", ⟨"boolean", "false"⟩),
  ("int8", ⟨"number", "0"⟩),
  ("uint8", ⟨"number", "0"⟩),
  ("int16", ⟨"number", "0"⟩),
  ("uint16", ⟨"number", "0"⟩),
  ("int32", ⟨"number", "0"⟩),
  ("uint32", ⟨"number", "0"⟩),
  ("int64", ⟨"bigint", "0n"⟩),
  ("uint64", ⟨"bigint", "0n"⟩),
  ("float32", ⟨"number", "0"⟩),
  ("float64", ⟨"number", "0"⟩),
  ("string", ⟨"string", "\"\""⟩),
  ("bytes", ⟨"Uint8Array", "new Uint8Array()"⟩),
  ("char", ⟨"string", "\"\""⟩),
  ("datetime", ⟨"Date", "new Date()"⟩),
  ("date", ⟨"string", "\"\""⟩),
  ("time", ⟨"string", "\"\""⟩),
  ("duration", ⟨"number", "0"⟩),
  ("uuid", ⟨"string", "\"\""⟩),
  ("decimal", ⟨"string", "\"0\""⟩),
  ("url", ⟨"string", "\"\""⟩),
  ("email", ⟨"string", "\"\""⟩),
  ("monostate", ⟨"null", "null"⟩),
  ("list", ⟨"Array<{0}>", "[]"⟩),
  ("array", ⟨"Array<{0}>", "[]"⟩),
  ("map", ⟨"Record<{0}, {1}>", "{}"⟩),
  ("unordered_map", ⟨"Record<{0}, {1}>", "{}"⟩),
  ("set", ⟨"Set<{0}>", "new Set()"⟩),
  ("unordered_set", ⟨"Set<{0}>", "new Set()"⟩),
  ("optional", ⟨"{0} | null", "null"⟩),
  ("tuple", ⟨"[{...}]", "[]"⟩),
  ("pair", ⟨"[{0}, {1}]", "[]"⟩),
  ("pointer", ⟨"{0} | null", "null"⟩),
  ("unique_ptr", ⟨"{0} | null", "null"⟩),
  ("shared_ptr", ⟨"{0} | null", "null"⟩),
  ("struct_ref", ⟨"{0}", "{}"⟩)]

def typescriptTarget : TargetDraft where
  fileExt := "ts"
  comment := some "//"
  fallback := "unknown"
  flatten := some true
  lift := some false
  rows := typescriptRows
  naming := ⟨.pascal, .camel, .pascal, .pascal, .kebab⟩

def protobufRows : List (String × Row) := [
  ("bool", ⟨"bool", ""⟩),
  ("int8", ⟨"int32", ""⟩),
  ("uint8", ⟨"uint32", ""⟩),
  ("int16", ⟨"int32", ""⟩),
  ("uint16", ⟨"uint32", ""⟩),
  ("int32", ⟨"int32", ""⟩),
  ("uint32", ⟨"uint32", ""⟩),
  ("int64", ⟨"int64", ""⟩),
  ("uint64", ⟨"uint64", ""⟩),
  ("float32", ⟨"float", ""⟩),
  ("float64", ⟨"double", ""⟩),
  ("string", ⟨"string", ""⟩),
  ("bytes", ⟨"bytes", ""⟩),
  ("char", ⟨"string", ""⟩),
  ("datetime", ⟨"google.protobuf.Timestamp", ""⟩),
  ("date", ⟨"string", ""⟩),
  ("time", ⟨"string", ""⟩),
  ("duration", ⟨"google.protobuf.Duration", ""⟩),
  ("uuid", ⟨"string", ""⟩),
  ("decimal", ⟨"string", ""⟩),
  ("url", ⟨"string", ""⟩),
  ("email", ⟨"string", ""⟩),
  ("monostate", ⟨"google.protobuf.Empty", ""⟩),
  ("list", ⟨"repeated {0}", ""⟩),
  ("array", ⟨"repeated {0}", ""⟩),
  ("set", ⟨"repeated {0}", ""⟩),
  ("unordered_set", ⟨"repeated {0}", ""⟩),
  ("map", ⟨"map<{0}, {1}>", ""⟩),
  ("unordered_map", ⟨"map<{0}, {1}>", ""⟩),
  ("optional", ⟨"optional {0}", ""⟩),
  ("pointer", ⟨"{0}", ""⟩),
  ("unique_ptr", ⟨"{0}", ""⟩),
  ("shared_ptr", ⟨"{0}", ""⟩),
  ("struct_ref", ⟨"{0}", ""⟩)]

def protobufTarget : TargetDraft where
  fileExt := "proto"
  comment := some "//"
  flatten := some true
  lift := some false
  rows := protobufRows
  naming := ⟨.pascal, .snake, .screaming, .lowercase, .snake⟩

def builtin : Draft where
  version := "1"
  targets := [
    ("json", jsonTarget),
    ("yaml", yamlTarget),
    ("toml", tomlTarget),
    ("hcl", hclTarget),
    ("go", goTarget),
    ("rs", rustTarget),
    ("h", cppTarget),
    ("py", pythonTarget),
    ("ts", typescriptTarget),
    ("proto", protobufTarget)]

end Schemata.Catalog
