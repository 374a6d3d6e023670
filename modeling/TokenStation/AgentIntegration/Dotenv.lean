import TokenStation.AgentIntegration.Types
import TokenStation.Library.Lines
import TokenStation.Protocol.Text

/-!
# Dotenv configurations

A dotenv document is kept as its text, so that comments and the operator's own lines survive. It is
read line by line into assignments that know where their line stands in the text, and a key is
written, restored or removed by replacing that range of the text.
-/

namespace TokenStation

open Library

/-- The document, as it is rendered. -/
structure LosslessDotenvDocument where
  rendered : List Char
  deriving DecidableEq

/-- An assignment and its line, which is the range from `start` to `stop` of the text. -/
structure DotenvEntry where
  key : List Char
  value : List Char
  start : ℕ
  stop : ℕ
  raw : List Char
  deriving DecidableEq

namespace Dotenv

def isBlank (c : Char) : Bool := c == ' ' || c == '\t'

def isNewline (c : Char) : Bool := c == '\r' || c == '\n'

def isKeyChar (c : Char) : Bool := c.isAlphanum || c == '_'

/-! ## Reading -/

def validateTrailing (trailing : List Char) : Except String Unit :=
  match trailing.dropWhile isBlank with
  | [] => .ok ()
  | c :: _ => if c = '#' then .ok () else .error "引号值后包含无效内容"

/-- The character that an escape stands for. -/
def unescape : Char → Char
  | 'n' => '\n'
  | 'r' => '\r'
  | 't' => '\t'
  | other => other

/-- The value inside double quotes, up to the quote that closes it. -/
def parseDoubleQuoted (escaped : Bool) : List Char → Except String (List Char)
  | [] => .error "双引号值未闭合"
  | c :: rest =>
    if escaped then (parseDoubleQuoted false rest).map (unescape c :: ·)
    else if c = '\\' then parseDoubleQuoted true rest
    else if c = '"' then (validateTrailing rest).map fun _ ↦ []
    else (parseDoubleQuoted false rest).map (c :: ·)

/-- An unquoted value up to its comment, which starts the source or follows a space. -/
def beforeComment (previous : Option Char) : List Char → List Char
  | [] => []
  | c :: rest =>
    if c = '#' ∧ previous.all isWhitespace then [] else c :: beforeComment (some c) rest

def parseValue (source : List Char) : Except String (List Char) :=
  match source with
  | '\'' :: rest =>
    let value := rest.takeWhile (· ≠ '\'')
    match rest.drop value.length with
    | [] => .error "单引号值未闭合"
    | _ :: trailing => (validateTrailing trailing).map fun _ ↦ value
  | '"' :: rest => parseDoubleQuoted false rest
  | _ => .ok (trimEndMatches isWhitespace (beforeComment none source))

/-- Drop the word `export`, if a blank follows it. -/
def afterExport (rest : List Char) : List Char :=
  match stripPrefix "export".toList rest with
  | some (c :: tail) => if isBlank c then (c :: tail).dropWhile isBlank else rest
  | _ => rest

/-- The key and the value of a line, or `none` for a blank line or a comment. -/
def parseAssignment (line : List Char) : Except String (Option (List Char × List Char)) :=
  match line.dropWhile isBlank with
  | [] => .ok none
  | '#' :: _ => .ok none
  | rest =>
    let rest := afterExport rest
    let key := rest.takeWhile isKeyChar
    match key with
    | [] => .error "包含无效键名"
    | first :: _ =>
      if !first.isAlpha && first != '_' then .error "包含无效键名"
      else
        match (rest.drop key.length).dropWhile isBlank with
        | '=' :: source =>
          (parseValue (source.dropWhile isBlank)).map fun value ↦ some (key, value)
        | _ => .error ("键 '" ++ String.ofList key ++ "' 缺少 '='")

/-- What a line assigns. -/
def assignment (line : List Char) : Except String (Option (List Char × List Char)) :=
  parseAssignment (trimEndMatches isNewline line)

/-- The entries of the lines from `offset` on. The source's branch for text after the last cut
never runs, since the cut keeps an unterminated last line. -/
def entriesFrom (seen : List (List Char)) (offset : ℕ) :
    List (List Char) → Except String (List DotenvEntry)
  | [] => .ok []
  | line :: lines =>
    match assignment line with
    | .error error => .error error
    | .ok none => entriesFrom seen (offset + line.length) lines
    | .ok (some (key, value)) =>
      if key ∈ seen then .error ("包含重复键 '" ++ String.ofList key ++ "'")
      else
        (entriesFrom (key :: seen) (offset + line.length) lines).map
          (⟨key, value, offset, offset + line.length, line⟩ :: ·)

/-- `dotenv_entries`. -/
def entries (rendered : List Char) : Except String (List DotenvEntry) :=
  entriesFrom [] 0 (splitInclusive '\n' rendered)

/-! ## Writing -/

/-- The key that a path names. -/
def pathKey (path : ConfigPath) : Except String (List Char) :=
  match path.segments with
  | [key] =>
    let key := key.toList
    if key.isEmpty || decide (128 < key.length) || !key.all isKeyChar
        || key.head?.any Char.isDigit then
      .error ("dotenv 配置路径 '" ++ path.toText ++ "' 不合法")
    else .ok key
  | _ => .error ("dotenv 配置路径 '" ++ path.toText ++ "' 必须只有一个键")

/-- `value.replace(c, text)`. -/
def replaceChar (c : Char) (text value : List Char) : List Char :=
  value.flatMap fun d ↦ if d = c then text else [d]

def quotedValue (value : List Char) : Except String (List Char) :=
  if value.any fun c ↦ c == '\n' || c == '\r' || c == '\x00' then
    .error "dotenv 写入值不能包含换行或 NUL"
  else
    .ok ('"' :: replaceChar '"' ['\\', '"'] (replaceChar '\\' ['\\', '\\'] value) ++ ['"'])

/-- `String::replace_range`. -/
def replaceRange (text : List Char) (start stop : ℕ) (replacement : List Char) : List Char :=
  text.take start ++ replacement ++ text.drop stop

/-- Replace the line of a key, remove it, or put a new one at the end. -/
def replaceRaw (rendered key : List Char) (replacement : Option (List Char)) :
    Except String (List Char) :=
  match entries rendered with
  | .error error => .error error
  | .ok found =>
    match found.find? (·.key = key), replacement with
    | some entry, some replacement =>
      .ok (replaceRange rendered entry.start entry.stop replacement)
    | some entry, none => .ok (replaceRange rendered entry.start entry.stop [])
    | none, some replacement =>
      if !rendered.isEmpty && rendered.getLast? != some '\n' then
        .ok (rendered ++ ['\n'] ++ replacement)
      else .ok (rendered ++ replacement)
    | none, none => .ok rendered

/-- The text of a JSON string. -/
def asStr : Option JsonValue → Option (List Char)
  | some (.string text) => some text.toList
  | _ => none

/-- The add and the replace of `apply_dotenv_operation`: the line end is the one the text uses. -/
def applyWrite (document : LosslessDotenvDocument) (operation : PatchOperation)
    (key : List Char) : Except String LosslessDotenvDocument :=
  match asStr operation.value with
  | none => .error ("dotenv 配置路径 '" ++ operation.path.toText ++ "' 只允许字符串")
  | some value =>
    let newline := if ['\r', '\n'] <:+: document.rendered then ['\r', '\n'] else ['\n']
    match quotedValue value with
    | .error error => .error error
    | .ok quoted =>
      (replaceRaw document.rendered key (some (key ++ ['='] ++ quoted ++ newline))).map
        LosslessDotenvDocument.mk

/-- `apply_dotenv_operation`. -/
def applyOperation (document : LosslessDotenvDocument) (operation : PatchOperation) :
    Except String LosslessDotenvDocument := do
  let key ← pathKey operation.path
  match operation.operation with
  | .add => applyWrite document operation key
  | .replace => applyWrite document operation key
  | .remove =>
    let rendered ← replaceRaw document.rendered key none
    .ok ⟨rendered⟩
  | .test =>
    match asStr operation.value with
    | none => .error ("dotenv test 路径 '" ++ operation.path.toText ++ "' 只允许字符串")
    | some expected =>
      let found ← entries document.rendered
      if (found.find? (·.key = key)).map (·.value) = some expected then .ok document
      else .error ("dotenv test 路径 '" ++ operation.path.toText ++ "' 不匹配")

/-- `apply_patch` on a dotenv document. -/
def applyPatch (document : LosslessDotenvDocument) :
    List PatchOperation → Except String LosslessDotenvDocument
  | [] => .ok document
  | operation :: operations => do
    let document ← applyOperation document operation
    applyPatch document operations

/-- Put the owned keys back to their lines in the baseline, one after the other. -/
def projectFrom (baselineEntries : List DotenvEntry) (rendered : List Char) :
    List ConfigPath → Except String (List Char)
  | [] => .ok rendered
  | path :: paths => do
    let key ← pathKey path
    let raw := (baselineEntries.find? (·.key = key)).map (·.raw)
    let rendered ← replaceRaw rendered key raw
    projectFrom baselineEntries rendered paths

/-- `project_dotenv_paths`. -/
def projectPaths (current baseline : LosslessDotenvDocument) (ownedPaths : List ConfigPath) :
    Except String LosslessDotenvDocument := do
  let baselineEntries ← entries baseline.rendered
  let rendered ← projectFrom baselineEntries current.rendered ownedPaths
  .ok ⟨rendered⟩

end Dotenv

end TokenStation
