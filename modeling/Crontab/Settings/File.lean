import Crontab.Json
import Crontab.Settings.Mapping
import Crontab.Text.LineEnd
import Crontab.Yaml.Document

/-! Settings from a file: JSON by its extension, otherwise YAML. -/
namespace Crontab

inductive FileContent where
  | missing
  | directory
  | bytes (content : ByteArray)

inductive FileError where
  | missing (name : String)
  | directory (name : String)
  | notUtf8
  | document (name : String) (cause : DocumentError)
  | noMapping (name : String)
  | mapping (cause : MappingError)
deriving Repr

namespace FileError

/-- The message; texts that are not UTF-8 have none of their own. -/
def message : FileError → List Nat
  | missing name =>
    Text.points ("Cannot read configuration file " ++ name ++
      ": [Errno 2] No such file or directory: " ++ Text.quoted name)
  | directory name =>
    Text.points ("Cannot read configuration file " ++ name ++ ": [Errno 21] Is a directory: " ++
      Text.quoted name)
  | notUtf8 => []
  | document name .malformed => Text.points ("Cannot parse configuration file " ++ name)
  | document _ (.overlong digits) => Text.points (Text.overlongMessage digits)
  | document _ (.emptyNumeral base) =>
    Text.points ("invalid literal for int() with base " ++ Text.decimal base ++ ": ''")
  | document _ .weightTooBig => Text.points "int too large to convert to float"
  | document _ .noSuchCharacter => Text.points "chr() arg not in range(0x110000)"
  | document _ .characterTooBig => Text.points "Python int too large to convert to C int"
  | noMapping name => Text.points ("Configuration file " ++ name ++ " must contain a mapping")
  | mapping cause => cause.message

end FileError

def Format.read : Format → List Char → Except DocumentError Value
  | json => Json.read
  | yaml => Yaml.read

namespace Settings

/-- The extension of a file name with its point, if there is something on both sides of it. -/
def extension (name : String) : List Char :=
  let cs := name.toList
  let tail := (cs.reverse.takeWhile (· != '.')).reverse
  let stem := cs.length - tail.length - 1
  if tail.isEmpty || stem = 0 || tail.length = cs.length then [] else '.' :: tail

def formatOf (name : String) : Format :=
  if (extension name).map Char.toLower == ".json".toList then .json else .yaml

/-- Settings from a mapping, or from the mapping that it has under the key `table`. -/
def ofDocument (name table : String) : Value → Except FileError Settings
  | .null => (ofMapping []).mapError .mapping
  | .mapping pairs =>
    match Value.lookup? table pairs with
    | some (.mapping inner) => (ofMapping inner).mapError .mapping
    | _ => (ofMapping pairs).mapError .mapping
  | _ => .error (.noMapping name)

def ofFile (name : String) (content : FileContent) (table : String)
    (read : Format → List Char → Except DocumentError Value := Format.read) :
    Except FileError Settings :=
  match content with
  | .missing => .error (.missing name)
  | .directory => .error (.directory name)
  | .bytes content =>
    match String.fromUTF8? content with
    | none => .error .notUtf8
    | some text =>
      match read (formatOf name) (Text.foldLineEnds text.toList) with
      | .error cause => .error (.document name cause)
      | .ok value => ofDocument name table value

end Settings

end Crontab
