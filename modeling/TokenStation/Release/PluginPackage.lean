import Mathlib.Data.List.Lex
import TokenStation.Library.Hex
import TokenStation.Library.SelfDelimiting
import TokenStation.Library.SortByKey
import TokenStation.Protocol.Text

/-!
# Plugin packages

A package is a directory, and what is signed is a text about it: the path and the hash of every
file, in the order of the paths. The signature itself lies in the package and is left out of the
text. The directory is one of Unix, can be read, and does not change meanwhile.
-/

namespace TokenStation

namespace PluginPackage

open Library

def formatVersion : ℕ := 1

def maxPluginFiles : ℕ := 10000
def maxPluginDepth : ℕ := 16
def maxPluginFileBytes : ℕ := 64 * 1024 * 1024
def maxPluginPackageBytes : ℕ := 128 * 1024 * 1024

/-! ## Directories -/

/-- A file name: a text, or bytes that are none. -/
inductive OsName where
  | utf8 (text : String)
  | other (bytes : List UInt8)
  deriving DecidableEq

namespace OsName

def toStr : OsName → Option String
  | utf8 text => some text
  | other _ => none

/-- The bytes of a name, by which names are ordered. -/
def bytes : OsName → List ℕ
  | utf8 text => (SelfDelimiting.utf8 text).map UInt8.toNat
  | other bytes => bytes.map UInt8.toNat

end OsName

/-- A path relative to the package. -/
abbrev OsPath : Type := List OsName

/-- Paths are ordered by their components. -/
def pathKey (path : OsPath) : List (List ℕ) := path.map OsName.bytes

/-- `Path::to_str`. -/
def pathStr (path : OsPath) : Option String :=
  (path.mapM OsName.toStr).map fun names ↦ "/".intercalate names

/-- What stands in a directory. Its members come in the order in which they are read. -/
inductive DirEntry where
  | file (content : List UInt8) (links : ℕ)
  | directory (entries : List (OsName × DirEntry))
  | symlink
  | special

/-- What stands at a path. -/
def DirEntry.at : OsPath → DirEntry → Option DirEntry
  | [], entry => some entry
  | name :: path, .directory entries =>
    (entries.find? fun member ↦ member.1 = name).bind fun member ↦ DirEntry.at path member.2
  | _ :: _, _ => none

/-! ## The digest -/

inductive PackageError where
  | notADirectory
  | empty
  | tooDeep
  | tooManyFiles
  | isSymlink (relative : OsPath)
  | isSpecial (relative : OsPath)
  | notAFile (relative : OsPath)
  | hardLinks (relative : OsPath)
  | fileTooLarge (relative : OsPath)
  | packageTooLarge
  | notUtf8

/-- The text of an error. Paths are displayed by the standard library. -/
def PackageError.message (display : OsPath → String) : PackageError → String
  | notADirectory => s!"package `{display []}` is not a directory"
  | empty => s!"package `{display []}` is empty"
  | tooDeep => s!"package directory depth exceeds the {maxPluginDepth} level limit"
  | tooManyFiles => s!"package contains more than {maxPluginFiles} files"
  | isSymlink relative =>
    s!"package entry `{display relative}` is a symbolic link; symbolic links are forbidden"
  | isSpecial relative =>
    s!"package entry `{display relative}` is not a regular file or directory"
  | notAFile relative => s!"package entry `{display relative}` is not a regular file"
  | hardLinks relative => s!"package entry `{display relative}` has multiple hard links"
  | fileTooLarge relative =>
    s!"package entry `{display relative}` exceeds the {maxPluginFileBytes} byte file limit"
  | packageTooLarge => s!"package exceeds the {maxPluginPackageBytes} byte total limit"
  | notUtf8 => "package file name is not UTF-8"

/-- `PLUGIN_SIGNATURE_FILE`, at the root of a package. -/
def pluginSignatureFile : OsName := .utf8 "signature.sig"

mutual

/-- The body of the loop of `collect_plugin_files`, for one member. -/
def collectEntry (relative : OsPath) (depth : ℕ) :
    DirEntry → List OsPath → Except PackageError (List OsPath)
  | .symlink, _ => .error (.isSymlink relative)
  | .directory entries, files =>
    if maxPluginDepth < depth + 1 then .error .tooDeep
    else collectPluginFiles relative (depth + 1) entries files
  | .file _ _, files =>
    if maxPluginFiles < files.length + 1 then .error .tooManyFiles
    else .ok (files ++ [relative])
  | .special, _ => .error (.isSpecial relative)

/-- `collect_plugin_files`: the files below a directory, in the order in which they are met. -/
def collectPluginFiles (directory : OsPath) (depth : ℕ) :
    List (OsName × DirEntry) → List OsPath → Except PackageError (List OsPath)
  | [], files => .ok files
  | (name, entry) :: entries, files =>
    if directory ++ [name] = [pluginSignatureFile] then
      collectPluginFiles directory depth entries files
    else
      match collectEntry (directory ++ [name]) depth entry files with
      | .error error => .error error
      | .ok files => collectPluginFiles directory depth entries files

end

section Digest

-- the hash function, in bytes
variable (sha256 : List UInt8 → List UInt8)

/-- `sha256_file`, of a file with this content. -/
def sha256File (content : List UInt8) : String := String.ofList (Hex.encode (sha256 content))

/-- The loop of `plugin_package_digest` over the sorted paths. -/
def digestFiles (package : DirEntry) : List OsPath → ℕ → String → Except PackageError String
  | [], _, digest => .ok digest
  | relative :: files, totalBytes, digest =>
    match package.at relative with
    | some (.file content links) =>
      if links ≠ 1 then .error (.hardLinks relative)
      else if maxPluginFileBytes < content.length then .error (.fileTooLarge relative)
      else if maxPluginPackageBytes < totalBytes + content.length then .error .packageTooLarge
      else
        match pathStr relative with
        | none => .error .notUtf8
        | some name =>
          digestFiles package files (totalBytes + content.length)
            (digest ++ name ++ "\n" ++ sha256File sha256 content ++ "\n")
    | _ => .error (.notAFile relative)

/-- `plugin_package_digest`. -/
def pluginPackageDigest (package : DirEntry) : Except PackageError String :=
  match package with
  | .directory entries =>
    match collectPluginFiles [] 0 entries [] with
    | .error error => .error error
    | .ok files =>
      if files.isEmpty then .error .empty
      else digestFiles sha256 package (sortByKey pathKey files) 0 ""
  | _ => .error .notADirectory

end Digest

/-! ## Signatures -/

/-- What a `signature.sig` says. -/
structure PluginSignature where
  formatVersion : ℕ
  algorithm : String
  signature : String

/-- Ed25519 with one key. -/
structure Ed25519 where
  sign : List UInt8 → List UInt8
  verify : List UInt8 → List UInt8 → Bool

/-- `u8::from_str_radix` of two bytes: a plus sign is allowed. -/
def fromStrRadix16 (high low : UInt8) : Option UInt8 :=
  (Hex.decode
    [if high = 43 then '0' else (Char.ofNat high.toNat).toLower,
      (Char.ofNat low.toNat).toLower]).bind List.head?

/-- `unhex`, over the bytes of a text. Where the source slices inside a character it panics, and
that is an error here. -/
def unhex : List UInt8 → Except String (List UInt8)
  | [] => .ok []
  | [_] => .error "hex input has odd length"
  | high :: low :: rest =>
    match fromStrRadix16 high low, unhex rest with
    | some byte, .ok bytes => .ok (byte :: bytes)
    | none, _ => .error "hex input has non-hex characters"
    | _, .error error => .error error

section Signatures

variable (sha256 : List UInt8 → List UInt8) (ed25519 : Ed25519) (display : OsPath → String)

/-- `verify_bytes`. -/
def verifyBytes (message : List UInt8) (signatureHex : String) : Except String Unit :=
  match unhex (SelfDelimiting.utf8 (String.ofList (trim signatureHex.toList))) with
  | .error error => .error error
  | .ok raw =>
    if raw.length ≠ 64 then .error "signature is not 64 bytes"
    else if ed25519.verify message raw then .ok () else .error "signature does not verify"

/-- `sign_plugin_package`, before the signature is written as a document. -/
def signPluginPackage (package : DirEntry) : Except String PluginSignature :=
  match pluginPackageDigest sha256 package with
  | .error error => .error (error.message display)
  | .ok digest =>
    .ok { formatVersion, algorithm := "ed25519"
          signature := String.ofList (Hex.encode (ed25519.sign (SelfDelimiting.utf8 digest))) }

/-- `verify_plugin_package`. The signature file is read as a document by the standard library and
the derived reader. -/
def verifyPluginPackage (readSignature : Option DirEntry → Except String PluginSignature)
    (package : DirEntry) : Except String Unit :=
  match readSignature (package.at [pluginSignatureFile]) with
  | .error error => .error s!"signature.sig: {error}"
  | .ok parsed =>
    if parsed.formatVersion ≠ formatVersion then
      .error s!"signature.sig format version {parsed.formatVersion} is not {formatVersion}"
    else if parsed.algorithm ≠ "ed25519" then .error s!"unknown algorithm `{parsed.algorithm}`"
    else
      match pluginPackageDigest sha256 package with
      | .error error => .error (error.message display)
      | .ok digest => verifyBytes ed25519 (SelfDelimiting.utf8 digest) parsed.signature

end Signatures

end PluginPackage

end TokenStation
