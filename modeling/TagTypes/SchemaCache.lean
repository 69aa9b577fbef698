import TagTypes.Disk.TextFile
import TagTypes.Schema.Reader

/-!
# The schema cache

The cache keeps schemas under keys. Each schema is a file `KEY.json` in the cache directory. In memory the cache holds two dictionaries, one of the texts and one of the schemas read from them, and what changes the one changes the other. Reloading reads the whole directory anew and tells which keys came, went or changed their text; files that are not schemas are passed over.
-/

namespace TagTypes

structure CachedSchema where
  schema : Schema
  text : String
  deriving Inhabited

/-- Schemas and their texts in a dictionary each. The two have the same keys in the same order. -/
structure CachedSchemas where
  schemas : Dict String Schema := ∅
  texts : Dict String String := ∅
  keys_eq : schemas.keys = texts.keys := by rfl

namespace CachedSchemas

instance : EmptyCollection CachedSchemas := ⟨{}⟩

instance : Inhabited CachedSchemas := ⟨∅⟩

def insert (c : CachedSchemas) (key : String) (entry : CachedSchema) : CachedSchemas where
  schemas := c.schemas.insert key entry.schema
  texts := c.texts.insert key entry.text
  keys_eq := by rw [Dict.keys_insert, Dict.keys_insert, c.keys_eq]

def erase (c : CachedSchemas) (key : String) : CachedSchemas where
  schemas := c.schemas.erase key
  texts := c.texts.erase key
  keys_eq := by rw [Dict.keys_erase, Dict.keys_erase, c.keys_eq]

/-- The schema under a key with its text. -/
def get? (c : CachedSchemas) (key : String) : Option CachedSchema :=
  match c.schemas.get? key, c.texts.get? key with
  | some schema, some text => some ⟨schema, text⟩
  | _, _ => none

end CachedSchemas

structure SchemaCache where
  directory : FilePath
  entries : CachedSchemas := ∅
  deriving Inhabited

inductive CacheError where
  | invalidKey (key : String)
  | refused (error : Schema.ParseError)
  | writeFailed (file : FilePath)
  | removeFailed (file : FilePath)
  | noDirectory (directory : FilePath)
  | embeddedNull
  | unencodable

def CacheError.message : CacheError → String
  | .invalidKey key => "Invalid schema name: " ++ Text.quoted key
  | .refused error => error.message
  | .writeFailed file => "Failed to write schema file: " ++ file.text
  | .removeFailed file => "Failed to delete schema file: " ++ file.text
  | .noDirectory directory => "Cannot create cache directory: " ++ directory.text
  | .embeddedNull => "embedded null byte"
  | .unencodable => ""

/-- What a reload found, as sorted keys. -/
structure CacheChanges where
  added : List String := []
  updated : List String := []
  deleted : List String := []
  deriving DecidableEq, Repr, Inhabited

def CacheChanges.any (c : CacheChanges) : Bool :=
  !(c.added.isEmpty && c.updated.isEmpty && c.deleted.isEmpty)

namespace SchemaCache

/-- A key must be the name of a file in the cache directory. -/
def isValidKey (key : String) : Bool :=
  key ≠ "" && key ≠ "." && key ≠ ".." && key.toList.all fun c => c ≠ '/' && c ≠ '\\' && c ≠ '\x00'

def keys (c : SchemaCache) : List String := c.entries.schemas.keys

def size (c : SchemaCache) : Nat := c.entries.schemas.size

def schema? (c : SchemaCache) (key : String) : Option Schema := c.entries.schemas.get? key

def text? (c : SchemaCache) (key : String) : Option String := c.entries.texts.get? key

def schemas (c : SchemaCache) : List Schema := c.entries.schemas.values

def fileFor (c : SchemaCache) (key : String) : FilePath := c.directory.child (key ++ ".json")

def fileNames (directory : FilePath) (disk : Disk) : List String :=
  match disk.status directory with
  | .ok (place, .directory) => (disk.namesIn place).filter fun name => ".json".toList.isSuffixOf name.toList
  | _ => []

/-- Take in one file of the cache directory, if it holds a schema. -/
def load (directory : FilePath) (disk : Disk) (entries : CachedSchemas) (name : String) : CachedSchemas :=
  let key := FilePath.stemOf name
  match disk.readText (directory.child name) with
  | .error _ => entries
  | .ok text =>
    match Schema.parse key text with
    | .error _ => entries
    | .ok schema => entries.insert key ⟨schema, text⟩

def loadAll (directory : FilePath) (disk : Disk) : CachedSchemas :=
  (fileNames directory disk).foldl (load directory disk) ∅

/-- Make the cache directory if need be and take in what is there. -/
def prepare (c : SchemaCache) (disk : Disk) : Except CacheError SchemaCache × Disk :=
  match Disk.ensureDirectories c.directory disk with
  | (.error .embeddedNull, disk) => (.error .embeddedNull, disk)
  | (.error _, disk) => (.error (.noDirectory c.directory), disk)
  | (.ok _, disk) => (.ok { c with entries := loadAll c.directory disk }, disk)

/-- Save a schema under a key. The cache stays as it is if the text is not a schema or cannot be written, and so does the file, unless the write is struck. -/
def save (c : SchemaCache) (key text : String) (disk : Disk) (strike : Option Disk.Strike := none) :
    Except CacheError (Schema × SchemaCache) × Disk :=
  if !isValidKey key then (.error (.invalidKey key), disk)
  else
    match Schema.parse key text with
    | .error error => (.error (.refused error), disk)
    | .ok schema =>
      match Disk.writeTextUnder strike (c.fileFor key) text disk with
      | (.error .embeddedNull, disk) => (.error .embeddedNull, disk)
      | (.error .unencodable, disk) => (.error .unencodable, disk)
      | (.error _, disk) => (.error (.writeFailed (c.fileFor key)), disk)
      | (.ok _, disk) => (.ok (schema, { c with entries := c.entries.insert key ⟨schema, text⟩ }), disk)

/-- Remove the schema under a key, with its file, if there is one. -/
def remove (c : SchemaCache) (key : String) (disk : Disk) : Except CacheError SchemaCache × Disk :=
  if !isValidKey key then (.error (.invalidKey key), disk)
  else
    match Disk.removeFileIfThere (c.fileFor key) disk with
    | (.error .embeddedNull, disk) => (.error .embeddedNull, disk)
    | (.error _, disk) => (.error (.removeFailed (c.fileFor key)), disk)
    | (.ok _, disk) => (.ok { c with entries := c.entries.erase key }, disk)

/-- How the texts have changed. -/
def changes (old new : CachedSchemas) : CacheChanges where
  added := Text.sorted (new.texts.keys.filter (!old.texts.contains ·))
  updated := Text.sorted (new.texts.keys.filter fun key =>
    old.texts.contains key && old.texts.get? key ≠ new.texts.get? key)
  deleted := Text.sorted (old.texts.keys.filter (!new.texts.contains ·))

def reload (c : SchemaCache) (disk : Disk) : CacheChanges × SchemaCache :=
  let entries := loadAll c.directory disk
  (changes c.entries entries, { c with entries })

end SchemaCache

end TagTypes
