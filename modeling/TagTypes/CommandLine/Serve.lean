import TagTypes.CommandLine.Outcome
import TagTypes.CommandLine.Words
import TagTypes.Service
import TagTypes.Udt.Build

/-!
# The command that serves types

The command runs the service with the settings of a file until it is told to stop, or it shows the types of one schema file and ends at once.
-/

namespace TagTypes.CommandLine

/-- What is asked for; an empty text counts as nothing. -/
structure ServeOptions where
  settingsFile : String := ""
  dataDirectory : String := ""
  schemaFile : String := ""

namespace ServeOptions

def flags : List Flag := [
  { name := "config_file", letter := some 'c' },
  { name := "data_dir", letter := some 'd' },
  { name := "log-level" },
  { name := "export" }]

def logLevels : List String := ["DEBUG", "INFO", "WARNING", "ERROR"]

def set (o : ServeOptions) (option : String × String) : Option ServeOptions :=
  match option with
  | ("config_file", value) => some { o with settingsFile := value }
  | ("data_dir", value) => some { o with dataDirectory := value }
  | ("export", value) => some { o with schemaFile := value }
  | ("log-level", value) => if value ∈ logLevels then some o else none
  | _ => none

def read? (texts : List String) : Option ServeOptions := do
  let line ← CommandLine.read? flags false texts
  line.options.foldlM set {}

end ServeOptions

namespace Serve

def showTypes (path : FilePath) (disk : Disk) : Outcome :=
  match disk.readText path with
  | .error (.disk .embeddedNull) => .ending (.error (.text (.disk .embeddedNull))) disk
  | .error (.disk _) => .ending (.ok Outcome.gaveUp) disk
  | .error .notText => .ending (.error (.text .notText)) disk
  | .ok text =>
    match Schema.parse path.stem text with
    | .error _ => .ending (.ok Outcome.gaveUp) disk
    | .ok schema => { code := .ok Outcome.done, output := Udt.exportText schema ++ "\n", disk }

/-- The settings of a file; without a file they are the default ones. -/
def settings (yaml : Yaml.Library) (file : String) (disk : Disk) : Except Settings.FileError Settings × Disk :=
  if file = "" then (.ok {}, disk) else Settings.load yaml (FilePath.parse file) disk

/-- The options outweigh the settings. -/
def adjusted (o : ServeOptions) (s : Settings) : Settings :=
  if o.dataDirectory = "" then s else { s with dataDirectory := o.dataDirectory }

def serve (k : Broker.Conditions) (s : Settings) (disk : Disk) : Outcome :=
  match Service.build s disk with
  | .error e => .ending (.error (.provider e)) disk
  | .ok service =>
    let service := (service.start k).stop k
    { code := .ok Outcome.done
      requests := (service.feed.map fun feed => feed.client.requests).getD []
      disk := service.disk }

def runWith (yaml : Yaml.Library) (o : ServeOptions) (k : Broker.Conditions) (disk : Disk) : Outcome :=
  if o.schemaFile ≠ "" then showTypes (FilePath.parse o.schemaFile) disk
  else
    match settings yaml o.settingsFile disk with
    | (.error e, disk) => .ending (.error (.settings e)) disk
    | (.ok s, disk) => serve k (adjusted o s) disk

/-- Run the command. It is told to stop as soon as it waits. -/
def run (yaml : Yaml.Library) (texts : List String) (k : Broker.Conditions) (disk : Disk) : Outcome :=
  match ServeOptions.read? texts with
  | none => .ending (.ok Outcome.refused) disk
  | some o => runWith yaml o k disk

end Serve

end TagTypes.CommandLine
