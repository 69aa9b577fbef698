import TagTypes.Proofs.Disk.Writing
import TagTypes.Proofs.Settings.Reader

/-!
# Loading settings files

A settings file that is there is loaded without a change to the disk. Whatever library reads it, it gives settings if the library finds it malformed, which gives the default settings, or makes a value of it in which no setting is blocked. Everything else is an error: bytes that are no text, a date or a number that there is none of, an infinite number where a whole one is wanted, a value that is nested too deep.
-/

namespace TagTypes.Settings

variable {yaml : Yaml.Library} {path : FilePath} {disk : Disk} {place : List String} {content : ByteArray} {s : Settings}

/-- The settings that a file with these bytes gives. -/
inductive Gives (yaml : Yaml.Library) (content : ByteArray) : Settings → Prop where
  | malformed (hload : yaml.load content = .error .malformed) : Gives yaml content {}
  | value {root : Yaml.Value} {s : Settings} (hload : yaml.load content = .ok root) (hfree : ¬HasBlocked root)
      (hentries : s.entries = ({} : Settings).entries.map (readEntry root (rootFields root))) : Gives yaml content s

theorem ofBytes_eq_ok_iff : ofBytes yaml content = .ok s ↔ Gives yaml content s := by
  unfold ofBytes
  constructor
  · intro hs
    split at hs
    · rename_i root hload
      cases hroot : ofValue root with
      | error fault =>
        rw [hroot] at hs
        cases hs
      | ok found =>
        rw [hroot] at hs
        cases hs
        obtain ⟨hfree, hentries⟩ := ofValue_eq_ok_iff.1 hroot
        exact .value hload hfree hentries
    · rename_i hload
      cases hs
      exact .malformed hload
    · cases hs
  · rintro (hload | ⟨hload, hfree, hentries⟩)
    · rw [hload]
    · rw [hload]
      simp only [ofValue_eq_ok_iff.2 ⟨hfree, hentries⟩, Except.mapError]

theorem qos_mem_of_gives (hgives : Gives yaml content s) : 0 ≤ s.broker.qos ∧ s.broker.qos ≤ 2 := by
  cases hgives with
  | malformed hload => decide
  | value hload hfree hentries => exact qos_mem_of_ofValue (ofValue_eq_ok_iff.2 ⟨hfree, hentries⟩)

theorem load_of_status (hfile : disk.status path = .ok (place, .file content)) :
    load yaml path disk = (ofBytes yaml content, disk) := by
  simp only [load, hfile, read, Disk.readFile_of_status hfile]

/-- What is loaded from a file that is there: the library finds it malformed, or makes a value of it that blocks no setting. Each setting is then the converted value under its name, or the default if there is none; the level of delivery is always one. -/
theorem load_eq_ok_iff (yaml : Yaml.Library) (hfile : disk.status path = .ok (place, .file content)) :
    (load yaml path disk).2 = disk ∧
      ((load yaml path disk).1 = .ok s ↔ Gives yaml content s) ∧
      ((load yaml path disk).1 = .ok s → 0 ≤ s.broker.qos ∧ s.broker.qos ≤ 2) := by
  rw [load_of_status hfile]
  exact ⟨rfl, ofBytes_eq_ok_iff, fun hs => qos_mem_of_gives (ofBytes_eq_ok_iff.1 hs)⟩

/-- A disk with nothing but a settings file. -/
def diskWith (content : ByteArray) : Disk := { nodes := Dict.ofList [(["config.yaml"], .file content)] }

/-- The path of that file. -/
def configPath : FilePath := FilePath.parse "config.yaml"

theorem status_diskWith (content : ByteArray) : (diskWith content).status configPath = .ok (["config.yaml"], .file content) := by
  rfl

def mixedText : String := "data_dir: 5\nmqtt:\n  enabled: ' Off'\n  topic: ~\n  qos: 3\n  keepalive_sec: .nan\n"

def mixedSettings : Settings := { dataDirectory := "5", broker := { enabled := false } }

/-- A whole number is taken for a text and a quoted word for a truth value; null, a level of delivery that there is none of and a time that is no number leave the default. -/
theorem load_mixed :
    load .standard configPath (diskWith mixedText.toUTF8) = (.ok mixedSettings, diskWith mixedText.toUTF8) ∧
      Gives .standard mixedText.toUTF8 mixedSettings ∧
      0 ≤ mixedSettings.broker.qos ∧ mixedSettings.broker.qos ≤ 2 := by
  obtain ⟨hdisk, hloads, hqos⟩ := load_eq_ok_iff (s := mixedSettings) .standard (status_diskWith mixedText.toUTF8)
  have hloaded : (load .standard configPath (diskWith mixedText.toUTF8)).1 = .ok mixedSettings :=
    toOption_eq_some_iff.1 (by decide +kernel)
  exact ⟨Prod.ext hloaded hdisk, hloads.1 hloaded, hqos hloaded⟩

/-- A file whose bytes are no text, and one with an infinite level of delivery, are not loaded. -/
theorem load_fails :
    (load .standard configPath (diskWith ⟨#[0xff]⟩)).1.toOption = none ∧
      (load .standard configPath (diskWith "mqtt:\n  qos: .inf\n".toUTF8)).1.toOption = none := by
  decide +kernel

end TagTypes.Settings
