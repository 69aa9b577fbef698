import TagTypes.Dict
import TagTypes.Text.Sorted

/-!
# The directory of providers

Providers are found by their names. A provider registered under a name that is taken replaces the one before.
-/

namespace TagTypes

structure ProviderDirectory (α : Type) where
  entries : Dict String α := ∅

namespace ProviderDirectory

def register (d : ProviderDirectory α) (name : String) (provider : α) : ProviderDirectory α :=
  ⟨d.entries.insert name provider⟩

def find? (d : ProviderDirectory α) (name : String) : Option α := d.entries.get? name

def names (d : ProviderDirectory α) : List String := Text.sorted d.entries.keys

end ProviderDirectory

end TagTypes
