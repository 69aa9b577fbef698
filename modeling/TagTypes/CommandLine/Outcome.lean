import TagTypes.Broker.Client
import TagTypes.Schema.Reader
import TagTypes.Settings.File
import TagTypes.TagStore.Provider

/-!
# How a command ends

A command ends with a code: 0 if it did its work, 1 if it could not, and 2 if its command line is refused. A failure that no command foresees ends it without a code.
-/

namespace TagTypes.CommandLine

inductive Failure where
  | text (fault : TextFault)
  | settings (error : Settings.FileError)
  | provider (error : ProviderError)
  | address (error : Broker.AddressError)
  | client (error : Broker.ClientError)
  /-- There is neither a name nor a file to take it from. -/
  | noName

def Failure.noNameMessage : String := "expected str, bytes or os.PathLike object, not NoneType"

structure Outcome where
  code : Except Failure Nat
  output : String := ""
  requests : List Broker.Request := []
  disk : Disk

namespace Outcome

def done : Nat := 0

def gaveUp : Nat := 1

def refused : Nat := 2

/-- The end of a command that leaves the disk as it is. -/
def ending (code : Except Failure Nat) (disk : Disk) : Outcome := { code, disk }

end Outcome

end TagTypes.CommandLine
