import TagTypes.Text.Quoted
import TagTypes.Yaml.Calendar

/-!
# Why a settings file gives no value

Most texts that give no value are malformed. The other faults are told apart because they are no matter of form: the bytes of a file may be no text, and a text can be well formed and name a day that no calendar has, or a number that no text may have. The writing of a file may end at such a number as well.
-/

namespace TagTypes.Yaml

inductive Fault where
  | malformed
  | notText
  | tooDeep
  | calendar (fault : CalendarFault)
  | tooManyDigits (digits : Nat)
  | tooLongToWrite
  | notWhole (text : String) (base : Nat)
  | notReal (text : String)
  | tooLarge
  | notMoment
  | momentOfMap
  | noNumber
  | unknownWord (word : String)
  | noCharacter (code : Nat)
  deriving DecidableEq, Repr, Inhabited

def Fault.message : Fault → String
  | .malformed => "malformed settings"
  | .notText => ""
  | .tooDeep => "maximum recursion depth exceeded"
  | .calendar fault => fault.message
  | .tooManyDigits digits => Text.overlongText digits
  | .tooLongToWrite => Text.unwritableText
  | .notWhole text base =>
    "invalid literal for int() with base " ++ Text.natText base ++ ": " ++
      String.ofList ((Text.quotedChars text.toList).take 200)
  | .notReal text => "could not convert string to float: " ++ Text.quoted text
  | .tooLarge => "int too large to convert to float"
  | .notMoment => "'NoneType' object has no attribute 'groupdict'"
  | .momentOfMap => "expected string or bytes-like object, got 'list'"
  | .noNumber => "string index out of range"
  | .unknownWord word => Text.quoted word
  | .noCharacter _ => "chr() arg not in range(0x110000)"

end TagTypes.Yaml
