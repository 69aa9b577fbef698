/-!
# Tokens of settings files

What a settings file is made of: scalars, the marks of lists and maps, and what is said about nodes and documents. Lists and maps in block form are told by their indentation, so their beginnings and ends are tokens that stand at no character.
-/

namespace TagTypes.Yaml

/-- What is said about a document before it begins. -/
inductive Directive where
  | version (major : Nat)
  | handle (handle stem : String)
  | other
  deriving DecidableEq, Repr, Inhabited

inductive Token where
  | directive (d : Directive)
  | documentStart
  | documentEnd
  | sequenceStart
  | mappingStart
  | blockEnd
  | flowSequenceStart
  | flowSequenceEnd
  | flowMappingStart
  | flowMappingEnd
  | blockEntry
  | flowEntry
  | key
  | value
  | alias (name : String)
  | anchor (name : String)
  | tag (handle : Option String) (suffix : String)
  | scalar (text : String) (isPlain : Bool)
  | streamEnd
  deriving DecidableEq, Repr, Inhabited

end TagTypes.Yaml
