import TagTypes.Disk.Basic

/-!
# Text files

Text is kept in UTF-8. Reading a text file turns every line end, written as CR LF, as CR alone or as LF, into LF; writing keeps the text as it is.
-/

namespace TagTypes

def unifyLineEnds : List Char → List Char
  | [] => []
  | '\r' :: '\n' :: rest => '\n' :: unifyLineEnds rest
  | '\r' :: rest => '\n' :: unifyLineEnds rest
  | c :: rest => c :: unifyLineEnds rest

inductive TextFault where
  | disk (fault : DiskFault)
  | notText
  deriving DecidableEq, Repr

namespace Disk

def decodeText (content : ByteArray) : Except TextFault String :=
  match String.fromUTF8? content with
  | some text => .ok (String.ofList (unifyLineEnds text.toList))
  | none => .error .notText

def readText (d : Disk) (p : FilePath) : Except TextFault String :=
  match d.readFile p with
  | .ok content => decodeText content
  | .error fault => .error (.disk fault)

def writeText (p : FilePath) (text : String) : DiskAction Unit := writeFile p text.toUTF8

/-- Write a text into a file. A write that is struck leaves a beginning of the text and fails. -/
def writeTextUnder (strike : Option Strike) (p : FilePath) (text : String) : DiskAction Unit :=
  match strike with
  | none => writeText p text
  | some strike => do
    writeFile p (strike.left text.toUTF8)
    throw strike.fault

@[simp] theorem writeTextUnder_none (p : FilePath) (text : String) : writeTextUnder none p text = writeText p text := rfl

end Disk

end TagTypes
