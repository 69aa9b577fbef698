import TagTypes.Text.Quoted

/-!
# Closed vocabularies

Some fields take one word of a fixed list. A `Vocabulary` gives each value of a type its word and the name of the constant that stands for it, and reading a word finds the value or fails with the word.
-/

namespace TagTypes

structure Term (α : Type) where
  value : α
  word : String
  constant : String

/-- A type whose values are written as words; `title` names the vocabulary in messages. -/
class Vocabulary (α : Type) where
  title : String
  terms : List (Term α)

/-- A word that is not in the vocabulary called `title`. -/
structure UnknownWord where
  word : String
  title : String
  deriving DecidableEq, Repr

def UnknownWord.message (e : UnknownWord) : String := Text.quoted e.word ++ " is not a valid " ++ e.title

namespace Vocabulary

variable (α : Type) [Vocabulary α]

def term (word : String) : Except UnknownWord (Term α) :=
  match (terms (α := α)).find? fun t => t.word = word with
  | some t => .ok t
  | none => .error ⟨word, title α⟩

def read (word : String) : Except UnknownWord α := (term α word).map Term.value

end Vocabulary

end TagTypes
