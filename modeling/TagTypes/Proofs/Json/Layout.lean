import Mathlib.Tactic
import TagTypes.Proofs.Json.Token

/-!
# The two written forms as layouts

The one-line form and the indented form of a value differ in the spelling of characters and in the blanks around items, and in nothing else. What is proved of every layout whose blanks are blanks and whose spellings are spellings holds of both.
-/

namespace TagTypes.Json

open Reader Printer
open Text (StopsAt)

/-- How a value is written: the spelling of a character inside a string, and what stands before the first item of a collection, before every other item and before the closing bracket. The number says how deep the item, or the bracket, lies. -/
structure Layout where
  char : Char → List Char
  first : ℕ → List Char
  next : ℕ → List Char
  close : ℕ → List Char

namespace Layout

/-- The spellings are read as the characters they spell, and there are only blanks between items. -/
structure Sound (L : Layout) : Prop where
  char_spells : ∀ c, Spells c (L.char c)
  first_blank : ∀ k, ∀ c ∈ L.first k, isSpace c = true
  next_blank : ∀ k, ∀ c ∈ L.next k, isSpace c = true
  close_blank : ∀ k, ∀ c ∈ L.close k, isSpace c = true

variable (L : Layout)

mutual

def write (depth : ℕ) : Json → List Char
  | .null => "null".toList
  | .bool b => boolText b
  | .int n => (Text.intText n).toList
  | .real x => Binary64.print numberStyle x
  | .str s => quoted L.char s
  | .arr [] => ['[', ']']
  | .arr (v :: rest) => '[' :: (L.first (depth + 1) ++ writeItems (depth + 1) (v :: rest) ++ L.close depth ++ [']'])
  | .obj [] => ['{', '}']
  | .obj (f :: rest) => '{' :: (L.first (depth + 1) ++ writeFields (depth + 1) (f :: rest) ++ L.close depth ++ ['}'])

def writeItems (depth : ℕ) : List Json → List Char
  | [] => []
  | [v] => write depth v
  | v :: rest => write depth v ++ ',' :: (L.next depth ++ writeItems depth rest)

def writeFields (depth : ℕ) : List (String × Json) → List Char
  | [] => []
  | [(name, v)] => quoted L.char name ++ ':' :: ' ' :: write depth v
  | (name, v) :: rest =>
    quoted L.char name ++ ':' :: ' ' :: (write depth v ++ ',' :: (L.next depth ++ writeFields depth rest))

end

end Layout

/-! ### The one-line form -/

def compactLayout : Layout where
  char := asciiChar
  first _ := []
  next _ := [' ']
  close _ := []

theorem compactLayout_sound : compactLayout.Sound where
  char_spells := spells_asciiChar
  first_blank := by simp [compactLayout]
  next_blank := by simp [compactLayout, isSpace]
  close_blank := by simp [compactLayout]

mutual

theorem write_compactLayout (depth : ℕ) : ∀ v, compactLayout.write depth v = compact v
  | .null | .bool _ | .int _ | .real _ | .str _ => by simp only [Layout.write, compact, compactLayout]
  | .arr [] => by simp only [Layout.write, compact, compactItems, List.cons_append, List.nil_append]
  | .arr (v :: rest) => by
    simp only [Layout.write, compact, writeItems_compactLayout (depth + 1) (v :: rest)]
    simp [compactLayout]
  | .obj [] => by simp only [Layout.write, compact, compactFields, List.cons_append, List.nil_append]
  | .obj (f :: rest) => by
    simp only [Layout.write, compact, writeFields_compactLayout (depth + 1) (f :: rest)]
    simp [compactLayout]

theorem writeItems_compactLayout (depth : ℕ) : ∀ vs, compactLayout.writeItems depth vs = compactItems vs
  | [] => rfl
  | [v] => by simp only [Layout.writeItems, compactItems, write_compactLayout depth v]
  | v :: w :: rest => by
    simp only [Layout.writeItems, compactItems, write_compactLayout depth v, writeItems_compactLayout depth (w :: rest)]
    simp [compactLayout]

theorem writeFields_compactLayout (depth : ℕ) : ∀ fs, compactLayout.writeFields depth fs = compactFields fs
  | [] => rfl
  | [(name, v)] => by
    simp only [Layout.writeFields, compactFields, write_compactLayout depth v]
    simp [compactLayout]
  | (name, v) :: g :: rest => by
    simp only [Layout.writeFields, compactFields, write_compactLayout depth v,
      writeFields_compactLayout depth (g :: rest)]
    simp [compactLayout]

end

/-! ### The indented form -/

def indentedLayout : Layout where
  char := anyChar
  first := newline
  next := newline
  close := newline

theorem isSpace_of_mem_newline {k : ℕ} {c : Char} (hc : c ∈ newline k) : isSpace c = true := by
  rcases List.mem_cons.1 hc with rfl | hc
  · rfl
  · rw [List.eq_of_mem_replicate hc]
    rfl

theorem indentedLayout_sound : indentedLayout.Sound where
  char_spells := spells_anyChar
  first_blank _ _ := isSpace_of_mem_newline
  next_blank _ _ := isSpace_of_mem_newline
  close_blank _ _ := isSpace_of_mem_newline

mutual

theorem write_indentedLayout (depth : ℕ) : ∀ v, indentedLayout.write depth v = indented depth v
  | .null | .bool _ | .int _ | .real _ | .str _ => by simp only [Layout.write, indented, indentedLayout]
  | .arr [] => by simp only [Layout.write, indented]
  | .arr (v :: rest) => by
    simp only [Layout.write, indented, ← newline_writeItems (depth + 1) (v :: rest) (List.cons_ne_nil _ _)]
    simp [indentedLayout]
  | .obj [] => by simp only [Layout.write, indented]
  | .obj (f :: rest) => by
    simp only [Layout.write, indented, ← newline_writeFields (depth + 1) (f :: rest) (List.cons_ne_nil _ _)]
    simp [indentedLayout]

theorem newline_writeItems (depth : ℕ) :
    ∀ vs, vs ≠ [] → newline depth ++ indentedLayout.writeItems depth vs = indentedItems depth vs
  | [], hvs => absurd rfl hvs
  | [v], _ => by simp only [Layout.writeItems, indentedItems, write_indentedLayout depth v]
  | v :: w :: rest, _ => by
    simp only [Layout.writeItems, indentedItems, write_indentedLayout depth v,
      ← newline_writeItems depth (w :: rest) (List.cons_ne_nil _ _)]
    simp [indentedLayout]

theorem newline_writeFields (depth : ℕ) :
    ∀ fs, fs ≠ [] → newline depth ++ indentedLayout.writeFields depth fs = indentedFields depth fs
  | [], hfs => absurd rfl hfs
  | [(name, v)], _ => by
    simp only [Layout.writeFields, indentedFields, write_indentedLayout depth v]
    simp [indentedLayout]
  | (name, v) :: g :: rest, _ => by
    simp only [Layout.writeFields, indentedFields, write_indentedLayout depth v,
      ← newline_writeFields depth (g :: rest) (List.cons_ne_nil _ _)]
    simp [indentedLayout]

end

end TagTypes.Json
