/-
  ExprMachine.Source.Position

  Places in a source text: a line counted from one, and an offset in code points
  from the start of that line.
-/

namespace ExprMachine

/-- A place in a source text. -/
structure Position where
  /-- The line, counted from one. -/
  line : Nat
  /-- The number of code points between the start of the line and the place. -/
  offset : Nat
deriving DecidableEq, Repr

namespace Position

/-- The start of every source text. -/
def start : Position := ⟨1, 0⟩

instance : Inhabited Position := ⟨start⟩

/-- The place after one more character. -/
def advance (place : Position) (c : Char) : Position :=
  if c = '\n' then ⟨place.line + 1, 0⟩ else ⟨place.line, place.offset + 1⟩

/-- The place after some more characters. -/
def advanceAll (place : Position) (text : List Char) : Position :=
  text.foldl advance place

/-- The written form: line, colon, offset. -/
def toText (place : Position) : String :=
  toString place.line ++ ":" ++ toString place.offset

/-! ## Advancing -/

@[simp] theorem advanceAll_nil (place : Position) : place.advanceAll [] = place := rfl

@[simp] theorem advanceAll_cons (place : Position) (c : Char) (text : List Char) :
    place.advanceAll (c :: text) = (place.advance c).advanceAll text := rfl

theorem advanceAll_append (place : Position) (before after : List Char) :
    place.advanceAll (before ++ after) = (place.advanceAll before).advanceAll after := by
  simp [advanceAll]

end Position

end ExprMachine
