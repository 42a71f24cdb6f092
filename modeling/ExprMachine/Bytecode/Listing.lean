/-
  ExprMachine.Bytecode.Listing

  Compiled expressions as text: the constants, and one line for each instruction
  with the offset of its first byte. Any bytes have a listing, which finds its own way
  through them.
-/
import ExprMachine.Bytecode.Chunk
import ExprMachine.Text.Numerals

namespace ExprMachine.Chunk

/-! ## The instructions of a chunk -/

/-- What stands at some offset of the code. -/
structure Line where
  offset : Nat
  fetched : Fetched
deriving DecidableEq

/-- How far it is from a byte that starts a line to the next one: over the index that an
    opcode takes, even where the end of the code cuts it off. -/
def stride (byte : UInt8) : Nat :=
  match Opcode.ofByte? byte with
  | some op => if op.takesConstant then 3 else 1
  | none => 1

theorem stride_pos (byte : UInt8) : 0 < stride byte := by
  unfold stride
  split
  · split <;> decide
  · decide

/-- What a line shows whose first byte stands at a place. -/
def listedAt (chunk : Chunk) (place : Nat) (byte : UInt8) : Fetched :=
  match Opcode.ofByte? byte with
  | none => .unknown byte
  | some op =>
    if op.takesConstant then
      match chunk.operandAt? (place + 1) with
      | some index => .instruction op index
      | none => .truncated op
    else .instruction op 0

/-- Collects the lines of a chunk from a place on, after those found before it. -/
def linesFrom (chunk : Chunk) (place : Nat) (found : Array Line) : Array Line :=
  if _h : place < chunk.code.size then
    chunk.linesFrom (place + stride chunk.code[place])
      (found.push ⟨place, chunk.listedAt place chunk.code[place]⟩)
  else found
termination_by chunk.code.size - place
decreasing_by
  have := stride_pos chunk.code[place]
  omega

/-- The lines of a chunk. -/
def lines (chunk : Chunk) : List Line :=
  (chunk.linesFrom 0 #[]).toList

/-! ## Text -/

/-- The constant of an index as listings show it. -/
def constantText (chunk : Chunk) (index : Nat) : String :=
  match chunk.constants[index]? with
  | some constant => constant.toText
  | none => "<out of range>"

/-- What a line says after its offset. -/
def fetchedText (chunk : Chunk) : Fetched → String
  | .instruction op index =>
    if op.takesConstant then
      Text.padRight 9 op.name ++ "#" ++ Text.padRight 5 (toString index) ++ " ; " ++
        chunk.constantText index
    else op.name
  | .unknown byte => "UNKNOWN 0x" ++ Text.padLeft '0' 2 (Text.hexadecimal byte.toNat)
  | .truncated op => Text.padRight 9 op.name ++ "<truncated>"

/-- The text of a line. -/
def lineText (chunk : Chunk) (line : Line) : String :=
  "  " ++ Text.padLeft '0' 4 (toString line.offset) ++ ": " ++ chunk.fetchedText line.fetched

/-- The text of a constant and its index. -/
def constantLine (constant : Constant) (index : Nat) : String :=
  "  #" ++ Text.padRight 5 (toString index) ++ " " ++ constant.toText

/-- All lines of a listing. -/
def listingLines (chunk : Chunk) : List String :=
  ("constants (" ++ toString chunk.constants.size ++ "):") ::
    chunk.constants.toList.zipIdx.map (fun (constant, index) => constantLine constant index) ++
  ("code (" ++ toString chunk.code.size ++ " bytes):") :: chunk.lines.map chunk.lineText

/-- The listing of a chunk, every line ended by a newline. -/
def listing (chunk : Chunk) : String :=
  chunk.listingLines.foldl (fun text line => text ++ line ++ "\n") ""

end ExprMachine.Chunk
