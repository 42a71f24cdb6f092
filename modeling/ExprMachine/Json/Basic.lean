/-
  ExprMachine.Json.Basic

  JSON documents. Numbers are integers of 64 bits, with or without a sign, or
  floats; objects keep their members in the order in which their keys came first. How
  documents are read from texts and written is left to a library.
-/

namespace ExprMachine

/-- A JSON document. -/
inductive Json where
  | null
  | bool (value : Bool)
  | integer (value : Int)
  | float (value : Float)
  | string (value : String)
  | array (items : List Json)
  | object (members : List (String × Json))

/-- Sets the value of a key: in its place if the key is there, else at the end. -/
def setEntry {α : Type} (key : String) (value : α) :
    List (String × α) → List (String × α)
  | [] => [(key, value)]
  | (other, old) :: rest =>
    if other = key then (key, value) :: rest else (other, old) :: setEntry key value rest

/-- Entries with distinct keys: a key that comes again keeps its first place and takes
    its last value. -/
def distinctEntries {α : Type} (entries : List (String × α)) : List (String × α) :=
  entries.foldl (fun found entry => setEntry entry.1 entry.2 found) []

/-- A library for the texts of documents. What goes wrong it tells in its own words. -/
structure Json.Codec where
  /-- The document that a text is. -/
  read : (text : String) → Except String Json
  /-- The text of a document on one line, as it is displayed. -/
  display : Json → String
  /-- The text of a document on one line. -/
  write : Json → Except String String
  /-- The text of a document on several lines. -/
  writePretty : Json → Except String String

end ExprMachine
