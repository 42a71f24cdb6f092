/-
  ExprMachine.Executable.Reader

  Reading JSON documents. Arrays and objects nest up to a limit; a key that comes
  again in an object takes its last value.
-/
import ExprMachine.Executable.Number

namespace ExprMachine.Executable

/-- How deeply arrays and objects may nest. -/
def maxNesting : Nat := 127

/-- Something read off the front of a text, which leaves less of it. -/
structure Read (α : Type) (text : List Char) where
  value : α
  rest : List Char
  rest_lt : rest.length < text.length

/-- The same thing, read off a longer text. -/
def Read.within {α : Type} {text all : List Char} (read : Read α text)
    (h : text.length ≤ all.length) : Read α all :=
  ⟨read.value, read.rest, Nat.lt_of_lt_of_le read.rest_lt h⟩

/-! ## Blanks -/

/-- Whether JSON ignores a character between its tokens. -/
def isBlank (c : Char) : Bool :=
  c == ' ' || c == '\n' || c == '\t' || c == '\r'

/-- Leaves out the blanks at the front. -/
def skipBlanks (text : List Char) : List Char :=
  text.dropWhile isBlank

theorem length_skipBlanks_le (text : List Char) : (skipBlanks text).length ≤ text.length :=
  (List.dropWhile_sublist isBlank).length_le

/-! ## Strings -/

/-- The number that four digits in base sixteen make. -/
def readUnit (a b c d : Char) : Option Nat :=
  Text.readNumeral? 16 [a, b, c, d]

/-- The character that two halves of a code point make. -/
def joinHalves (high low : Nat) : Char :=
  .ofNat (0x10000 + (high - 0xd800) * 0x400 + (low - 0xdc00))

/-- The character of a short escape. -/
def shortEscape? (c : Char) : Option Char :=
  if c = '"' ∨ c = '\\' ∨ c = '/' then some c
  else if c = 'b' then some '\x08'
  else if c = 'f' then some '\x0c'
  else if c = 'n' then some '\n'
  else if c = 'r' then some '\r'
  else if c = 't' then some '\t'
  else none

/-- Reads a string after its opening quote. A code point may be given as two halves, of
    which none may stand alone. `content` holds the characters read so far, the last
    one first. -/
def stringFrom (content : List Char) : List Char → Option (String × List Char)
  | [] => none
  | '"' :: rest => some (String.ofList content.reverse, rest)
  | '\\' :: 'u' :: a :: b :: c :: d :: rest =>
    match readUnit a b c d with
    | none => none
    | some unit =>
      if 0xdc00 ≤ unit ∧ unit < 0xe000 then none
      else if 0xd800 ≤ unit ∧ unit < 0xdc00 then
        match rest with
        | '\\' :: 'u' :: a :: b :: c :: d :: rest =>
          match readUnit a b c d with
          | none => none
          | some low =>
            if 0xdc00 ≤ low ∧ low < 0xe000 then
              stringFrom (joinHalves unit low :: content) rest
            else none
        | _ => none
      else stringFrom (.ofNat unit :: content) rest
  | '\\' :: c :: rest =>
    match shortEscape? c with
    | some meant => stringFrom (meant :: content) rest
    | none => none
  | c :: rest => if c < ' ' ∨ c = '\\' then none else stringFrom (c :: content) rest

/-- Reads a string that starts with its opening quote. -/
def readString (text : List Char) : Option (String × List Char) :=
  match text with
  | '"' :: rest => stringFrom [] rest
  | _ => none

/-! ## Progress -/

theorem length_stringFrom_lt {content text rest : List Char} {value : String}
    (h : stringFrom content text = some (value, rest)) : rest.length < text.length := by
  fun_induction stringFrom content text <;> (try simp only [List.length_cons]) <;> grind

theorem length_readString_lt {text rest : List Char} {value : String}
    (h : readString text = some (value, rest)) : rest.length < text.length := by
  unfold readString at h
  split at h
  · exact Nat.lt_succ_of_lt (length_stringFrom_lt h)
  · cases h

/-! ## Arrays and objects -/

/-- Reads the value at the front of a text. -/
abbrev Reader := (text : List Char) → Option (Read Json text)

/-- Reads the items of an array from the start of one of them, after those found before,
    up to and with the closing bracket. -/
def itemsFrom (value : Reader) {all : List Char} (found : Array Json) (text : List Char)
    (inside : text.length ≤ all.length) : Option (Read Json all) :=
  match value (skipBlanks text) with
  | none => none
  | some item =>
    match _hr : skipBlanks item.rest with
    | ',' :: rest =>
      have rest_lt : rest.length < text.length := by
        have := item.rest_lt
        have := length_skipBlanks_le text
        have := length_skipBlanks_le item.rest
        rw [_hr, List.length_cons] at this
        omega
      itemsFrom value (found.push item.value) rest (by omega)
    | ']' :: rest =>
      some ⟨.array (found.push item.value).toList, rest, by
        have := item.rest_lt
        have := length_skipBlanks_le text
        have := length_skipBlanks_le item.rest
        rw [_hr, List.length_cons] at this
        omega⟩
    | _ => none
termination_by text.length

/-- Reads the members of an object from the start of one of them, after those found
    before, up to and with the closing brace. -/
def membersFrom (value : Reader) {all : List Char} (found : Array (String × Json))
    (text : List Char) (inside : text.length ≤ all.length) : Option (Read Json all) :=
  match _hk : readString (skipBlanks text) with
  | none => none
  | some (key, afterKey) =>
    match _hc : skipBlanks afterKey with
    | ':' :: afterColon =>
      match value (skipBlanks afterColon) with
      | none => none
      | some member =>
        have rest_lt : (skipBlanks member.rest).length + 1 < text.length := by
          have := length_readString_lt _hk
          have := length_skipBlanks_le text
          have := length_skipBlanks_le afterColon
          have := length_skipBlanks_le member.rest
          have := member.rest_lt
          have := length_skipBlanks_le afterKey
          rw [_hc, List.length_cons] at this
          omega
        match _hr : skipBlanks member.rest with
        | ',' :: rest =>
          membersFrom value (found.push (key, member.value)) rest
            (by rw [_hr, List.length_cons] at rest_lt; omega)
        | '\x7d' :: rest =>
          some ⟨.object (distinctEntries (found.push (key, member.value)).toList), rest,
            by rw [_hr, List.length_cons] at rest_lt; omega⟩
        | _ => none
    | _ => none
termination_by text.length
decreasing_by rw [_hr, List.length_cons] at rest_lt; omega

/-! ## Values -/

/-- Reads one of the three words that are values. -/
def readWord (text : List Char) : Option (Read Json text) :=
  match text with
  | 'n' :: 'u' :: 'l' :: 'l' :: rest => some ⟨.null, rest, by simp only [List.length_cons]; omega⟩
  | 't' :: 'r' :: 'u' :: 'e' :: rest =>
    some ⟨.bool true, rest, by simp only [List.length_cons]; omega⟩
  | 'f' :: 'a' :: 'l' :: 's' :: 'e' :: rest =>
    some ⟨.bool false, rest, by simp only [List.length_cons]; omega⟩
  | _ => none

/-- Reads a value in which arrays and objects nest so many levels at most. -/
def readValue : (levels : Nat) → Reader
  | levels, text =>
    match text with
    | [] => none
    | '"' :: rest =>
      match _hs : stringFrom [] rest with
      | none => none
      | some (value, left) =>
        some ⟨.string value, left, Nat.lt_succ_of_lt (length_stringFrom_lt _hs)⟩
    | '[' :: rest =>
      match levels with
      | 0 => none
      | levels + 1 =>
        match _hr : skipBlanks rest with
        | ']' :: left =>
          some ⟨.array [], left, by
            have := length_skipBlanks_le rest
            simp only [_hr, List.length_cons] at this ⊢
            omega⟩
        | _ =>
          (itemsFrom (readValue levels) #[] rest (Nat.le_refl _)).map
            (·.within (Nat.le_succ _))
    | '\x7b' :: rest =>
      match levels with
      | 0 => none
      | levels + 1 =>
        match _hr : skipBlanks rest with
        | '\x7d' :: left =>
          some ⟨.object [], left, by
            have := length_skipBlanks_le rest
            simp only [_hr, List.length_cons] at this ⊢
            omega⟩
        | _ =>
          (membersFrom (readValue levels) #[] rest (Nat.le_refl _)).map
            (·.within (Nat.le_succ _))
    | c :: rest =>
      if c == '-' || c.isDigit then
        match _hn : readNumber (c :: rest) with
        | none => none
        | some (number, left) => some ⟨number, left, length_readNumber_lt _hn⟩
      else readWord (c :: rest)

/-- Reads a text that is one document and maybe blanks around it. -/
def read? (text : String) : Option Json :=
  match readValue maxNesting (skipBlanks text.toList) with
  | some ⟨document, rest, _⟩ => if (skipBlanks rest).isEmpty then some document else none
  | none => none

end ExprMachine.Executable
