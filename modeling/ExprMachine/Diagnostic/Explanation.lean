/-
  ExprMachine.Diagnostic.Explanation

  What the stable error codes mean. The letter of a code names the stage: L for
  tokens, P for expressions, C for chunks and R for runs.
-/

namespace ExprMachine

/-- An error code, what it means in a few words, and in full. -/
structure Explanation where
  code : String
  short : String
  long : String
deriving DecidableEq, Repr

namespace Explanation

/-- Some lines, each ended by a newline. -/
def paragraph (lines : List String) : String :=
  String.join (lines.map (· ++ "\n"))

/-- The explanation of RB-L001. -/
def l001 : Explanation where
  code := "RB-L001"
  short := "unterminated string literal"
  long := paragraph
    ["## RB-L001: unterminated string literal",
     "",
     "A string literal was opened but the line or the input ended before the",
     "matching quote.",
     "",
     "**Example:**",
     "",
     "    name == 'alice",
     "",
     "**Fix:** close the literal with the quote it was opened with:",
     "",
     "    name == 'alice'",
     "",
     "Strings cannot span lines. Use `\\n` for an embedded newline."]

/-- The explanation of RB-L002. -/
def l002 : Explanation where
  code := "RB-L002"
  short := "unknown escape sequence"
  long := paragraph
    ["## RB-L002: unknown escape sequence",
     "",
     "A backslash inside a string was followed by a character that is not a",
     "known escape.",
     "",
     "**Example:**",
     "",
     "    \"C:\\path\"",
     "",
     "Valid escapes are `\\a \\b \\f \\n \\r \\t \\v \\\\ \\'` and the quote that opened",
     "the literal. Write a literal backslash as `\\\\`:",
     "",
     "    \"C:\\\\path\""]

/-- The explanation of RB-L003. -/
def l003 : Explanation where
  code := "RB-L003"
  short := "malformed number literal"
  long := paragraph
    ["## RB-L003: malformed number literal",
     "",
     "A number literal runs into characters that do not belong to it, has no",
     "digits after its radix prefix, or uses a digit its radix does not allow.",
     "",
     "**Examples:**",
     "",
     "    0x",
     "    0b102",
     "    12abc",
     "",
     "Digits may be grouped with `_` (`1_000`), and `0x`, `0o` and `0b`",
     "prefixes select hexadecimal, octal and binary."]

/-- The explanation of RB-L004. -/
def l004 : Explanation where
  code := "RB-L004"
  short := "unexpected character"
  long := paragraph
    ["## RB-L004: unexpected character",
     "",
     "A character was encountered that cannot start any token.",
     "",
     "**Example:**",
     "",
     "    price $ 2",
     "",
     "Remove the character or replace it with an operator or identifier."]

/-- The explanation of RB-P001. -/
def p001 : Explanation where
  code := "RB-P001"
  short := "unexpected token"
  long := paragraph
    ["## RB-P001: unexpected token",
     "",
     "The parser found a token that cannot appear at this point, usually two",
     "operands with no operator between them, or a stray closing bracket.",
     "",
     "**Examples:**",
     "",
     "    a b",
     "    (a + b))",
     "",
     "The conditional form `a ? b : c` is not part of the language and is",
     "reported here too."]

/-- The explanation of RB-P002. -/
def p002 : Explanation where
  code := "RB-P002"
  short := "unexpected end of expression"
  long := paragraph
    ["## RB-P002: unexpected end of expression",
     "",
     "The input ended where an operand was expected.",
     "",
     "**Examples:**",
     "",
     "    1 +",
     "    f(a,",
     "",
     "An empty input is also reported with this code."]

/-- The explanation of RB-P003. -/
def p003 : Explanation where
  code := "RB-P003"
  short := "expected a property name after '.'"
  long := paragraph
    ["## RB-P003: expected a property name after '.'",
     "",
     "A `.` must be followed by a name or a run of integer indexes.",
     "",
     "**Examples:**",
     "",
     "    user.",
     "    user.'name'",
     "",
     "**Fix:**",
     "",
     "    user.name",
     "    items.0.name"]

/-- The explanation of RB-P004. -/
def p004 : Explanation where
  code := "RB-P004"
  short := "malformed argument or element list"
  long := paragraph
    ["## RB-P004: malformed argument or element list",
     "",
     "Items in a call or list literal are separated by single commas, with no",
     "leading or trailing comma.",
     "",
     "**Examples:**",
     "",
     "    f(a b)",
     "    [, 1]",
     "    f(a,)"]

/-- The explanation of RB-P005. -/
def p005 : Explanation where
  code := "RB-P005"
  short := "unclosed bracket"
  long := paragraph
    ["## RB-P005: unclosed bracket",
     "",
     "A `(` or `[` was opened and the input ended before it was closed. The",
     "diagnostic points at the opening bracket.",
     "",
     "**Example:**",
     "",
     "    f(a, (b + c)",
     "",
     "**Fix:** add the missing closing bracket."]

/-- The explanation of RB-P006. -/
def p006 : Explanation where
  code := "RB-P006"
  short := "integer literal out of range"
  long := paragraph
    ["## RB-P006: integer literal out of range",
     "",
     "An integer literal does not fit in a signed 64-bit integer.",
     "",
     "**Example:**",
     "",
     "    9223372036854775808",
     "",
     "Integers range from -9223372036854775808 to 9223372036854775807. Write",
     "a float literal (`9223372036854775808.0`) if precision loss is fine."]

/-- The explanation of RB-P007. -/
def p007 : Explanation where
  code := "RB-P007"
  short := "expression nested too deeply"
  long := paragraph
    ["## RB-P007: expression nested too deeply",
     "",
     "Brackets, prefix operators, calls and operator chains may nest at most",
     "256 levels. Deeper input is rejected before it can exhaust the stack.",
     "",
     "**Examples:**",
     "",
     "    ((((((((((...1...))))))))))",
     "    - - - - - - - - - ... x",
     "    a.b.b.b.b.b ... (more than 256 accesses)",
     "",
     "Flatten the expression, or compute the deep part in the host and pass it",
     "in through the environment."]

/-- The explanation of RB-C001. -/
def c001 : Explanation where
  code := "RB-C001"
  short := "constant pool overflow"
  long := paragraph
    ["## RB-C001: constant pool overflow",
     "",
     "Operands are 16-bit indexes into the constant pool, so a chunk holds at",
     "most 65536 constants. Repeated numbers and strings share one slot; call",
     "descriptors do not.",
     "",
     "Split the expression, or move large literal lists into the environment."]

/-- The explanation of RB-C002. -/
def c002 : Explanation where
  code := "RB-C002"
  short := "operator has no instruction"
  long := paragraph
    ["## RB-C002: operator has no instruction",
     "",
     "The tree contains an operator the compiler has no instruction for. This",
     "happens when a custom grammar accepts an operator the bytecode does not",
     "know, or a tree is built by hand.",
     "",
     "Prefix operators are `-`, `+`, `!` and `not`. Infix operators are the",
     "arithmetic, comparison, `in`, `and` and `or` families."]

/-- The explanation of RB-R001. -/
def r001 : Explanation where
  code := "RB-R001"
  short := "unknown instruction"
  long := paragraph
    ["## RB-R001: unknown instruction",
     "",
     "The machine met a byte that is not an opcode. Chunks produced by the",
     "compiler never contain one; a chunk built or edited by hand can.",
     "",
     "Use `--emit bytecode` to inspect a chunk."]

/-- The explanation of RB-R002. -/
def r002 : Explanation where
  code := "RB-R002"
  short := "invalid operator for operand kinds"
  long := paragraph
    ["## RB-R002: invalid operator for operand kinds",
     "",
     "No overload of the operator is registered for the kinds of its two",
     "operands.",
     "",
     "**Example:**",
     "",
     "    1 + 'a'",
     "",
     "Arithmetic and ordering are resolved through the operator registry. The",
     "standard registry covers numbers and text; a host can register more",
     "overloads. A bare machine has none."]

/-- The explanation of RB-R003. -/
def r003 : Explanation where
  code := "RB-R003"
  short := "unresolved call"
  long := paragraph
    ["## RB-R003: unresolved call",
     "",
     "A call names something that is not a function.",
     "",
     "Plain calls `f(x)` resolve `f` against the environment. Method calls",
     "`x.f()` resolve against the receiver: a record method first, then a",
     "function-valued field or entry."]

/-- The explanation of RB-R004. -/
def r004 : Explanation where
  code := "RB-R004"
  short := "host function failed"
  long := paragraph
    ["## RB-R004: host function failed",
     "",
     "A host function or operator overload was called and returned an error.",
     "The message after the name comes from the host."]

/-- The explanation of RB-R005. -/
def r005 : Explanation where
  code := "RB-R005"
  short := "invalid operand"
  long := paragraph
    ["## RB-R005: invalid operand",
     "",
     "A prefix operator was applied to a value it does not accept.",
     "",
     "**Example:**",
     "",
     "    -'text'",
     "",
     "Negation takes an int or a float. `not` and `!` accept any value and",
     "use its truthiness."]

/-- The explanation of RB-R006. -/
def r006 : Explanation where
  code := "RB-R006"
  short := "malformed chunk"
  long := paragraph
    ["## RB-R006: malformed chunk",
     "",
     "The chunk is inconsistent: an operand is cut off, a constant index is",
     "out of range, a constant has the wrong type for its instruction, or the",
     "stack underflows. Compiler output never triggers this."]

/-- All explanations, in the order of the stages. -/
def all : List Explanation :=
  [l001, l002, l003, l004, p001, p002, p003, p004, p005, p006, p007, c001, c002, r001, r002,
   r003, r004, r005, r006]

/-- The explanation of a code. -/
def lookup? (code : String) : Option Explanation :=
  all.find? (·.code == code)

end Explanation

end ExprMachine
