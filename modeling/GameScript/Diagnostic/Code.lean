/-!
# Error codes

Every code that diagnostics use, in order, with what it stands for and its category.
-/

namespace GameScript

/-- The categories of errors. -/
inductive ErrorCategory
  | syntactic | binding | type | call | arithmetic | host
deriving DecidableEq, Repr

/-- The name of a category. -/
def ErrorCategory.name : ErrorCategory → String
  | syntactic => "Syntax"
  | binding => "Binding"
  | type => "Type"
  | call => "Call"
  | arithmetic => "Arithmetic"
  | host => "Host"

/-- What a code stands for. -/
structure ErrorCode where
  code : String
  title : String
  category : ErrorCategory
deriving DecidableEq, Repr

namespace ErrorCode

/-- All codes: of characters, of the grammar, of evaluation, and of the host. -/
def all : List ErrorCode :=
  [⟨"E0001", "unexpected character", .syntactic⟩,
    ⟨"E0002", "unterminated string literal", .syntactic⟩,
    ⟨"E0003", "invalid escape sequence", .syntactic⟩,
    ⟨"E0004", "invalid number", .syntactic⟩,
    ⟨"E0005", "unterminated block comment", .syntactic⟩,
    ⟨"E0100", "unexpected token", .syntactic⟩,
    ⟨"E0101", "invalid assignment target", .syntactic⟩,
    ⟨"E0102", "misplaced keyword", .syntactic⟩,
    ⟨"E0103", "unbalanced delimiter", .syntactic⟩,
    ⟨"E0104", "duplicate parameter", .syntactic⟩,
    ⟨"E0105", "invalid negation", .syntactic⟩,
    ⟨"E0106", "nesting too deep", .syntactic⟩,
    ⟨"E0300", "undefined variable", .binding⟩,
    ⟨"E0301", "variable already defined", .binding⟩,
    ⟨"E0302", "mismatched operand types", .type⟩,
    ⟨"E0303", "unsupported operand type", .type⟩,
    ⟨"E0304", "wrong number of arguments", .call⟩,
    ⟨"E0305", "value is not callable", .call⟩,
    ⟨"E0306", "property access on a non-object", .type⟩,
    ⟨"E0307", "dangling property reference", .binding⟩,
    ⟨"E0308", "invalid assignment target", .binding⟩,
    ⟨"E0309", "misplaced return", .call⟩,
    ⟨"E0310", "division by zero", .arithmetic⟩,
    ⟨"E0311", "integer overflow", .arithmetic⟩,
    ⟨"E0312", "call depth exceeded", .call⟩,
    ⟨"E0313", "malformed expression", .syntactic⟩,
    ⟨"E0400", "native function failed", .host⟩]

/-- What a code stands for, if it is one. -/
def find? (code : String) : Option ErrorCode := all.find? (fun e => e.code = code)

end ErrorCode

end GameScript
