/-
  MiniLisp.Fault

  Everything that can go wrong between a program text and its results, one
  constructor for each cause. `Fault.kind` sorts the causes into classes,
  `Fault.words` gives their wording, and `Fault.message` the text that is
  reported: the faults of the language are reported behind the language's tag,
  the faults of the machinery under it in their own words.
-/
import MiniLisp.Primitive
import MiniLisp.Token
import MiniLisp.Text.Literal
import MiniLisp.Text.Numeral
import MiniLisp.Text.Sequence

namespace MiniLisp

/-- Why reading, parsing or evaluating stopped. -/
inductive Fault where
  -- Reading.
  /-- The text cannot be cut into tokens to its end. -/
  | lexing (cause : LexFault)
  /-- The input ends inside a list. -/
  | unmatched (bracket : Bracket)
  /-- A list is closed by something else than its own closer. -/
  | mismatched (bracket : Bracket) (found : Text)
  /-- A closer where no list is open. -/
  | strayCloser (text : Text)
  /-- A token tagged as an opener that is no opening bracket. -/
  | noBracket (text : Text)
  /-- A token of a kind that stands for no datum. -/
  | unknownToken (kind text : Text)
  /-- A string literal that stands for no text. -/
  | badLiteral (literal : Text) (cause : Text.LiteralFault)
  /-- A literal, put by hand in the place of a string, that stands for something that cannot be
      built. -/
  | brokenLiteral (words : Text)
  /-- A numeral of too many digits. -/
  | longNumeral (digits : Nat)
  -- Parsing.
  | truthValue (b : Bool)
  /-- A datum of a shape that is no expression. -/
  | unsupported (typeName : Text)
  | emptyList
  /-- A conditional with other than three parts. -/
  | conditionalParts (given : Nat)
  /-- A parameter that is no name, as it is written. -/
  | badParameter (written : Text)
  | repeatedParameter (x : Symbol)
  /-- Parameters taken from a datum that has no members. -/
  | noMembers (typeName : Text)
  -- Evaluation.
  | unbound (x : Symbol)
  | condition
  | notFunction
  /-- A function of `expected` parameters applied to `given` arguments. -/
  | callArity (expected given : Nat)
  /-- A frame made from unequally many names and values. -/
  | frameArity (values names : Nat)
  /-- Something that is no expression in the place of one, as it is written. -/
  | notExpression (written : Text)
  -- Built-in operations.
  | unknownPrimitive (x : Symbol)
  /-- A built-in operation applied to a number of arguments that it does not take. -/
  | primitiveArity (p : Primitive) (given : Nat)
  /-- A numeric operation applied to two values of which one is no number. -/
  | operandKinds (p : Primitive) (left right : Text)
  | printKind (kind : Text)
  | zeroDivision
  /-- The program itself reports a failure. -/
  | user (text : Text)
  -- Texts of values.
  | unprintableKind (kind : Text)
  /-- A number whose decimal text would have too many digits. -/
  | longDecimal
  -- The machinery.
  /-- A symbol is to be changed. -/
  | fixedSymbol
  /-- More nested activations than allowed. -/
  | tooDeep
  /-- A line that cannot be written out. -/
  | unencodable (words : Text)
deriving DecidableEq, Repr

/-- Classes of faults. -/
inductive FaultKind where
  /-- Text or data that is no program. -/
  | form
  /-- A name that is not bound. -/
  | name
  /-- A condition, callee or operand of the wrong kind. -/
  | operand
  /-- A wrong number of arguments. -/
  | arity
  | zeroDivision
  | unknownPrimitive
  /-- A value without a text. -/
  | unprintable
  /-- A failure that the program reports itself. -/
  | user
  /-- Data of the wrong shape, put by hand where it cannot stand. -/
  | foreign
  /-- A number of too many digits. -/
  | digits
  /-- A bracket that is none. -/
  | bracket
  /-- A change of what cannot be changed. -/
  | fixed
  /-- Too many nested activations. -/
  | depth
  /-- A text that UTF-8 has no bytes for. -/
  | encoding
deriving DecidableEq, Repr

namespace FaultKind

/-- A fault of the program, as against one of the machinery that runs it. -/
def isOfLanguage : FaultKind → Bool
  | .form | .name | .operand | .arity | .zeroDivision | .unknownPrimitive | .unprintable | .user =>
    true
  | .foreign | .digits | .bracket | .fixed | .depth | .encoding => false

end FaultKind

namespace Fault

/-- The class of a fault. -/
def kind : Fault → FaultKind
  | .lexing _ | .unmatched _ | .mismatched _ _ | .strayCloser _ | .unknownToken _ _
  | .badLiteral _ _ | .truthValue _ | .unsupported _ | .emptyList | .conditionalParts _
  | .badParameter _ | .repeatedParameter _ => .form
  | .unbound _ => .name
  | .condition | .notFunction | .operandKinds _ _ _ | .printKind _ => .operand
  | .callArity _ _ | .frameArity _ _ | .primitiveArity _ _ => .arity
  | .zeroDivision => .zeroDivision
  | .unknownPrimitive _ => .unknownPrimitive
  | .unprintableKind _ => .unprintable
  | .user _ => .user
  | .notExpression _ | .noMembers _ | .brokenLiteral _ => .foreign
  | .longNumeral _ | .longDecimal => .digits
  | .noBracket _ => .bracket
  | .fixedSymbol => .fixed
  | .tooDeep => .depth
  | .unencodable _ => .encoding

/-- The advice that ends every report of a number with too many digits. -/
def digitAdvice : String := "use sys.set_int_max_str_digits() to increase the limit"

/-- What a numeric operation does with its operands. -/
def family : Primitive → Text
  | .atMost => "comparison"
  | _ => "arithmetic"

/-- How a built-in operation says how many arguments it takes. -/
def arityWords (p : Primitive) (given : Nat) : Text :=
  match p with
  | .add | .sub | .mul | .div | .atMost =>
    family p ++ " operations require exactly two arguments, " ++ p.name ++ s!" got {given}"
  | .same => s!"equal? requires exactly two arguments, got {given}"
  | .println => s!"println requires exactly one argument, got {given}"
  | .seq => "seq requires at least one expression"
  | .concat => "++ requires at least one argument"
  | .raise => s!"error requires exactly one argument, got {given}"

/-- The wording of a fault of a text that cannot be cut into tokens. -/
def lexWords : LexFault → Text
  | .unclosedString position => s!"unterminated string at {position}"
  | .unexpectedCharacter position c =>
    s!"unexpected character at {position}: " ++ Text.quoted (.singleton c)

/-- The wording of a fault. -/
def words : Fault → Text
  | .lexing cause => lexWords cause
  | .unmatched b => "unmatched '" ++ Text.singleton b.opener ++ "'"
  | .mismatched b found =>
    "expected '" ++ Text.singleton b.closer ++ "' to close '" ++ Text.singleton b.opener ++
      "' but found '" ++ found ++ "'"
  | .strayCloser text => "unexpected '" ++ text ++ "'"
  | .noBracket text => Text.quoted text
  | .unknownToken kind text => "unknown token: " ++ kind ++ " " ++ text
  | .badLiteral literal cause => "invalid string literal " ++ literal ++ ": " ++ cause.message
  | .brokenLiteral words => words
  | .longNumeral digits =>
    s!"Exceeds the limit ({Text.maxDigits} digits) for integer string conversion: " ++
      s!"value has {digits} digits; {digitAdvice}"
  | .truthValue b => "boolean is not valid syntax: " ++ if b then "True" else "False"
  | .unsupported typeName => "unsupported expression type: " ++ typeName
  | .emptyList => "invalid expression: empty list"
  | .conditionalParts given =>
    s!"if requires a condition, a then branch and an else branch, got {given} parts"
  | .badParameter written => "invalid lambda parameter: " ++ written
  | .repeatedParameter x => "duplicate lambda parameter: " ++ x.name
  | .noMembers typeName => "'" ++ typeName ++ "' object is not iterable"
  | .unbound x => "unbound identifier: " ++ x.name
  | .condition => "condition must be boolean"
  | .notFunction => "cannot apply non-function value"
  | .callArity expected given =>
    s!"arity mismatch between params and args: expected {expected}, got {given}"
  | .frameArity values names => s!"cannot bind {values} values to {names} names"
  | .notExpression written => "not an AAQZ expression: " ++ written
  | .unknownPrimitive x => "unknown primitive operation: " ++ x.name
  | .primitiveArity p given => arityWords p given
  | .operandKinds p left right =>
    family p ++ " operations require numeric arguments, " ++ p.name ++ " got " ++ left ++ " and " ++
      right
  | .printKind kind => "println requires a string argument, got " ++ kind
  | .zeroDivision => "division by zero"
  | .user text => "user-error: " ++ text
  | .unprintableKind kind => "serialize: unimplemented value type " ++ kind
  | .longDecimal =>
    s!"Exceeds the limit ({Text.maxDigits} digits) for integer string conversion; {digitAdvice}"
  | .fixedSymbol => "Symbol is immutable"
  | .tooDeep => "recursion limit exceeded"
  | .unencodable words => words

/-- A diagnostic of the language: no words, one text, or several texts shown as a tuple, behind
    the language's tag. -/
def diagnostic : List Text → Text
  | [] => "AAQZ "
  | [text] => "AAQZ " ++ text
  | texts => "AAQZ " ++ Text.tupleText (texts.map Text.quoted)

/-- What is reported of a fault. -/
def message (f : Fault) : Text :=
  if f.kind.isOfLanguage || f.kind = .depth then diagnostic [f.words] else f.words

end Fault

/-- Sets a part of a symbol. Symbols are shared by name, so none can be changed. -/
def Symbol.set (_x : Symbol) (_part _value : Text) : Except Fault Symbol := .error .fixedSymbol

end MiniLisp
