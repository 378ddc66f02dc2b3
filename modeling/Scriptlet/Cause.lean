/-!
# Why an evaluation fails

The causes of runtime diagnostics. A cause holds what the wording needs beyond the text of the token
at fault; the wording itself is in `Cause.message` and nowhere else.
-/

namespace Scriptlet

/-- Why the evaluation of a token failed. -/
inductive Cause where
  | operandNotNumber (type : String)
  | unknownUnary
  | invalidTarget
  | undefined
  | unexpectedLiteral
  | unsupported (left right : String)
  | notFinite (number : String)
  | tooLong (count : String)
  | divisionByZero
deriving DecidableEq, Repr

/-- The wording of a cause for a token with the given text. -/
def Cause.message (lexeme : String) : Cause → String
  | operandNotNumber type => "Operand of '" ++ lexeme ++ "' must be a number, got " ++ type ++ "."
  | unknownUnary => "Unknown unary operator '" ++ lexeme ++ "'."
  | invalidTarget => "Invalid assignment target."
  | undefined => "Undefined Identifier: '" ++ lexeme ++ "' is unknown in this context."
  | unexpectedLiteral => "Unexpected literal '" ++ lexeme ++ "'."
  | unsupported left right =>
      "Operator '" ++ lexeme ++ "' is not supported for " ++ left ++ " and " ++ right ++ "."
  | notFinite number => "Cannot apply '" ++ lexeme ++ "' to a string and " ++ number ++ "."
  | tooLong count => "Repeating a string " ++ count ++ " times exceeds the string size limit."
  | divisionByZero => "Division by zero."

end Scriptlet
