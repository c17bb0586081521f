import XQueryLexer.Output
import XQueryLexer.Proofs.Lexeme.Blank
import XQueryLexer.Proofs.Lexeme.Spans
import XQueryLexer.Proofs.Nesting.Paths
import XQueryLexer.Proofs.Nesting.Structure

/-! The outline of a source keeps everything of it but the whitespace between its lexemes. -/

namespace XQueryLexer

variable {α β γ : Type}

namespace Forest

variable {keep : α → Bool} {item : α} {inside rest : Forest α}

end Forest

/-- The text of gists, one behind the other. -/
def Gist.text (gists : List Gist) : String :=
  String.join (gists.map Gist.value)

/-- A group of nothing but whitespace has an empty list of children, which a leaf has not. -/
example : Forest.outline (analyse "f( )").forest =
    [.leaf ⟨"f", .function, false⟩, .group ⟨"(", .operator, false⟩ [],
      .leaf ⟨")", .operator, false⟩] := by
  decide +kernel

end XQueryLexer
