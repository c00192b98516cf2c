import BlockLang.Expr.Outline
import BlockLang.Failure

/-!
# Records of runs

What is remembered of an evaluated source: the source, its outcome in words and
the settings under which it was evaluated.
-/

namespace BlockLang

/-- What is remembered of an evaluated source. -/
structure Record where
  source : Text
  result : Text
  errorClass : Text
  errorMessage : Text
  lexical : Bool
  trace : Bool

namespace Record

/-- Whether the evaluation failed. -/
def failed (r : Record) : Bool :=
  !r.errorClass.isEmpty

/-- The record of an evaluation under given settings. -/
def ofOutcome (lexical trace : Bool) (source : Text) : Except Failure Node → Record
  | .ok v => ⟨source, v.inspect, [], [], lexical, trace⟩
  | .error f => ⟨source, [], f.classify, f.text, lexical, trace⟩

end Record

end BlockLang
