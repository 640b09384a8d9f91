/-!
# YAML scalars

A scalar is a text together with the style in which it is written and the tag that it
bears. The modules below this one read the styles.
-/

namespace ChannelDirectory.Yaml

/-- How a scalar is written. -/
inductive ScalarStyle where
  | plain
  | singleQuoted
  | doubleQuoted
  /-- Indented lines that keep their ends. -/
  | literal
  /-- Indented lines that are joined. -/
  | folded
  deriving DecidableEq, Repr

/-- A scalar. -/
structure Scalar where
  text : String
  style : ScalarStyle
  tag : Option String := none
  deriving DecidableEq, Repr

/-- What is not written: a plain scalar without text. -/
def Scalar.empty : Scalar := ⟨"", .plain, none⟩

end ChannelDirectory.Yaml
