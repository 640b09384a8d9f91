import ChannelDirectory.Yaml.Scalar
import ChannelDirectory.Yaml.Tag

/-!
# Tokens of YAML texts

The indentation of a text shows in its tokens: a sequence or a mapping of indented lines
begins with a token of its own, and `blockEnd` ends it. `key` stands before the name of an
entry, even where nothing in the text shows that one begins.
-/

namespace ChannelDirectory.Yaml

/-- A token. -/
inductive Token where
  /-- The version of YAML. -/
  | version (major minor : Nat)
  /-- What a handle of tags stands for. -/
  | handle (name meaning : String)
  | documentStart
  | documentEnd
  | blockSequenceStart
  | blockMappingStart
  | blockEnd
  | flowSequenceStart
  | flowSequenceEnd
  | flowMappingStart
  | flowMappingEnd
  /-- The dash before an item. -/
  | blockEntry
  /-- The comma between items or entries. -/
  | flowEntry
  | key
  | value
  | alias (name : String)
  | anchor (name : String)
  | tag (tag : Tag)
  | scalar (text : String) (style : ScalarStyle)
  deriving DecidableEq, Repr

end ChannelDirectory.Yaml
