import ChannelDirectory.Yaml.Scalar.Block
import ChannelDirectory.Yaml.Scalar.Plain
import ChannelDirectory.Yaml.Scalar.Quoted
import ChannelDirectory.Yaml.Token

/-!
# Reading tokens

`Token.ofText?` reads the tokens of a text. The text is gone through once with a
`TokenReader`. It keeps the indentation of the block collections that are open, and for every
open bracket or brace, and for what is around them, a `Candidate`: the last token that might
begin the name of an entry. A colon that follows it on the same line, at most 1024 bytes
later, makes it one, and a `key` is put before it. In a block mapping a token in
the column of the mapping has to be a name.
-/

namespace ChannelDirectory.Yaml

/-- A token that might begin the name of an entry. -/
structure Candidate where
  /-- How many tokens stand before it. -/
  number : Nat
  /-- Nothing but a name may stand here. -/
  required : Bool
  position : Position
  deriving DecidableEq, Repr

/-- How many bytes a name may have. -/
def maxNameLength : Nat := 1024

/-- The token might still be a name if a colon stood here. -/
def Candidate.isLive (c : Candidate) (here : Position) : Bool :=
  c.position.line == here.line && here.index ≤ c.position.index + maxNameLength

/-- A text that is read up to some place. -/
structure TokenReader where
  /-- The tokens so far, the latest first. -/
  tokens : List Token := []
  /-- How many they are. -/
  count : Nat := 0
  position : Position := {}
  rest : List Char
  /-- One more than the column of the innermost block collection, zero outside of all. -/
  level : Nat := 0
  /-- The levels of the collections around it, the innermost first. -/
  levels : List Nat := []
  candidate : Option Candidate := none
  /-- The candidates around the open brackets and braces, the innermost first. -/
  around : List (Option Candidate) := []
  /-- A name may begin here. -/
  nameAllowed : Bool := true

namespace TokenReader

/-- This is inside brackets or braces. -/
def inFlow (r : TokenReader) : Bool :=
  !r.around.isEmpty

/-- Adds a token. -/
def emit (r : TokenReader) (token : Token) : TokenReader :=
  { r with tokens := token :: r.tokens, count := r.count + 1 }

/-- Puts a token after the first `number` ones. -/
def insert (r : TokenReader) (number : Nat) (token : Token) : TokenReader :=
  let later := r.count - number
  { r with tokens := r.tokens.take later ++ token :: r.tokens.drop later, count := r.count + 1 }

/-- Passes over some characters. -/
def pass (r : TokenReader) (count : Nat) : TokenReader :=
  { r with position := r.position.passAll (r.rest.take count), rest := r.rest.drop count }

/-- Goes on to what is left of the text. -/
def moveTo (r : TokenReader) (rest : List Char) : TokenReader :=
  r.pass (r.rest.length - rest.length)

/-- Says whether a name may begin next. -/
def allowName (r : TokenReader) (allowed : Bool) : TokenReader :=
  { r with nameAllowed := allowed }

/-- Gives up the candidate, which must not be required. -/
def dropCandidate? (r : TokenReader) : Option TokenReader :=
  if r.candidate.any Candidate.required then none else some { r with candidate := none }

/-- Makes the next token a candidate if a name may begin here. -/
def markCandidate? (r : TokenReader) : Option TokenReader :=
  if r.nameAllowed then
    r.dropCandidate?.map fun r =>
      { r with
        candidate := some
          ⟨r.count, !r.inFlow && r.level == r.position.column + 1, r.position⟩ }
  else some r

/-- Candidates that cannot be names any more. -/
def keepLive? (here : Position) (candidate : Option Candidate) : Option (Option Candidate) :=
  match candidate with
  | none => some none
  | some c => if c.isLive here then some (some c) else if c.required then none else some none

/-- Gives up the candidates that cannot be names any more. -/
def dropStale? (r : TokenReader) : Option TokenReader := do
  let candidate ← keepLive? r.position r.candidate
  let around ← r.around.mapM (keepLive? r.position)
  some { r with candidate, around }

/-- Opens a block collection in a column, if it is further in than the innermost one. -/
def openBlock (r : TokenReader) (column number : Nat) (token : Token) : TokenReader :=
  if r.inFlow || column < r.level then r
  else { r.insert number token with level := column + 1, levels := r.level :: r.levels }

/-- Closes the block collections with these levels around while they are further in than
`level`. -/
def closeFrom (r : TokenReader) (level : Nat) : List Nat → TokenReader
  | [] => r
  | outer :: levels =>
    if level < r.level then
      closeFrom { r.emit .blockEnd with level := outer, levels } level levels
    else r

/-- Closes the block collections that are further in than `level`. -/
def closeBlocks (r : TokenReader) (level : Nat) : TokenReader :=
  if r.inFlow then r else r.closeFrom level r.levels

/-- Passes over blanks, comments, the ends of lines and the byte order marks that begin
lines, from a position on. A tab counts as a blank only where no name may begin. Says whether
a name may begin then, and where that is. -/
def skipGap (flow comment nameAllowed : Bool) (here : Position) :
    List Char → Bool × Position × List Char
  | [] => (nameAllowed, here, [])
  | c :: cs =>
    if isBreak c then skipGap flow false (nameAllowed || !flow) (here.pass c) cs
    else if comment || c == '#' then skipGap flow true nameAllowed (here.pass c) cs
    else if c == ' ' || (c == '\t' && (flow || !nameAllowed)) ||
        (c == '\ufeff' && here.column == 0) then
      skipGap flow false nameAllowed (here.pass c) cs
    else (nameAllowed, here, c :: cs)

/-- Goes to the next token. -/
def advance? (r : TokenReader) : Option TokenReader :=
  let (nameAllowed, position, rest) := skipGap r.inFlow false r.nameAllowed r.position r.rest
  (dropStale? { r with nameAllowed, position, rest }).map fun r =>
    r.closeBlocks (r.position.column + 1)

/-- Ends all blocks for something that stands outside of every collection. -/
def leaveBlocks? (r : TokenReader) : Option TokenReader :=
  (r.closeBlocks 0).dropCandidate?.map fun r => r.allowName false

/-- A number in a version, and the text after it. -/
def versionNumber? (cs : List Char) : Option (Nat × List Char) :=
  let digits := cs.takeWhile Char.isDigit
  if digits.isEmpty || 9 < digits.length then none
  else some (digits.foldl (fun n d => n * 10 + (d.toNat - 0x30)) 0, cs.dropWhile Char.isDigit)

/-- A directive after its percent sign, and the text from the next line on. -/
def directiveToken? (cs : List Char) : Option (Token × List Char) := do
  let name := String.ofList (cs.takeWhile isWordChar)
  let cs := cs.dropWhile isWordChar
  if !endsWord cs then none
  let cs := cs.dropWhile isBlank
  let (token, cs) ← (match name with
    | "YAML" => do
      let (major, cs) ← versionNumber? cs
      if cs.head? ≠ some '.' then none
      let (minor, cs) ← versionNumber? (cs.drop 1)
      some (Token.version major minor, cs)
    | "TAG" => do
      let (name, cs) ← tagHandle? cs
      if !cs.head?.any isBlank then none
      let (meaning, cs) ← someTagChars? true (cs.dropWhile isBlank)
      if !endsWord cs then none
      some (Token.handle name (String.ofList (meaning.takeWhile (· != '\x00'))), cs)
    | _ => none)
  let rest ← finishLine? cs
  some (token, rest)

/-- Reads a directive. -/
def directive? (r : TokenReader) : Option TokenReader := do
  let r ← r.leaveBlocks?
  let (token, rest) ← directiveToken? (r.rest.drop 1)
  some ((r.emit token).moveTo rest)

/-- Reads the mark of a document. -/
def documentMark? (r : TokenReader) (token : Token) : Option TokenReader :=
  r.leaveBlocks?.map fun r => (r.emit token).pass 3

/-- Reads an opening bracket or brace. -/
def openFlow? (r : TokenReader) (token : Token) : Option TokenReader :=
  r.markCandidate?.map fun r =>
    (({ r with candidate := none, around := r.candidate :: r.around }.emit token).pass 1).allowName
      true

/-- Reads a closing bracket or brace. One that nothing opened does not close anything. -/
def closeFlow? (r : TokenReader) (token : Token) : Option TokenReader :=
  r.dropCandidate?.map fun r =>
    let r := match r.around with
      | [] => r
      | candidate :: around => { r with candidate, around }
    ((r.emit token).pass 1).allowName false

/-- Reads a comma inside brackets or braces. -/
def flowEntry? (r : TokenReader) : Option TokenReader :=
  r.dropCandidate?.map fun r => ((r.emit .flowEntry).pass 1).allowName true

/-- Opens a block collection for a mark that stands here. It may only where a name may. -/
def openHere? (r : TokenReader) (token : Token) : Option TokenReader :=
  if r.inFlow then some r
  else if r.nameAllowed then some (r.openBlock r.position.column r.count token)
  else none

/-- Reads the dash of an item. -/
def blockEntry? (r : TokenReader) : Option TokenReader := do
  let r ← (← r.openHere? .blockSequenceStart).dropCandidate?
  some (((r.emit .blockEntry).pass 1).allowName true)

/-- Reads the question mark before a name. -/
def key? (r : TokenReader) : Option TokenReader := do
  let r ← (← r.openHere? .blockMappingStart).dropCandidate?
  some (((r.emit .key).pass 1).allowName !r.inFlow)

/-- Reads the colon before a value. -/
def value? (r : TokenReader) : Option TokenReader := do
  let r ← (match r.candidate with
    | some c =>
      some (({ r.insert c.number .key with candidate := none }.openBlock
        c.position.column c.number .blockMappingStart).allowName false)
    | none => (r.openHere? .blockMappingStart).map fun r => r.allowName !r.inFlow)
  some ((r.emit .value).pass 1)

/-- Reads an anchor or an alias, with the token that its name makes. -/
def name? (r : TokenReader) (token : String → Token) : Option TokenReader := do
  let r ← r.markCandidate?
  let cs := r.rest.drop 1
  let word := cs.takeWhile isWordChar
  let rest := cs.dropWhile isWordChar
  if word.isEmpty || !(endsWord rest || rest.head?.any "?:,]\x7d%@`".toList.contains) then none
  else some (((r.emit (token (String.ofList word))).pass (word.length + 1)).allowName false)

/-- Reads a tag. -/
def tagged? (r : TokenReader) : Option TokenReader := do
  let r ← r.markCandidate?
  let (tag, rest) ← tag? r.inFlow (r.rest.drop 1)
  some (((r.emit (.tag tag)).moveTo rest).allowName false)

/-- Reads a block scalar. -/
def blockScalar? (r : TokenReader) (style : ScalarStyle) : Option TokenReader := do
  let r ← r.dropCandidate?
  let (out, rest) ← block? (style == .folded) r.level (r.rest.drop 1)
  some (((r.emit (.scalar (String.ofList out) style)).moveTo rest).allowName true)

/-- Reads a quoted scalar. -/
def quotedScalar? (r : TokenReader) (style : ScalarStyle) : Option TokenReader := do
  let r ← r.markCandidate?
  let cs := r.rest.drop 1
  let (out, rest) ← if style == .singleQuoted then singleQuoted? cs else doubleQuoted? cs
  some (((r.emit (.scalar (String.ofList out) style)).moveTo rest).allowName false)

/-- Reads a plain scalar. -/
def plainScalar? (r : TokenReader) : Option TokenReader := do
  let r ← r.markCandidate?
  let scalar ← plain? r.inFlow r.level r.rest
  some (((r.emit (.scalar (String.ofList scalar.chars) .plain)).moveTo scalar.rest).allowName
    scalar.endsLine)

/-- Reads the token that begins here. -/
def next? (r : TokenReader) : Option TokenReader :=
  let lineStart := r.position.column == 0
  if lineStart && isTriple '-' r.rest then r.documentMark? .documentStart
  else if lineStart && isTriple '.' r.rest then r.documentMark? .documentEnd
  else if lineStart && r.rest.head? == some '%' then r.directive?
  else match r.rest with
    | [] => none
    | '[' :: _ => r.openFlow? .flowSequenceStart
    | '{' :: _ => r.openFlow? .flowMappingStart
    | ']' :: _ => r.closeFlow? .flowSequenceEnd
    | '}' :: _ => r.closeFlow? .flowMappingEnd
    | ',' :: _ => r.flowEntry?
    | '*' :: _ => r.name? .alias
    | '&' :: _ => r.name? .anchor
    | '!' :: _ => r.tagged?
    | '\'' :: _ => r.quotedScalar? .singleQuoted
    | '"' :: _ => r.quotedScalar? .doubleQuoted
    | '-' :: cs => if endsWord cs then r.blockEntry? else r.plainScalar?
    | '?' :: cs => if r.inFlow || endsWord cs then r.key? else r.plainScalar?
    | ':' :: cs => if r.inFlow || endsWord cs then r.value? else r.plainScalar?
    | '|' :: _ => if r.inFlow then none else r.blockScalar? .literal
    | '>' :: _ => if r.inFlow then none else r.blockScalar? .folded
    | cs => if beginsPlain cs then r.plainScalar? else none

/-- Reads all tokens. -/
def finish? (r : TokenReader) : (fuel : Nat) → Option (List Token)
  | 0 => none
  | fuel + 1 =>
    match r.advance? with
    | none => none
    | some r =>
      if r.rest.isEmpty then r.leaveBlocks?.map fun r => r.tokens.reverse
      else match r.next? with
        | none => none
        | some r => r.finish? fuel

end TokenReader

/-- The tokens of a text. Every character has to be allowed. -/
def Token.ofText? (text : String) : Option (List Token) :=
  let cs := text.toList
  if cs.all isAllowed then
    let cs := unifyBreaks cs
    TokenReader.finish? { rest := cs } cs.length.succ
  else none

end ChannelDirectory.Yaml
