import ChannelDirectory.Yaml.Node
import ChannelDirectory.Yaml.Token.Reader

/-!
# Reading nodes

`Node.ofTokens?` puts tokens together to the node of a document, and `Node.ofText?` reads a
text that holds one document. A node, an item, a name or a value that is not written is
`Node.empty`. The readers return what they read and the tokens after it, and count down
`fuel`, which the number of tokens bounds.
-/

namespace ChannelDirectory.Yaml.Node

/-- An anchor and a tag, in either order, and the tokens after them. -/
def properties? (handles : TagHandles) :
    List Token → Option (Option String × Option String × List Token)
  | .anchor name :: .tag tag :: ts => (handles.resolve? tag).map fun t => (some name, some t, ts)
  | .tag tag :: .anchor name :: ts => (handles.resolve? tag).map fun t => (some name, some t, ts)
  | .anchor name :: ts => some (some name, none, ts)
  | .tag tag :: ts => (handles.resolve? tag).map fun t => (none, some t, ts)
  | ts => some (none, none, ts)

/-- In a sequence that is not further in than the mapping around it, an item is not written if
one of these tokens comes next. -/
def endsItem : List Token → Bool
  | .blockEntry :: _ | .key :: _ | .value :: _ | .blockEnd :: _ => true
  | _ => false

/-- A name or a value in a block mapping is not written if one of these tokens comes next. -/
def endsBlockPart : List Token → Bool
  | .key :: _ | .value :: _ | .blockEnd :: _ => true
  | _ => false

/-- A value inside brackets or braces is not written if one of these tokens comes next. -/
def endsFlowPart (closing : Token) : List Token → Bool
  | t :: _ => t == .flowEntry || t == closing
  | [] => false

/-- The tokens after what separates the parts of a collection inside brackets or braces. -/
def separated? (first : Bool) (ts : List Token) : Option (List Token) :=
  if first then some ts
  else match ts with
    | .flowEntry :: ts => some ts
    | _ => none

mutual

/-- A node. `block` says that it may be a block collection, and `unindented` that it may be
the items of a sequence that is not further in than what is around it. -/
def node? (handles : TagHandles) (block unindented : Bool) (ts : List Token) :
    (fuel : Nat) → Option (Node × List Token)
  | 0 => none
  | fuel + 1 =>
    match ts with
    | .alias name :: ts => some (.alias name, ts)
    | ts =>
      match properties? handles ts with
      | none => none
      | some (anchor, tag, ts) =>
        match ts, block, unindented with
        | .blockEntry :: _, _, true =>
          (unindentedItems? handles ts fuel).map fun (items, ts) => (.sequence anchor items, ts)
        | .scalar text style :: ts, _, _ => some (.scalar anchor ⟨text, style, tag⟩, ts)
        | .flowSequenceStart :: ts, _, _ =>
          (flowItems? handles true ts fuel).map fun (items, ts) => (.sequence anchor items, ts)
        | .flowMappingStart :: ts, _, _ =>
          (flowEntries? handles true ts fuel).map fun (entries, ts) =>
            (.mapping anchor entries, ts)
        | .blockSequenceStart :: ts, true, _ =>
          (blockItems? handles ts fuel).map fun (items, ts) => (.sequence anchor items, ts)
        | .blockMappingStart :: ts, true, _ =>
          (blockEntries? handles ts fuel).map fun (entries, ts) => (.mapping anchor entries, ts)
        | ts, _, _ =>
          if anchor.isSome || tag.isSome then some (.scalar anchor ⟨"", .plain, tag⟩, ts)
          else none
termination_by structural fuel => fuel

/-- The items of an indented sequence up to its end. -/
def blockItems? (handles : TagHandles) (ts : List Token) :
    (fuel : Nat) → Option (List Node × List Token)
  | 0 => none
  | fuel + 1 =>
    match ts with
    | .blockEnd :: ts => some ([], ts)
    | .blockEntry :: ts =>
      let item := match ts with
        | .blockEntry :: _ | .blockEnd :: _ => some (empty, ts)
        | ts => node? handles true false ts fuel
      match item with
      | none => none
      | some (item, ts) =>
        (blockItems? handles ts fuel).map fun (items, ts) => (item :: items, ts)
    | _ => none
termination_by structural fuel => fuel

/-- The items of a sequence that is not further in than the mapping around it. -/
def unindentedItems? (handles : TagHandles) (ts : List Token) :
    (fuel : Nat) → Option (List Node × List Token)
  | 0 => none
  | fuel + 1 =>
    match ts with
    | .blockEntry :: ts =>
      let item := if endsItem ts then some (empty, ts) else node? handles true false ts fuel
      match item with
      | none => none
      | some (item, ts) =>
        (unindentedItems? handles ts fuel).map fun (items, ts) => (item :: items, ts)
    | ts => some ([], ts)
termination_by structural fuel => fuel

/-- A name or a value in a block mapping. -/
def blockPart? (handles : TagHandles) (ts : List Token) :
    (fuel : Nat) → Option (Node × List Token)
  | 0 => none
  | fuel + 1 =>
    if endsBlockPart ts then some (empty, ts) else node? handles true true ts fuel
termination_by structural fuel => fuel

/-- The entries of a block mapping up to its end. -/
def blockEntries? (handles : TagHandles) (ts : List Token) :
    (fuel : Nat) → Option (List (Node × Node) × List Token)
  | 0 => none
  | fuel + 1 =>
    match ts with
    | .blockEnd :: ts => some ([], ts)
    | .key :: ts =>
      match blockPart? handles ts fuel with
      | none => none
      | some (key, ts) =>
        let value := match ts with
          | .value :: ts => blockPart? handles ts fuel
          | ts => some (empty, ts)
        match value with
        | none => none
        | some (value, ts) =>
          (blockEntries? handles ts fuel).map fun (entries, ts) => ((key, value) :: entries, ts)
    | _ => none
termination_by structural fuel => fuel

/-- A value inside brackets or braces, after the name before it. -/
def flowPart? (handles : TagHandles) (closing : Token) (ts : List Token) :
    (fuel : Nat) → Option (Node × List Token)
  | 0 => none
  | fuel + 1 =>
    match ts with
    | .value :: ts =>
      if endsFlowPart closing ts then some (empty, ts) else node? handles false false ts fuel
    | ts => some (empty, ts)
termination_by structural fuel => fuel

/-- The items of a sequence in brackets. An entry with its name makes a mapping of one entry.
If its name is not written, the token after the mark of the name does not count. -/
def flowItems? (handles : TagHandles) (first : Bool) (ts : List Token) :
    (fuel : Nat) → Option (List Node × List Token)
  | 0 => none
  | fuel + 1 =>
    match ts with
    | .flowSequenceEnd :: ts => some ([], ts)
    | ts =>
      match separated? first ts with
      | none => none
      | some (.flowSequenceEnd :: ts) => some ([], ts)
      | some (.key :: ts) =>
        let key := match ts with
          | .value :: ts | .flowEntry :: ts | .flowSequenceEnd :: ts => some (empty, ts)
          | ts => node? handles false false ts fuel
        match key with
        | none => none
        | some (key, ts) =>
          match flowPart? handles .flowSequenceEnd ts fuel with
          | none => none
          | some (value, ts) =>
            (flowItems? handles false ts fuel).map fun (items, ts) =>
              (.mapping none [(key, value)] :: items, ts)
      | some ts =>
        match node? handles false false ts fuel with
        | none => none
        | some (item, ts) =>
          (flowItems? handles false ts fuel).map fun (items, ts) => (item :: items, ts)
termination_by structural fuel => fuel

/-- The entries of a mapping in braces. -/
def flowEntries? (handles : TagHandles) (first : Bool) (ts : List Token) :
    (fuel : Nat) → Option (List (Node × Node) × List Token)
  | 0 => none
  | fuel + 1 =>
    match ts with
    | .flowMappingEnd :: ts => some ([], ts)
    | ts =>
      match separated? first ts with
      | none => none
      | some (.flowMappingEnd :: ts) => some ([], ts)
      | some (.key :: ts) =>
        let key := match ts with
          | .value :: _ | .flowEntry :: _ | .flowMappingEnd :: _ => some (empty, ts)
          | ts => node? handles false false ts fuel
        match key with
        | none => none
        | some (key, ts) =>
          match flowPart? handles .flowMappingEnd ts fuel with
          | none => none
          | some (value, ts) =>
            (flowEntries? handles false ts fuel).map fun (entries, ts) =>
              ((key, value) :: entries, ts)
      | some ts =>
        match node? handles false false ts fuel with
        | none => none
        | some (key, ts) =>
          (flowEntries? handles false ts fuel).map fun (entries, ts) =>
            ((key, empty) :: entries, ts)
termination_by structural fuel => fuel

end

/-- The directives at the front of a document: what handles they name, and the tokens after
them. The version, 1.1 or 1.2, stands at most once, and so does every handle. -/
def directives? (versioned : Bool) (handles : TagHandles) :
    List Token → Option (TagHandles × List Token)
  | .version major minor :: ts =>
    if versioned || major ≠ 1 || (minor ≠ 1 && minor ≠ 2) then none
    else directives? true handles ts
  | .handle name meaning :: ts =>
    if (handles.lookup name).isSome then none
    else directives? versioned ((name, meaning) :: handles) ts
  | ts => some (handles, ts)

/-- The node at the front of some tokens. -/
def root? (handles : TagHandles) (ts : List Token) : Option (Node × List Token) :=
  node? (handles ++ TagHandles.standard) true false ts (4 * ts.length + 4)

/-- The document at the front of some tokens, and the tokens after it. -/
def document? (ts : List Token) : Option (Node × List Token) :=
  match ts with
  | [] => some (empty, [])
  | .version .. :: _ | .handle .. :: _ | .documentStart :: _ =>
    match directives? false [] ts with
    | some (handles, .documentStart :: ts) =>
      match ts with
      | [] | .version .. :: _ | .handle .. :: _ | .documentStart :: _ | .documentEnd :: _ =>
        some (empty, ts)
      | ts => root? handles ts
    | _ => none
  | ts => root? [] ts

/-- The node of a document. There has to be no more than one document. -/
def ofTokens? (ts : List Token) : Option Node :=
  match document? ts with
  | some (node, rest) => if rest.all (· == .documentEnd) then some node else none
  | none => none

/-- The node of a text that holds no more than one document. -/
def ofText? (text : String) : Option Node :=
  (Token.ofText? text).bind ofTokens?

end ChannelDirectory.Yaml.Node
