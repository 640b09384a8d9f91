import ChannelDirectory.Yaml.Scalar

/-!
# YAML nodes

A document is a `Node`. A node may bear an anchor, and an alias stands for the node of an
anchor before it. `Node.entries?` gives the entries of a mapping with their aliases replaced.

Anchors are numbered as they come: a new anchor takes the number of names before it, and an
alias the number that its name has at that place. Where a name is given twice, its second
anchor and the next new name share a number; an alias of that number stands for the last node
that has it.
-/

namespace ChannelDirectory.Yaml

/-- A node of a document. -/
inductive Node where
  | alias (name : String)
  | scalar (anchor : Option String) (content : Scalar)
  | sequence (anchor : Option String) (items : List Node)
  | mapping (anchor : Option String) (entries : List (Node × Node))
  deriving Repr

namespace Node

/-- A node that is not written. -/
def empty : Node := .scalar none .empty

/-- A place in a document where a name of an anchor occurs. -/
inductive Mention where
  | anchor (name : String) (node : Node)
  | alias (name : String)

/-- The mention of a node's own anchor. -/
def ownMention (anchor : Option String) (node : Node) : List Mention :=
  anchor.toList.map fun name => .anchor name node

mutual

/-- The mentions in a node, in the order of the text. -/
def mentions : Node → List Mention
  | .alias name => [.alias name]
  | .scalar anchor content => ownMention anchor (.scalar anchor content)
  | .sequence anchor items => ownMention anchor (.sequence anchor items) ++ itemMentions items
  | .mapping anchor entries => ownMention anchor (.mapping anchor entries) ++ entryMentions entries

/-- The mentions in the items of a sequence. -/
def itemMentions : List Node → List Mention
  | [] => []
  | item :: items => mentions item ++ itemMentions items

/-- The mentions in the entries of a mapping. -/
def entryMentions : List (Node × Node) → List Mention
  | [] => []
  | (key, value) :: entries => mentions key ++ mentions value ++ entryMentions entries

end

/-- The anchors up to some place in a document. -/
structure Anchors where
  /-- The number that each name has. -/
  numbers : List (String × Nat) := []
  /-- The nodes with their numbers, the latest first. -/
  nodes : List (Nat × Node) := []

namespace Anchors

/-- The anchors after a mention. An alias has to name one of them. -/
def note? (anchors : Anchors) : Mention → Option Anchors
  | .anchor name node =>
    let number := anchors.numbers.length
    some ⟨(name, number) :: anchors.numbers.filter (·.1 ≠ name), (number, node) :: anchors.nodes⟩
  | .alias name => if (anchors.numbers.lookup name).isSome then some anchors else none

/-- The anchors after a node. -/
def noteAll? (anchors : Anchors) (node : Node) : Option Anchors :=
  node.mentions.foldlM note? anchors

/-- The node itself, or the number of the node that it is an alias of. -/
def reference? (anchors : Anchors) : Node → Option (Nat ⊕ Node)
  | .alias name => (anchors.numbers.lookup name).map Sum.inl
  | node => some (.inr node)

/-- The node that a reference stands for, once all anchors are known. -/
def resolve? (anchors : Anchors) : Nat ⊕ Node → Option Node
  | .inl number => anchors.nodes.lookup number
  | .inr node => some node

end Anchors

/-- The keys and values of entries as references, and the anchors after them. -/
def references? (anchors : Anchors) :
    List (Node × Node) → Option (List ((Nat ⊕ Node) × (Nat ⊕ Node)) × Anchors)
  | [] => some ([], anchors)
  | (key, value) :: entries => do
    let keyReference ← anchors.reference? key
    let anchors ← anchors.noteAll? key
    let valueReference ← anchors.reference? value
    let anchors ← anchors.noteAll? value
    let (more, anchors) ← references? anchors entries
    some ((keyReference, valueReference) :: more, anchors)

/-- The entries of a mapping, with what their aliases stand for. A node that is not written
is a mapping without entries. -/
def entries? : Node → Option (List (Node × Node))
  | .scalar _ content => if content.text = "" && content.style == .plain then some [] else none
  | .mapping anchor entries => do
    let root ← (ownMention anchor (.mapping anchor entries)).foldlM Anchors.note? {}
    let (references, anchors) ← references? root entries
    references.mapM fun (key, value) => do
      some (← anchors.resolve? key, ← anchors.resolve? value)
  | _ => none

end Node

end ChannelDirectory.Yaml
