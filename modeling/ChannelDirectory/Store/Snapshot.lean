import ChannelDirectory.Store
import ChannelDirectory.Json.Reader
import ChannelDirectory.Json.Printer

/-!
# Snapshots of a store

A snapshot is the text of a store: a JSON object whose member `indices` holds the indices,
each an object of documents by id. `Store.save` writes it over several lines.
`Store.load` reads it back. It refuses a snapshot with two members `indices`, passes over
other members, and takes an array of one item for an object with that item as its
`indices`. Of two indices of one name the later one counts, but the earlier one has to be an
object of documents as well.
-/

namespace ChannelDirectory

namespace Store

/-- The indices as JSON. -/
def toJson (s : Store) : Json :=
  .object (s.indices.mapValues fun _ docs => Json.object docs.entries).entries

/-- The text of a snapshot. -/
def save (s : Store) : String :=
  (Json.object [("indices", s.toJson)]).pretty

/-- The documents of an index from JSON. -/
def documentsOfJson? : Json → Option Documents
  | .object members => some (KeyMap.ofList members)
  | _ => none

/-- An index with its name, from JSON. -/
def indexOfJson? (member : String × Json) : Option (String × Documents) :=
  (documentsOfJson? member.2).map fun docs => (member.1, docs)

open Json in
/-- The indices at the front of a text, and the text after them. -/
def readIndices? (cs : List Char) : Option (List (String × Documents) × List Char) :=
  match skipSpace cs with
  | '{' :: cs =>
    match readMembers (fuelFor cs) (maxDepth - 2) cs with
    | some (members, rest) => (members.mapM indexOfJson?).map fun indices => (indices, rest)
    | none => none
  | _ => none

open Json in
/-- The members of the outer object, at least one, with the indices if they came before. -/
def readOuter? : (fuel : Nat) → Option (List (String × Documents)) → List Char →
    Option (Option (List (String × Documents)) × List Char)
  | 0, _, _ => none
  | fuel + 1, found, cs =>
    match readName cs with
    | none => none
    | some (name, cs) =>
      let member :=
        if name = "indices" then
          if found.isSome then none
          else (readIndices? cs).map fun (indices, rest) => (some indices, rest)
        else (skipValue (fuelFor cs) cs).map fun rest => (found, rest)
      match member with
      | none => none
      | some (found, cs) =>
        match skipSpace cs with
        | ',' :: cs => readOuter? fuel found cs
        | '}' :: cs => some (found, cs)
        | _ => none

open Json in
/-- The indices in a snapshot, and the text after it. -/
def readSnapshot? (cs : List Char) : Option (List (String × Documents) × List Char) :=
  match skipSpace cs with
  | '{' :: cs =>
    match readOuter? (fuelFor cs) none cs with
    | some (some indices, rest) => some (indices, rest)
    | _ => none
  | '[' :: cs =>
    match readIndices? cs with
    | some (indices, cs) =>
      match skipSpace cs with
      | ']' :: cs => some (indices, cs)
      | _ => none
    | none => none
  | _ => none

/-- The store of a snapshot. -/
def load (text : String) : Option Store :=
  match readSnapshot? text.toList with
  | some (indices, rest) => if Json.atEnd rest then some ⟨KeyMap.ofList indices⟩ else none
  | none => none

end Store

end ChannelDirectory
