import ChannelDirectory.Query.Params
import ChannelDirectory.Query.Predicate

/-!
# From parameters to a query

`compile` turns query parameters into a `Query`: a predicate and the paging the caller
asked for. All values of one key are alternatives of each other, and a value is cut into
further alternatives at `|`, `,` and `;`. Different keys must all hold. A key that ends in
`!` or `!=` is negated.

* `~name` and `~tag` ask for the name of the channel and of a tag.
* `~size`, `~from`, `~search_after` and `~track_total_hits` direct the paging.
* Any other key asks for a property of that name with a matching value. Negated, it asks
  for a property of that name with a value that matches none of the alternatives, or, if
  one of them is `*`, for no property of that name at all.
-/

namespace ChannelDirectory

/-- What is wrong with query parameters. -/
inductive QueryError where
  /-- A value of a paging key is no integer. -/
  | invalidNumber (key value : String)
  /-- The offset of the page is negative. -/
  | negativeOffset (value : Int)
  /-- The size of the page is negative. -/
  | negativeSize (value : Int)
  /-- A key is blank or only a negation. -/
  | emptyKey
  deriving DecidableEq, Repr

/-- What the error says to a user. -/
def QueryError.message : QueryError → String
  | invalidNumber key value =>
    "Invalid value '" ++ value ++ "' for '" ++ key ++ "': expected an integer"
  | negativeOffset value => "Invalid '~from' value " ++ toString value ++ ": must not be negative"
  | negativeSize value => "Invalid '~size' value " ++ toString value ++ ": must not be negative"
  | emptyKey => "Query key cannot be empty"

/-- A page of a listing. -/
structure Page where
  size : Nat
  offset : Nat
  deriving DecidableEq, Repr

/-- The greatest count that a page can reach. -/
def maxCount : Nat := 18446744073709551615

/-- The sum of two counts, but not more than the greatest one. -/
def addCounts (a b : Nat) : Nat :=
  if maxCount < a + b then maxCount else a + b

/-- The position after the last one that the page can hold. -/
def Page.reach (p : Page) : Nat :=
  addCounts p.size p.offset

/-- A predicate with the paging that was asked for. Sizes are kept as they were given, so
that a query with a bad one can still be counted. -/
structure Query where
  predicate : Predicate
  size : Option Int := none
  offset : Option Int := none
  searchAfter : Option String := none
  trackTotal : Bool := false

/-- The page of a query, with a size for a query that gives none. -/
def Query.page (query : Query) (defaultSize : Nat) : Except QueryError Page := do
  let size ← match query.size with
    | none => pure defaultSize
    | some n => if n < 0 then throw (.negativeSize n) else pure n.toNat
  let offset ← match query.offset with
    | none => pure 0
    | some n => if n < 0 then throw (.negativeOffset n) else pure n.toNat
  return ⟨size, offset⟩

namespace Query

/-- A character that ends an alternative of a value. -/
def isSeparator (c : Char) : Bool :=
  c == '|' || c == ',' || c == ';'

/-- The alternatives of a value, trimmed. Blank ones are dropped, unless all are: then
there is one empty alternative. -/
def alternatives (value : String) : List String :=
  let parts := (Text.pieces isSeparator value.toList).map Text.trimChars
  match parts.filter fun part => !part.isEmpty with
  | [] => [""]
  | parts => parts.map String.ofList

/-- The patterns of all alternatives of all values. -/
def patterns (values : List String) : List Pattern :=
  (values.flatMap alternatives).map Pattern.parse

/-- A key without its sign of negation. -/
structure Key where
  name : String
  negated : Bool
  deriving DecidableEq, Repr

/-- Reads a key: trimmed, and without the `!=` or `!` at its end. -/
def Key.ofText (text : String) : Key :=
  let cs := Text.trimChars text.toList
  match cs.reverse with
  | '=' :: '!' :: name => ⟨String.ofList (Text.dropBlanksRight name.reverse), true⟩
  | '!' :: name => ⟨String.ofList (Text.dropBlanksRight name.reverse), true⟩
  | _ => ⟨String.ofList cs, false⟩

/-- The value of decimal digits, at least one. -/
def natural? (cs : List Char) : Option Nat :=
  if cs.isEmpty || !cs.all Char.isDigit then none
  else some (cs.foldl (fun n c => n * 10 + (c.toNat - 0x30)) 0)

/-- An integer of 64 bits, with or without a sign. -/
def integer? (cs : List Char) : Option Int := do
  let n ← match cs with
    | '-' :: cs => (natural? cs).map fun n => -(n : Int)
    | '+' :: cs => (natural? cs).map fun n => (n : Int)
    | cs => (natural? cs).map fun n => (n : Int)
  if -9223372036854775808 ≤ n && n ≤ 9223372036854775807 then some n else none

/-- The greatest of some integers, given the greatest of those before. -/
def greatest (key : String) : Option Int → List String → Except QueryError (Option Int)
  | best, [] => .ok best
  | best, value :: values =>
    match integer? (Text.trimChars value.toList) with
    | none => .error (.invalidNumber key value)
    | some n =>
      greatest key (some (match best with
        | none => n
        | some m => if m < n then n else m)) values

/-- A wildcard test without regard to case. -/
def wildcard (field : Field) (pattern : Pattern) : Predicate :=
  .wildcard field pattern .insensitive

/-- The name of the channel matches an alternative. -/
def nameGroup (values : List String) : Predicate :=
  .disjunction ((patterns values).map (wildcard .name))

/-- The name of some tag matches an alternative. -/
def tagGroup (values : List String) : Predicate :=
  .disjunction ((patterns values).map fun p => .nested .tags (wildcard .tagName p))

/-- The property has this name. -/
def propertyNamed (name : String) : Predicate :=
  wildcard .propertyName (.literal name)

/-- Some property of this name has a value that matches an alternative. -/
def propertyGroup (name : String) (values : List String) : Predicate :=
  .disjunction ((patterns values).map fun p =>
    .nested .properties (.conjunction [propertyNamed name, wildcard .propertyValue p]))

/-- Some property of this name has a value that matches no alternative; with `*` among the
alternatives, there is no property of this name. -/
def absenceGroup (name : String) (values : List String) : Predicate :=
  let patterns := patterns values
  if patterns.any Pattern.matchesEverything then
    (Predicate.nested .properties (propertyNamed name)).negate
  else
    .nested .properties (.conjunction [propertyNamed name,
      (Predicate.disjunction (patterns.map (wildcard .propertyValue))).negate])

/-- The opposite of a predicate if the key is negated. -/
def negateIf (negated : Bool) (p : Predicate) : Predicate :=
  if negated then p.negate else p

/-- A query under construction: the conditions so far, and the paging. -/
structure Draft where
  conditions : List Predicate := []
  size : Option Int := none
  offset : Option Int := none
  searchAfter : Option String := none
  trackTotal : Bool := false

/-- The draft with one more condition. -/
def Draft.require (draft : Draft) (p : Predicate) : Draft :=
  { draft with conditions := draft.conditions ++ [p] }

/-- Takes one entry of the parameters into the draft. -/
def Draft.addEntry (draft : Draft) (entry : String × List String) : Except QueryError Draft :=
  let key := Key.ofText entry.1
  let values := entry.2
  if key.name = "" then .error .emptyKey
  else if key.name = "~name" then
    .ok (draft.require (negateIf key.negated (nameGroup values)))
  else if key.name = "~tag" then
    .ok (draft.require (negateIf key.negated (tagGroup values)))
  else if key.name = "~size" then do
    let n ← greatest "~size" none values
    .ok { draft with size := n.or draft.size }
  else if key.name = "~from" then do
    let n ← greatest "~from" none values
    .ok { draft with offset := n.or draft.offset }
  else if key.name = "~search_after" then
    match values with
    | [] => .ok draft
    | value :: _ => .ok { draft with searchAfter := some (Text.trim value) }
  else if key.name = "~track_total_hits" then
    match values with
    | [] => .ok draft
    | value :: _ =>
      let text := (Text.trimChars value.toList).map Char.toLower
      .ok { draft with trackTotal := text == ['t', 'r', 'u', 'e'] }
  else if key.negated then .ok (draft.require (absenceGroup key.name values))
  else .ok (draft.require (propertyGroup key.name values))

/-- The query that a draft stands for. -/
def Draft.finish (draft : Draft) : Query where
  predicate := .conjunction draft.conditions
  size := draft.size
  offset := draft.offset
  searchAfter := draft.searchAfter
  trackTotal := draft.trackTotal

/-- The query that parameters stand for. -/
def compile (params : QueryParams) : Except QueryError Query := do
  let draft ← params.entries.foldlM Draft.addEntry {}
  return draft.finish

end Query

end ChannelDirectory
