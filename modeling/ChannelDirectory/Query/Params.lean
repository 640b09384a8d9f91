import ChannelDirectory.Text.Blank
import ChannelDirectory.Text.FormEncoding

/-!
# Query parameters

`QueryParams` is an ordered multimap from keys to lists of values. A key stands where it
was first added, or where it was last set; adding to a key that is there appends to its
values. `QueryParams.parse` reads the query text of an address.
-/

namespace ChannelDirectory

/-- Keys with their values, in the order of the keys' first appearance. -/
structure QueryParams where
  entries : List (String × List String)
  deriving DecidableEq, Repr

namespace QueryParams

/-- No parameters. -/
def empty : QueryParams := ⟨[]⟩

/-- Appends a value to the first entry of a key, or a new entry at the end. -/
def addTo (key value : String) : List (String × List String) → List (String × List String)
  | [] => [(key, [value])]
  | (k, values) :: entries =>
    if k = key then (k, values ++ [value]) :: entries
    else (k, values) :: addTo key value entries

/-- Appends a value to those of a key. -/
def add (params : QueryParams) (key value : String) : QueryParams :=
  ⟨addTo key value params.entries⟩

/-- Makes a value the only one of a key, which moves to the end. -/
def set (params : QueryParams) (key value : String) : QueryParams :=
  ⟨params.entries.filter (fun e => e.1 != key) ++ [(key, [value])]⟩

/-- Takes the first entry of a key out: its values, if there is one, and the entries that are
left. -/
def takeFrom (key : String) :
    List (String × List String) → Option (List String) × List (String × List String)
  | [] => (none, [])
  | (k, values) :: entries =>
    if k = key then (some values, entries)
    else
      let taken := takeFrom key entries
      (taken.1, (k, values) :: taken.2)

/-- Removes a key, and gives the values that it had. -/
def take (params : QueryParams) (key : String) : Option (List String) × QueryParams :=
  let taken := takeFrom key params.entries
  (taken.1, ⟨taken.2⟩)

/-- Removes a key. -/
def remove (params : QueryParams) (key : String) : QueryParams :=
  (params.take key).2

/-- The values of a key. -/
def get? (params : QueryParams) (key : String) : Option (List String) :=
  (params.entries.find? fun e => e.1 == key).map Prod.snd

/-- The keys in order. -/
def keys (params : QueryParams) : List String :=
  params.entries.map Prod.fst

/-- The number of keys. -/
def size (params : QueryParams) : Nat :=
  params.entries.length

/-- There are no parameters. -/
def isEmpty (params : QueryParams) : Bool :=
  params.entries.isEmpty

/-- The parameters that pairs add up to. -/
def ofPairs (pairs : List (String × String)) : QueryParams :=
  pairs.foldl (fun params p => params.add p.1 p.2) empty

/-- The parameters of a form-encoded text. Blanks around it and question marks in front of
it do not count. -/
def parse (text : String) : QueryParams :=
  let body := (Text.trimChars text.toList).dropWhile (· == '?')
  ofPairs (Text.FormEncoding.pairs body)

end QueryParams

end ChannelDirectory
