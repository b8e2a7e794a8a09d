import AtScript.Value.Reading

/-! # Stores

A script works on a flat mapping from keys to texts that its host owns. Any type with the three
operations of `Store` can be that mapping; the rest is derived from them. A stored null text reads
back as the empty text, so a key that was never written and one that was cleared look the same.
-/

namespace AtScript

/-- A mapping from keys to raw texts. -/
class Store (S : Type) where
  /-- The raw text of a key. -/
  get? : S → String → Option String
  /-- Writes the raw text of a key. -/
  insert : S → String → String → S
  /-- Every key once, in the order of the mapping. -/
  keys : S → List String

/-- A store that keeps what is written and lists exactly the written keys. -/
class LawfulStore (S : Type) [Store S] : Prop where
  get?_insert : ∀ (store : S) (key value other : String),
    Store.get? (Store.insert store key value) other =
      if other = key then some value else Store.get? store other
  mem_keys : ∀ (store : S) (key : String),
    key ∈ Store.keys store ↔ (Store.get? store key).isSome
  nodup_keys : ∀ store : S, (Store.keys store).Nodup

namespace Store

variable {S : Type} [Store S]

/-- The value of a key: empty when the key is absent or holds the null text. -/
def get (store : S) (key : String) : String :=
  match get? store key with
  | some text => if Text.sameIgnoringCase text Value.null then "" else text
  | none => ""

/-- Writes the value of a key. Blank text is kept as the null text. -/
def set (store : S) (key value : String) : S :=
  insert store key (if Value.isNull value then Value.null else value)

/-- The value of a key as an integer. The error names the key. -/
def getInt (store : S) (key : String) : Except ValueError Int64 :=
  let value := get store key
  match Value.toInt value with
  | .ok number => .ok number
  | .error _ => .error (.notNumeric ("[" ++ key ++ "] " ++ value))

/-- What follows `start` in a key that begins with it. A start that begins with `@` names a stored
script, and the letter case of such names does not matter. -/
def afterStart? (start key : String) : Option (List Char) :=
  if start.toList.head? == some '@' then
    Text.dropPrefixIgnoringCase? start.toList key.toList
  else
    Text.dropPrefix? start.toList key.toList

/-- The entries whose key begins with `start`, in the order of the store. -/
def entriesFrom (store : S) (start : String) : List (String × String) :=
  ((keys store).filter fun key => (afterStart? start key).isSome).map fun key =>
    (key, get store key)

end Store

end AtScript
