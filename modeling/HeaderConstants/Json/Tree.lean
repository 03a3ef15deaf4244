import HeaderConstants.Json.Token

/-!
# Reading JSON

Tokens are read with a stack of the open lists and objects. What is read is a tree of the text: a
quoted text of the tree has no value where its units do not form characters, and numbers keep their
spelling, so that a part of a document that nobody asks for may hold anything that is well formed.

* `Json.Tree`: what a text spells;
* `Json.ReadState.next?`: one token;
* `Json.Tree.ofText?`: a whole text, with nothing after the value.
-/

namespace HeaderConstants.Json
set_option autoImplicit false

inductive Tree where
  | null
  | bool (value : Bool)
  | number (value : Number)
  | string (value : Option Text)
  | array (items : List Tree)
  | object (members : List (Option Text × Tree))

/-- An open list with the items so far, or an open object with the members so far and the key whose
value is due. -/
inductive OpenTree where
  | array (items : List Tree)
  | object (members : List (Option Text × Tree)) (key : Option Text)

inductive ReadState where
  | value (stack : List OpenTree)
  | firstItem (stack : List OpenTree)
  | firstKey (stack : List OpenTree)
  | key (stack : List OpenTree) (members : List (Option Text × Tree))
  | colon (stack : List OpenTree) (members : List (Option Text × Tree)) (key : Option Text)
  | done (stack : List OpenTree) (tree : Tree)

namespace ReadState

/-- A token where a value is due. -/
def valueToken? (stack : List OpenTree) : Token → Option ReadState
  | .null => some (.done stack .null)
  | .bool b => some (.done stack (.bool b))
  | .number n => some (.done stack (.number n))
  | .quoted parts => some (.done stack (.string (partsText? parts)))
  | .openBracket => some (.firstItem stack)
  | .openBrace => some (.firstKey stack)
  | _ => none

/-- A token after a value. -/
def doneToken? (tree : Tree) : List OpenTree → Token → Option ReadState
  | .array items :: stack, .comma => some (.value (.array (items ++ [tree]) :: stack))
  | .array items :: stack, .closeBracket => some (.done stack (.array (items ++ [tree])))
  | .object members k :: stack, .comma => some (.key stack (members ++ [(k, tree)]))
  | .object members k :: stack, .closeBrace =>
    some (.done stack (.object (members ++ [(k, tree)])))
  | _, _ => none

def next? : ReadState → Token → Option ReadState
  | value stack, token => valueToken? stack token
  | firstItem stack, .closeBracket => some (.done stack (.array []))
  | firstItem stack, token => valueToken? (.array [] :: stack) token
  | firstKey stack, .closeBrace => some (.done stack (.object []))
  | firstKey stack, .quoted parts => some (.colon stack [] (partsText? parts))
  | key stack members, .quoted parts => some (.colon stack members (partsText? parts))
  | colon stack members k, .colon => some (.value (.object members k :: stack))
  | done stack tree, token => doneToken? tree stack token
  | _, _ => none

def result? : ReadState → Option Tree
  | done [] tree => some tree
  | _ => none

end ReadState

namespace Tree

def ofTokens? (ts : List Token) : Option Tree := do
  let s ← ts.foldlM ReadState.next? (.value [])
  s.result?

def ofText? (t : Text) : Option Tree := do
  let ts ← tokens? t
  ofTokens? ts

end Tree

end HeaderConstants.Json
