/-!
# JSON values

Objects keep their members in order, repeated names included, because a reader of syntax trees
refuses repetitions of the names it knows and no others. Of a number only one thing is kept: whether
it is a natural number that fits in 64 bits and, if so, which.
-/

namespace YulLowering

/-- A JSON number, as far as it matters here. -/
inductive Json.Number where
  | natural (value : Nat)
  | other
deriving DecidableEq, Repr, Inhabited

/-- A JSON value. -/
inductive Json where
  | null
  | bool (value : Bool)
  | number (value : Json.Number)
  | string (value : String)
  | array (elements : List Json)
  | object (members : List (String × Json))
deriving Repr, Inhabited

namespace Json

mutual

/-- How many containers lie inside each other, at the deepest place. -/
def depth : Json → Nat
  | null | bool _ | number _ | string _ => 0
  | array elements => depthOfElements elements + 1
  | object members => depthOfMembers members + 1

/-- The depth of the deepest of several elements. -/
def depthOfElements : List Json → Nat
  | [] => 0
  | element :: rest => max element.depth (depthOfElements rest)

/-- The depth of the deepest of several members. -/
def depthOfMembers : List (String × Json) → Nat
  | [] => 0
  | (_, value) :: rest => max value.depth (depthOfMembers rest)

end

end Json

end YulLowering
