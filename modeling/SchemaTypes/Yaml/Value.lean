/-
# From nodes to values

A plain scalar without a tag is null, a boolean, an integer, a number in
double precision or a string, in this order of trial. Quoted and block
scalars are strings. A tag of the common set forces the type of a scalar; a
tag of one's own is refused, unless it is no UTF-8: then it counts as none,
except that a quoted scalar stays one. A mapping becomes an object with the texts of its
keys; an alias becomes the value of its node.

Collections may be 128 deep, and aliases may be followed a hundred times as
often as the document has events.

Key definitions: `Yaml.scalarValue`, `Yaml.Node.value`, `Yaml.parse`.
-/
import SchemaTypes.Decimal
import SchemaTypes.Json.Basic
import SchemaTypes.Yaml.Node

namespace SchemaTypes.Yaml

open Decimal (natural? signed decimal?)

/-! ### Scalars -/

/-- The text of a scalar as a null. -/
def isNull (text : String) : Bool :=
  text = "null" || text = "Null" || text = "NULL" || text = "~"

/-- The text of a scalar as a boolean. -/
def boolean? (text : String) : Option Bool :=
  if text = "true" || text = "True" || text = "TRUE" then some true
  else if text = "false" || text = "False" || text = "FALSE" then some false
  else none

/-- Digits that start with a needless zero. -/
def hasNeedlessZero (digits : List Char) : Bool :=
  1 < digits.length && digits.head? = some '0' && digits.all Char.isDigit

/-- The text of a scalar as an integer: decimal, or with a prefix for another
base. -/
def integer? (cs : List Char) : Option Int :=
  let (negative, digits) := signed cs
  let magnitude :=
    match digits with
    | '0' :: 'x' :: ds => natural? 16 ds
    | '0' :: 'o' :: ds => natural? 8 ds
    | '0' :: 'b' :: ds => natural? 2 ds
    | ds => if hasNeedlessZero ds then none else natural? 10 ds
  magnitude.map fun n => if negative then -(n : Int) else n

/-- What an integer becomes: beyond 128 bits it is none. -/
inductive IntegerReading where
  | number (n : Json.Number)
  | tooLarge
  | none

/-- Reads an integer; between 64 and 128 bits it is too large. -/
def readInteger (text : String) : IntegerReading :=
  match integer? text.toList with
  | .none => .none
  | some n =>
    if h : -9223372036854775808 ≤ n ∧ n ≤ 18446744073709551615 then .number (.integer n h.1 h.2)
    else if -170141183460469231731687303715884105728 ≤ n ∧
        n ≤ 340282366920938463463374607431768211455 then .tooLarge
    else .none

/-- What the text of a scalar stands for as a number in double precision. -/
inductive FloatReading where
  | finite (x : Binary64)
  | notFinite
  | none

/-- Reads a number in double precision. -/
def readFloat (text : String) : FloatReading :=
  let (negative, cs) := signed text.toList
  let magnitude := String.ofList cs
  if magnitude = ".inf" || magnitude = ".Inf" || magnitude = ".INF" then .notFinite
  else if text = ".nan" || text = ".NaN" || text = ".NAN" then .notFinite
  else
    match decimal? cs with
    | .none => .none
    | some (digits, e) =>
      match Binary64.ofDecimal negative digits e with
      | some x => .finite x
      | .none => .none

/-- The value of a number that may not be finite. -/
def FloatReading.value? : FloatReading → Option Json
  | .finite x => some (.number (.float x))
  | .notFinite => some .null
  | .none => Option.none

/-- The value of a plain scalar without a tag. -/
def plainValue (text : String) : Except Fault Json :=
  if text = "" || isNull text then .ok .null
  else
    match boolean? text with
    | some b => .ok (.bool b)
    | none =>
      match readInteger text with
      | .number n => .ok (.number n)
      | .tooLarge => .error .number
      | .none =>
        if hasNeedlessZero (signed text.toList).2 then .ok (.string text)
        else .ok ((readFloat text).value?.getD (.string text))

/-- The tag begins like one of one's own. -/
def startsOwn (tag : TagText) : Bool :=
  tag.head? = some 0x21

/-- A tag of one's own. -/
def isOwnTag (tag : TagText) : Bool :=
  startsOwn tag && (String.fromUTF8? ⟨tag.toArray⟩).isSome

/-- The tag is a name of the common set. -/
def isCommon (name : String) (tag : TagText) : Bool :=
  tag = TagText.ofString ("tag:yaml.org,2002:" ++ name)

/-- The value of a scalar. -/
def scalarValue (tag : Option TagText) (isPlain : Bool) (text : String) : Except Fault Json :=
  match tag with
  | none => if isPlain then plainValue text else .ok (.string text)
  | some t =>
    if isOwnTag t then .error .tag
    else if isCommon "bool" t then
      match boolean? text with
      | some b => .ok (.bool b)
      | none => .error .tag
    else if isCommon "int" t then
      match readInteger text with
      | .number n => .ok (.number n)
      | _ => .error .tag
    else if isCommon "float" t then
      match (readFloat text).value? with
      | some v => .ok v
      | none => .error .tag
    else if isCommon "null" t then
      if isNull text then .ok .null else .error .tag
    else if startsOwn t && isPlain then plainValue text
    else .ok (.string text)

/-! ### Nodes -/

/-- Makes values; the number of aliases that may still be followed goes with
it. -/
abbrev Make (α : Type) := StateT Nat (Except Fault) α

/-- The node of a slot, if an alias may still be followed. -/
def follow (anchors : Anchors) (slot : Nat) : Make Node := do
  match ← get with
  | 0 => throw .limit
  | left + 1 =>
    set left
    match anchors.node? slot with
    | some n => pure n
    | none => throw .anchor

/-- The node itself, or the node of an alias. -/
def Node.target (anchors : Anchors) : Node → Make Node
  | .aliasOf slot => follow anchors slot
  | n => pure n

/-- The text of a key. -/
def Node.keyText (anchors : Anchors) (n : Node) : Make String := do
  match ← n.target anchors with
  | .scalar _ _ text => pure text
  | _ => throw .key

/-- The value of a node; `inner` makes the values inside it, and without one
there may be no more collections. -/
def Node.valueWith (anchors : Anchors) (inner : Option (Node → Make Json)) (n : Node) :
    Make Json := do
  let collection (tag : Option TagText) (make : (Node → Make Json) → Make Json) : Make Json :=
    if tag.any isOwnTag then throw .tag
    else
      match inner with
      | some value => make value
      | none => throw .limit
  match ← n.target anchors with
  | .scalar tag isPlain text => scalarValue tag isPlain text
  | .sequence tag items => collection tag fun value => do pure (.array (← items.mapM value))
  | .mapping tag pairs =>
    collection tag fun value => do
      let members ← pairs.mapM fun p => do pure (← p.1.keyText anchors, ← value p.2)
      pure (.object (Entries.collect members []))
  | .aliasOf _ => throw .anchor

/-- The value of a node in which at most `depth` collections are inside each
other. -/
def Node.value (anchors : Anchors) : Nat → Node → Make Json
  | 0 => Node.valueWith anchors none
  | depth + 1 => Node.valueWith anchors (some (Node.value anchors depth))

/-- How many collections may be inside each other. -/
def maxDepth : Nat := 128

/-- The value of a YAML text. -/
def parse (text : String) : Except Fault Json := do
  let (root, anchors) ← document (← tokens text)
  let (v, _) ← (root.value anchors maxDepth).run (100 * root.events)
  pure v

end SchemaTypes.Yaml
