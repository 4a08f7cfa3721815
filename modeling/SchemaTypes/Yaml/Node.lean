/-
# From tokens to nodes

A node is a scalar, a sequence, a mapping or an alias. The tokens of a
document are put together by recursive descent. Anchored nodes are numbered in
the order in which they start; an anchor name takes a slot, the number of
names known so far, and an alias refers to the slot of its name. The node of a
slot is the last to have taken it.

Key definitions: `Yaml.Node`, `Yaml.Anchors`, `Yaml.document`.
-/
import SchemaTypes.Entries
import SchemaTypes.Yaml.Scanner

namespace SchemaTypes.Yaml

/-- A node of a document. -/
inductive Node where
  | scalar (tag : Option TagText) (isPlain : Bool) (text : String)
  | sequence (tag : Option TagText) (items : List Node)
  | mapping (tag : Option TagText) (pairs : List (Node × Node))
  | aliasOf (slot : Nat)
deriving Repr, Inhabited

/-- The scalar of a place where nothing is written. -/
def Node.empty : Node := .scalar none true ""

mutual

/-- The number of events a node is reported in: one for a scalar or an alias,
and one for each end of a collection. -/
def Node.events : Node → Nat
  | .scalar .. => 1
  | .aliasOf _ => 1
  | .sequence _ items => 2 + eventsOfItems items
  | .mapping _ pairs => 2 + eventsOfPairs pairs

/-- The number of events of the items of a sequence. -/
def eventsOfItems : List Node → Nat
  | [] => 0
  | n :: ns => n.events + eventsOfItems ns

/-- The number of events of the pairs of a mapping. -/
def eventsOfPairs : List (Node × Node) → Nat
  | [] => 0
  | (k, v) :: ps => k.events + v.events + eventsOfPairs ps

end

/-- The anchors of a document, as far as it has been read. -/
structure Anchors where
  /-- The slot of each name. -/
  slots : Entries Nat := []
  /-- The number of the node that took each slot last. -/
  holders : List (Nat × Nat) := []
  /-- The anchored nodes, by number. -/
  nodes : List (Nat × Node) := []
  /-- How many anchored nodes have started. -/
  started : Nat := 0

namespace Anchors

/-- An anchored node starts; its number is given. -/
def start (a : Anchors) (name : String) : Nat × Anchors :=
  let slot := a.slots.length
  (a.started,
    { a with
      slots := Entries.put name slot a.slots
      holders := (slot, a.started) :: a.holders
      started := a.started + 1 })

/-- The anchored node of a number has ended. -/
def finish (a : Anchors) (number : Nat) (n : Node) : Anchors :=
  { a with nodes := (number, n) :: a.nodes }

/-- The node of a slot. -/
def node? (a : Anchors) (slot : Nat) : Option Node := do
  a.nodes.lookup (← a.holders.lookup slot)

end Anchors

/-- What is left of the tokens, and the anchors so far. -/
structure Supply where
  tokens : List Token
  anchors : Anchors := {}

/-- Takes a part of a document from its tokens. -/
abbrev Take (α : Type) := StateT Supply (Except Fault) α

namespace Take

/-- The next token. -/
def peek : Take (Option Token) := do
  pure (← get).tokens.head?

/-- Goes over the next token. -/
def skip : Take Unit :=
  modify fun s => { s with tokens := s.tokens.tail }

end Take

open Take

/-- What a tag means under the tag directives of a document. -/
def resolveTag (directives : Entries TagText) (handle : String) (suffix : TagText) :
    Except Fault TagText :=
  if handle = "" then .ok suffix
  else
    match Entries.find? handle directives with
    | some start => .ok (start ++ suffix)
    | none => .error .tag

/-- The anchor and the tag in front of a node, in either order. -/
def properties (directives : Entries TagText) : Take (Option String × Option TagText) := do
  let anchor : Take (Option String) := do
    match ← peek with
    | some (.anchor n) => skip; pure (some n)
    | _ => pure none
  let tag : Take (Option TagText) := do
    match ← peek with
    | some (.tag h s) => skip; pure (some (← resolveTag directives h s))
    | _ => pure none
  match ← anchor with
  | some n => pure (some n, ← tag)
  | none =>
    let t ← tag
    if t.isSome then pure (← anchor, t) else pure (none, none)

/-- Where a node stands. -/
structure Position where
  /-- Block collections may start here. -/
  inBlock : Bool
  /-- A block sequence may start here without being indented. -/
  unindented : Bool

/-- The token ends an entry of a block mapping. -/
def endsBlockEntry : Option Token → Bool
  | some .key | some .value | some .blockEnd => true
  | _ => false

mutual

/-- A node. `fuel` bounds the nodes and entries inside each other and behind
each other; a document has fewer of them than twice its tokens. -/
def node (directives : Entries TagText) (fuel : Nat) (p : Position) : Take Node :=
  match fuel with
  | 0 => throw .misplaced
  | fuel + 1 => do
    match ← peek with
    | some (.aliasOf n) =>
      skip
      match Entries.find? n (← get).anchors.slots with
      | some slot => pure (.aliasOf slot)
      | none => throw .anchor
    | _ =>
      let (anchor, tag) ← properties directives
      let number ←
        match anchor with
        | none => pure none
        | some name => do
          let s ← get
          let (number, anchors) := s.anchors.start name
          set { s with anchors }
          pure (some number)
      let t ← peek
      let n : Node ←
        match t with
        | some .blockEntry =>
          if p.unindented then do pure (.sequence tag (← unindentedItems directives fuel))
          else if anchor.isSome || tag.isSome then pure (.scalar tag true "")
          else throw .misplaced
        | some (.scalar isPlain text) =>
          skip
          pure (.scalar tag isPlain text)
        | some .flowSequenceStart =>
          skip
          pure (.sequence tag (← flowItems directives fuel true))
        | some .flowMappingStart =>
          skip
          pure (.mapping tag (← flowPairs directives fuel true))
        | some .blockSequenceStart =>
          if p.inBlock then
            skip
            pure (.sequence tag (← blockItems directives fuel))
          else if anchor.isSome || tag.isSome then pure (.scalar tag true "")
          else throw .misplaced
        | some .blockMappingStart =>
          if p.inBlock then
            skip
            pure (.mapping tag (← blockPairs directives fuel))
          else if anchor.isSome || tag.isSome then pure (.scalar tag true "")
          else throw .misplaced
        | _ =>
          if anchor.isSome || tag.isSome then pure (.scalar tag true "")
          else throw .misplaced
      match number with
      | none => pure n
      | some number =>
        modify fun s => { s with anchors := s.anchors.finish number n }
        pure n
termination_by structural fuel

/-- The items of a block sequence. -/
def blockItems (directives : Entries TagText) (fuel : Nat) : Take (List Node) :=
  match fuel with
  | 0 => throw .misplaced
  | fuel + 1 => do
    match ← peek with
    | some .blockEntry =>
      skip
      let item ←
        match ← peek with
        | some .blockEntry | some .blockEnd => pure .empty
        | _ => node directives fuel ⟨true, false⟩
      pure (item :: (← blockItems directives fuel))
    | some .blockEnd => skip; pure []
    | _ => throw .misplaced
termination_by structural fuel

/-- The items of a block sequence that is not indented. -/
def unindentedItems (directives : Entries TagText) (fuel : Nat) : Take (List Node) :=
  match fuel with
  | 0 => throw .misplaced
  | fuel + 1 => do
    match ← peek with
    | some .blockEntry =>
      skip
      let t ← peek
      let item ←
        if t = some .blockEntry || endsBlockEntry t then pure .empty
        else node directives fuel ⟨true, false⟩
      pure (item :: (← unindentedItems directives fuel))
    | _ => pure []
termination_by structural fuel

/-- The pairs of a block mapping. -/
def blockPairs (directives : Entries TagText) (fuel : Nat) : Take (List (Node × Node)) :=
  match fuel with
  | 0 => throw .misplaced
  | fuel + 1 => do
    match ← peek with
    | some .key =>
      skip
      let key ← if endsBlockEntry (← peek) then pure .empty else node directives fuel ⟨true, true⟩
      let value ←
        match ← peek with
        | some .value =>
          skip
          if endsBlockEntry (← peek) then pure .empty else node directives fuel ⟨true, true⟩
        | _ => pure .empty
      pure ((key, value) :: (← blockPairs directives fuel))
    | some .blockEnd => skip; pure []
    | _ => throw .misplaced
termination_by structural fuel

/-- The items of a flow sequence; a key among them makes a mapping of one
pair. -/
def flowItems (directives : Entries TagText) (fuel : Nat) (first : Bool) : Take (List Node) :=
  match fuel with
  | 0 => throw .misplaced
  | fuel + 1 => do
    if (← peek) = some .flowSequenceEnd then
      skip
      pure []
    else
      if !first then
        if (← peek) = some .flowEntry then skip else throw .misplaced
      match ← peek with
      | some .flowSequenceEnd => skip; pure []
      | some .key =>
        skip
        let key ←
          match ← peek with
          | some .value | some .flowEntry | some .flowSequenceEnd => skip; pure .empty
          | _ => node directives fuel ⟨false, false⟩
        let value ←
          match ← peek with
          | some .value =>
            skip
            match ← peek with
            | some .flowEntry | some .flowSequenceEnd => pure .empty
            | _ => node directives fuel ⟨false, false⟩
          | _ => pure .empty
        pure (.mapping none [(key, value)] :: (← flowItems directives fuel false))
      | _ =>
        let item ← node directives fuel ⟨false, false⟩
        pure (item :: (← flowItems directives fuel false))
termination_by structural fuel

/-- The pairs of a flow mapping. -/
def flowPairs (directives : Entries TagText) (fuel : Nat) (first : Bool) :
    Take (List (Node × Node)) :=
  match fuel with
  | 0 => throw .misplaced
  | fuel + 1 => do
    if (← peek) = some .flowMappingEnd then
      skip
      pure []
    else
      if !first then
        if (← peek) = some .flowEntry then skip else throw .misplaced
      match ← peek with
      | some .flowMappingEnd => skip; pure []
      | some .key =>
        skip
        let key ←
          match ← peek with
          | some .value | some .flowEntry | some .flowMappingEnd => pure .empty
          | _ => node directives fuel ⟨false, false⟩
        let value ←
          match ← peek with
          | some .value =>
            skip
            match ← peek with
            | some .flowEntry | some .flowMappingEnd => pure .empty
            | _ => node directives fuel ⟨false, false⟩
          | _ => pure .empty
        pure ((key, value) :: (← flowPairs directives fuel false))
      | _ =>
        let key ← node directives fuel ⟨false, false⟩
        pure ((key, .empty) :: (← flowPairs directives fuel false))
termination_by structural fuel

end

/-- The directives of a document: at most one version, which has to be known,
and no handle twice. -/
def directives :
    List Token → Bool → Entries TagText → Except Fault (Entries TagText × List Token)
  | .version major minor :: ts, hasVersion, es =>
    if hasVersion || major ≠ 1 || (minor ≠ 1 && minor ≠ 2) then .error .misplaced
    else directives ts true es
  | .tagDirective handle start :: ts, hasVersion, es =>
    if (Entries.find? handle es).isSome then .error .misplaced
    else directives ts hasVersion (Entries.put handle start es)
  | ts, _, es => .ok (es, ts)

/-- The handles that are known without a directive. -/
def commonHandles : Entries TagText :=
  [("!", TagText.ofString "!"), ("!!", TagText.ofString "tag:yaml.org,2002:")]

/-- The handles of the directives and the common ones that they leave. -/
def allHandles (es : Entries TagText) : Entries TagText :=
  es ++ commonHandles

/-- Nothing but ends of documents is left. -/
def onlyEnds (ts : List Token) : Bool :=
  ts.all (· = .documentEnd)

/-- The one document of a text: its node and its anchors. A text without any
token is an empty document. -/
def document (ts : List Token) : Except Fault (Node × Anchors) := do
  if ts.isEmpty then pure (.empty, {})
  else
    let (handles, rest) ← directives ts false []
    let isExplicit := rest.head? = some .documentStart
    if !isExplicit && rest.length ≠ ts.length then throw .misplaced
    let body := if isExplicit then rest.tail else rest
    let fuel := 2 * ts.length + 8
    let start : Supply := { tokens := body }
    let endsAtOnce :=
      match body.head? with
      | none | some (.version ..) | some (.tagDirective ..) | some .documentStart
      | some .documentEnd => true
      | _ => false
    let (root, left) ←
      if isExplicit && endsAtOnce then pure (.empty, start)
      else (node (allHandles handles) fuel ⟨true, false⟩).run start
    if onlyEnds left.tokens then pure (root, left.anchors) else throw .documents

end SchemaTypes.Yaml
