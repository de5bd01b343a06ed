import Soundscape.Format.Yaml.Token

/-!
# Nodes

A document is a tree of nodes: texts, lists and mappings, each with an anchor and a tag if they are
written, and references to anchors.
-/

namespace Soundscape

namespace Yaml

/-- What is written in front of a node. -/
structure Properties where
  anchor : Option Nat
  tag : Option TagText
  deriving Repr, DecidableEq

/-- A node. -/
inductive Node where
  | alias (number : Nat)
  | scalar (p : Properties) (style : ScalarStyle) (text : String)
  | sequence (p : Properties) (items : List Node)
  | mapping (p : Properties) (entries : List (Node × Node))

namespace Node

def empty : Node := .scalar ⟨none, none⟩ .plain ""

/-- The node itself, if it has the anchor with a number. -/
def ifAnchored (n : Nat) (p : Properties) (node : Node) : List Node :=
  if p.anchor = some n then [node] else []

mutual

/-- The nodes that have the anchor with a number, in the order of their starts. -/
def anchored (n : Nat) : Node → List Node
  | .alias _ => []
  | .scalar p style text => ifAnchored n p (.scalar p style text)
  | .sequence p items => ifAnchored n p (.sequence p items) ++ anchoredItems n items
  | .mapping p entries => ifAnchored n p (.mapping p entries) ++ anchoredEntries n entries

def anchoredItems (n : Nat) : List Node → List Node
  | [] => []
  | item :: items => anchored n item ++ anchoredItems n items

def anchoredEntries (n : Nat) : List (Node × Node) → List Node
  | [] => []
  | (name, value) :: entries =>
    anchored n name ++ (anchored n value ++ anchoredEntries n entries)

end

/-- What a node of a document stands for: a reference for the last node that has its anchor. -/
def resolve? (root : Node) : Node → Option Node
  | .alias number => (root.anchored number).getLast?
  | node => some node

end Node

/-! ## Nodes from tokens -/

/-- What is known while nodes are read. -/
structure Reading where
  tokens : List Token
  anchors : List (String × Nat)
  handles : List (String × TagText)

abbrev NodeReader := StateT Reading Option

namespace NodeReader

def peek : NodeReader (Option Token) := do
  return (← get).tokens.head?

def skip : NodeReader Unit :=
  modify fun r => { r with tokens := r.tokens.drop 1 }

/-- Goes on after the next token if it is the given one. -/
def skipIf (t : Token) : NodeReader Bool := do
  if (← peek) = some t then
    skip
    return true
  else return false

/-- A new anchor.  Its number is how many names are known so far; a name that is known already has
the new number from now on. -/
def addAnchor (name : String) : NodeReader Nat := do
  let r ← get
  let number := r.anchors.length
  set { r with anchors := (name, number) :: r.anchors.filter fun a => a.1 != name }
  return number

def anchorNumber (name : String) : NodeReader Nat := do
  (← get).anchors.lookup name

def resolveTag (t : TagName) : NodeReader TagText := do
  if t.handle.isEmpty then return t.suffix
  else
    let start ← (← get).handles.lookup t.handle
    return start ++ t.suffix

def anchor? : NodeReader (Option Nat) := do
  match ← peek with
  | some (.anchor name) =>
    skip
    return some (← addAnchor name)
  | _ => return none

def tag? : NodeReader (Option TagText) := do
  match ← peek with
  | some (.tag name) =>
    skip
    return some (← resolveTag name)
  | _ => return none

/-- An anchor and a tag, in either order. -/
def properties : NodeReader Properties := do
  match ← anchor? with
  | some number => return ⟨some number, ← tag?⟩
  | none =>
    let tag ← tag?
    return ⟨← if tag.isSome then anchor? else pure none, tag⟩

def isNext (ts : List Token) : NodeReader Bool := do
  return (← peek).any ts.contains

/-- The tokens before which a name or its value in a block is not written. -/
def entryEnds : List Token := [.key, .value, .closeBlock]

/-- The tokens before which an item in a block is not written. -/
def itemEnds : List Token := .item :: entryEnds

mutual

/-- Reads a node.  In a block, blocks may stand; below a name also items as deep as the name. -/
def node (turns : Nat) (block belowName : Bool) : NodeReader Node := do
  match turns with
  | 0 => failure
  | turns + 1 =>
    match ← peek with
    | some (.alias name) =>
      skip
      return .alias (← anchorNumber name)
    | _ =>
      let p ← properties
      match ← peek, block, belowName with
      | some (.scalar style text), _, _ =>
        skip
        return .scalar p style text
      | some .openBracket, _, _ =>
        skip
        return .sequence p (← bracketItems turns true)
      | some .openBrace, _, _ =>
        skip
        return .mapping p (← braceEntries turns true)
      | some .item, _, true => return .sequence p (← blockItems turns false)
      | some .openItems, true, _ =>
        skip
        return .sequence p (← blockItems turns true)
      | some .openEntries, true, _ =>
        skip
        return .mapping p (← blockEntries turns)
      | _, _, _ =>
        if p.anchor.isSome || p.tag.isSome then return .scalar p .plain ""
        else failure

/-- Reads a node in a block, or nothing before a token that ends it. -/
def blockNode (turns : Nat) (belowName : Bool) : NodeReader Node := do
  match turns with
  | 0 => failure
  | turns + 1 =>
    if ← isNext (if belowName then entryEnds else itemEnds) then return .empty
    else node turns true belowName

/-- Reads a node between brackets, or nothing before a token that ends it. -/
def flowNode (turns : Nat) (ends : List Token) : NodeReader Node := do
  match turns with
  | 0 => failure
  | turns + 1 =>
    if ← isNext ends then return .empty else node turns false false

/-- Reads items with dashes: to the end of their block, or as many as there are. -/
def blockItems (turns : Nat) (closed : Bool) : NodeReader (List Node) := do
  match turns with
  | 0 => failure
  | turns + 1 =>
    if ← skipIf .item then
      let item ← blockNode turns false
      return item :: (← blockItems turns closed)
    else if closed then
      if ← skipIf .closeBlock then return [] else failure
    else return []

/-- Reads names and values to the end of their block. -/
def blockEntries (turns : Nat) : NodeReader (List (Node × Node)) := do
  match turns with
  | 0 => failure
  | turns + 1 =>
    if ← skipIf .key then
      let name ← blockNode turns true
      let value ← if ← skipIf .value then blockNode turns true else pure .empty
      return (name, value) :: (← blockEntries turns)
    else if ← skipIf .closeBlock then return []
    else failure

/-- Reads the value after a name between brackets, if there is one. -/
def flowValue (turns : Nat) (ends : List Token) : NodeReader Node := do
  match turns with
  | 0 => failure
  | turns + 1 => if ← skipIf .value then flowNode turns ends else return .empty

/-- Reads a name and a value that are an item between brackets.  Where the name is missing, the
token that shows it is passed over. -/
def pair (turns : Nat) : NodeReader (Node × Node) := do
  match turns with
  | 0 => failure
  | turns + 1 =>
    let name ←
      if ← isNext [.value, .comma, .closeBracket] then
        skip
        pure .empty
      else node turns false false
    return (name, ← flowValue turns [.comma, .closeBracket])

/-- Reads items up to a closing bracket, the first one without a comma in front. -/
def bracketItems (turns : Nat) (isFirst : Bool) : NodeReader (List Node) := do
  match turns with
  | 0 => failure
  | turns + 1 =>
    if ← skipIf .closeBracket then return []
    else if ← if isFirst then pure true else skipIf .comma then
      if ← skipIf .closeBracket then return []
      else
        let item ←
          if ← skipIf .key then
            let entry ← pair turns
            pure (.mapping ⟨none, none⟩ [entry])
          else node turns false false
        return item :: (← bracketItems turns false)
    else failure

/-- Reads names and values up to a closing brace, the first ones without a comma in front. -/
def braceEntries (turns : Nat) (isFirst : Bool) : NodeReader (List (Node × Node)) := do
  match turns with
  | 0 => failure
  | turns + 1 =>
    if ← skipIf .closeBrace then return []
    else if ← if isFirst then pure true else skipIf .comma then
      if ← skipIf .closeBrace then return []
      else
        let entry ←
          if ← skipIf .key then
            let name ← flowNode turns [.value, .comma, .closeBrace]
            pure (name, ← flowValue turns [.comma, .closeBrace])
          else
            let name ← node turns false false
            pure (name, .empty)
        return entry :: (← braceEntries turns false)
    else failure

end

/-! ## Documents -/

def commonHandles : List (String × TagText) :=
  [("!", TagText.ofChars ['!']), ("!!", "tag:yaml.org,2002:".toUTF8.toList)]

/-- Whether directives can stand together: one version at most, which is known, and no handle
twice. -/
def areConsistent (ds : List Directive) : Bool :=
  let versions := ds.filterMap fun
    | .version major minor => some (major, minor)
    | .handle .. => none
  let names := ds.filterMap fun
    | .version .. => none
    | .handle name _ => some name
  versions.length ≤ 1 && versions.all [(1, 1), (1, 2)].contains && names.Nodup

def directives : List Token → List Directive × List Token
  | .directive d :: ts => let (ds, ts) := directives ts; (d :: ds, ts)
  | ts => ([], ts)

/-- Whether a token can be the first of a document. -/
def startsContent : Option Token → Bool
  | none | some (.directive _) | some .documentStart | some .documentEnd => false
  | _ => true

/-- Reads the node of a document after its mark. -/
def content (turns : Nat) : NodeReader Node := do
  if startsContent (← peek) then node turns true false else return .empty

end NodeReader

/-- The tokens of a document after its mark, which it does not need without directives, and what
the handles of its tags stand for. -/
def documentHead? (ts : List Token) : Option (List Token × List (String × TagText)) :=
  let (ds, rest) := NodeReader.directives ts
  let handles := ds.filterMap fun
    | .version .. => none
    | .handle name start => some (name, start)
  match rest with
  | .documentStart :: rest =>
    if NodeReader.areConsistent ds then some (rest, handles ++ NodeReader.commonHandles) else none
  | _ => none

/-- The only document that tokens are.  There is none if there are no tokens. -/
def Node.ofTokens? (ts : List Token) : Option (Option Node) := do
  let turns := 4 * (ts.length + 1)
  let whole (node : NodeReader Node) (ts : List Token) (handles : List (String × TagText)) :
      Option (Option Node) := do
    let (root, r) ← node.run ⟨ts, [], handles⟩
    if r.tokens.all (· == .documentEnd) then some (some root) else none
  match ts with
  | [] => some none
  | .directive _ :: _ | .documentStart :: _ =>
    let (rest, handles) ← documentHead? ts
    whole (NodeReader.content turns) rest handles
  | _ => whole (NodeReader.node turns true false) ts NodeReader.commonHandles

end Yaml

end Soundscape
