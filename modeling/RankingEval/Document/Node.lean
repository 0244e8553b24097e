/-
# Trees of documents

A document as a tree of texts, sequences and mappings. A node may be named, and a reference to the name
stands for the node. There is at most one document in a text.
-/

import RankingEval.Document.Lexer
import RankingEval.Document.Plain

namespace RankingEval.Document

/-- A node of a document. -/
inductive Node where
  /-- A text. -/
  | scalar (tag : Tag) (text : String)
  /-- A sequence. -/
  | sequence (tag : Tag) (items : List Node)
  /-- A mapping. -/
  | mapping (tag : Tag) (entries : List (Node × Node))

/-- The node where nothing is written. -/
def Node.absent : Node := .scalar .null ""

/-- What the reader of nodes knows at a point of the text. -/
structure Assembly where
  /-- The lexer. -/
  lexer : Lexer
  /-- The short forms for the beginning of tags. -/
  handles : List (String × String)
  /-- The names that were given to nodes, complete or not. -/
  names : List String := []
  /-- The complete nodes that have names. -/
  named : List (String × Node) := []

/-- A computation of the reader of nodes, which may fail. -/
abbrev Assembling := StateT Assembly (Except Failure)

namespace Assembling

/-- The structure of the document is not closed. -/
def refuse {α : Type} : Assembling α := throw .documentStructure

/-- Does something with the lexer. -/
def lexing {α : Type} (act : Lexing α) : Assembling α := do
  let a ← get
  let (result, lexer) ← act.run a.lexer
  set { a with lexer }
  return result

/-- The next token. -/
def peek : Assembling Token := lexing Lexing.peekToken

/-- Takes the next token. -/
def take : Assembling Token := lexing Lexing.takeToken

/-- Takes the next token if it is the given one. -/
def accept (t : Token) : Assembling Bool := lexing (Lexing.acceptToken t)

/-- Takes the next token, which has to be the given one. -/
def expect (t : Token) : Assembling Unit := do
  if !(← accept t) then refuse

/-- What stands before a node: its name and its tag, in either order. -/
structure Head where
  /-- The name. -/
  anchor : Option String
  /-- The tag: a handle and the rest of it. -/
  tag : Option (Option String × String)

/-- Reads the name of a node. -/
def readAnchor : Assembling (Option String) := do
  match ← peek with
  | .anchor name =>
    let _ ← take
    return some name
  | _ => return none

/-- Reads the tag of a node. -/
def readTag : Assembling (Option (Option String × String)) := do
  match ← peek with
  | .tag handle suffix =>
    let _ ← take
    return some (handle, suffix)
  | _ => return none

/-- Reads what stands before a node. -/
def readHead : Assembling Head := do
  match ← readAnchor with
  | some name => return ⟨some name, ← readTag⟩
  | none =>
    match ← readTag with
    | some tag => return ⟨← readAnchor, some tag⟩
    | none => return ⟨none, none⟩

/-- The full name of a tag. -/
def fullTag (tag : Option String × String) : Assembling String := do
  match tag with
  | (none, suffix) => return suffix
  | (some handle, suffix) =>
    match (← get).handles.lookup handle with
    | some full => return full ++ suffix
    | none => refuse

/-- The tag of a text: the one that is written, or the one that a plain text suggests. -/
def scalarTag (written : Option String) (text : String) (plain : Bool) : Tag :=
  match written with
  | none => if plain then Plain.tagOf text else .text
  | some "!" => Plain.tagOf text
  | some name => Tag.ofName name

/-- The tag of a sequence or mapping: the one that is written, or the usual one. -/
def collectionTag (written : Option String) (usual : Tag) : Tag :=
  match written with
  | none | some "!" => usual
  | some name => Tag.ofName name

/-- Notes the name of a node, which may not be in use. -/
def noteName (anchor : Option String) : Assembling Unit := do
  match anchor with
  | none => return ()
  | some name =>
    if (← get).names.contains name then throw .documentNodes
    modify fun a => { a with names := name :: a.names }

/-- Makes a complete node known by its name. -/
def complete (anchor : Option String) (node : Node) : Assembling Node := do
  match anchor with
  | none => return node
  | some name =>
    modify fun a => { a with named := (name, node) :: a.named }
    return node

/-- The token ends an entry of an indented mapping. -/
def endsBlockEntry : Token → Bool
  | .key | .value | .blockEnd => true
  | _ => false

mutual

/-- Reads a node. An indented block may start it or not, and so may an entry of a sequence that is
indented no deeper than its key. Like the readers below, it has a bound on the nesting of calls. -/
def readNode : Nat → (block indentless : Bool) → Assembling Node
  | 0, _, _ => refuse
  | n + 1, block, indentless => do
    match ← peek with
    | .alias name =>
      let _ ← take
      match (← get).named.lookup name with
      | some node => return node
      | none => throw .documentNodes
    | _ =>
      let head ← readHead
      let tag ← head.tag.mapM fullTag
      let t ← peek
      match t with
      | .scalar text plain =>
        let _ ← take
        noteName head.anchor
        complete head.anchor (.scalar (scalarTag tag text plain) text)
      | .flowSequenceStart =>
        noteName head.anchor
        let _ ← take
        complete head.anchor (.sequence (collectionTag tag .sequence) (← readFlowItems n true))
      | .flowMappingStart =>
        noteName head.anchor
        let _ ← take
        complete head.anchor (.mapping (collectionTag tag .mapping) (← readFlowEntries n true))
      | _ =>
        if indentless && t == .blockEntry then
          noteName head.anchor
          complete head.anchor (.sequence (collectionTag tag .sequence) (← readIndentless n))
        else if block && t == .blockSequenceStart then
          noteName head.anchor
          let _ ← take
          complete head.anchor (.sequence (collectionTag tag .sequence) (← readBlockItems n))
        else if block && t == .blockMappingStart then
          noteName head.anchor
          let _ ← take
          complete head.anchor (.mapping (collectionTag tag .mapping) (← readBlockEntries n))
        else if head.anchor.isSome || tag.isSome then
          noteName head.anchor
          complete head.anchor (.scalar (scalarTag tag "" true) "")
        else refuse

/-- Reads a node unless the next token ends it before it begins. -/
def readUnless : Nat → (ends : Token → Bool) → (block indentless : Bool) → Assembling Node
  | 0, _, _, _ => refuse
  | n + 1, ends, block, indentless => do
    if ends (← peek) then return .absent else readNode n block indentless

/-- Reads the entries of an indented sequence. -/
def readBlockItems : Nat → Assembling (List Node)
  | 0 => refuse
  | n + 1 => do
    if ← accept .blockEntry then
      let item ← readUnless n (fun t => t == .blockEntry || t == .blockEnd) true false
      return item :: (← readBlockItems n)
    else if ← accept .blockEnd then return []
    else refuse

/-- Reads the entries of a sequence that is indented no deeper than its key. -/
def readIndentless : Nat → Assembling (List Node)
  | 0 => refuse
  | n + 1 => do
    if ← accept .blockEntry then
      let item ← readUnless n (fun t => t == .blockEntry || endsBlockEntry t) true false
      return item :: (← readIndentless n)
    else return []

/-- Reads the entries of an indented mapping. -/
def readBlockEntries : Nat → Assembling (List (Node × Node))
  | 0 => refuse
  | n + 1 => do
    if ← accept .key then
      let key ← readUnless n endsBlockEntry true true
      let value ←
        if ← accept .value then readUnless n endsBlockEntry true true else pure .absent
      return (key, value) :: (← readBlockEntries n)
    else if ← accept .blockEnd then return []
    else refuse

/-- Reads the entries of a sequence in brackets; `first` tells whether there was none before. -/
def readFlowItems : Nat → (first : Bool) → Assembling (List Node)
  | 0, _ => refuse
  | n + 1, first => do
    if ← accept .flowSequenceEnd then return []
    else
      unless first do expect .flowEntry
      match ← peek with
      | .flowSequenceEnd =>
        let _ ← take
        return []
      | .key =>
        let _ ← take
        let ends (t : Token) : Bool := t == .flowEntry || t == .flowSequenceEnd
        let key ← readUnless n (fun t => t == .value || ends t) false false
        let value ← if ← accept .value then readUnless n ends false false else pure .absent
        return .mapping .mapping [(key, value)] :: (← readFlowItems n false)
      | _ =>
        let item ← readNode n false false
        return item :: (← readFlowItems n false)

/-- Reads the entries of a mapping in braces; `first` tells whether there was none before. -/
def readFlowEntries : Nat → (first : Bool) → Assembling (List (Node × Node))
  | 0, _ => refuse
  | n + 1, first => do
    if ← accept .flowMappingEnd then return []
    else
      unless first do expect .flowEntry
      match ← peek with
      | .flowMappingEnd =>
        let _ ← take
        return []
      | .key =>
        let _ ← take
        let ends (t : Token) : Bool := t == .flowEntry || t == .flowMappingEnd
        let key ← readUnless n (fun t => t == .value || ends t) false false
        let value ← if ← accept .value then readUnless n ends false false else pure .absent
        return (key, value) :: (← readFlowEntries n false)
      | _ =>
        let key ← readNode n false false
        return (key, .absent) :: (← readFlowEntries n false)

end

/-- The short forms that are always known. -/
def usualHandles : List (String × String) := [("!", "!"), ("!!", Tag.family)]

/-- Reads the directives in front of a document: the short forms that they give. -/
def readDirectives : Nat → (versioned : Bool) → List (String × String) → Assembling (List (String × String))
  | 0, _, handles => return handles
  | n + 1, versioned, handles => do
    match ← peek with
    | .version major _ =>
      let _ ← take
      if versioned || major != 1 then refuse
      readDirectives n true handles
    | .handle name full =>
      let _ ← take
      if (handles.lookup name).isSome then refuse
      readDirectives n versioned (handles ++ [(name, full)])
    | .otherDirective =>
      let _ ← take
      readDirectives n versioned handles
    | _ => return handles

/-- The number of characters of the text, several times over, as a bound for the readers above. -/
def bound : Assembling Nat := do
  let l := (← get).lexer
  return 8 * (l.index + l.rest.length) + 64

/-- Skips the ends of documents. -/
def skipEnds : Nat → Assembling Unit
  | 0 => return ()
  | n + 1 => do
    if ← accept .documentEnd then skipEnds n

/-- Reads the start of a document that is marked, with its directives; none if the text ends. -/
def readStart : Assembling Bool := do
  skipEnds (← bound)
  if (← peek) == .streamEnd then return false
  let handles ← readDirectives (← bound) false []
  if !(← accept .documentStart) then refuse
  modify fun a => { a with handles := handles ++ usualHandles }
  return true

/-- The token stands at the edge of a document. -/
def isEdge : Token → Bool
  | .version .. | .handle .. | .otherDirective | .documentStart | .documentEnd | .streamEnd => true
  | _ => false

/-- Reads the only document of a text, if there is one. -/
def readOnly : Assembling (Option Node) := do
  let t ← peek
  let node? ←
    if isEdge t && t != .documentEnd then
      if ← readStart then some <$> readUnless (← bound) isEdge true false else pure none
    else some <$> readNode (← bound) true false
  match node? with
  | none => return none
  | some node =>
    let _ ← accept .documentEnd
    if ← readStart then throw .documentNodes
    return some node

end Assembling

/-- The tree of the only document of a text, if there is one. -/
def Node.ofText? (s : String) : Except Failure (Option Node) :=
  Assembling.readOnly.run' ⟨{ rest := s.toList }, Assembling.usualHandles, [], []⟩

end RankingEval.Document
