import LoxLang.Yaml.Node
import LoxLang.Yaml.Scalar

set_option autoImplicit false

/-! # Reading documents

`document?` reads the first document of a YAML stream. In block style the column says what belongs
together: the entries of a collection start in one column, and what stands to its right belongs to an
entry. In flow style brackets do. A mapping in block style has no sign of its own; it is recognised by
its first key, a short node followed by a colon on the same line.

Reading is a descent on the text with a bound on its depth, which is never reached: each call either
takes a character or moves on to a smaller task at the same place. -/

namespace LoxLang.Yaml

/-- The anchors seen so far, the last first. -/
abbrev Anchors := List (String × Node)

/-- A reader that can fail and remembers anchors. -/
abbrev Read := StateT Anchors Option

/-- A node and the text behind it. -/
abbrev Found := Node × Spots

/-- Turns a reader of scalars into one that can fail. -/
def Read.lift {α : Type} (found : Option α) : Read α :=
  fun anchors => found.map (·, anchors)

/-! ## Anchors, aliases and tags -/

/-- Whether a character may stand in the name of an anchor. -/
def isAnchorChar (c : Char) : Bool :=
  c.isAlphanum || c == '_' || c == '-'

/-- Whether the name of an anchor may end before the next character. -/
def endsAnchor : Spots → Bool
  | [] => true
  | s :: _ => isBlank s.char || isBreak s.char || "?:,]\x7d%@\x60".toList.contains s.char

/-- Reads the name behind the sign of an anchor or an alias. -/
def anchorName? (text : Spots) : Option (String × Spots) := do
  let name := text.takeWhile fun s => isAnchorChar s.char
  let rest := text.drop name.length
  guard (!name.isEmpty && endsAnchor rest)
  return (String.ofList (Spots.chars name), rest)

/-- Whether a character may stand in a tag. -/
def isTagChar (flow : Bool) (c : Char) : Bool :=
  c.isAlphanum || (!(flow && isFlowIndicator c) && "-_;/?:@&=+$.!~*'()%[],".toList.contains c)

/-- The name of the standard tags without the part they share. -/
def shortTag (tag : String) : String :=
  let shared := "tag:yaml.org,2002:"
  if tag.startsWith shared then "!!" ++ (tag.drop shared.length).toString else tag

/-- Reads a tag from its exclamation mark. The mark alone is no tag of its own. -/
def tag? (flow : Bool) : Spots → Option (Option String × Spots)
  | [] => none
  | _ :: rest => do
    let (tag, rest) ←
      if (rest.head?.map (·.char)) == some '<' then do
        let name := (rest.drop 1).takeWhile fun s => isTagChar false s.char
        let behind := rest.drop (name.length + 1)
        guard (!name.isEmpty && (behind.head?.map (·.char)) == some '>')
        some (some (shortTag (String.ofList (Spots.chars name))), behind.drop 1)
      else do
        let name := rest.takeWhile fun s => isTagChar flow s.char
        let text := Spots.chars name
        let named := text.drop 1
        guard (text != ['!'] && !(text.head? != some '!' && text.contains '!') && !named.contains '!')
        some (if text.isEmpty then none else some (String.ofList ('!' :: text)), rest.drop name.length)
    guard (Spots.atGap rest || (flow && (rest.head?.map fun s => isFlowIndicator s.char) == some true))
    return (tag, rest)

/-- An anchor and a tag, in either order, in front of a node. -/
structure Props where
  anchor : Option String
  tag : Option String
  /-- The line of the first of them. -/
  line : Option Nat

/-- Nothing stands in front of the node. -/
def Props.none : Props := ⟨.none, .none, .none⟩

/-- Reads what stands in front of a node. `skip` passes from one to the next. -/
def props (flow : Bool) (skip : Spots → Spots) : Nat → Props → Spots → Option (Props × Spots)
  | 0, found, text => some (found, text)
  | n + 1, found, text =>
    match text with
    | [] => some (found, text)
    | s :: rest =>
      let line := found.line <|> some s.line
      if s.char == '&' && found.anchor.isNone then do
        let (name, rest) ← anchorName? rest
        props flow skip n { found with anchor := some name, line } (skip rest)
      else if s.char == '!' && found.tag.isNone then do
        let (tag, rest) ← tag? flow text
        props flow skip n { found with tag, line } (skip rest)
      else some (found, text)

/-- Gives a node its tag and takes note of its anchor. -/
def attach (found : Props) (node : Node) : Read Node := do
  let node := node.withTag (found.line.getD node.line) found.tag
  if let some name := found.anchor then
    modify ((name, node) :: ·)
  return node

/-- The node that an alias mentions. -/
def mention? (s : Spot) (rest : Spots) : Read Found := do
  let (name, rest) ← Read.lift (anchorName? rest)
  match (← get).lookup name with
  | some target => return (.mention s.line name target, rest)
  | none => failure

/-! ## Flow style -/

mutual

/-- Reads a node in flow style. Where a comma, a colon or a closing bracket comes at once, the node
is empty. -/
def flowNode (parent : Option Nat) : Nat → Spots → Read Found
  | 0, _ => failure
  | n + 1, text => do
    let (found, text) ← Read.lift (props true Spots.skipFlow 2 .none text)
    match text with
    | [] => failure
    | s :: rest =>
      let line := found.line.getD s.line
      let (node, rest) ← match s.char with
        | '[' => do
          let (items, rest) ← flowItems parent n (Spots.skipFlow rest)
          pure (Node.sequence s.line none items, rest)
        | '\x7b' => do
          let (entries, rest) ← flowEntries parent n (Spots.skipFlow rest)
          pure (Node.mapping s.line none entries, rest)
        | '"' | '\'' => do
          let (word, rest) ← Read.lift (quoted? text)
          pure (Node.scalar s.line none true word, rest)
        | '*' => mention? s rest
        | c =>
          if startsPlain true text then do
            let indent := match parent with
              | none => 0
              | some column => column + 1
            let (word, rest) ← Read.lift (plain? true indent text)
            pure (Node.scalar s.line none false word, rest)
          else if found.line.isSome && (c == ',' || c == ':' || c == ']' || c == '\x7d') then
            pure (Node.empty line, text)
          else failure
      return (← attach found node, rest)

/-- Reads the value behind a colon in flow style. -/
def flowValue (parent : Option Nat) : Nat → Spots → Read Found
  | 0, _ => failure
  | n + 1, text =>
    match text with
    | [] => failure
    | s :: _ =>
      if s.char == ',' || s.char == ']' || s.char == '\x7d' then return (.empty s.line, text)
      else flowNode parent n text

/-- Reads a key and its value in flow style, or a node alone if no colon follows it. -/
def flowPair (parent : Option Nat) : Nat → Spots → Read ((Node × Option Node) × Spots)
  | 0, _ => failure
  | n + 1, text => do
    let explicit := Spots.sees '?' text
    let text := if explicit then Spots.skipFlow (text.drop 1) else text
    match text with
    | [] => failure
    | s :: _ =>
      let (key, rest) ←
        if explicit && (s.char == ':' || s.char == ',' || s.char == ']' || s.char == '\x7d') then
          pure (Node.empty s.line, text)
        else flowNode parent n text
      match Spots.skipFlow rest with
      | [] => failure
      | t :: behind =>
        if t.char == ':' then do
          let (value, rest) ← flowValue parent n (Spots.skipFlow behind)
          return ((key, some value), Spots.skipFlow rest)
        else if explicit then return ((key, some (.empty t.line)), t :: behind)
        else return ((key, none), t :: behind)

/-- Reads the items of a sequence up to its closing bracket. -/
def flowItems (parent : Option Nat) : Nat → Spots → Read (List Node × Spots)
  | 0, _ => failure
  | n + 1, text =>
    match text with
    | [] => failure
    | s :: rest =>
      if s.char == ']' then return ([], rest)
      else do
        let ((key, value), rest) ← flowPair parent n text
        let item := match value with
          | none => key
          | some value => Node.mapping key.line none [(key, value)]
        match rest with
        | [] => failure
        | t :: behind =>
          if t.char == ',' then do
            let (items, rest) ← flowItems parent n (Spots.skipFlow behind)
            return (item :: items, rest)
          else if t.char == ']' then return ([item], behind)
          else failure

/-- Reads the entries of a mapping up to its closing bracket. -/
def flowEntries (parent : Option Nat) : Nat → Spots → Read (List (Node × Node) × Spots)
  | 0, _ => failure
  | n + 1, text =>
    match text with
    | [] => failure
    | s :: rest =>
      if s.char == '\x7d' then return ([], rest)
      else do
        let ((key, value), rest) ← flowPair parent n text
        let entry := (key, value.getD (.empty key.line))
        match rest with
        | [] => failure
        | t :: behind =>
          if t.char == ',' then do
            let (entries, rest) ← flowEntries parent n (Spots.skipFlow behind)
            return (entry :: entries, rest)
          else if t.char == '\x7d' then return ([entry], behind)
          else failure

end

/-! ## Block style -/

/-- Reads a node that is written without block collections: flow style, a scalar or an alias. -/
def leaf (parent : Option Nat) (n : Nat) (text : Spots) : Read Found :=
  match text with
  | [] => failure
  | s :: rest =>
    match s.char with
    | '[' | '\x7b' => flowNode parent n text
    | '"' | '\'' => do
      let (word, rest) ← Read.lift (quoted? text)
      return (.scalar s.line none true word, rest)
    | '|' | '>' => do
      let (word, rest) ← Read.lift (block? parent text)
      return (.scalar s.line none true word, rest)
    | '*' => mention? s rest
    | _ => do
      guard (startsPlain false text)
      let indent := match parent with
        | none => 0
        | some column => column + 1
      let (word, rest) ← Read.lift (plain? false indent text)
      return (.scalar s.line none false word, rest)

/-- Reads a key and the colon behind it, all on one line, and gives the text behind the colon. Fails
if no key stands here. -/
def implicitKey (parent : Option Nat) (n : Nat) (text : Spots) : Read Found := do
  let line := Spots.line text
  let inLine := fun rest => rest.dropWhile fun (s : Spot) => isBlank s.char
  let (found, start) ← Read.lift (props false inLine 2 .none line)
  let block := match start with
    | s :: _ => s.char == '|' || s.char == '>'
    | [] => true
  guard !block
  let (key, behind) ← leaf parent n start
  match inLine behind with
  | [] => failure
  | colon :: after =>
    guard (colon.char == ':' && Spots.atGap after)
    let key ← attach found key
    return (key, after ++ text.drop line.length)

/-- Tries a reader; without success nothing has happened. -/
def attempt? {α : Type} (reader : Read α) : Read (Option α) := fun anchors =>
  match reader anchors with
  | some (value, anchors) => some (some value, anchors)
  | none => some (none, anchors)

/-- Whether the text goes on in column `column`. -/
def inColumn (column : Nat) : Spots → Bool
  | [] => false
  | s :: _ => s.column == column

/-- Whether the text goes on to the right of a column, or of none. -/
def isRightOf (column : Option Nat) (s : Spot) : Bool :=
  match column with
  | none => true
  | some column => column < s.column

mutual

/-- Reads a node in block style at the next character. `parent` is the column of the collection it
stands in. `fresh` says that the node may itself be a block collection, which is so at the start of a
line and behind a dash or a question mark; `bare` that an anchor or a tag has been read already, so
that no other can stand in front of it. -/
def blockNode : Nat → Option Nat → Bool → Bool → Spots → Read Found
  | 0, _, _, _, _ => failure
  | n + 1, parent, fresh, bare, text =>
    match text with
    | [] => failure
    | s :: _ => do
      if fresh && Spots.sees '-' text then
        let (items, rest) ← blockItems n s.column false text
        return (.sequence s.line none items, rest)
      else if fresh && Spots.sees '?' text then
        let (entries, rest) ← blockEntries n s.column text
        return (.mapping s.line none entries, rest)
      else if Spots.sees '-' text || Spots.sees '?' text || Spots.sees ':' text then failure
      else
        let isMapping ← if fresh then (·.isSome) <$> attempt? (implicitKey parent n text) else pure false
        if isMapping then
          let (entries, rest) ← blockEntries n s.column text
          return (.mapping s.line none entries, rest)
        else if bare then leaf parent n text
        else
          let (found, start) ← Read.lift (props false (Spots.skipBlock true) 2 .none text)
          if found.line.isSome then taggedNode n parent found s.line start
          else leaf parent n text

/-- Reads a node behind its anchor and tag, which stand on a given line. -/
def taggedNode : Nat → Option Nat → Props → Nat → Spots → Read Found
  | 0, _, _, _, _ => failure
  | n + 1, parent, found, line, text => do
    let absent : Read Found := do return (← attach found (.empty line), text)
    match text with
    | [] => absent
    | s :: _ =>
      if isRightOf parent s then
        let (node, rest) ← blockNode n parent (line < s.line) true text
        return (← attach found node, rest)
      else if some s.column == parent && Spots.sees '-' text then
        let (items, rest) ← blockItems n s.column true text
        return (← attach found (.sequence s.line none items), rest)
      else absent

/-- Reads what belongs to a sign that stands on a given line: a node on the same line, or one on a
later line to the right of the collection's column, or nothing. `fresh` says whether a collection may
start on the same line, `dashes` whether a sequence may start in the collection's own column. -/
def blockValue : Nat → Nat → Bool → Bool → Nat → Spots → Read Found
  | 0, _, _, _, _, _ => failure
  | n + 1, column, fresh, dashes, line, text =>
    match text with
    | [] => return (.empty line, [])
    | s :: _ =>
      if s.line == line then blockNode n (some column) fresh false text
      else if column < s.column then blockNode n (some column) true false text
      else if dashes && s.column == column && Spots.sees '-' text then do
        let (items, rest) ← blockItems n column true text
        return (.sequence s.line none items, rest)
      else return (.empty line, text)

/-- Reads the items of a sequence whose dashes stand in a column. A sequence that stands in the column
of the mapping around it (`shared`) ends where the next key starts. -/
def blockItems : Nat → Nat → Bool → Spots → Read (List Node × Spots)
  | 0, _, _, _ => failure
  | n + 1, column, shared, text =>
    match text with
    | [] => return ([], [])
    | s :: rest =>
      if s.column == column && Spots.sees '-' text then do
        let (item, rest) ← blockValue n column true false s.line (Spots.skipBlock false rest)
        let (items, rest) ← blockItems n column shared (Spots.skipBlock true rest)
        return (item :: items, rest)
      else if column < s.column || (s.column == column && !shared) then failure
      else return ([], text)

/-- Reads the entries of a mapping whose keys stand in a column. -/
def blockEntries : Nat → Nat → Spots → Read (List (Node × Node) × Spots)
  | 0, _, _ => failure
  | n + 1, column, text =>
    match text with
    | [] => return ([], [])
    | s :: rest =>
      if column < s.column then failure
      else if s.column < column then return ([], text)
      else do
        let ((key, value), rest) ←
          if Spots.sees '?' text then do
            let (key, rest) ← blockValue n column true false s.line (Spots.skipBlock false rest)
            let next := Spots.skipBlock true rest
            if inColumn column next && Spots.sees ':' next then
              let (value, rest) ←
                blockValue n column true false (next.head?.elim s.line (·.line))
                  (Spots.skipBlock false (next.drop 1))
              pure ((key, value), rest)
            else pure ((key, Node.empty s.line), next)
          else do
            let (key, rest) ← implicitKey (some column) n text
            let (value, rest) ← blockValue n column false true s.line (Spots.skipBlock true rest)
            pure ((key, value), rest)
        let (entries, rest) ← blockEntries n column (Spots.skipBlock true rest)
        return ((key, value) :: entries, rest)

end

/-! ## Documents -/

/-- The words of a directive, without a comment. -/
def directiveWords (text : Spots) : List String :=
  let words := ((Spots.chars text).map fun c => if c == '\t' then ' ' else c).splitOn ' '
  let words := words.filter (!·.isEmpty)
  (words.takeWhile (·.head? != some '#')).map String.ofList

/-- Passes over directives: the version of the format, once at most, and abbreviations of tags. -/
def skipDirectives : Nat → Bool → Spots → Option Spots
  | 0, _, _ => none
  | n + 1, versioned, text =>
    match text with
    | [] => none
    | s :: _ =>
      if s.column == 0 && s.char == '%' then
        let line := Spots.line text
        let rest := Spots.skipBlock false (text.drop line.length)
        match directiveWords (line.drop 1) with
        | ["YAML", "1.1"] => if versioned then none else skipDirectives n true rest
        | ["TAG", _, _] => skipDirectives n versioned rest
        | _ => none
      else if Spots.atMarker '-' text then some text
      else none

/-- Whether what is left behind the root of a document can at least be cut into words. -/
def isReadable (text : Spots) : Bool :=
  match text with
  | [] => true
  | s :: _ => !Spots.sees ':' text && !("%@\x60\t".toList.contains s.char)

/-- Reads the root of a document. -/
def root (fresh : Bool) (line : Nat) (text : Spots) : Read Node :=
  match text with
  | [] => return .empty line
  | s :: _ => do
    let (node, rest) ← blockNode (4 * text.length + 8) none (fresh || line < s.line) false text
    guard (isReadable (Spots.skipBlock true rest))
    return node

/-- Reads the first document of a stream, if it has one. What stands behind it is not looked at. -/
def document? (text : List Char) : Option (Option Node) := do
  let spots ← spots? text
  let start := Spots.skipBlock false spots
  match start with
  | [] => return none
  | s :: _ =>
    let start ← if s.column == 0 && s.char == '%' then skipDirectives start.length false start else some start
    if Spots.atMarker '-' start then
      let content := Spots.untilMarker (start.drop 3)
      let line := (start.head?.map (·.line)).getD 1
      let (node, _) ← (root false line (Spots.skipBlock true content)).run []
      return some node
    else if Spots.atMarker '.' start then none
    else
      let (node, _) ← (root true s.line (Spots.skipBlock false (Spots.untilMarker start))).run []
      return some node

end LoxLang.Yaml
