import Likeness.Yaml.Scalars

/-!
# Likeness.Yaml.Reading

Reads one YAML document: block and flow collections, scalars, comments, anchors and aliases,
directives and document marks.

A node is read where it stands. If a colon follows on the line it began on, it turns out to be the
first key of a block mapping, whose column is where the node began. Blocks end where a line starts
further to the left.
-/

namespace Likeness.Yaml

/-! ### Nodes -/

/-- Characters that names of anchors are made of. -/
def isAnchorChar (c : Char) : Bool := c.isAlphanum || c = '_' || c = '-'

/-- Reads the name of an anchor or alias, after its mark. -/
def anchorName : Reader String := do
  let s := (← get).step
  let name := s.rest.takeWhile isAnchorChar
  if name = [] then fail "a name is missing"
  set (s.skip name.length)
  return String.ofList name

/-- Reads anchors and tags in front of a node. Tags are passed over. -/
def properties (flow : Bool) : Nat → Reader (Option String)
  | 0 => return none
  | fuel + 1 => do
    let s ← get
    match s.rest with
    | '&' :: _ =>
      let name ← anchorName
      skipGap flow
      let _ ← properties flow fuel
      return some name
    | '!' :: cs =>
      let tag := cs.takeWhile fun c => !endsWord [c] && !(flow && isFlowMark c)
      set (s.skip (tag.length + 1))
      skipGap flow
      properties flow fuel
    | _ => return none

/-- Remembers a node under its anchor. -/
def keep (anchor : Option String) (v : Yaml) : Reader Yaml := do
  match anchor with
  | none => return v
  | some name =>
    modify fun s => { s with anchors := (name, v) :: s.anchors }
    return v

/-- Reads a scalar or an alias. -/
def leaf (flow : Bool) (indent : Nat) : Reader Yaml := do
  let s ← get
  set { s with keyAllowed := false }
  match s.rest with
  | '\'' :: cs =>
    modify State.step
    return .scalar false (String.ofList (← singleFrom (cs.length + 1)))
  | '"' :: cs =>
    modify State.step
    return .scalar false (String.ofList (← doubleFrom (cs.length + 1)))
  | '*' :: _ =>
    let name ← anchorName
    match s.anchors.lookup name with
    | some v => return v
    | none => fail "unknown alias"
  | cs => if startsPlain flow cs then plain flow indent else fail "unexpected character"

mutual

/-- Reads a node of a flow collection. -/
def flowNode : Nat → Reader Yaml
  | 0 => fail "too deep"
  | fuel + 1 => do
    skipGap true
    let anchor ← properties true fuel
    let s ← get
    if s.atEnd then fail "unclosed collection"
    match s.rest with
    | '[' :: _ =>
      set s.step
      keep anchor (.sequence (← flowItems fuel))
    | '{' :: _ =>
      set s.step
      keep anchor (.mapping (← flowEntries fuel))
    | cs =>
      if anchor.isSome && cs.head?.any isFlowMark then keep anchor .empty
      else keep anchor (← leaf true 0)

/-- Reads what may stand after a colon in a flow collection. -/
def flowValue : Nat → Reader Yaml
  | 0 => fail "too deep"
  | fuel + 1 => do
    skipGap true
    let s ← get
    match s.rest with
    | c :: _ => if c = ',' ∨ c = ']' ∨ c = '}' then return .empty else flowNode fuel
    | [] => fail "unclosed collection"

/-- Reads the items of a flow sequence and its end. An item with a colon is a mapping. -/
def flowItems : Nat → Reader (List Yaml)
  | 0 => fail "too deep"
  | fuel + 1 => do
    skipGap true
    let s ← get
    if s.rest.head? = some ']' then
      set s.step
      return []
    let key ← flowNode fuel
    let item ← if ← colonFollows true s.line then
        modify State.step
        pure (.mapping [(key, ← flowValue fuel)])
      else pure key
    skipGap true
    let s ← get
    match s.rest with
    | ',' :: _ =>
      set s.step
      return item :: (← flowItems fuel)
    | ']' :: _ =>
      set s.step
      return [item]
    | _ => fail "a comma or bracket is missing"

/-- Reads the entries of a flow mapping and its end. -/
def flowEntries : Nat → Reader (List (Yaml × Yaml))
  | 0 => fail "too deep"
  | fuel + 1 => do
    skipGap true
    let s ← get
    if s.rest.head? = some '}' then
      set s.step
      return []
    let key ← flowNode fuel
    let value ← if ← colonFollows true s.line then
        modify State.step
        flowValue fuel
      else pure .empty
    skipGap true
    let s ← get
    match s.rest with
    | ',' :: _ =>
      set s.step
      return (key, value) :: (← flowEntries fuel)
    | '}' :: _ =>
      set s.step
      return [(key, value)]
    | _ => fail "a comma or brace is missing"

end

/-- Reads a scalar, an alias or a flow collection. -/
def simple (fuel indent : Nat) : Reader Yaml := do
  let s ← get
  match s.rest with
  | c :: _ =>
    if c = '[' ∨ c = '{' then
      let v ← flowNode fuel
      modify fun s => { s with keyAllowed := false }
      return v
    else leaf false indent
  | [] => leaf false indent

mutual

/-- Reads a node inside the block at a column. Behind a key, a sequence may stand at the column of
the key itself. -/
def block : Nat → (parent : Int) → (behindKey : Bool) → Reader Yaml
  | 0, _, _ => fail "too deep"
  | fuel + 1, parent, behindKey => do
    skipGap false
    let first ← get
    let outside (s : State) := s.atEnd ||
      (s.column ≤ parent && !(behindKey && s.column = parent && s.keyAllowed && s.atDash))
    if outside first then return .empty
    let anchor ← properties false fuel
    let s ← get
    if outside s then keep anchor .empty
    else
      -- An anchor on the line of a key belongs to the key, which begins with it.
      let start := if s.line = first.line then first else s
      if s.atDash then
        if s.keyAllowed then keep anchor (.sequence (← entries fuel s.column (s.column = parent)))
        else fail "a sequence has to start on a line of its own"
      else if s.rest.head? = some '|' ∨ s.rest.head? = some '>' then keep anchor (← literal parent)
      else
        let v ← simple fuel (parent + 1).toNat
        if ← colonFollows false s.line then
          if start.keyAllowed then keep anchor (.mapping (← pairs fuel start.column v))
          else fail "a mapping has to start on a line of its own"
        else keep anchor v

/-- Reads the entries of a block sequence at a column, from a dash on. -/
def entries : Nat → (column : Nat) → (besideKey : Bool) → Reader (List Yaml)
  | 0, _, _ => fail "too deep"
  | fuel + 1, column, besideKey => do
    modify fun s => { s.step with keyAllowed := true }
    let v ← block fuel column false
    skipGap false
    let s ← get
    if s.atEnd || s.column < column then return [v]
    else if s.column = column ∧ s.keyAllowed ∧ s.atDash then
      return v :: (← entries fuel column besideKey)
    else if s.column = column ∧ besideKey then return [v]
    else fail "a dash is missing"

/-- Reads the entries of a block mapping at a column, from the colon of the first on. -/
def pairs : Nat → (column : Nat) → (key : Yaml) → Reader (List (Yaml × Yaml))
  | 0, _, _ => fail "too deep"
  | fuel + 1, column, key => do
    modify fun s => { s.step with keyAllowed := false }
    let v ← block fuel column true
    skipGap false
    let s ← get
    if s.atEnd || s.column < column then return [(key, v)]
    else if s.column = column ∧ s.keyAllowed then
      let anchor ← properties false fuel
      let next ← simple fuel column
      if ← colonFollows false s.line then
        return (key, v) :: (← pairs fuel column (← keep anchor next))
      else fail "a colon is missing"
    else fail "a key is missing"

end

/-! ### Documents -/

/-- The words of a line, up to a comment. -/
def wordsOf (line : List Char) : List String :=
  (((String.ofList line).splitOn " ").filter (· ≠ "")).takeWhile fun w => !w.startsWith "#"

/-- Reads directives in front of a document; tells whether there were any. -/
def directives : Nat → (versionSeen : Bool) → Reader Bool
  | 0, _ => return false
  | fuel + 1, versionSeen => do
    skipGap false
    let s ← get
    if s.column = 0 ∧ s.rest.head? = some '%' then
      let line := s.rest.takeWhile (· ≠ '\n')
      set (s.skip line.length)
      match wordsOf line with
      | ["%YAML", version] =>
        if versionSeen then fail "two versions"
        if version ≠ "1.1" ∧ version ≠ "1.2" then fail "unknown version"
        let _ ← directives fuel true
        return true
      | ["%TAG", _, _] =>
        let _ ← directives fuel versionSeen
        return true
      | _ => fail "unknown directive"
    else return false

/-- Reads past the end of a document; nothing may follow. -/
def documentEnd : Nat → Reader Unit
  | 0 => return
  | fuel + 1 => do
    skipGap false
    let s ← get
    if s.rest.isEmpty then return
    else if s.column = 0 ∧ startsWith "..." s.rest then
      set { s.skip 3 with keyAllowed := false }
      skipBlanks
      let s ← get
      match s.rest with
      | [] => return
      | c :: _ =>
        if c = '\n' ∨ c = '#' then documentEnd fuel else fail "unexpected text behind a document"
    else fail "unexpected text behind a document"

/-- Reads a document: directives, the mark of its start, a value, and the end. -/
def document (fuel : Nat) : Reader Yaml := do
  let directed ← directives fuel false
  let s ← get
  if s.column = 0 ∧ startsWith "---" s.rest then set { s.skip 3 with keyAllowed := false }
  else if directed then fail "the start of the document is missing"
  let v ← block fuel (-1) false
  documentEnd fuel
  return v

/-- Reads a text that is one document. -/
def parse (text : String) : Except Fault Yaml :=
  let cs := match text.toList with
    | c :: cs => if c.toNat = 0xfeff then cs else c :: cs
    | [] => []
  if cs.all isAllowed then
    let cs := unifyBreaks cs
    let start : State := ⟨cs, 0, 0, true, []⟩
    -- Every node takes at least one character, and no more than four readers share one.
    ((document (4 * cs.length + 16)).run start).map (·.1)
  else .error ⟨"control characters are not allowed", 0, 0⟩

end Likeness.Yaml
