import SwitchMarkup.Parser.Run
import SwitchMarkup.Proofs.Descent.Extract

/-!
# Parsing by recursive descent

A template can be read by functions that call one another, one for each construct, over a cursor
that moves forward and back. A construct that does not begin where the cursor stands is no match,
and the cursor goes back to where it was; once a keyword or an opening brace has been seen, whatever
does not fit is a failure of the whole parse. Here this parser is written with its faults: every
slice is a checked cut, every difference of offsets and of depths a checked one, and recursion and
loops run on fuel.

Main definitions: `Reader`, `attempt`, `readBody` and `descend`. That no fault comes up, and that
the outcome is the one of `parseWithEvents`, is shown in `SwitchMarkup.Proofs.Descent.Simulation`.
-/

namespace SwitchMarkup.Descent

open SwitchMarkup.Descent.Action

variable {α : Type}

/-- The state of a parse: a cursor, how many switches are open around it, and what has been
reported. -/
structure Reader where
  /-- The cursor. -/
  cursor : Cursor
  /-- The number of open switches. -/
  depth : Nat := 0
  /-- The reports so far, in order. -/
  log : List Event := []

/-- What reads the nodes of a body. The body of a clause may be no match. -/
abbrev BodyReader := Action Reader (Option (List (Node Position)))

/-! ## Parts of a parse -/

/-- Carries out an action on the cursor. -/
def onCursor (x : Action Cursor α) : Action Reader α := fun r =>
  ((x.on r.cursor).1, { r with cursor := (x.on r.cursor).2 })

/-- The offset of the cursor. -/
def here : Action Reader Nat := do return (← get).cursor.index

/-- Reports an event. -/
def report (event : Event) : Action Reader Unit :=
  modify fun r => { r with log := r.log ++ [event] }

/-- Refuses the template at the cursor. -/
def refuseHere (cause : Cause) : Action Reader α := do
  let offset ← here
  onCursor (refuseAt offset cause)

/-- Refuses the template at a place, if there is one. -/
def refuseAny (place : Option Position) (cause : Cause) : Action Reader Unit :=
  match place with
  | some place => fails ⟨place, cause⟩
  | none => pure ()

/-- Goes back from where an attempt has ended to where it began. -/
def goBack (start : Nat) : Action Reader Unit := do
  let reached ← here
  if reached = start then onCursor (seek start)
  else
    report (.rewound reached start)
    onCursor (seek start)

/-- Tries to read a construct; if it is no match, the cursor goes back. -/
def attempt (x : Action Reader (Option α)) : Action Reader (Option α) := do
  let start ← here
  match ← x with
  | some a => return some a
  | none =>
    goBack start
    return none

/-- Carries out an action with one more switch open. -/
def deeper (x : Action Reader α) : Action Reader α := do
  modify fun r => { r with depth := r.depth + 1 }
  let result ← settle x
  let depth ← check (minus (← get).depth 1)
  modify fun r => { r with depth }
  match result with
  | .ok a => return a
  | .error failure => fails failure

/-! ## Constructs -/

/-- Reads an expression that is announced by a word. -/
def readMarked (word : List Char) (context : Context) :
    Action Reader (Option (Fragment Position)) := attempt do
  if ← onCursor (startsWith word) then
    let expression ← onCursor (readExpression context)
    return some expression
  else return none

/-- Reads a `fallthrough`. -/
def readFallthrough : Action Reader (Option (Fragment Position)) :=
  readMarked Keyword.fallthrough .fallthrough

/-- Reads an expression in braces. -/
def readOutput : Action Reader (Option (Fragment Position)) := readMarked ['\x7b'] .output

/-- The text up to the next brace or the end of the line, without the white space at its end, and
the number of bytes in front of the brace or the line end. -/
def findText (rest : List Char) : Except Fault (List Char × Nat) := do
  let count := byteLength (rest.takeWhile fun c => !endsText c)
  let run ← cut rest 0 count
  return (trimEnd run, count)

/-- Reads text, if there is any. -/
def readText : Action Reader (Option (Fragment Position)) := do
  let start ← here
  let rest ← onCursor remaining
  let (value, count) ← check (findText rest)
  if value.isEmpty then return none
  else
    onCursor (advance count)
    let span ← onCursor (spanBetween start (start + byteLength value))
    return some ⟨String.ofList value, span⟩

/-- Whether the header of a clause begins at the cursor, and whether that is one without a list. -/
def clauseKind : Action Cursor (Option Bool) := do
  if ← startsWith Keyword.default then return some true
  else if ← startsWith (Keyword.spaced Keyword.case) then return some false
  else return none

/-- Passes over the blanks and the line end behind the header of a clause. -/
def skipHeaderEnd : Action Cursor Unit := do
  let _ ← skipWhile isBlank
  let _ ← consumeLineEnd
  return

/-- Reads the header of a clause and the rest of its line. -/
def readHeader : Action Reader (Option (Header Position)) := attempt do
  let _ ← onCursor (skipWhile isWhiteSpace)
  match ← onCursor clauseKind with
  | none => return none
  | some isDefault =>
    let expression ← onCursor (readExpression .case)
    onCursor skipHeaderEnd
    return some (if isDefault then .default expression.span else .case expression)

/-- Completes a clause with its children, which there must be. -/
def finishClause (o : Options) (header : Header Position)
    (children : Option (List (Node Position))) : Action Reader (Option (Clause Position)) :=
  match children with
  | none => refuseHere .missingNodes
  | some children => do
    refuseAny (o.enforced (earlyFallthrough? children)) .fallthroughNotLast
    let _ ← onCursor (skipWhile isWhiteSpace)
    return some ⟨header, children⟩

/-- Reads a clause, its body by `body`. -/
def readClause (o : Options) (body : BodyReader) : Action Reader (Option (Clause Position)) :=
    attempt do
  match ← readHeader with
  | none => return none
  | some header =>
    let children ← body
    finishClause o header children

/-- Reads clauses until there is none, behind those that have been read. -/
def readClauses (o : Options) (body : BodyReader) :
    Nat → List (Clause Position) → Action Reader (List (Clause Position))
  | 0, _ => throw (.fault .outOfFuel)
  | fuel + 1, clauses => do
    match ← readClause o body with
    | some clause => readClauses o body fuel (clauses ++ [clause])
    | none => return clauses

/-- Reads the clauses of the switch at `start`, unless too many switches are open. -/
def readBlock (o : Options) (body : BodyReader) (fuel start : Nat) :
    Action Reader (List (Clause Position)) := do
  let depth := (← get).depth
  match o.maxDepth.filter fun limit => limit < depth with
  | some limit => onCursor (refuseAt start (.nestingTooDeep limit))
  | none => readClauses o body fuel []

/-- Takes the opening brace of a block with the end of its line. -/
def consumeOpening : Action Cursor Bool := do
  let _ ← skipWhile isBlank
  if ← consume ['\x7b'] then
    let _ ← skipWhile isBlank
    consumeLineEnd
  else return false

/-- Completes the switch at `start` with its clauses; its closing brace has to follow. -/
def finishSwitch (o : Options) (start : Nat) (tag : Fragment Position)
    (clauses : List (Clause Position)) : Action Reader (Option (Node Position)) := do
  refuseAny (o.enforced (finalFallthrough? clauses)) .fallthroughInFinalCase
  let _ ← onCursor (skipWhile isWhiteSpace)
  if ← onCursor (consume ['\x7d']) then
    report (.parsedSwitch tag.value clauses.length (← get).depth)
    let block ← onCursor (spanBetween start (← here))
    return some (.switch tag clauses block)
  else refuseHere .missingClosingBrace

/-- Reads a switch, the bodies of its clauses by `body`. -/
def readSwitch (o : Options) (body : BodyReader) (fuel : Nat) :
    Action Reader (Option (Node Position)) := attempt do
  let start ← here
  if ← onCursor (startsWith (Keyword.spaced Keyword.switch)) then
    let tag ← onCursor (readExpression .switch)
    if ← onCursor consumeOpening then
      let clauses ← deeper (readBlock o body fuel start)
      finishSwitch o start tag clauses
    else onCursor (refuseAt start .unterminatedHeader)
  else return none

/-! ## Bodies -/

/-- Reads a statement: a `fallthrough`, which has a place only inside of a clause, or a switch. -/
def readStatement (o : Options) (body : BodyReader) (fuel : Nat) (inClause : Bool) :
    Action Reader (Option (Node Position)) := do
  match ← readFallthrough with
  | some keyword =>
    if inClause then return some (.fallthrough keyword)
    else onCursor (refuseAt keyword.span.start.index .fallthroughOutsideCase)
  | none => readSwitch o body fuel

/-- Reads an expression in braces or text. -/
def readContent : Action Reader (Option (Node Position)) := do
  match ← readOutput with
  | some expression => return some (.output expression)
  | none => return (← readText).map .text

/-- Reads a node; statements count only at the start of a line. -/
def readNode (o : Options) (body : BodyReader) (fuel : Nat) (inClause lineStart : Bool) :
    Action Reader (Option (Node Position)) :=
  if lineStart then do
    match ← readStatement o body fuel inClause with
    | some node => return some node
    | none => readContent
  else readContent

/-- Passes over white space, and tells whether there is a line feed in it. -/
def skipLines : Action Cursor Bool := do
  let start := (← get).index
  let _ ← skipWhile isWhiteSpace
  let c ← get
  let passed ← check (cut c.source.chars start c.index)
  return passed.contains '\n'

/-- Whether a clause header begins at the cursor. -/
def atClause : Action Cursor Bool := do
  if ← startsWith (Keyword.spaced Keyword.case) then return true
  else startsWith Keyword.default

/-- Whether the body of a clause ends at the cursor: at a closing brace or, at the start of a line,
at a clause header. The body of a template does not end there. -/
def atBodyEnd (inClause lineStart : Bool) : Action Cursor Bool :=
  if inClause then do
    if ← startsWith ['\x7d'] then return true
    else if lineStart then atClause
    else return false
  else return false

/-- Reads nodes until the body ends, behind those that have been read. The body of a clause that
comes to the end of the source without a node is no match. -/
def readNodes (o : Options) (body : BodyReader) (bodyFuel : Nat) (inClause : Bool) :
    Nat → List (Node Position) → Bool → BodyReader
  | 0, _, _ => throw (.fault .outOfFuel)
  | fuel + 1, nodes, lineStart => do
    let newLine ← onCursor skipLines
    if ← onCursor (atBodyEnd inClause (lineStart || newLine)) then return some nodes
    else if (← get).cursor.isAtEnd then
      return if inClause && nodes.isEmpty then none else some nodes
    else
      match ← readNode o body bodyFuel inClause (lineStart || newLine) with
      | some node => readNodes o body bodyFuel inClause fuel (nodes ++ [node]) false
      | none =>
        let rest ← onCursor remaining
        refuseHere (.unexpected (rest.headD '\x00'))

/-- Reads the body of a template or of a clause. The bodies inside of it are read with less fuel. -/
def readBody (o : Options) : Nat → Bool → BodyReader
  | 0, _ => throw (.fault .outOfFuel)
  | fuel + 1, inClause => readNodes o (readBody o fuel true) fuel inClause (fuel + 1) [] true

/-- Reads a whole source with some fuel. -/
def descendWith (fuel : Nat) (source : Source) (o : Options) : Except Fault (Outcome Position) :=
  match (readBody o fuel false).on { cursor := .start source } with
  | (.ok nodes, r) => .ok ⟨r.log, .ok (nodes.getD [])⟩
  | (.error (.failure failure), r) => .ok ⟨r.log, .error failure⟩
  | (.error (.fault fault), _) => .error fault

end SwitchMarkup.Descent
