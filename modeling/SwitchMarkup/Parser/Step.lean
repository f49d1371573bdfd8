import SwitchMarkup.Expression.Extract
import SwitchMarkup.Parser.State
import SwitchMarkup.Template.Placement

/-!
# One step of a parse

`step` reads the next construct: a node, the header of a switch or of a clause, or the end of a
body.  Keywords count only at the start of a body or of a line, and closing braces and clause
headers only inside a switch; what is neither a keyword nor an expression in braces is text.

A step that goes on leaves a shorter tail; this is shown in `SwitchMarkup.Parser.Progress`.
-/

namespace SwitchMarkup

/-- What one step comes to. -/
inductive Step where
  /-- The parse goes on, in another stage and with another tail. -/
  | advance (events : List Event) (stage : Stage) (rest : Tail)
  /-- The source has been read to its end. -/
  | finish (nodes : List (Node Nat))
  /-- The source is refused. -/
  | fail (events : List Event) (failure : Failure Nat)

namespace Step

/-- Refuses the source at an offset. -/
def refuse (offset : Nat) (cause : Cause) : Step := fail [] ⟨offset, cause⟩

end Step

/-! ## What a construct begins with -/

/-- Whether a clause header begins here. -/
def Tail.startsClause (t : Tail) : Bool :=
  t.startsWith (Keyword.spaced Keyword.case) || t.startsWith Keyword.default

/-- The tail after the opening brace of a block and the line end behind it. -/
def Tail.dropBlockOpening? (t : Tail) : Option Tail :=
  (t.skipBlanks.drop? ['\x7b']).bind fun u => u.skipBlanks.dropLineEnd?

/-- The tail after the blanks and the line end, if there is one, behind a clause header. -/
def Tail.skipHeaderEnd (t : Tail) : Tail := t.skipBlanks.dropLineEnd?.getD t.skipBlanks

/-- Whether a character ends text: a brace or a line feed. -/
def endsText (c : Char) : Bool := c == '\x7b' || c == '\x7d' || c == '\n'

/-! ## Clauses and blocks -/

/-- Reads a clause header; the body of the clause begins after its line. -/
def openClause (around : List Frame) (block : Block) (t : Tail) : Step :=
  match extractCase t with
  | .error failure => .fail [] failure
  | .ok x =>
    let header :=
      if t.startsWith Keyword.default then .default x.expression.span else .case x.expression
    .advance [] (.body (⟨block, header⟩ :: around) [] true) x.rest.skipHeaderEnd

/-- Completes a switch, whose closing brace has to stand here; its node goes to the body around
it.  What has been reported on the way here goes in front of the report of the switch. -/
def closeBlock (o : Options) (around : List Frame) (block : Block) (events : List Event)
    (t : Tail) : Step :=
  match o.enforced (finalFallthrough? block.clauses) with
  | some place => .refuse place .fallthroughInFinalCase
  | none =>
    match t.drop? ['\x7d'] with
    | none => .fail events ⟨t.offset, .missingClosingBrace⟩
    | some rest =>
      .advance (events ++ [.parsedSwitch block.tag.value block.clauses.length around.length])
        (.body around (block.close rest.offset) false) rest

/-- Completes the clause of a frame with its children, and goes on with its switch. -/
def closeClause (o : Options) (frame : Frame) (children : List (Node Nat))
    (next : Block → Step) : Step :=
  match o.enforced (earlyFallthrough? children) with
  | some place => .refuse place .fallthroughNotLast
  | none => next (frame.finish children)

/-- Reads the first clause header of a switch or its closing brace, after any white space.  A
search for a clause that found none but passed over white space is reported. -/
def stepBlock (o : Options) (around : List Frame) (block : Block) (t : Tail) : Step :=
  let u := t.skipWhiteSpace
  if u.startsClause then openClause around block u
  else
    let events := if u.offset = t.offset then [] else [.rewound u.offset t.offset]
    closeBlock o around block events u

/-! ## Nodes -/

/-- Goes on in a body after one more node. -/
def addNode (around : List Frame) (nodes : List (Node Nat)) (node : Node Nat) (rest : Tail) :
    Step :=
  .advance [] (.body around (nodes ++ [node]) false) rest

/-- Reads a `fallthrough`, which has a place only inside a clause. -/
def stepFallthrough (around : List Frame) (nodes : List (Node Nat)) (t : Tail) : Step :=
  match extractFallthrough t with
  | .error failure => .fail [] failure
  | .ok x =>
    if around.isEmpty then .refuse x.expression.span.start .fallthroughOutsideCase
    else addNode around nodes (.fallthrough x.expression) x.rest

/-- Reads the header of a switch and opens its block. -/
def stepSwitch (o : Options) (around : List Frame) (nodes : List (Node Nat)) (t : Tail) : Step :=
  match extractSwitch t with
  | .error failure => .fail [] failure
  | .ok x =>
    match x.rest.dropBlockOpening? with
    | none => .refuse t.offset .unterminatedHeader
    | some rest =>
      match o.limitReached? around.length with
      | some limit => .refuse t.offset (.nestingTooDeep limit)
      | none => .advance [] (.block around ⟨nodes, t.offset, x.expression, []⟩) rest

/-- Reads an expression in braces. -/
def stepOutput (around : List Frame) (nodes : List (Node Nat)) (t : Tail) : Step :=
  match extractOutput t with
  | .error failure => .fail [] failure
  | .ok x => addNode around nodes (.output x.expression) x.rest

/-- Reads text up to the next brace or the end of the line, without the white space at its end. -/
def stepText (around : List Frame) (nodes : List (Node Nat)) (t : Tail) : Step :=
  let value := trimEnd (t.chars.takeWhile fun c => !endsText c)
  if value.isEmpty then .refuse t.offset (.unexpected (t.chars.headD '\x00'))
  else addNode around nodes (.text (.ofChars t.offset value)) (t.skipWhile fun c => !endsText c)

/-- Reads one node from its first character on. -/
def stepNode (o : Options) (around : List Frame) (nodes : List (Node Nat)) (lineStart : Bool)
    (t : Tail) : Step :=
  if lineStart && t.startsWith Keyword.fallthrough then stepFallthrough around nodes t
  else if lineStart && t.startsWith (Keyword.spaced Keyword.switch) then stepSwitch o around nodes t
  else if t.startsWith ['\x7b'] then stepOutput around nodes t
  else stepText around nodes t

/-! ## Bodies -/

/-- Reads the next node of a body or its end, after any white space.  The body of a clause ends at
a closing brace or, at the start of a line, at the next clause header; at the end of the source it
must at least have a node. -/
def stepBody (o : Options) (around : List Frame) (nodes : List (Node Nat)) (lineStart : Bool)
    (t : Tail) : Step :=
  let lineStart := lineStart || (t.chars.takeWhile isWhiteSpace).contains '\n'
  let u := t.skipWhiteSpace
  match around with
  | [] => if u.isEmpty then .finish nodes else stepNode o around nodes lineStart u
  | frame :: outer =>
    if u.startsWith ['\x7d'] then
      closeClause o frame nodes fun block => closeBlock o outer block [] u
    else if lineStart && u.startsClause then
      closeClause o frame nodes fun block => openClause outer block u
    else if u.isEmpty then
      if nodes.isEmpty then .refuse u.offset .missingNodes
      else closeClause o frame nodes fun block => closeBlock o outer block [] u
    else stepNode o around nodes lineStart u

/-- Reads the next construct. -/
def step (o : Options) (stage : Stage) (t : Tail) : Step :=
  match stage with
  | .body around nodes lineStart => stepBody o around nodes lineStart t
  | .block around block => stepBlock o around block t

end SwitchMarkup
