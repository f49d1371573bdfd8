import SwitchMarkup.Failure
import SwitchMarkup.Template.Basic

/-!
# The state of a parse

A parse reads a source once from start to end.  What has been read of the constructs that are
still open is kept as a list of frames, innermost first: its length is the nesting depth, and
closing the innermost switch hands its node to the body below it.  While the source is read all
places are byte offsets.
-/

namespace SwitchMarkup

/-- What a parse accepts. -/
structure Options where
  /-- How many switches may be open at once, if there is a limit. -/
  maxDepth : Option Nat := none
  /-- Whether the rules on where a `fallthrough` may stand are enforced. -/
  placement : Bool := true
deriving DecidableEq, Repr

namespace Options

/-- The limit, if no further switch may be opened inside `depth` others. -/
def limitReached? (o : Options) (depth : Nat) : Option Nat := o.maxDepth.filter (· ≤ depth)

/-- The place of a misplaced `fallthrough`, if placement is enforced. -/
def enforced {π : Type} (o : Options) (misplaced : Option π) : Option π :=
  if o.placement then misplaced else none

end Options

/-- What a parse reports while it goes on. -/
inductive Event where
  /-- A switch is complete; `depth` others are open around it. -/
  | parsedSwitch (tag : String) (clauses depth : Nat)
  /-- The search for a clause went as far as one offset without finding any and goes back to
  another. -/
  | rewound (reached resumed : Nat)
deriving DecidableEq, Repr

namespace Event

/-- How much an event matters. -/
def level : Event → String
  | parsedSwitch .. => "DEBUG"
  | rewound .. => "TRACE"

/-- The wording of an event. -/
def message : Event → String
  | parsedSwitch .. => "parsed switch"
  | rewound .. => "rewinding cursor"

end Event

/-- A switch whose closing brace has not been read, with the clauses that are complete. -/
structure Block where
  /-- The nodes in front of the switch, in the body that holds it. -/
  before : List (Node Nat)
  /-- The offset of the keyword. -/
  start : Nat
  /-- The tag. -/
  tag : Fragment Nat
  /-- The clauses read so far. -/
  clauses : List (Clause Nat)

namespace Block

/-- The nodes of the body that holds the switch, once its closing brace ends at `stop`. -/
def close (block : Block) (stop : Nat) : List (Node Nat) :=
  block.before ++ [.switch block.tag block.clauses ⟨block.start, stop⟩]

end Block

/-- An open switch and the header of the clause whose body is being read. -/
structure Frame where
  /-- The switch. -/
  block : Block
  /-- The header of the clause. -/
  header : Header Nat

namespace Frame

/-- The switch with the clause completed by its children. -/
def finish (frame : Frame) (children : List (Node Nat)) : Block :=
  { frame.block with clauses := frame.block.clauses ++ [⟨frame.header, children⟩] }

end Frame

/-- Where a parse stands. -/
inductive Stage where
  /-- In a body, inside the open switches `around`, after some of its nodes; `lineStart` tells
  whether a keyword would stand at the start of the body or of a line. -/
  | body (around : List Frame) (nodes : List (Node Nat)) (lineStart : Bool)
  /-- After the header line of a switch that `around` holds, in front of its first clause. -/
  | block (around : List Frame) (block : Block)

namespace Stage

/-- The start of a template. -/
def initial : Stage := body [] [] true

/-- The number of switches that are open around the body or the switch being read. -/
def depth : Stage → Nat
  | body around _ _ => around.length
  | block around _ => around.length

end Stage

end SwitchMarkup
