import GuardedActions.Fault
import GuardedActions.Mask

/-!
# Priority encoders

An encoder picks requests out of a request vector, one per output, and leaves the outputs that find
no request without an index.  A linear encoder prefers low indices; a ring encoder looks only at the
indices of a cyclic window and prefers those that come early in it.
-/

set_option autoImplicit false

namespace GuardedActions

/-- What one output of an encoder shows: the index of a request, if any is left for it. -/
abbrev Choice := Option Nat

/-- An encoder of a fixed number of inputs and outputs. -/
structure Encoder where
  /-- number of request bits -/
  inputs : Nat
  /-- number of outputs -/
  outputs : Nat
  /-- there is something to choose from -/
  inputs_pos : 0 < inputs
  /-- there is something to show the choice on -/
  outputs_pos : 0 < outputs

namespace Encoder

/-- Show a request and those above it, one per output, until the requests or the outputs run out. -/
def climb (requests : Mask) : (outputs : Nat) → (next : Choice) → List Choice
  | 0, _ => []
  | outputs + 1, none => List.replicate (outputs + 1) none
  | outputs + 1, some index => some index :: climb requests outputs (requests.next? (index + 1))

/-- Go along an unrolled ring from a position and show the requests on the way, one per output, until
the steps or the outputs run out. -/
def sweep (inputs : Nat) (requests : Mask) :
    (steps position outputs : Nat) → List Choice
  | 0, _, outputs => List.replicate outputs none
  | _ + 1, _, 0 => []
  | steps + 1, position, outputs + 1 =>
    if requests.test (position % inputs) then
      some (position % inputs) :: sweep inputs requests steps (position + 1) outputs
    else sweep inputs requests steps (position + 1) (outputs + 1)

/-- Where a window ends on the unrolled ring: one round later if it ends before its start.  Positions
are 32-bit counts, which wrap. -/
def windowEnd (inputs first last : Nat) : Nat :=
  if last < first then (last + inputs) % UInt32.size else last

/-- An encoder, if it has inputs and outputs. -/
def build (kind : EncoderKind) (inputs outputs : Nat) : Except Fault Encoder :=
  if h : 0 < inputs ∧ 0 < outputs then .ok ⟨inputs, outputs, h.1, h.2⟩
  else .error (.encoderSize kind)

/-- The lowest requests, one per output. -/
def encode (e : Encoder) (requests : Mask) : Except Fault (List Choice) :=
  if requests.size = e.inputs then .ok (climb requests e.outputs requests.lowest?)
  else .error (.requestWidth .linear e.inputs requests.size)

/-- The requests inside the cyclic window that starts at `first` and ends before `last`, in window
order, one per output.  A window that ends where it starts is empty. -/
def encodeWindow (e : Encoder) (requests : Mask) (first last : Nat) :
    Except Fault (List Choice) :=
  if requests.size ≠ e.inputs then .error (.requestWidth .ring e.inputs requests.size)
  else if first < e.inputs ∧ last < e.inputs then
    .ok (sweep e.inputs requests (windowEnd e.inputs first last - first) first e.outputs)
  else .error .windowBound

/-- The lowest request of a vector of any size. -/
def lowest (requests : Mask) : Choice := requests.lowest?

/-- The first request inside a window of a vector of any size but zero. -/
def firstInWindow (requests : Mask) (first last : Nat) : Except Fault Choice := do
  let e ← build .ring requests.size 1
  let outputs ← e.encodeWindow requests first last
  .ok (outputs.head?.getD none)

end Encoder

end GuardedActions
