import Ikofi.Lib.Runs
import Ikofi.Text

/-!
# The listening process

`main_noinetd` gives every connection a child process and holds a pipe from it until the
child has authenticated its client or ended. It counts these pipes before it accepts
another client.
-/

namespace Ikofi.Listener

open Runs

/-- `MAX_UNAUTH_CLIENTS` -/
def maxUnauthClients : Nat := 30
/-- `MAX_UNAUTH_PER_IP` -/
def maxUnauthPerIp : Nat := 5

/-- The pipe from a child, told apart by when it was made, and the client's address. -/
structure Preauth where
  pipe : Nat
  addr : Bytes
  deriving DecidableEq, Repr

/-- `childpipes` and `preauth_addrs` as one array, with the number of pipes made so far and of
the descriptors that are open. -/
structure Parent where
  childpipes : Vector (Option Preauth) maxUnauthClients
  pipes : Nat
  descriptors : Nat

/-- The clients that are in the array. -/
def Parent.clients (p : Parent) : List Preauth := p.childpipes.toList.filterMap id

/-- What the loop over the array comes to. -/
structure Scan where
  numUnauthedTotal : Nat := 0
  numUnauthedForAddr : Nat := 0
  connIdx : Nat := 0

/-- A slot with a client. -/
def Scan.count (n : Scan) (remoteHost : Bytes) (c : Preauth) : Scan :=
  { n with
    numUnauthedTotal := n.numUnauthedTotal + 1
    numUnauthedForAddr :=
      if remoteHost = c.addr then n.numUnauthedForAddr + 1 else n.numUnauthedForAddr }

/-- The loop, from the index `j` of the first of the slots that are left. -/
def scan (remoteHost : Bytes) (n : Scan) (j : Nat) : List (Option Preauth) → Scan
  | [] => n
  | some c :: slots => scan remoteHost (n.count remoteHost c) (j + 1) slots
  | none :: slots => scan remoteHost { n with connIdx := j } (j + 1) slots

/-- A connection: the address if `accept` gives it, and whether `pipe` and `fork` succeed. -/
structure Attempt where
  accept : Option Bytes
  pipe : Bool
  fork : Bool

/-- What becomes of a connection: it is closed, it is closed behind a pipe that no child
has, or it has a child. -/
inductive Outcome
  | closed
  | lost
  | child (c : Preauth)
  deriving DecidableEq

/-- One turn of the loop over the listening sockets. -/
def handle (p : Parent) (a : Attempt) : Parent × Outcome :=
  match a.accept with
  | none => (p, .closed)
  | some remoteHost =>
    let n := scan remoteHost {} 0 p.childpipes.toList
    if maxUnauthClients ≤ n.numUnauthedTotal ∨ maxUnauthPerIp ≤ n.numUnauthedForAddr then
      (p, .closed)
    else if !a.pipe then (p, .closed)
    else if !a.fork then
      -- `out` closes the connection and neither end of the pipe
      ({ p with pipes := p.pipes + 1, descriptors := p.descriptors + 2 }, .lost)
    else
      let c : Preauth := ⟨p.pipes, remoteHost⟩
      ({ childpipes := p.childpipes.setIfInBounds n.connIdx (some c)
         pipes := p.pipes + 1
         descriptors := p.descriptors + 1 }, .child c)

/-- The pipes that `select` reports are closed. -/
def closeReady (p : Parent) (ready : List Nat) : Parent :=
  let childpipes := p.childpipes.map fun slot => slot.filter fun c => !ready.contains c.pipe
  { p with
    childpipes
    descriptors := p.descriptors - p.childpipes.toList.countP fun slot =>
      slot.any fun c => ready.contains c.pipe }

/-! ## The process and its children -/

/-- The process, the children that still hold the other end of their pipe, and the number of
connections that got a pipe and no child. -/
structure World where
  parent : Parent
  holding : List Preauth
  lost : Nat

def start (listensockcount : Nat) : World where
  parent := ⟨Vector.replicate maxUnauthClients none, 0, listensockcount⟩
  holding := []
  lost := 0

/-- A child lets go of its pipe, by authenticating its client or by ending; or `select`
returns, with the pipes and the connections that it reports. -/
inductive Action
  | letGo (c : Preauth)
  | round (ready : List Nat) (attempts : List Attempt)

def World.attempt (w : World) (a : Attempt) : World :=
  let (p, outcome) := handle w.parent a
  match outcome with
  | .closed => { w with parent := p }
  | .lost => { w with parent := p, lost := w.lost + 1 }
  | .child c => { w with parent := p, holding := c :: w.holding }

/-- A pipe is reported only once its other end is closed. -/
def World.Closed (w : World) (ready : List Nat) : Prop :=
  ∀ c ∈ w.holding, ready.contains c.pipe = false

instance World.decidableClosed (w : World) (ready : List Nat) : Decidable (w.Closed ready) :=
  inferInstanceAs (Decidable (∀ c ∈ w.holding, ready.contains c.pipe = false))

def World.serve (w : World) (ready : List Nat) (attempts : List Attempt) : World :=
  attempts.foldl World.attempt { w with parent := closeReady w.parent ready }

def step (w : World) : Action → Option World
  | .letGo c => if c ∈ w.holding then some { w with holding := w.holding.erase c } else none
  | .round ready attempts => if w.Closed ready then some (w.serve ready attempts) else none

end Ikofi.Listener
