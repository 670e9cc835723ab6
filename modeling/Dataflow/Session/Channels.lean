import Dataflow.Session.Basic
/-!
# Channels of a session

Queues and fans are found on a board or made on their own, and used by name.
-/

namespace Dataflow.Session

variable {H : Host}

/-- Works on a queue. -/
def onQueue {α : Type} (name : String) (f : Queue → α × Queue) : Act H α := do
  let id ← queue name
  let (a, q) := f (← need "no queue" ((← current).exchange.queues.get? id))
  onExchange fun x => (a, { x with queues := x.queues.set id q })

/-- The fan of a name as it is now. -/
def fanNow (name : String) : Act H Fan := do
  let id ← fan name
  need "no fan" ((← current).exchange.fans.get? id)

/-- Resolves a name of a board as a queue, which is bound. -/
def openQueue (boardName name key : String) (ty : Ty) (noCopy : Bool) : Act H PUnit := do
  let board ← board boardName
  bindQueue key (← take .compose (← onExchange (·.initQueue board name ty noCopy)))

/-- Resolves a name of a board as a fan, which is bound. -/
def openFan (boardName name key : String) (ty : Ty) (noCopy : Bool) : Act H PUnit := do
  let board ← board boardName
  bindFan key (← take .compose (← onExchange (·.initFan board name ty noCopy)))

/-- What a name of a board stands for. -/
def channel (boardName name : String) : Act H Channel := do
  let board ← board boardName
  onExchange (·.resolve board name)

/-- What a name of a board stands for; it must have been declared. -/
def declaredChannel (boardName name : String) : Act H Channel := do
  match ← channel boardName name with
  | .placeholder => throw (.compose (Exchange.undeclared name))
  | c => return c

/-- The board of a name as it is now. -/
def boardNow (name : String) : Act H Board := do
  let id ← board name
  return (← current).exchange.board id

/-- Closes every channel of a board. -/
def closeAll (boardName : String) : Act H PUnit := do
  let board ← board boardName
  onExchange fun x => ((), x.closeAll board)

/-- Subscribes to a fan. The subscriber's queue is bound. -/
def subscribe (fanName key : String) : Act H PUnit := do
  let fan ← fan fanName
  bindQueue key (← need "no fan" (← onExchange (·.subscribe fan)))

/-- Publishes on a fan. Answers the deliveries. -/
def publish (fanName : String) (value : Value) : Act H Nat := do
  let fan ← fan fanName
  onExchange (·.publish fan value)

end Dataflow.Session
