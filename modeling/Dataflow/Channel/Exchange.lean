import Dataflow.Channel.Fan
/-!
# Exchanges

Channels are found by name on a board. A name starts out as a placeholder; the first stage that is
composed with it decides whether it is a queue or a fan, and all others have to agree on that and
on the type of the values.
-/

namespace Dataflow

/-- What a channel name stands for. -/
inductive Channel where
  | placeholder
  | queue (id : Id .queue)
  | fan (id : Id .fan)
  deriving DecidableEq, Repr, Inhabited

/-- The kind of channel in words. -/
def Channel.kindName : Channel → String
  | placeholder => "dummy"
  | queue _ => "mpmc"
  | fan _ => "broadcast"

/-- Named channels. -/
structure Board where
  /-- Room of each queue that is made here. -/
  capacity : Nat
  /-- Entries in ascending order of their names. -/
  entries : List (String × Channel) := []
  deriving Repr, Inhabited

namespace Board

/-- The room of queues unless another is chosen. -/
def defaultCapacity : Nat := 1024

/-- The names in ascending order. -/
def names (b : Board) : List String := b.entries.map (·.1)

/-- What a name stands for; an unknown one is a placeholder. -/
def channel (b : Board) (name : String) : Channel := (lookup? name b.entries).getD .placeholder

/-- Makes a name stand for something. -/
def bind (b : Board) (name : String) (c : Channel) : Board :=
  { b with entries := upsert name c b.entries }

/-- The form that shows the structure. -/
def outline (b : Board) : String :=
  "ChannelRegistry \x7b capacity: " ++ toString b.capacity ++ ", .. \x7d"

end Board

/-- All boards with all queues and fans. -/
structure Exchange where
  boards : Table .board Board := .empty
  queues : Queues := .empty
  fans : Table .fan Fan := .empty
  deriving Inhabited

namespace Exchange

/-- The board of an identity. -/
def board (x : Exchange) (id : Id .board) : Board := (x.boards.get? id).getD ⟨0, []⟩

/-- A new board. -/
def addBoard (x : Exchange) (capacity : Nat) : Id .board × Exchange :=
  (x.boards.next, { x with boards := x.boards.push ⟨capacity, []⟩ })

/-- A new queue. -/
def addQueue (x : Exchange) (q : Queue) : Id .queue × Exchange :=
  (x.queues.next, { x with queues := x.queues.push q })

/-- A new fan. -/
def addFan (x : Exchange) (f : Fan) : Id .fan × Exchange :=
  (x.fans.next, { x with fans := x.fans.push f })

/-- Makes a name stand for something. -/
def bind (x : Exchange) (id : Id .board) (name : String) (c : Channel) : Exchange :=
  { x with boards := x.boards.modify id (·.bind name c) }

/-- What a name stands for. It is on the board from now on. -/
def resolve (x : Exchange) (id : Id .board) (name : String) : Channel × Exchange :=
  let c := (x.board id).channel name
  (c, x.bind id name c)

/-- The error of a name that is of another kind than it is used as. -/
def kindConflict (name : String) (existing : Channel) (requested : String) : ComposeError :=
  .channel name ("already in use as " ++ existing.kindName ++ ", cannot be used as " ++ requested)

/-- Resolves a name as a queue of values of type `ty`. -/
def initQueue (x : Exchange) (id : Id .board) (name : String) (ty : Ty) (noCopy : Bool) :
    Except ComposeError (Id .queue) × Exchange :=
  let board := x.board id
  match board.channel name with
  | .placeholder =>
    let (queue, x) := x.addQueue (Queue.new ty noCopy board.capacity)
    (.ok queue, x.bind id name (.queue queue))
  | .queue queue =>
    match x.queues.get? queue with
    | none => (.ok queue, x)
    | some q =>
      match q.header.verify name ty with
      | .ok header => (.ok queue, { x with queues := x.queues.set queue { q with header } })
      | .error e => (.error e, x)
  | other => (.error (kindConflict name other "mpmc"), x)

/-- Resolves a name as a fan of values of type `ty`. -/
def initFan (x : Exchange) (id : Id .board) (name : String) (ty : Ty) (noCopy : Bool) :
    Except ComposeError (Id .fan) × Exchange :=
  let board := x.board id
  match board.channel name with
  | .placeholder =>
    let (fan, x) := x.addFan (Fan.new ty noCopy board.capacity)
    (.ok fan, x.bind id name (.fan fan))
  | .fan fan =>
    match x.fans.get? fan with
    | none => (.ok fan, x)
    | some f =>
      match f.header.verify name ty with
      | .ok header => (.ok fan, { x with fans := x.fans.set fan { f with header } })
      | .error e => (.error e, x)
  | other => (.error (kindConflict name other "broadcast"), x)

/-- The error of a name that nobody has declared. -/
def undeclared (name : String) : ComposeError :=
  .channel name "no producer or consumer has declared this channel yet"

/-- Whether a channel is closed. -/
def isClosed (x : Exchange) : Channel → Bool
  | .placeholder => false
  | .queue id => ((x.queues.get? id).map (·.header.closed)).getD false
  | .fan id => ((x.fans.get? id).map (·.header.closed)).getD false

/-- Closes a channel for good. Answers whether it was closed before. -/
def close (x : Exchange) (c : Channel) : Bool × Exchange :=
  (x.isClosed c,
    match c with
    | .placeholder => x
    | .queue id => { x with queues := x.queues.modify id Queue.close }
    | .fan id =>
      match x.fans.get? id with
      | none => x
      | some f =>
        let (f, queues) := f.close x.queues
        { x with fans := x.fans.set id f, queues })

/-- Discards what is queued. Answers how many values that were. -/
def flush (x : Exchange) : Channel → Nat × Exchange
  | .placeholder => (0, x)
  | .queue id =>
    match x.queues.get? id with
    | none => (0, x)
    | some q =>
      let (n, q) := q.flush
      (n, { x with queues := x.queues.set id q })
  | .fan id =>
    match x.fans.get? id with
    | none => (0, x)
    | some f =>
      let (n, queues) := f.flush x.queues
      (n, { x with queues })

/-- Closes every channel of a board. -/
def closeAll (x : Exchange) (id : Id .board) : Exchange :=
  (x.board id).entries.foldl (fun x (_, c) => (x.close c).2) x

/-- Subscribes to a fan. -/
def subscribe (x : Exchange) (id : Id .fan) : Option (Id .queue) × Exchange :=
  match x.fans.get? id with
  | none => (none, x)
  | some f =>
    let (queue, f, queues) := f.subscribe x.queues
    (some queue, { x with fans := x.fans.set id f, queues })

/-- Publishes on a fan. Answers the deliveries. -/
def publish (x : Exchange) (id : Id .fan) (v : Value) : Nat × Exchange :=
  match x.fans.get? id with
  | none => (0, x)
  | some f =>
    let (n, f, queues) := f.publish x.queues v
    (n, { x with fans := x.fans.set id f, queues })

end Exchange

end Dataflow
