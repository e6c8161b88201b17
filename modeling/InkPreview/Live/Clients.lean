import InkPreview.Live.Schedule
/-!
Clients. A conversation takes one message after the other; its client is sent all updates from its
acceptance until it leaves or a send to it fails. A conversation that ends in a fault leaves its
client among those that are sent to.
-/
namespace InkPreview.Live.World

def modifyConnection (w : World) (c : ClientId) (f : Connection → Connection) : World :=
  { w with connections := w.connections.modify c f }

def setLink (w : World) (c : ClientId) (l : Link) : World :=
  w.modifyConnection c fun k => { k with link := l }

def dropClient (w : World) (c : ClientId) : World := { w with clients := w.clients.erase c }

/-! ### Sending -/

/-- Hands a message to a connection. The first send that fails is the one that finds out. -/
def transmit (w : World) (t : TaskId) (frames : List Frame) (c : ClientId) (m : Web.Message) : World :=
  match w.connections[c]? with
  | none => w.fail t frames .connectionClosed
  | some k =>
    match k.link with
    | .sound => (w.emit (.sent w.clock c m)).ret t frames .unit
    | .broken => (w.setLink c .lost).fail t frames .connectionLost
    | .lost => w.fail t frames .connectionClosed
    | .over => w.fail t frames .connectionLost

/-- Sends a message, which may take time. -/
def beginSend (w : World) (t : TaskId) (frames : List Frame) (c : ClientId) (m : Web.Message) : World :=
  match w.connections[c]? with
  | none => w.transmit t frames c m
  | some k =>
    let w := w.modifyConnection c fun k => { k with sends := k.sends + 1 }
    match k.pace k.sends with
    | none => w.transmit t frames c m
    | some d => w.sleep t (.sending c m :: frames) d

def broadcastNext (w : World) (t : TaskId) (frames : List Frame) (m : Web.Message) :
    List ClientId → World
  | [] => w.ret t frames .unit
  | c :: rest => w.call t (.broadcasting m (some c) rest :: frames) (.send c m)

/-- A client that cannot be sent to is dropped. -/
def sendFailed (w : World) (t : TaskId) (frames : List Frame) (m : Web.Message)
    (c : Option ClientId) (rest : List ClientId) (f : Fault) : World :=
  let w := w.note (.clientDropped f.message)
  let w := match c with
    | some c => w.dropClient c
    | none => w
  w.broadcastNext t frames m rest

/-! ### Conversations -/

/-- The client has left. -/
def leave (w : World) (t : TaskId) (frames : List Frame) (c : ClientId) : World :=
  ((w.dropClient c).setLink c .over).ret t frames .unit

/-- The conversation ends in a fault. -/
def breakOff (w : World) (t : TaskId) (frames : List Frame) (c : ClientId) (f : Fault) : World :=
  ((w.setLink c .over).emit (.crashed c f)).ret t frames .unit

/-- Takes the next message of a client, or waits for it. -/
def receive (w : World) (t : TaskId) (frames : List Frame) (c : ClientId) : World :=
  match w.connections[c]? with
  | none => w.ret t frames .unit
  | some k =>
    if k.link = .lost then w.breakOff t frames c .connectionClosed
    else
      match k.inbox with
      | [] => w.park t (.receiving c :: frames) (.message c)
      | i :: rest =>
        let w := w.modifyConnection c fun k => { k with inbox := rest }
        match i with
        | .text data => w.call t (.serving c :: frames) (.handle c data)
        | .bye => w.leave t frames c

/-- A message that the conversation was waiting for has come. -/
def received (w : World) (t : TaskId) (frames : List Frame) (c : ClientId) : World :=
  match w.connections[c]?.map Connection.inbox with
  | some (.text data :: rest) =>
    (w.modifyConnection c fun k => { k with inbox := rest }).call t (.serving c :: frames)
      (.handle c data)
  | some (.bye :: rest) => (w.modifyConnection c fun k => { k with inbox := rest }).leave t frames c
  | _ => w.park t (.receiving c :: frames) (.message c)

def beginConversation (w : World) (t : TaskId) (frames : List Frame) (c : ClientId) : World :=
  { w with clients := w.clients ++ [c] }.receive t frames c

/-- Handling a message ended in a fault. A connection that broke meanwhile is a client that left. -/
def handlingFailed (w : World) (t : TaskId) (frames : List Frame) (c : ClientId) (f : Fault) : World :=
  match f with
  | .connectionLost => w.leave t frames c
  | f => w.breakOff t frames c f

/-! ### From outside -/

/-- A new connection, whose sends take the times that `pace` says. -/
def connect (w : World) (pace : Nat → Option Nat) : ClientId × World :=
  let k : Connection := ⟨.sound, [], 0, pace⟩
  (w.connections.length, { w with connections := w.connections ++ [k] })

/-- A client asks for a conversation under a path. -/
def welcome (w : World) (c : ClientId) (path : String) : World :=
  if Web.Route.dropLineFeed path = Web.conversationPath then (w.spawn (.converse c) fun _ => []).2
  else (w.setLink c .over).emit (.refused c)

/-- Wakes the conversation that waits for a message of the client. -/
def wakeReceiver (w : World) (c : ClientId) : World :=
  match w.tasks.findIdx? fun k => decide (k.wait = .message c) with
  | some t => w.wake t (.value .unit)
  | none => w

/-- Something comes in from a client. After the end of the conversation nobody takes it. -/
def arrive (w : World) (c : ClientId) (i : Incoming) : World :=
  match w.connections[c]? with
  | none => w
  | some k =>
    if k.link = .over then w
    else (w.modifyConnection c fun k => { k with inbox := k.inbox ++ [i] }).wakeReceiver c

/-- From now on sends to the client fail. -/
def breakLink (w : World) (c : ClientId) : World :=
  w.modifyConnection c fun k => if k.link = .sound then { k with link := .broken } else k

end InkPreview.Live.World
