import ShardQuery.Error
/-!
# Transport

Nodes send payloads to each other by name. Each bound name leads to one inbox; a name
that is bound again leads to the new inbox, and nothing more comes into the old one.
-/

namespace ShardQuery

structure Inbox where
  node : String
  payloads : List (List UInt8)
  /-- Whether payloads may still come in. -/
  isBound : Bool
  /-- Whether someone still takes payloads out. -/
  isOpen : Bool
deriving Inhabited

abbrev InboxId := Nat

inductive Received where
  | payload (bytes : List UInt8)
  | empty
  /-- Nothing is left and nothing will come. -/
  | disconnected
deriving DecidableEq

structure Transport where
  inboxes : List Inbox
deriving Inhabited

namespace Transport

def empty : Transport := ⟨[]⟩

def unknownNode (node : String) : EngineError := .execution s!"unknown node {node}"

def bind (node : String) (transport : Transport) : InboxId × Transport :=
  let others := transport.inboxes.map fun inbox =>
    if inbox.node = node then { inbox with isBound := false } else inbox
  (transport.inboxes.length, ⟨others ++ [⟨node, [], true, true⟩]⟩)

def send (node : String) (payload : List UInt8) (transport : Transport) :
    Except EngineError Transport :=
  let isTarget (inbox : Inbox) := inbox.isBound && inbox.node == node
  match transport.inboxes.find? isTarget with
  | none => .error (unknownNode node)
  | some inbox =>
    if inbox.isOpen then
      .ok ⟨transport.inboxes.map fun inbox =>
        if isTarget inbox then { inbox with payloads := inbox.payloads ++ [payload] } else inbox⟩
    else .error (.execution s!"node {node} stopped receiving")

def receive (id : InboxId) (transport : Transport) : Received × Transport :=
  match transport.inboxes[id]? with
  | none => (.disconnected, transport)
  | some inbox =>
    match inbox.payloads with
    | payload :: rest =>
      (.payload payload, ⟨transport.inboxes.set id { inbox with payloads := rest }⟩)
    | [] => (if inbox.isBound then .empty else .disconnected, transport)

def receiveAll (id : InboxId) (transport : Transport) : List (List UInt8) × Transport :=
  match transport.inboxes[id]? with
  | none => ([], transport)
  | some inbox => (inbox.payloads, ⟨transport.inboxes.set id { inbox with payloads := [] }⟩)

def close (id : InboxId) (transport : Transport) : Transport :=
  ⟨transport.inboxes.modify id fun inbox => { inbox with payloads := [], isOpen := false }⟩

end Transport

/-- What a node has sent, in order. -/
structure Outbox where
  sent : List (String × List UInt8)
  capacity : Option Nat
deriving Inhabited

namespace Outbox

def empty : Outbox := ⟨[], none⟩

def send (node : String) (payload : List UInt8) (outbox : Outbox) :
    Except EngineError Outbox :=
  if outbox.capacity.any (· ≤ outbox.sent.length) then .error (Transport.unknownNode node)
  else .ok { outbox with sent := outbox.sent ++ [(node, payload)] }

end Outbox

end ShardQuery
