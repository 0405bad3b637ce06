import CodeAtlas.Service.Command

/-! Messages of a client that keeps a connection open. -/
namespace CodeAtlas
open Json

inductive SocketMessage where
  /-- A client runs a command; the number comes back with the reply. -/
  | command (id : Option Nat) (name : String) (args : List Json)
  | response (id : Option Nat) (result : Json)
  | failure (id : Option Nat) (code message : String) (details : Json)
  | signal (event : GraphEvent)
  | ping
  | pong

namespace SocketMessage

def fields : SocketMessage → List (String × Json)
  | command id name args =>
    [("type", .str "command"), ("id", encode id), ("command", encode name), ("args", encode args)]
  | response id result => [("type", .str "response"), ("id", encode id), ("result", result)]
  | failure id code message details =>
    [("type", .str "error"), ("id", encode id), ("code", encode code), ("message", encode message),
      ("details", details)]
  | signal event => [("type", .str "signal"), ("event", encode event)]
  | ping => [("type", .str "ping")]
  | pong => [("type", .str "pong")]

/-- The fields of a message of some type. -/
def read (type : String) : Reader SocketMessage :=
  match type with
  | "command" =>
    return .command (← optional "id") (← required "command") (← withDefault "args" [])
  | "response" => return .response (← optional "id") (← required "result")
  | "error" =>
    return .failure (← optional "id") (← required "code") (← required "message") (← required "details")
  | "signal" => return .signal (← required "event")
  | "ping" => return .ping
  | "pong" => return .pong
  | _ => StateT.lift none

/-- The message that tells of an error. -/
def ofError (id : Option Nat) (e : AtlasError) : SocketMessage := .failure id e.code e.message e.details

/-- The reply to a message of a client, if it gets one. -/
def reply (c : Collaborators) : SocketMessage → Routine Engine (Option SocketMessage)
  | command id name args => do
    match ← dispatch c { command := name, args } with
    | .ok result => return some (.response id result)
    | .error e => return some (ofError id e)
  | ping => return some .pong
  | _ => return none

end SocketMessage

/-- The type of a message is its field `type`, or the first item of its array. -/
instance : Wire SocketMessage where
  encode m := .obj m.fields
  decode? j :=
    match j with
    | .obj fields =>
      match fields.lookup "type" with
      | some (.str type) => record? (SocketMessage.read type) (.obj fields)
      | _ => none
    | .arr (.str type :: rest) => record? (SocketMessage.read type) (.arr rest)
    | _ => none

end CodeAtlas
