import PostCortex.Core.ContextUpdate

/-!
# Messages

The captured turns of `core/message.rs`.
-/

namespace PostCortex
namespace Core

inductive MessageRole where
  | user
  | assistant
  deriving DecidableEq, Repr

structure NewMessage where
  turnId : String
  role : MessageRole
  author : Option String
  sourceSession : Option String
  timestamp : Timestamp
  text : String
  tools : List String
  files : List String
  deriving DecidableEq, Repr

structure Message where
  sessionId : Uuid
  seq : Nat
  turnId : String
  role : MessageRole
  author : Option String
  sourceSession : Option String
  timestamp : Timestamp
  text : String
  tools : List String
  files : List String
  deriving DecidableEq, Repr

def NewMessage.intoMessage (new : NewMessage) (sessionId : Uuid) (seq : Nat) :
    Message where
  sessionId := sessionId
  seq := seq
  turnId := new.turnId
  role := new.role
  author := new.author
  sourceSession := new.sourceSession
  timestamp := new.timestamp
  text := new.text
  tools := new.tools
  files := new.files

def messageContentId (seq : Nat) : String :=
  "message:" ++ toString seq

end Core
end PostCortex
