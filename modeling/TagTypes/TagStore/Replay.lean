import TagTypes.TagStore.Basic

/-!
# Replies prepared in advance

A replay stands in for a provider: it answers each call with the next prepared reply and writes down the call. When the replies are used up, every call is answered with one good quality.
-/

namespace TagTypes

inductive Reply where
  | qualities (qualities : List Quality)
  | failure (text : String)
  deriving Repr, Inhabited

inductive TagCall where
  | importTags (base text : String) (policy : CollisionPolicy)
  | removeTags (paths : List String)
  deriving Repr, Inhabited

structure Replay where
  name : String
  replies : List Reply
  calls : List TagCall := []
  deriving Inhabited

namespace Replay

def answer (p : Replay) (call : TagCall) : Reply × Replay :=
  match p.replies with
  | reply :: replies => (reply, { p with replies, calls := p.calls ++ [call] })
  | [] => (.qualities [.good], { p with calls := p.calls ++ [call] })

end Replay

end TagTypes
