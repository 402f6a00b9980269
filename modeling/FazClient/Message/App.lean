/-!
# FazClient.Message.App

What users exchange: caws, the requests about them and the replies.
-/

namespace FazClient

/-- When something happened, in whole seconds and, where it is not zero, in
microseconds since the Unix epoch. -/
structure Timestamp where
  seconds : Int64 := 0
  useconds : Int64 := 0
  deriving DecidableEq

/-- The time so many microseconds after the epoch.  The seconds are cut toward
zero. -/
def Timestamp.ofMicros (micros : Int64) : Timestamp :=
  ⟨micros / 1000000, micros⟩

/-- A short message, perhaps in reply to another. -/
structure Caw where
  username : String := ""
  text : String := ""
  id : List UInt8 := []
  parentId : Option (List UInt8) := none
  timestamp : Option Timestamp := none
  deriving DecidableEq

/-- Asks to create an account. -/
structure RegisterUserRequest where
  username : String := ""
  deriving DecidableEq

structure RegisterUserReply where
  deriving DecidableEq

/-- Asks that one user follow another. -/
structure FollowRequest where
  username : String := ""
  toFollow : String := ""
  deriving DecidableEq

structure FollowReply where
  deriving DecidableEq

/-- Asks whom a user follows and who follows that user. -/
structure ProfileRequest where
  username : String := ""
  deriving DecidableEq

structure ProfileReply where
  following : List String := []
  followers : List String := []
  deriving DecidableEq

/-- Asks to post a caw. -/
structure CawRequest where
  username : String := ""
  text : String := ""
  parentId : Option (List UInt8) := none
  deriving DecidableEq

structure CawReply where
  caw : Option Caw := none
  deriving DecidableEq

/-- Asks for the thread that a caw belongs to. -/
structure ReadRequest where
  cawId : List UInt8 := []
  deriving DecidableEq

structure ReadReply where
  caws : List Caw := []
  deriving DecidableEq

end FazClient
