import Mathlib.Tactic.TypeStar

/-!
# Shared vocabulary

The types both apps use: `libs/media-contracts`, and the mediasoup types that
cross the REST boundary.
-/

namespace MeetServer

abbrev RoomId := String

abbrev PeerId := String

abbrev Url := String

/-- Serialised `router.rtpCapabilities`; nothing in the server looks inside. -/
abbrev RtpCapabilities := String

inductive MediaKind where
  | audio
  | video
  deriving DecidableEq, Repr

/-- `TRANSPORT_DIRECTIONS`. -/
inductive TransportDirection where
  | send
  | recv
  deriving DecidableEq, Repr

end MeetServer
