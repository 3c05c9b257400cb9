import CommandSuite.Core.App
import CommandSuite.Core.Broker.Audience
import CommandSuite.Core.Broker.Contents

/-! # History reads and audiences

The feed and the view of direct messages stay within the audience of what they return.
-/

namespace CommandSuite.App

open Library Program EventLog LawfulEventLog Broker Transcript MessageDelivery SqliteEventLog

def threadFits (payload : PushPayload) (context : PushContext) : Bool :=
  match payload.toName, (payload.data.getD []).get "thread" with
  | some _, some (.string tag) => !Text.startsWith tag CHANNEL_THREAD_PREFIX
  | some _, _ => true
  | none, some (.string tag) => context.recipients.isNone || tag ≠ "" && tag ≠ channelThreadTag GENERAL_CHANNEL_ID
  | none, _ => context.recipients.isNone

def fits : BrokerEvent → Bool
  | .push payload context => threadFits payload context
  | _ => true

/-- What a permitted read may return: entries with the viewer in their audience, and posts of a channel the
viewer is in. -/
def Readable (channels : Option ChannelStore) (member : Name) (entry : StoredEvent) : Prop :=
  InAudience member.text entry ∨
    ∃ store channel, channels = some store ∧ store.isMember channel member.text = true ∧
      channel ≠ GENERAL_CHANNEL_ID ∧ entry.message.toName = none ∧
      threadOf entry.message = some (.string (channelThreadTag channel))

def carol : Name := ⟨"carol", by decide⟩

end CommandSuite.App
