import Mathlib.Tactic

/-!
# Channels that share one list of messages

Messages of many channels wait in one list, oldest first.  `waiting` is what
one channel has to say, in order.  Taking out a message that no older one of
its channel precedes removes the front of its channel and leaves every other
channel as it is.
-/

namespace MessageBus.SharedChannels

variable {Message Channel Content : Type} [DecidableEq Channel]
  {channelOf : Message → Channel} {contents : Message → List Content}
  {channel : Channel} {messages more : List Message} {message : Message}
  {content : Content} {index : ℕ}

def waiting
    (channelOf : Message → Channel) (contents : Message → List Content)
    (channel : Channel) (messages : List Message) : List Content :=
  messages.flatMap fun message =>
    if channelOf message = channel then contents message else []

@[simp] theorem waiting_nil :
    waiting channelOf contents channel [] = [] := rfl

@[simp] theorem waiting_append :
    waiting channelOf contents channel (messages ++ more) =
      waiting channelOf contents channel messages ++
        waiting channelOf contents channel more :=
  List.flatMap_append

theorem mem_waiting :
    content ∈ waiting channelOf contents channel messages ↔
      ∃ message ∈ messages, channelOf message = channel ∧
        content ∈ contents message := by
  constructor
  · intro hcontent
    rcases List.mem_flatMap.mp hcontent with ⟨message, hmessage, hmem⟩
    split_ifs at hmem with hchannel
    · exact ⟨message, hmessage, hchannel, hmem⟩
    · simp at hmem
  · rintro ⟨message, hmessage, hchannel, hmem⟩
    apply List.mem_flatMap.mpr
    exact ⟨message, hmessage, by rw [if_pos hchannel]; exact hmem⟩

theorem waiting_eq_nil
    (hnone : ∀ message ∈ messages, channelOf message = channel →
      contents message = []) :
    waiting channelOf contents channel messages = [] := by
  apply List.flatMap_eq_nil_iff.mpr
  intro message hmessage
  split_ifs with hchannel
  · exact hnone message hmessage hchannel
  · rfl

/-- No older message of the same channel stands before the one at `index`. -/
def Foremost (channelOf : Message → Channel) (messages : List Message)
    (index : ℕ) : Prop :=
  ∀ message ∈ messages[index]?, ∀ older ∈ messages.take index,
    channelOf older ≠ channelOf message

instance : Decidable (Foremost channelOf messages index) :=
  inferInstanceAs (Decidable (∀ message ∈ messages[index]?, _))

theorem eraseIdx_split (hget : messages[index]? = some message) :
    messages = messages.take index ++ message :: messages.drop (index + 1) ∧
      messages.eraseIdx index =
        messages.take index ++ messages.drop (index + 1) := by
  rcases List.getElem?_eq_some_iff.mp hget with ⟨hlength, heq⟩
  constructor
  · rw [← heq, List.getElem_cons_drop, List.take_append_drop]
  · exact List.eraseIdx_eq_take_drop_succ messages index

theorem waiting_eraseIdx_of_ne
    (hget : messages[index]? = some message)
    (hne : channelOf message ≠ channel) :
    waiting channelOf contents channel (messages.eraseIdx index) =
      waiting channelOf contents channel messages := by
  rcases eraseIdx_split hget with ⟨hsplit, herase⟩
  rw [herase]
  conv_rhs => rw [hsplit]
  rw [waiting_append, waiting_append]
  congr 1
  simp [waiting, hne]

theorem waiting_of_foremost
    (hget : messages[index]? = some message)
    (hfirst : Foremost channelOf messages index) :
    waiting channelOf contents (channelOf message) messages =
      contents message ++
        waiting channelOf contents (channelOf message)
          (messages.eraseIdx index) := by
  have holder : waiting channelOf contents (channelOf message)
      (messages.take index) = [] := by
    apply waiting_eq_nil
    intro older holder hchannel
    exact (hfirst message hget older holder hchannel).elim
  rcases eraseIdx_split hget with ⟨hsplit, herase⟩
  rw [herase, waiting_append, holder]
  conv_lhs => rw [hsplit]
  rw [waiting_append, holder]
  simp [waiting]

end MessageBus.SharedChannels
