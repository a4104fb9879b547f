import RsProxy.Data.Machine
import RsProxy.Engine.StreamedAnswer
import RsProxy.Engine.UpstreamH2

/-!
# The channel of an HTTP/2 body

A task of the upstream connection pumps the frames of a response body into a channel of eight
places, and holds one more while the channel is full. The handler of the request reads at the other
end, and until the first byte goes on to the client it reads only to collect. The pump does not wait
for it, so what is in memory by then depends on how the two take turns.
-/

namespace RsProxy.Engine

open Text Io Net List
open Data (Machine)
open Rules (ResolvedAction)

def bodyChannelCapacity : Nat := 8

/-- What the handler has of a body of which nothing went on yet. -/
inductive BodyReader where
  | collecting (body : Bytes) (trailers : Headers)
  /-- The body is streamed, with what a collector left: its bytes, and the rest of the frame that
  did not fit. -/
  | streaming (pre : Bytes) (pending : List UpstreamBodyFrame)

structure BodyChannel where
  reader : BodyReader
  queue : List UpstreamBodyFrame
  /-- The frame that the pump waits to send. -/
  sending : Option UpstreamBodyFrame
  /-- The frames that are still to come. -/
  upcoming : List UpstreamBodyFrame

inductive BodyEvent where
  | receive
  | send
  | take

/-- What a collector does with one frame. -/
def collectFrame (limit : Nat) (body : Bytes) (trailers : Headers) : UpstreamBodyFrame → BodyReader
  | .data data =>
    let available := limit - body.length
    if available < data.length then
      .streaming (body ++ data.take available) [.data (data.drop available)]
    else .collecting (body ++ data) trailers
  | .trailers seen => .collecting body (trailers ++ seen)

def BodyChannel.step (limit : Nat) (channel : BodyChannel) : BodyEvent → Option BodyChannel
  | .receive =>
    match channel.sending, channel.upcoming with
    | none, frame :: upcoming => some { channel with sending := some frame, upcoming }
    | _, _ => none
  | .send =>
    match channel.sending with
    | some frame =>
      if channel.queue.length < bodyChannelCapacity then
        some { channel with queue := channel.queue ++ [frame], sending := none }
      else none
    | none => none
  | .take =>
    match channel.reader, channel.queue with
    | .collecting body trailers, frame :: queue =>
      some { channel with reader := collectFrame limit body trailers frame, queue }
    | _, _ => none

/-- The pump and a reader, up to the first byte that goes on. -/
def bodyMachine (limit : Nat) (reader : BodyReader) (frames : List UpstreamBodyFrame) :
    Machine BodyChannel BodyEvent where
  initial := { reader, queue := [], sending := none, upcoming := frames }
  step := BodyChannel.step limit

/-- The reader a response begins with. -/
def firstReader (config : ProxyConfig) (context : ResponseContext) (status : Nat)
    (headers : Headers) (actions : List ResolvedAction) : BodyReader :=
  if collectsBody config context status headers actions then .collecting [] [] else .streaming [] []

def BodyReader.held : BodyReader → Bytes
  | .collecting body _ => body
  | .streaming pre pending => pre ++ (frameData pending).flatten

/-- The bytes of a body that are in memory. -/
def BodyChannel.held (channel : BodyChannel) : Bytes :=
  channel.reader.held ++ (frameData (channel.queue ++ channel.sending.toList)).flatten

/-- How many of these frames a reader takes before the first byte goes on. -/
def BodyReader.takes (limit : Nat) : BodyReader → List UpstreamBodyFrame → Nat
  | .collecting body trailers, frame :: frames =>
    (collectFrame limit body trailers frame).takes limit frames + 1
  | _, _ => 0

/-- The most that is ever in memory: what the reader takes, a full channel behind it and the frame
of the pump. -/
def BodyReader.mostHeld (limit : Nat) (reader : BodyReader) (frames : List UpstreamBodyFrame) :
    Bytes :=
  reader.held ++
    (frameData (frames.take (reader.takes limit frames + bodyChannelCapacity + 1))).flatten

variable {limit : Nat} {body : Bytes} {trailers : Headers} {frame : UpstreamBodyFrame}
  {frames : List UpstreamBodyFrame}

/-! ### The collector -/

theorem held_collectFrame : (collectFrame limit body trailers frame).held =
    body ++ (frameData [frame]).flatten := by
  cases frame with
  | trailers seen => exact (append_nil body).symm
  | data data =>
    unfold collectFrame
    dsimp only
    split
    · simp [BodyReader.held, frameData]
    · simp [BodyReader.held, frameData]

/-- A collector that takes frame after frame comes to what `collectBounded` does. -/
theorem collectBounded_cons {ending} :
    collectBounded limit ending (frame :: frames) body trailers =
      match collectFrame limit body trailers frame with
      | .collecting body trailers => collectBounded limit ending frames body trailers
      | .streaming pre pending => (.done (.overflow pre), pending ++ frames) := by
  cases frame with
  | trailers seen => rfl
  | data data =>
    unfold collectFrame
    rw [collectBounded]
    dsimp only
    split <;> rfl

theorem mostHeld_cons : (BodyReader.collecting body trailers).mostHeld limit (frame :: frames) =
    (collectFrame limit body trailers frame).mostHeld limit frames := by
  have hcons : ∀ more, frameData (frame :: more) = frameData [frame] ++ frameData more := by
    intro more
    cases frame <;> rfl
  have htakes : (BodyReader.collecting body trailers).takes limit (frame :: frames) +
      bodyChannelCapacity + 1 =
        (collectFrame limit body trailers frame).takes limit frames +
          bodyChannelCapacity + 1 + 1 := by
    rw [BodyReader.takes]
    omega
  rw [BodyReader.mostHeld, htakes, take_succ_cons, hcons, flatten_append, BodyReader.mostHeld,
    held_collectFrame, append_assoc]
  rfl

/-! ### Every way to take turns -/

namespace BodyChannel

/-- The frames that the reader has not taken. -/
def untaken (channel : BodyChannel) : List UpstreamBodyFrame :=
  channel.queue ++ channel.sending.toList ++ channel.upcoming

/-- The most that can be in memory from here on. -/
def mostHeld (limit : Nat) (channel : BodyChannel) : Bytes :=
  channel.reader.mostHeld limit channel.untaken

/-- How far the frames still have to go. -/
def work (channel : BodyChannel) : Nat :=
  3 * channel.upcoming.length + 2 * channel.sending.toList.length + channel.queue.length

variable {channel channel' : BodyChannel} {event : BodyEvent}

section

variable (h : channel.step limit event = some channel')

include h

/-- A frame moves on towards the reader, or the reader takes one. -/
theorem step_eq_some :
    channel'.work < channel.work ∧
    (channel'.queue.length ≤ channel.queue.length ∨
      channel'.queue.length ≤ bodyChannelCapacity) ∧
    (channel'.reader = channel.reader ∧ channel'.untaken = channel.untaken ∨
      ∃ body trailers frame, channel.reader = .collecting body trailers ∧
        channel.untaken = frame :: channel'.untaken ∧
        channel'.reader = collectFrame limit body trailers frame) := by
  obtain ⟨reader, queue, sending, upcoming⟩ := channel
  cases event with
  | receive =>
    cases sending with
    | some => cases h
    | none =>
      cases upcoming with
      | nil => cases h
      | cons frame upcoming =>
        cases h
        refine ⟨?_, .inl le_rfl, .inl ⟨rfl, by simp [untaken]⟩⟩
        simp only [work, length_cons, Option.toList]
        omega
  | send =>
    cases sending with
    | none => cases h
    | some frame =>
      simp only [step] at h
      split_ifs at h with hroom
      cases h
      refine ⟨?_, .inr ?_, .inl ⟨rfl, by simp [untaken]⟩⟩
      · simp [work]
        omega
      · rw [length_append]
        exact hroom
  | take =>
    cases reader with
    | streaming => cases h
    | collecting body trailers =>
      cases queue with
      | nil => cases h
      | cons frame queue =>
        cases h
        exact ⟨Nat.lt_succ_self _, .inl (Nat.le_succ _),
          .inr ⟨body, trailers, frame, rfl, rfl, rfl⟩⟩

/-- The most that can be in memory stays what it is. -/
theorem mostHeld_step :
    channel'.mostHeld limit = channel.mostHeld limit := by
  obtain ⟨-, -, ⟨hreader, huntaken⟩ | ⟨body, trailers, frame, hreader, huntaken, hreader'⟩⟩ :=
    step_eq_some h
  · rw [mostHeld, hreader, huntaken, mostHeld]
  · rw [mostHeld, mostHeld, hreader, huntaken, hreader', mostHeld_cons]

theorem queue_step (hroom : channel.queue.length ≤ bodyChannelCapacity) :
    channel'.queue.length ≤ bodyChannelCapacity := by
  have := (step_eq_some h).2.1
  omega

end

/-- The channel and the pump hold the first of the frames that are not taken. -/
theorem held_le_mostHeld (hroom : channel.queue.length ≤ bodyChannelCapacity) :
    channel.held.length ≤ (channel.mostHeld limit).length := by
  have hsending : channel.sending.toList.length ≤ 1 := by
    cases channel.sending <;> simp
  have hheld : channel.queue ++ channel.sending.toList <+:
      channel.untaken.take
        (channel.reader.takes limit channel.untaken + bodyChannelCapacity + 1) := by
    rw [prefix_take_iff, length_append]
    exact ⟨prefix_append _ _, by omega⟩
  rw [held, mostHeld, BodyReader.mostHeld, length_append, length_append]
  exact Nat.add_le_add_left (hheld.filterMap _).flatten.length_le _

/-- Where nobody can move, the most is held: the channel is full, or all frames are in it. -/
theorem held_of_stuck (hroom : channel.queue.length ≤ bodyChannelCapacity)
    (hstuck : ∀ event, channel.step limit event = none) :
    channel.held = channel.mostHeld limit := by
  obtain ⟨reader, queue, sending, upcoming⟩ := channel
  have hpump : (sending = none ∧ upcoming = []) ∨
      sending.toList.length = 1 ∧ queue.length = bodyChannelCapacity := by
    cases sending with
    | none =>
      cases upcoming with
      | nil => exact .inl ⟨rfl, rfl⟩
      | cons frame upcoming => cases hstuck .receive
    | some frame =>
      refine .inr ⟨rfl, Nat.le_antisymm hroom (Nat.le_of_not_lt fun hfree => ?_)⟩
      have hsend := hstuck .send
      simp [step, hfree] at hsend
  have hsize : (queue ++ sending.toList ++ upcoming).take (bodyChannelCapacity + 1) =
      queue ++ sending.toList := by
    obtain ⟨rfl, rfl⟩ | ⟨hsending, hfull⟩ := hpump
    · simpa using Nat.le_succ_of_le hroom
    · exact take_left' (by rw [length_append, hsending, hfull])
  have htakes : reader.takes limit (queue ++ sending.toList ++ upcoming) = 0 := by
    cases reader with
    | streaming => simp [BodyReader.takes]
    | collecting body trailers =>
      cases queue with
      | cons => cases hstuck .take
      | nil =>
        obtain ⟨rfl, rfl⟩ | ⟨-, hfull⟩ := hpump
        · rfl
        · cases hfull
  simp only [held, mostHeld, BodyReader.mostHeld, untaken, htakes, Nat.zero_add, hsize]

variable {reader : BodyReader}

/-- The most is held in some turn. -/
theorem exists_held (hroom : channel.queue.length ≤ bodyChannelCapacity) :
    ∃ last, (bodyMachine limit reader frames).CanReach channel last ∧
      last.held = channel.mostHeld limit := by
  induction hwork : channel.work using Nat.strong_induction_on generalizing channel with
  | _ n ih =>
    subst hwork
    by_cases hstuck : ∀ event, channel.step limit event = none
    · exact ⟨channel, .refl _, held_of_stuck hroom hstuck⟩
    · obtain ⟨event, hevent⟩ := not_forall.mp hstuck
      obtain ⟨channel', hstep⟩ := Option.ne_none_iff_exists'.mp hevent
      obtain ⟨last, hreach, hheld⟩ := ih _ (step_eq_some hstep).1 (queue_step hstep hroom) rfl
      exact ⟨last, hreach.step hstep, hheld.trans (mostHeld_step hstep)⟩

/-- However the pump and the reader take turns, no more is held than this, and in some turn it
is. -/
theorem held_le_iff {bound : Nat} :
    (∀ channel, (bodyMachine limit reader frames).Reachable (fun _ => True) channel →
      channel.held.length ≤ bound) ↔ (reader.mostHeld limit frames).length ≤ bound := by
  constructor
  · intro h
    obtain ⟨last, hreach, hheld⟩ : ∃ last, (bodyMachine limit reader frames).CanReach
        (bodyMachine limit reader frames).initial last ∧ last.held = reader.mostHeld limit frames :=
      exists_held (Nat.zero_le _)
    have hlast := h last (Machine.Reachable.initial.canReach hreach)
    rwa [hheld] at hlast
  · intro h channel hreach
    obtain ⟨hroom, hmost⟩ := hreach.invariant (I := fun channel =>
      channel.queue.length ≤ bodyChannelCapacity ∧
        channel.mostHeld limit = reader.mostHeld limit frames) ⟨Nat.zero_le _, rfl⟩
      fun _ ⟨hroom, hmost⟩ _ hstep =>
        ⟨queue_step hstep hroom, (mostHeld_step hstep).trans hmost⟩
    have hheld : channel.held.length ≤ (channel.mostHeld limit).length := held_le_mostHeld hroom
    rw [hmost] at hheld
    exact hheld.trans h

/-- What a reader has made of the frames it took, and what is left of them, is what `collectBounded`
makes of them all. -/
def Collected (limit : Nat) (ending : Outcome Unit) (frames : List UpstreamBodyFrame)
    (channel : BodyChannel) : Prop :=
  collectBounded limit ending frames [] [] =
    match channel.reader with
    | .collecting body trailers => collectBounded limit ending channel.untaken body trailers
    | .streaming pre pending => (.done (.overflow pre), pending ++ channel.untaken)

theorem collected_of_reachable {ending}
    (hreach : (bodyMachine limit (.collecting [] []) frames).Reachable (fun _ => True) channel) :
    channel.Collected limit ending frames := by
  refine hreach.invariant (I := BodyChannel.Collected limit ending frames) ?_ ?_
  · rfl
  · intro channel channel' event _ hcollected _ hstep
    obtain ⟨-, -, ⟨hreader, huntaken⟩ | ⟨body, trailers, frame, hreader, huntaken, hreader'⟩⟩ :=
      step_eq_some hstep
    · rw [Collected, hreader, huntaken]
      exact hcollected
    · rw [Collected, hreader, huntaken] at hcollected
      rw [Collected, hcollected, hreader']
      exact collectBounded_cons

end BodyChannel

end RsProxy.Engine
