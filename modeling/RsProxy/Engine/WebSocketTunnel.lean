import RsProxy.Data.Machine
import RsProxy.Engine.WebSocketFrame
import RsProxy.Io.Nonblocking

/-!
# The WebSocket tunnel

`websocket_tunnel_nonblocking_inner` polls both peers. Every iteration takes the frames that have
arrived from either side, queues them for the other one and writes what the other one accepts; the
loop ends when both sides have closed and nothing is queued. The two directions are alike: a
`WsDirection` holds what the loop keeps for one of them, and what has gone through it so far.
-/

namespace RsProxy.Engine

open Text Io Data List

def websocketEndError (e : IoError) : Bool := connectionEnd e

/-! ### Reading the frames that have arrived -/

/-- A call of `read_ws_frames_nonblocking`: the bytes it read, and the frames with whether the
stream has ended. -/
structure ReadCall where
  data : Bytes
  result : Except IoError (List WsFrame × Bool)
  decoder : WsFrameDecoder

/-- An error returns nothing of what was read before it. -/
def readWsFramesLoop (decoder : WsFrameDecoder) (data : Bytes) (out : List WsFrame) :
    List ReadOutcome → ReadCall
  | [] => ⟨data, .ok (out, false), decoder⟩
  | .error e :: _ =>
    if wouldBlock e then ⟨data, .ok (out, false), decoder⟩ else ⟨data, .error e, decoder⟩
  | .ok piece :: reads =>
    if piece.val = [] then ⟨data, .ok (out, true), decoder⟩
    else
      match decoder.push piece.val with
      | (.error e, decoder) => ⟨data ++ piece.val, .error e, decoder⟩
      | (.ok frames, decoder) =>
        if piece.val.length < pieceSize then
          ⟨data ++ piece.val, .ok (out ++ frames, false), decoder⟩
        else readWsFramesLoop decoder (data ++ piece.val) (out ++ frames) reads

def readWsFramesNonblocking (decoder : WsFrameDecoder) (reads : List ReadOutcome) : ReadCall :=
  readWsFramesLoop decoder [] [] reads

/-- The decoder holds what is left of the bytes behind their frames. -/
def Decoded (decoder : WsFrameDecoder) (bs : Bytes) : Prop :=
  (frameParser.items bs).error = none ∧ decoder.buf = (frameParser.items bs).rest

theorem decoded_nil : Decoded ⟨[]⟩ [] := ⟨rfl, rfl⟩

variable {decoder : WsFrameDecoder} {frames out : List WsFrame} {data before : Bytes}

/-- A push that succeeds gives the frames that its bytes complete. -/
theorem Decoded.push {decoder' piece} (h : Decoded decoder (before ++ data))
    (hout : (frameParser.items before).taken ++ out = (frameParser.items (before ++ data)).taken)
    (hpush : decoder.push piece = (.ok frames, decoder')) :
    Decoded decoder' (before ++ (data ++ piece)) ∧
      (frameParser.items before).taken ++ (out ++ frames) =
        (frameParser.items (before ++ (data ++ piece))).taken := by
  obtain ⟨hnone, hbuf⟩ := h
  rw [Decoded, ← append_assoc, ← append_assoc, hout, PrefixParser.items_append hnone piece, ← hbuf]
  cases herror : (frameParser.items (decoder.buf ++ piece)).error with
  | some e =>
    have hfailed := (WsFrameDecoder.pushLoop_spec _ _ []).2 e herror
    cases hpush.symm.trans hfailed
  | none =>
    have hframes := (WsFrameDecoder.pushLoop_spec _ _ []).1 herror
    cases hpush.symm.trans hframes
    exact ⟨⟨rfl, rfl⟩, rfl⟩

variable {reads : List ReadOutcome} {closed : Bool}

/-- A call that returns frames returns those that its bytes complete. -/
theorem readWsFramesLoop_ok (hdecoder : Decoded decoder (before ++ data))
    (hout : (frameParser.items before).taken ++ out = (frameParser.items (before ++ data)).taken)
    (h : (readWsFramesLoop decoder data out reads).result = .ok (frames, closed)) :
    let call := readWsFramesLoop decoder data out reads
    Decoded call.decoder (before ++ call.data) ∧
      (frameParser.items before).taken ++ frames =
        (frameParser.items (before ++ call.data)).taken := by
  fun_induction readWsFramesLoop decoder data out reads with
  | case1 | case2 | case4 =>
    cases h
    exact ⟨hdecoder, hout⟩
  | case3 | case5 => cases h
  | case6 decoder data out piece reads hend new decoder' hpush hshort =>
    cases h
    exact hdecoder.push hout hpush
  | case7 decoder data out piece reads hend new decoder' hpush hfull ih =>
    obtain ⟨hdecoder', hnew⟩ := hdecoder.push hout hpush
    exact ih hdecoder' hnew h

theorem readWsFramesNonblocking_ok (hdecoder : Decoded decoder before)
    (h : (readWsFramesNonblocking decoder reads).result = .ok (frames, closed)) :
    let call := readWsFramesNonblocking decoder reads
    Decoded call.decoder (before ++ call.data) ∧
      (frameParser.items before).taken ++ frames =
        (frameParser.items (before ++ call.data)).taken := by
  apply readWsFramesLoop_ok _ _ h
  · rwa [append_nil]
  · rw [append_nil, append_nil]

/-! ### One direction -/

/-- The loop's variables for the frames of one side, and what has gone through: the bytes of the
calls that returned frames, those of a call that failed, the frames that were queued and the bytes
that were written. -/
structure WsDirection where
  decoder : WsFrameDecoder
  pending : Bytes
  bytes : Nat
  closed : Bool
  closeSeen : Bool
  received : Bytes
  failing : Option Bytes
  handed : List WsFrame
  sent : Bytes
deriving DecidableEq

variable {d : WsDirection} {t : WsTunnel}

namespace WsDirection

def initial : WsDirection where
  decoder := ⟨[]⟩
  pending := []
  bytes := 0
  closed := false
  closeSeen := false
  received := []
  failing := none
  handed := []
  sent := []

def pendingLimit : Nat := 1024 * 1024

section

variable (d : WsDirection) (call : ReadCall) (parsed : List WsFrame)

def appendFrames : WsDirection :=
  parsed.foldl (fun d frame =>
    { d with
      bytes := d.bytes + frame.raw.length
      pending := d.pending ++ frame.raw
      closeSeen := d.closeSeen || frame.opcode == 0x8
      handed := d.handed ++ [frame] }) d

/-- A call has returned frames. -/
def took (closed : Bool) : WsDirection :=
  { d with
    decoder := call.decoder
    closed := d.closed || closed
    received := d.received ++ call.data }.appendFrames parsed

/-- A call has failed. -/
def missed : WsDirection :=
  { d with decoder := call.decoder, failing := some call.data }

/-- A side is read while it is open and not too much is queued. -/
def Reads : Prop := d.closed = false ∧ d.pending.length < pendingLimit

end

instance (d : WsDirection) : Decidable d.Reads := inferInstanceAs (Decidable (_ ∧ _))

/-- An error of a connection whose other end is gone closes the direction, any other one ends the
tunnel. -/
def readFrames (reads : List ReadOutcome) : ReadM WsDirection Unit := fun d =>
  if d.Reads then
    let call := readWsFramesNonblocking d.decoder reads
    match call.result with
    | .ok (parsed, closed) => (.ok (), d.took call parsed closed)
    | .error e =>
      if websocketEndError e then (.ok (), { d.missed call with closed := true })
      else (.error e, d.missed call)
  else (.ok (), d)

def flushResult (flushed : Flushed) (flush : Option IoError) : Except IoError Unit :=
  match flushed.error, flush with
  | some e, _ => .error e
  | none, none => .ok ()
  | none, some e =>
    if flushed.written = [] || wouldBlock e || websocketEndError e then .ok () else .error e

/-- Write what is pending, then flush if anything was written. -/
def flushPending (writes : List WriteOutcome) (flush : Option IoError) : ReadM WsDirection Unit :=
  fun d =>
    let flushed := flushLoop websocketEndError d.pending writes
    (flushResult flushed flush,
      { d with pending := flushed.pending, sent := d.sent ++ flushed.written })

/-- A close frame that has been passed on closes the direction. -/
def settle (d : WsDirection) : WsDirection :=
  if d.closeSeen && d.pending.isEmpty then { d with closed := true } else d

/-- All the bytes that have been read. -/
def bytesRead (d : WsDirection) : Bytes := d.received ++ d.failing.getD []

/-- What the calls that returned have left of a frame that is not complete. -/
def unfinished (d : WsDirection) : Bytes := (frameParser.items d.received).rest

/-- What has been handed on are the frames of the calls that returned, and what is queued is what
has not been written of them. -/
structure Sound (d : WsDirection) : Prop where
  clean : (frameParser.items d.received).error = none
  handed_eq : d.handed = (frameParser.items d.received).taken
  sent_append : d.sent ++ d.pending = (d.handed.map WsFrame.raw).flatten

/-- The direction can be read on. -/
structure Open (d : WsDirection) : Prop where
  closed_of_failing : d.failing ≠ none → d.closed
  decoded : d.failing = none → Decoded d.decoder d.received

/-- Nothing is lost, added or moved: what was read by calls that returned is what was written, what
is queued, and the beginning of a frame. -/
def Lossless (d : WsDirection) : Prop :=
  d.sent ++ d.pending ++ d.unfinished = d.received

theorem appendFrames_eq (d : WsDirection) {parsed} :
    d.appendFrames parsed = { d with
      bytes := (d.appendFrames parsed).bytes
      pending := d.pending ++ (parsed.map WsFrame.raw).flatten
      closeSeen := (d.appendFrames parsed).closeSeen
      handed := d.handed ++ parsed } := by
  induction parsed generalizing d with
  | nil => simp [appendFrames]
  | cons frame parsed ih =>
    rw [appendFrames, foldl_cons, ← appendFrames, ih]
    simp

theorem sound_initial : initial.Sound := ⟨rfl, rfl, rfl⟩

theorem open_initial : initial.Open := ⟨fun h => absurd rfl h, fun _ => decoded_nil⟩

theorem readFrames_of_ok {parsed} (hd : d.Reads)
    (h : (readWsFramesNonblocking d.decoder reads).result = .ok (parsed, closed)) :
    readFrames reads d =
      (.ok (), d.took (readWsFramesNonblocking d.decoder reads) parsed closed) := by
  simp [readFrames, if_pos hd, h]

theorem readFrames_of_error {e} (hd : d.Reads)
    (h : (readWsFramesNonblocking d.decoder reads).result = .error e) :
    readFrames reads d =
      if websocketEndError e then
        (.ok (), { d.missed (readWsFramesNonblocking d.decoder reads) with closed := true })
      else (.error e, d.missed (readWsFramesNonblocking d.decoder reads)) := by
  simp [readFrames, if_pos hd, h]

/-- A read keeps a direction sound, and open unless it ends the tunnel. -/
theorem keeps_readFrames : (readFrames reads).Keeps (fun d => d.Sound ∧ d.Open) Sound := by
  rintro d ⟨hs, ho⟩
  by_cases hd : d.Reads
  · have hfailing : d.failing = none := by
      by_contra hne
      cases hd.1.symm.trans (ho.closed_of_failing hne)
    cases hcall : (readWsFramesNonblocking d.decoder reads).result with
    | ok r =>
      obtain ⟨parsed, closed⟩ := r
      obtain ⟨hdecoder, hparsed⟩ := readWsFramesNonblocking_ok (ho.decoded hfailing) hcall
      have hsound : (d.took (readWsFramesNonblocking d.decoder reads) parsed closed).Sound := by
        rw [took, appendFrames_eq]
        refine ⟨hdecoder.1, ?_, ?_⟩
        · rw [hs.handed_eq, hparsed]
        · simp [← hs.sent_append]
      rw [readFrames_of_ok hd hcall]
      refine ⟨hsound, fun _ _ => ⟨hsound, ?_⟩⟩
      rw [took, appendFrames_eq]
      exact ⟨absurd hfailing, fun _ => hdecoder⟩
    | error e =>
      rw [readFrames_of_error hd hcall]
      have hsound : (d.missed (readWsFramesNonblocking d.decoder reads)).Sound :=
        ⟨hs.clean, hs.handed_eq, hs.sent_append⟩
      split
      · refine ⟨⟨hs.clean, hs.handed_eq, hs.sent_append⟩,
          fun _ _ => ⟨⟨hs.clean, hs.handed_eq, hs.sent_append⟩, ?_⟩⟩
        exact ⟨fun _ => rfl, fun h => by cases h⟩
      · exact ⟨hsound, fun _ h => by cases h⟩
  · rw [readFrames, if_neg hd]
    exact ⟨hs, fun _ _ => ⟨hs, ho⟩⟩

theorem keeps_flushPending {writes flush} :
    (flushPending writes flush).Keeps (fun d => d.Sound ∧ d.Open) Sound := by
  rintro d ⟨hs, ho⟩
  have hsound : (flushPending writes flush d).2.Sound := by
    refine ⟨hs.clean, hs.handed_eq, ?_⟩
    rw [flushPending, append_assoc, written_append_pending, hs.sent_append]
  exact ⟨hsound, fun _ _ => ⟨hsound, ho.closed_of_failing, ho.decoded⟩⟩

theorem settle_keeps (h : d.Sound ∧ d.Open) : d.settle.Sound ∧ d.settle.Open := by
  obtain ⟨hs, ho⟩ := h
  rw [settle]
  split
  · exact ⟨⟨hs.clean, hs.handed_eq, hs.sent_append⟩, fun _ => rfl, ho.decoded⟩
  · exact ⟨hs, ho⟩

end WsDirection

open WsDirection

/-! ### The tunnel -/

structure WsTunnel where
  toUpstream : WsDirection
  toClient : WsDirection
  result : Option (Except IoError Unit)
deriving DecidableEq

/-- What the two sockets do in one iteration. -/
structure WsRound where
  fromClient : List ReadOutcome
  fromUpstream : List ReadOutcome
  toUpstream : List WriteOutcome
  flushUpstream : Option IoError
  toClient : List WriteOutcome
  flushClient : Option IoError

variable {p : ReadM WsDirection Unit} {round : WsRound}

namespace WsTunnel

def initial : WsTunnel := ⟨.initial, .initial, none⟩

def onToUpstream (p : ReadM WsDirection Unit) : ReadM WsTunnel Unit := fun t =>
  ((p t.toUpstream).1, { t with toUpstream := (p t.toUpstream).2 })

def onToClient (p : ReadM WsDirection Unit) : ReadM WsTunnel Unit := fun t =>
  ((p t.toClient).1, { t with toClient := (p t.toClient).2 })

def settle (t : WsTunnel) : WsTunnel :=
  { t with toUpstream := t.toUpstream.settle, toClient := t.toClient.settle }

/-- The exit test. -/
def finished (t : WsTunnel) : Bool :=
  ((t.toUpstream.closed && t.toClient.closed) ||
      (t.toUpstream.closeSeen && t.toClient.closeSeen)) &&
    t.toUpstream.pending.isEmpty && t.toClient.pending.isEmpty

def settled : ReadM WsTunnel Bool := fun t => (.ok t.settle.finished, t.settle)

def iteration (round : WsRound) : ReadM WsTunnel Bool := do
  onToUpstream (readFrames round.fromClient)
  onToClient (readFrames round.fromUpstream)
  onToUpstream (flushPending round.toUpstream round.flushUpstream)
  onToClient (flushPending round.toClient round.flushClient)
  settled

def iterate (t : WsTunnel) (round : WsRound) : WsTunnel :=
  match iteration round t with
  | (.ok true, t) => { t with result := some (.ok ()) }
  | (.ok false, t) => t
  | (.error e, t) => { t with result := some (.error e) }

def machine : Machine WsTunnel WsRound where
  initial := initial
  step t round := if t.result.isNone then some (t.iterate round) else none

/-! ### What every state has handed on -/

def Sound (t : WsTunnel) : Prop := t.toUpstream.Sound ∧ t.toClient.Sound

def Open (t : WsTunnel) : Prop :=
  (t.toUpstream.Sound ∧ t.toUpstream.Open) ∧ t.toClient.Sound ∧ t.toClient.Open

theorem Open.sound (h : t.Open) : t.Sound := ⟨h.1.1, h.2.1⟩

theorem keeps_onToUpstream (h : p.Keeps (fun d => d.Sound ∧ d.Open) WsDirection.Sound) :
    (onToUpstream p).Keeps Open Sound := by
  intro t ht
  obtain ⟨hsound, hopen⟩ := h t.toUpstream ht.1
  exact ⟨⟨hsound, ht.2.1⟩, fun a ha => ⟨hopen a ha, ht.2⟩⟩

theorem keeps_onToClient (h : p.Keeps (fun d => d.Sound ∧ d.Open) WsDirection.Sound) :
    (onToClient p).Keeps Open Sound := by
  intro t ht
  obtain ⟨hsound, hopen⟩ := h t.toClient ht.2
  exact ⟨⟨ht.1.1, hsound⟩, fun a ha => ⟨ht.1, hopen a ha⟩⟩

theorem keeps_iteration (round : WsRound) : (iteration round).Keeps Open Sound := by
  apply (keeps_onToUpstream keeps_readFrames).bind
  intro _
  apply (keeps_onToClient keeps_readFrames).bind
  intro _
  apply (keeps_onToUpstream keeps_flushPending).bind
  intro _
  apply (keeps_onToClient keeps_flushPending).bind
  intro _ t ht
  have hopen : t.settle.Open := ⟨settle_keeps ht.1, settle_keeps ht.2⟩
  exact ⟨hopen.sound, fun _ _ => hopen⟩

theorem eq_of_step {t'} (h : machine.step t round = some t') :
    t.result = none ∧ t.iterate round = t' := by
  obtain ⟨hrunning, heq⟩ := Option.ite_none_right_eq_some.mp h
  exact ⟨Option.isNone_iff_eq_none.mp hrunning, Option.some.inj heq⟩

/-- Every state is sound, and open while the tunnel runs. -/
theorem sound_of_reachable (ht : machine.Reachable (fun _ => True) t) :
    t.Sound ∧ (t.result = none → t.Open) := by
  refine ht.invariant (I := fun t => t.Sound ∧ (t.result = none → t.Open)) ?_ ?_
  · exact ⟨⟨sound_initial, sound_initial⟩, fun _ =>
      ⟨⟨sound_initial, open_initial⟩, sound_initial,
        open_initial⟩⟩
  · rintro t t' round - ⟨-, hopen⟩ - hstep
    obtain ⟨hrunning, rfl⟩ := eq_of_step hstep
    obtain ⟨hsound, hagain⟩ := keeps_iteration round t (hopen hrunning)
    rw [iterate]
    split
    next t' hiter =>
      rw [hiter] at hsound
      exact ⟨hsound, fun h => by cases h⟩
    next t' hiter =>
      rw [hiter] at hsound hagain
      exact ⟨hsound, fun _ => hagain false rfl⟩
    next e t' hiter =>
      rw [hiter] at hsound
      exact ⟨hsound, fun h => by cases h⟩

theorem lossless (t : {t // machine.Reachable (fun _ => True) t}) :
    t.1.toUpstream.Lossless ∧ t.1.toClient.Lossless := by
  have hsound {d : WsDirection} (h : d.Sound) : d.Lossless := by
    rw [WsDirection.Lossless, unfinished, h.sent_append, h.handed_eq, flatten_taken]
  exact (sound_of_reachable t.2).1.imp hsound hsound

/-! ### All the frames that were received -/

/-- The frames that the blocking reader finds in some bytes. -/
def framesOf (bs : Bytes) : List WsFrame := readWsFrames (bs.length + 1) bs

theorem framesOf_eq {bs} : framesOf bs = (frameParser.items bs).taken :=
  readWsFrames_bytes (Nat.lt_succ_self _)

theorem framesOf_raw (frames : List FrameParts) :
    framesOf (frames.flatMap FrameParts.raw) = frames.map FrameParts.frame := by
  rw [framesOf_eq]
  induction frames with
  | nil => rfl
  | cons f frames ih =>
    rw [flatMap_cons, PrefixParser.items_of_some parseWsFramePrefix_frame, Items.taken_cons,
      drop_left, ih, map_cons]

/-- Frames that are sent one behind the other are read back one by one, with their payloads
unmasked. -/
theorem framesOf_encode (frames : List SentFrame) :
    framesOf (frames.flatMap SentFrame.encode) = frames.map SentFrame.frame := by
  have hread := framesOf_raw (frames.map SentFrame.parts)
  rw [flatMap_map, map_map] at hread
  exact hread.trans (map_congr_left fun f _ => f.frame_parts)

/-- The frames in all that was read are those that were handed on, and those that a call that failed
has completed. -/
theorem framesOf_bytesRead (h : d.Sound) :
    framesOf d.bytesRead = d.handed ++ framesOf (d.unfinished ++ d.failing.getD []) := by
  rw [framesOf_eq, framesOf_eq, bytesRead, PrefixParser.items_append h.clean, h.handed_eq,
    unfinished]

/-- A text frame with one letter. -/
def letterFrame : Bytes := [0x81, 0x01, 0x61]

/-- The header of a frame that is one byte too large. -/
def oversizedHeader : Bytes := [0x82, 0x7f, 0, 0, 0, 0, 1, 0, 0, 1]

/-- The client sends `bytes` and nothing else happens. -/
def clientSends (piece : Piece) : WsRound := ⟨[.ok piece], [], [], none, [], none⟩

/-- The upstream takes `n` bytes. -/
def upstreamTakes (n : Nat) : WsRound := ⟨[], [], [.ok n], none, [], none⟩

end WsTunnel

/-! ### Both peers are gone -/

/-- The first call reports that the peer is gone. -/
def ReadsEnded (reads : List ReadOutcome) : Prop := ∃ r rest, reads = r :: rest ∧ r.Ended

def WritesEnded (writes : List WriteOutcome) : Prop := ∃ w rest, writes = w :: rest ∧ w.Ended

theorem readWsFramesNonblocking_of_ended (h : ReadsEnded reads) :
    (readWsFramesNonblocking decoder reads).result = .ok ([], true) ∨
      ∃ e, websocketEndError e ∧ (readWsFramesNonblocking decoder reads).result = .error e := by
  obtain ⟨r, rest, rfl, hr⟩ := h
  cases r with
  | ok piece =>
    left
    have hend : piece.val = [] := hr
    rw [readWsFramesNonblocking, readWsFramesLoop, if_pos hend]
  | error e =>
    right
    have hblock : wouldBlock e = false := not_wouldBlock hr
    exact ⟨e, hr, by rw [readWsFramesNonblocking, readWsFramesLoop, hblock]; rfl⟩

namespace WsDirection

/-- Reading a peer that is gone queues nothing, and closes a direction with an empty queue. -/
theorem readFrames_of_ended (h : ReadsEnded reads) (d : WsDirection) :
    (readFrames reads d).1 = .ok () ∧ (readFrames reads d).2.pending = d.pending ∧
      (d.pending = [] → (readFrames reads d).2.closed) := by
  by_cases hd : d.Reads
  · rcases readWsFramesNonblocking_of_ended h with hcall | ⟨e, he, hcall⟩
    · rw [readFrames_of_ok hd hcall, took, appendFrames_eq]
      simp
    · rw [readFrames_of_error hd hcall, if_pos he]
      exact ⟨rfl, rfl, fun _ => rfl⟩
  · rw [readFrames, if_neg hd]
    refine ⟨rfl, rfl, fun hempty => ?_⟩
    -- an empty queue does not keep the direction from being read, so it has been closed
    by_contra hclosed
    apply hd
    rw [Reads, hempty]
    exact ⟨by simpa using hclosed, by decide⟩

/-- Writing to a peer that is gone changes nothing. -/
theorem flushPending_of_ended {writes} (h : WritesEnded writes) {flush} (d : WsDirection) :
    flushPending writes flush d = (.ok (), d) := by
  obtain ⟨w, rest, rfl, hw⟩ := h
  cases w with
  | ok n => cases hw
  | error e =>
    have hflush := flushLoop_of_ended hw d.pending rest
    have hloop : flushLoop websocketEndError d.pending (.error e :: rest) = ⟨[], d.pending, none⟩ :=
      hflush
    simp only [flushPending, hloop, append_nil]
    cases flush <;> rfl

@[simp] theorem pending_settle (d : WsDirection) : d.settle.pending = d.pending := by
  rw [settle]
  split <;> rfl

theorem closed_settle (h : d.closed) : d.settle.closed := by
  rw [settle]
  split
  · rfl
  · exact h

end WsDirection

namespace WsRound

/-- Every call reports that the peer is gone. -/
structure Gone (round : WsRound) : Prop where
  fromClient : ReadsEnded round.fromClient
  fromUpstream : ReadsEnded round.fromUpstream
  toUpstream : WritesEnded round.toUpstream
  toClient : WritesEnded round.toClient

end WsRound

namespace WsTunnel

/-- Nothing is queued for either peer. -/
def Drained (t : WsTunnel) : Prop := t.toUpstream.pending = [] ∧ t.toClient.pending = []

instance (t : WsTunnel) : Decidable t.Drained := inferInstanceAs (Decidable (_ ∧ _))

theorem iteration_of_gone (h : round.Gone) (t : WsTunnel) :
    iteration round t = settled { t with
      toUpstream := (readFrames round.fromClient t.toUpstream).2
      toClient := (readFrames round.fromUpstream t.toClient).2 } := by
  have h₁ : onToUpstream (readFrames round.fromClient) t =
      (.ok (), { t with toUpstream := (readFrames round.fromClient t.toUpstream).2 }) := by
    rw [onToUpstream, (readFrames_of_ended h.fromClient _).1]
  rw [iteration, ReadM.bind_ok h₁]
  generalize (readFrames round.fromClient t.toUpstream).2 = up
  have h₂ : onToClient (readFrames round.fromUpstream) { t with toUpstream := up } =
      (.ok (), { t with
        toUpstream := up
        toClient := (readFrames round.fromUpstream t.toClient).2 }) := by
    rw [onToClient, (readFrames_of_ended h.fromUpstream _).1]
  rw [ReadM.bind_ok h₂]
  have h₃ (t : WsTunnel) :
      onToUpstream (flushPending round.toUpstream round.flushUpstream) t = (.ok (), t) := by
    rw [onToUpstream, flushPending_of_ended h.toUpstream]
  have h₄ (t : WsTunnel) :
      onToClient (flushPending round.toClient round.flushClient) t = (.ok (), t) := by
    rw [onToClient, flushPending_of_ended h.toClient]
  rw [ReadM.bind_ok (h₃ _), ReadM.bind_ok (h₄ _)]

/-- With both peers gone the queues stay as they are, and the loop ends when they are empty. -/
theorem iterate_of_gone (h : round.Gone) (ht : t.result = none) :
    ((t.iterate round).Drained ↔ t.Drained) ∧
      (t.iterate round).result = if t.Drained then some (.ok ()) else none := by
  obtain ⟨-, hup, hupClosed⟩ := readFrames_of_ended h.fromClient t.toUpstream
  obtain ⟨-, hdown, hdownClosed⟩ := readFrames_of_ended h.fromUpstream t.toClient
  have hiter := iteration_of_gone h t
  generalize (readFrames round.fromClient t.toUpstream).2 = up at *
  generalize (readFrames round.fromUpstream t.toClient).2 = down at *
  rw [settled] at hiter
  generalize hnext : ({ t with toUpstream := up, toClient := down } : WsTunnel).settle =
    next at hiter
  have hresult : next.result = none := by rw [← hnext]; exact ht
  have hqueues : next.Drained ↔ t.Drained := by
    simp [← hnext, Drained, settle, hup, hdown]
  by_cases hdrained : t.Drained
  · have hfinished : next.finished := by
      simp [← hnext, finished, settle, hup, hdown, hdrained.1, hdrained.2,
        closed_settle (hupClosed hdrained.1),
        closed_settle (hdownClosed hdrained.2)]
    rw [iterate, hiter, hfinished, if_pos hdrained]
    exact ⟨hqueues, rfl⟩
  · have hfinished : next.finished = false := by
      rw [← hqueues] at hdrained
      rw [← Bool.not_eq_true]
      intro htrue
      simp only [finished, Bool.and_eq_true, List.isEmpty_iff] at htrue
      exact hdrained ⟨htrue.1.2, htrue.2⟩
    rw [iterate, hiter, hfinished, if_neg hdrained]
    exact ⟨hqueues, hresult⟩

/-- With both peers gone for good and something queued, the loop never ends. -/
theorem run_of_gone (ht : t.result = none) (hdrained : ¬ t.Drained) (rounds : List WsRound)
    (hrounds : ∀ round ∈ rounds, round.Gone) :
    ∃ t', machine.run t rounds = some t' ∧ t'.result = none := by
  induction rounds generalizing t with
  | nil => exact ⟨t, rfl, ht⟩
  | cons round rounds ih =>
    rw [forall_mem_cons] at hrounds
    obtain ⟨hqueues, hresult⟩ := iterate_of_gone hrounds.1 ht
    rw [if_neg hdrained] at hresult
    obtain ⟨t', hrun, ht'⟩ := ih hresult (hqueues.not.mpr hdrained) hrounds.2
    refine ⟨t', ?_, ht'⟩
    have hstep : machine.step t round = some (t.iterate round) := by
      simp [machine, ht]
    rwa [Machine.run, hstep]

end WsTunnel

end RsProxy.Engine
