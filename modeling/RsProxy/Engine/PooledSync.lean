import RsProxy.Engine.PooledFinish

/-!
# Does a pooled connection stay in step?

An upstream answers every request with any number of interim responses and one final response.
`Synchronised` says that every request a connection was used for got its own final response, and
that a connection in the pool stands in front of what the upstream says next. The finishers keep in
step for every framing, but a head is taken for the final one whatever its status.
-/

namespace RsProxy.Engine

open Text Io Net List Exchange
open Data (do_eq_ok)
open RelayM (ofRead_bind_ok)

/-- Exchanges that may follow one another on a connection. -/
def Conversation (config : ProxyConfig) : List Exchange → Prop
  | [] => True
  | e :: es => e.Valid config es.isEmpty ∧ Conversation config es

variable {e : Exchange} {last : Bool} {rounds : Nat} {rest : Bytes} {c : Fragments}

section Answering

variable [ReasonPhrases]

/-- Every request got its own final response, and the connection in the pool is where the next
exchange begins. -/
structure Synchronised (exchanges : List Exchange) (served : Served Fragments) :
    Prop where
  answers : Forall₂ Exchange.Answered (exchanges.take served.answers.length) served.answers
  pooled : ∀ connection, served.pooled = some connection →
    Delivers connection ((exchanges.drop served.answers.length).flatMap wire)

/-! ### One exchange -/

omit [ReasonPhrases] in
theorem HeadWire.reads {limits wire head} (h : HeadWire limits wire head) (rest : Bytes) :
    Reads (readResponseHeadBuffered limits.maxHeaderSize limits.maxHeaderCount :
      ReadM Fragments RawResponseHead) (wire ++ rest) head rest := by
  intro c hc
  obtain ⟨text, rfl, hfirst, hparse⟩ := h.spelled
  have hbuf : BufDelivers c (text ++ terminator ++ rest) := by
    rw [← (Fragments.delivers c.pieces).unique hc]
    exact Fragments.bufDelivers c.pieces
  obtain ⟨c', hread, hrest⟩ := readResponseHeadBuffered_found hfirst h.fits hparse hbuf
  exact ⟨c', hread, Fragments.delivers_of_bufDelivers hrest⟩

variable [ResponseValues] {config : ProxyConfig}

/-- Without interim responses, the exchange is answered. -/
theorem completes_exchange (hvalid : e.Valid config last) (hone : e.CodedOnce)
    (hfirst : e.interims = []) (hlast : last → rest = []) (hrounds : e.bodyWire.length < rounds) :
    Completes e (exchange config rounds e.request) (e.wire ++ rest) rest := by
  intro c hc
  rw [wire, hfirst, flatten_nil, nil_append, append_assoc] at hc
  obtain ⟨c', hread, hc'⟩ := hvalid.head.reads (e.bodyWire ++ rest) c hc
  obtain ⟨outputs, outcome, c'', hrun, hanswered, hreuse⟩ :=
    completes_finish hvalid hone hlast hrounds c' hc'
  have hread : readResponseHeadBuffered config.maxHeaderSize config.maxHeaderCount c =
      (.ok e.head, c') := hread
  refine ⟨outputs, outcome, c'', ?_, hanswered, hreuse⟩
  rw [exchange, ofRead_bind_ok hread, hrun]

/-- The first interim response is taken for the answer. -/
theorem not_answered_of_interims (hvalid : e.Valid config last) (hinterims : e.interims ≠ [])
    (hc : Delivers c (e.wire ++ rest)) :
    ¬ e.Answered (exchange config rounds e.request c).1 := by
  obtain ⟨wire, wires, hcons⟩ := exists_cons_of_ne_nil hinterims
  obtain ⟨head, hhead, hinformational⟩ := hvalid.interims wire (by rw [hcons]; exact mem_cons_self)
  have hstatus : head.status ≠ e.head.status := by
    have := hvalid.final.status.1
    simp only [isInformational, Bool.and_eq_true, decide_eq_true_eq] at hinformational
    omega
  have hunframed : responseHasFramedBody e.request.context.method head.status = false := by
    rw [responseHasFramedBody, hinformational]
    simp
  rw [Exchange.wire, hcons, flatten_cons, append_assoc, append_assoc] at hc
  obtain ⟨c', hread, hc'⟩ := hhead.reads _ c hc
  have hread : readResponseHeadBuffered config.maxHeaderSize config.maxHeaderCount c =
      (.ok head, c') := hread
  rw [exchange, ofRead_bind_ok hread, finish, hunframed]
  change ¬ e.Answered (finishWithoutBody e.request.context head (responseIsPersistent head) c').1
  intro hanswered
  obtain ⟨sent, pieces, houtputs, hstands, -⟩ := hanswered.response
  -- The interim head is written, or nothing is.
  rw [finishWithoutBody, answerBehind] at houtputs
  cases hwrite : writeResponseHeadWithConnection
      { head with version := clientResponseVersion e.request.context.version }
      (stripHopByHopHeaders head.headers) e.request.context.clientConnection.keepsAlive with
  | error err =>
    rw [hwrite] at houtputs
    cases houtputs
  | ok written =>
    rw [hwrite] at houtputs
    have hwritten : written = .head sent := (cons.inj houtputs).1
    obtain ⟨⟨⟩, -, hwrite⟩ := do_eq_ok.mp hwrite
    obtain ⟨length, -, hwrite⟩ := do_eq_ok.mp hwrite
    rw [hwritten] at hwrite
    have hsent := Output.head.inj (Except.ok.inj hwrite)
    rw [← hsent] at hstands
    exact hstatus hstands.status

/-! ### The life of a connection -/

theorem servePooled_cons {request requests c' outputs outcome}
    (h : exchange config rounds request c = ((outputs, .done outcome), c')) :
    servePooled config rounds (request :: requests) c =
      if outcome.reusable then
        ⟨(outputs, .done outcome) :: (servePooled config rounds requests c').answers,
          (servePooled config rounds requests c').pooled⟩
      else ⟨[(outputs, .done outcome)], none⟩ := by
  rw [servePooled, h]
  obtain ⟨connection, reusable⟩ := outcome
  cases reusable <;> rfl

/-- The first request is always sent, and its answer comes first. -/
theorem exists_answers_cons {request requests} :
    ∃ answers, (servePooled config rounds (request :: requests) c).answers =
      (exchange config rounds request c).1 :: answers := by
  rw [servePooled]
  dsimp only
  split
  · exact ⟨_, rfl⟩
  · exact ⟨[], rfl⟩

omit [ResponseValues] in
theorem synchronised_cons {es served answer} (hanswered : e.Answered answer) :
    Synchronised (e :: es) ⟨answer :: served.answers, served.pooled⟩ ↔ Synchronised es served := by
  constructor
  · rintro ⟨hanswers, hpooled⟩
    exact ⟨(forall₂_cons.mp hanswers).2, hpooled⟩
  · rintro ⟨hanswers, hpooled⟩
    exact ⟨forall₂_cons.mpr ⟨hanswered, hanswers⟩, hpooled⟩

end Answering

/-! ### Two requests on one connection -/

section TwoRequests

/-- No status has a phrase. -/
local instance noPhrases : ReasonPhrases := ⟨fun _ => [], fun _ => rfl⟩

/-- No rule changes a response. -/
local instance noValues : ResponseValues where
  bytes _ _ _ := .ok []
  replaceAll _ input _ _ := .ok input
  deleteBodyPath _ body _ := (body, false)
  mergeJson body _ _ := .ok body
  deleteResponseBodyPath _ body _ := body

def twoRequestsConfig : ProxyConfig := ⟨512, 16, 1024⟩

def getRequest : PooledRequest :=
  ⟨{ method := "GET", target := "/", version := "HTTP/1.1",
     headers := [], body := [], trailers := [] }, .keepAlive, by decide⟩

def helloResponse : RawResponseHead :=
  ⟨"HTTP/1.1", 200, "OK", [("Content-Length", "5")]⟩

def helloWire : Bytes := utf8 "HTTP/1.1 200 OK\r\nContent-Length: 5\r\n\r\n"

def worldResponse : RawResponseHead :=
  ⟨"HTTP/1.1", 201, "OK", [("Transfer-Encoding", "chunked")]⟩

def worldWire : Bytes := utf8 "HTTP/1.1 201 OK\r\nTransfer-Encoding: chunked\r\n\r\n"

def hintsWire : Bytes := utf8 "HTTP/1.1 103 Early Hints\r\nLink: </a.css>\r\n\r\n"

theorem helloWire_valid : HeadWire twoRequestsConfig.headerLimits helloWire helloResponse :=
  ⟨⟨utf8 "HTTP/1.1 200 OK\r\nContent-Length: 5", by decide, by decide, by decide +kernel⟩,
    by decide⟩

theorem worldWire_valid : HeadWire twoRequestsConfig.headerLimits worldWire worldResponse :=
  ⟨⟨utf8 "HTTP/1.1 201 OK\r\nTransfer-Encoding: chunked", by decide, by decide,
    by decide +kernel⟩, by decide⟩

theorem hintsWire_valid : HeadWire twoRequestsConfig.headerLimits hintsWire
    ⟨"HTTP/1.1", 103, "Early Hints", [("Link", "</a.css>")]⟩ :=
  ⟨⟨utf8 "HTTP/1.1 103 Early Hints\r\nLink: </a.css>", by decide, by decide,
    by decide +kernel⟩, by decide⟩

theorem helloResponse_final : FinalHead twoRequestsConfig helloResponse :=
  ⟨by decide, by decide, by decide, by decide, 5, by unfold DeclaresLength; decide⟩

theorem worldResponse_final : FinalHead twoRequestsConfig worldResponse :=
  ⟨by decide, by decide, by decide, by decide, 0, by unfold DeclaresLength; decide⟩

theorem hello_body : BodyWire twoRequestsConfig.headerLimits "GET" helloResponse
    last (utf8 "hello") (utf8 "hello") :=
  .fixed (by decide) (by decide) (by decide) (by unfold DeclaresLength; decide)

theorem world_body : BodyWire twoRequestsConfig.headerLimits "GET" worldResponse
    last (utf8 "5\r\nworld\r\n0\r\n\r\n") (utf8 "world") := by
  have hsize : ChunkLine (utf8 "world").length (utf8 "5") :=
    ⟨by decide, by decide, "5", [], by decide, by decide, by decide, .inl rfl⟩
  have hzero : ChunkLine 0 (utf8 "0") :=
    ⟨by decide, by decide, "0", [], by decide, by decide, by decide, .inl rfl⟩
  exact .chunked (by decide) ⟨"chunked", by decide, by decide⟩ (by decide)
    (.chunk hsize (by decide) (.last hzero ⟨.nil, by decide, by decide⟩))

/-- A request that is answered with `hello`, after any interim responses, and one that is answered
with `world`. -/
def helloWorld (interims : List Bytes) : List Exchange :=
  [⟨getRequest, interims, helloWire, utf8 "hello", helloResponse, utf8 "hello"⟩,
    ⟨getRequest, [], worldWire, utf8 "5\r\nworld\r\n0\r\n\r\n", worldResponse,
      utf8 "world"⟩]

theorem helloWorld_valid {interims}
    (h : ∀ wire ∈ interims, ∃ head,
    HeadWire twoRequestsConfig.headerLimits wire head ∧ isInformational head.status) :
    Conversation twoRequestsConfig (helloWorld interims) :=
  ⟨⟨h, helloWire_valid, helloResponse_final, hello_body⟩,
    ⟨nofun, worldWire_valid, worldResponse_final, world_body⟩, trivial⟩

theorem helloWorld_coded {interims} : ∀ e ∈ helloWorld interims, e.CodedOnce :=
  forall_mem_cons.mpr ⟨fun _ => (by decide : AtMostOne helloResponse.headers _),
    forall_mem_cons.mpr ⟨fun _ => (by decide : AtMostOne worldResponse.headers _),
      forall_mem_nil _⟩⟩

end TwoRequests

end RsProxy.Engine
