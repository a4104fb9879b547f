import RsProxy.Io.Nonblocking
import RsProxy.Rules.Language

/-!
# Probing the protocol of a tunnel

Behind a CONNECT the proxy looks at the client's first bytes, without taking them, until they tell
what the tunnel carries. A peek sees a prefix of these bytes of any size up to the buffer, so the
answer must not depend on where the prefix ends.
-/

namespace RsProxy.Engine

open Text Io List

def probeBufferSize : Nat := 64

def maxMethodSize : Nat := 32

inductive ConnectProtocol where
  | tls
  | http
  | unknown
  | timeout
  | closed
deriving DecidableEq

inductive PrefixState where
  | protocol (protocol : ConnectProtocol)
  | needMore
deriving DecidableEq

def isToken (byte : UInt8) : Bool :=
  let c := Char.ofNat byte.toNat
  c.isAlphanum || "!#$%&'*+-.^_`|~".toList.contains c

/-- The scheme of an absolute target, as far as it has arrived. -/
def classifySchemes (target : Bytes) : List Bytes → PrefixState
  | [] => .protocol .unknown
  | scheme :: schemes =>
    if target.isPrefixOf scheme then .needMore
    else if scheme.isPrefixOf target then .protocol .http
    else classifySchemes target schemes

def classifyTarget : Bytes → PrefixState
  | [] => .needMore
  | first :: target =>
    -- a slash or an asterisk
    if first = 47 ∨ first = 42 then .protocol .http
    else classifySchemes (first :: target) [utf8 "http://", utf8 "https://"]

/-- The first bytes of a TLS handshake record: its type and the version. -/
def classifyRecord : Bytes → PrefixState
  | _ :: major :: minor :: _ =>
    .protocol (if major = 0x03 ∧ minor ≤ 0x04 then .tls else .unknown)
  | _ => .needMore

/-- A request line, from the place of its first space. -/
def classifyRequest (input : Bytes) : Option Nat → PrefixState
  | none =>
    if input.length ≤ maxMethodSize ∧ input.all isToken then .needMore else .protocol .unknown
  | some space =>
    if space = 0 ∨ maxMethodSize < space ∨ ¬ (input.take space).all isToken then
      .protocol .unknown
    else classifyTarget (input.drop (space + 1))

def classifyPrefix (input : Bytes) : PrefixState :=
  if input.head? = some 0x16 then classifyRecord input
  else classifyRequest input (input.findIdx? (· = 32))

/-- One round of the probe: the time is over, the timeout cannot be set, or `peek` answers. -/
inductive Peek where
  | expired
  | unset (error : IoError)
  | answer (result : Except IoError Bytes)

/-- The probe over what its rounds find; `none` when they end without an answer. -/
def detectInner : List Peek → Option (Except IoError ConnectProtocol)
  | [] => none
  | .expired :: _ => some (.ok .timeout)
  | .unset e :: _ => some (.error e)
  | .answer (.error e) :: _ =>
    if wouldBlock e then some (.ok .timeout)
    else some (.error ⟨.other, "stage=connect_probe: ".toList ++ e.message⟩)
  | .answer (.ok input) :: peeks =>
    if input.isEmpty then some (.ok .closed)
    else
      match classifyPrefix input with
      | .protocol protocol => some (.ok protocol)
      | .needMore => detectInner peeks

/-! ### A decision stays -/

variable {input target first : Bytes} {protocol : ConnectProtocol} {schemes : List Bytes}
  (rest : Bytes)

theorem classifySchemes_append (h : classifySchemes target schemes = .protocol protocol) :
    classifySchemes (target ++ rest) schemes = .protocol protocol := by
  induction schemes with
  | nil => exact h
  | cons scheme schemes ih =>
    simp only [classifySchemes, isPrefixOf_iff_prefix] at h ⊢
    split_ifs at h with hpartial hwhole
    · rw [if_neg fun hlonger => hpartial ((prefix_append target rest).trans hlonger),
        if_pos (hwhole.trans (prefix_append target rest)), h]
    · -- two prefixes of one text are comparable, and these two are not
      rw [if_neg fun hlonger => hpartial ((prefix_append target rest).trans hlonger), if_neg, ih h]
      intro hscheme
      obtain hle | hle := prefix_or_prefix_of_prefix hscheme (prefix_append target rest)
      · exact hwhole hle
      · exact hpartial hle

theorem classifyTarget_append (h : classifyTarget target = .protocol protocol) :
    classifyTarget (target ++ rest) = .protocol protocol := by
  cases target with
  | nil => cases h
  | cons c target =>
    simp only [classifyTarget, cons_append] at h ⊢
    split_ifs at h ⊢ with hc
    · exact h
    · exact classifySchemes_append rest h

theorem classifyRecord_append (h : classifyRecord input = .protocol protocol) :
    classifyRecord (input ++ rest) = .protocol protocol := by
  match input, h with
  | _ :: _ :: _ :: _, h => exact h

/-- Without a space the bytes are no method: too many, or one that no token has. They stay so when
a space follows. -/
theorem not_method_append (h : ¬ (input.length ≤ maxMethodSize ∧ input.all isToken)) {n}
    (hn : input.length ≤ n) :
    maxMethodSize < n ∨ ¬ ((input ++ rest).take n).all isToken := by
  by_contra! hmethod
  obtain ⟨hshort, htoken⟩ := hmethod
  rw [take_append, take_of_length_le hn, all_append, Bool.and_eq_true] at htoken
  exact h ⟨hn.trans hshort, htoken.1⟩

theorem classifyPrefix_append (h : classifyPrefix input = .protocol protocol) :
    classifyPrefix (input ++ rest) = .protocol protocol := by
  have hne : input ≠ [] := by
    rintro rfl
    cases h
  simp only [classifyPrefix, head?_append_of_ne_nil _ hne, findIdx?_append] at h ⊢
  split_ifs at h ⊢ with hrecord
  · exact classifyRecord_append rest h
  cases hspace : input.findIdx? (· = 32) with
  | some space =>
    have hlt : space < input.length := (findIdx?_eq_some_iff_findIdx_eq.mp hspace).1
    rw [hspace] at h
    rw [Option.some_or]
    simp only [classifyRequest, take_append_of_le_length hlt.le, drop_append_of_le_length hlt]
      at h ⊢
    split_ifs at h ⊢ with hbad
    · exact h
    · exact classifyTarget_append rest h
  | none =>
    simp only [hspace, classifyRequest] at h
    split_ifs at h with hmethod
    rw [← h]
    cases rest.findIdx? (· = 32) with
    | none =>
      have hstays := not_method_append rest hmethod (n := (input ++ rest).length) (by simp)
      rw [take_length] at hstays
      exact if_neg fun hall => hstays.elim hall.1.not_gt fun hnot => hnot hall.2
    | some space => exact if_pos (.inr (not_method_append rest hmethod (Nat.le_add_left _ _)))

/-! ### A full buffer is decided -/

theorem length_le_of_classifyTarget (h : classifyTarget target = .needMore) :
    target.length ≤ 8 := by
  cases target with
  | nil => exact Nat.zero_le _
  | cons c target =>
    simp only [classifyTarget, classifySchemes, isPrefixOf_iff_prefix] at h
    split_ifs at h with _ hhttp _ hhttps
    · exact hhttp.length_le.trans (by decide)
    · exact hhttps.length_le.trans (by decide)

theorem length_lt_of_needMore (h : classifyPrefix input = .needMore) :
    input.length < probeBufferSize := by
  simp only [classifyPrefix] at h
  split_ifs at h
  · match input, h with
    | [], _ | [_], _ | [_, _], _ => simp [probeBufferSize]
  cases hspace : input.findIdx? (· = 32) with
  | none =>
    simp only [hspace, classifyRequest] at h
    split_ifs at h with hmethod
    exact hmethod.1.trans_lt (by decide)
  | some space =>
    simp only [hspace, classifyRequest] at h
    split_ifs at h with hbad
    have htarget := length_le_of_classifyTarget h
    rw [length_drop] at htarget
    push Not at hbad
    have hshort := hbad.2.1
    simp only [maxMethodSize, probeBufferSize] at hshort ⊢
    omega

/-! ### The probe -/

/-- What a round can see of the client's first bytes. -/
def Peek.Sees (first : Bytes) : Peek → Prop
  | .answer (.ok input) => input <+: first.take probeBufferSize
  | _ => True

/-- The probe's answer about the bytes is that of the full buffer. -/
theorem classify_of_detectInner {peeks} (hsees : ∀ peek ∈ peeks, peek.Sees first)
    (h : detectInner peeks = some (.ok protocol)) :
    protocol = .timeout ∨ protocol = .closed ∨
      classifyPrefix (first.take probeBufferSize) = .protocol protocol := by
  induction peeks with
  | nil => cases h
  | cons peek peeks ih =>
    rw [forall_mem_cons] at hsees
    match peek with
    | .expired => exact .inl (by cases h; rfl)
    | .unset e => cases h
    | .answer (.error e) =>
      simp only [detectInner] at h
      split_ifs at h
      · exact .inl (by cases h; rfl)
      · cases h
    | .answer (.ok input) =>
      simp only [detectInner] at h
      split_ifs at h
      · exact .inr (.inl (by cases h; rfl))
      cases hclass : classifyPrefix input with
      | needMore =>
        rw [hclass] at h
        exact ih hsees.2 h
      | protocol p =>
        rw [hclass] at h
        cases h
        obtain ⟨rest, hrest⟩ := hsees.1
        rw [← hrest]
        exact .inr (.inr (classifyPrefix_append rest hclass))

/-- Every decision about a prefix is the decision about each of its extensions, a full buffer is
decided, and two probes of the same bytes, however their rounds cut them, do not decide
differently. -/
theorem probe_stable :
    (∀ (input rest : Bytes) (protocol : ConnectProtocol),
      classifyPrefix input = .protocol protocol →
        classifyPrefix (input ++ rest) = .protocol protocol) ∧
    (∀ input : Bytes, input.length = probeBufferSize → classifyPrefix input ≠ .needMore) ∧
    ∀ (first : Bytes) (peeks : List Peek) (protocol : ConnectProtocol),
      (∀ peek ∈ peeks, peek.Sees first) → detectInner peeks = some (.ok protocol) →
        protocol = .timeout ∨ protocol = .closed ∨
          classifyPrefix (first.take probeBufferSize) = .protocol protocol := by
  refine ⟨fun input rest _ h => classifyPrefix_append rest h, fun input hfull h => ?_,
    fun first peeks _ hsees h => classify_of_detectInner hsees h⟩
  exact (length_lt_of_needMore h).ne hfull

end RsProxy.Engine
