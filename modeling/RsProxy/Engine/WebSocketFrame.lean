import RsProxy.Data.PrefixParser
import RsProxy.Io.Stream

/-!
# WebSocket frames

The proxy takes frames off a connection in two ways: `readWsFrame` reads one frame and waits for
it, `WsFrameDecoder.push` is given the bytes that have arrived and takes the frames that are
complete. The decoder looks at the front of its buffer with `parseWsFramePrefix`, a prefix parser,
so that the cuts make no difference to it; both ways find the same frames.
-/

namespace RsProxy.Engine

open Text Io Data List PrefixParser

structure WsFrame where
  raw : Bytes
  payload : Bytes
  opcode : UInt8
  fin : Bool
deriving DecidableEq

def frameLimit : Nat := 16 * 1024 * 1024

def frameTooLarge : IoError := ⟨.invalidData, "websocket frame too large"⟩

/-! ### The header of a frame

The second byte says whether there is a mask and how long the payload is. The lengths 126 and 127
stand for a length in the two or eight bytes that follow. -/

def shortLength (b : UInt8) : Nat := (b &&& 0x7f).toNat

def extensionSize (b : UInt8) : Nat :=
  if shortLength b = 126 then 2 else if shortLength b = 127 then 8 else 0

def fromBeBytes (bs : Bytes) : Nat := bs.foldl (fun n b => 256 * n + b.toNat) 0

def payloadLength (b : UInt8) (ext : Bytes) : Nat :=
  if extensionSize b = 0 then shortLength b else fromBeBytes ext

def isMasked (b : UInt8) : Bool := b &&& 0x80 != 0

def keySize (b : UInt8) : Nat := if isMasked b then 4 else 0

/-- The payload as it was before `key` masked it. -/
def unmask (key payload : Bytes) : Bytes := payload.mapIdx fun i b => b ^^^ key.getD (i % 4) 0

def mkFrame (b₀ b₁ : UInt8) (raw key payload : Bytes) : WsFrame where
  raw := raw
  payload := if isMasked b₁ then unmask key payload else payload
  opcode := b₀ &&& 0x0f
  fin := b₀ &&& 0x80 != 0

/-! ### A frame at the front of a buffer -/

/-- The frame and the number of its bytes, nothing if some of them are missing. -/
def parseWsFramePrefix (buf : Bytes) : Except IoError (Option (WsFrame × Nat)) :=
  match buf with
  | b₀ :: b₁ :: _ =>
    let pos := 2 + extensionSize b₁
    if buf.length < pos then .ok none
    else
      let len := payloadLength b₁ ((buf.drop 2).take (extensionSize b₁))
      if frameLimit < len then .error frameTooLarge
      else if buf.length < pos + keySize b₁ then .ok none
      else
        let key := (buf.drop pos).take (keySize b₁)
        let stop := pos + keySize b₁ + len
        if buf.length < stop then .ok none
        else
          let payload := (buf.drop (pos + keySize b₁)).take len
          .ok (some (mkFrame b₀ b₁ (buf.take stop) key payload, stop))
  | _ => .ok none

/-- The bytes of a frame in their parts. -/
structure FrameParts where
  b₀ : UInt8
  b₁ : UInt8
  ext : Bytes
  key : Bytes
  payload : Bytes
  length_ext : ext.length = extensionSize b₁
  length_key : key.length = keySize b₁
  length_payload : payload.length = payloadLength b₁ ext
  payload_le : payload.length ≤ frameLimit

namespace FrameParts

variable (f : FrameParts)

def raw : Bytes := f.b₀ :: f.b₁ :: (f.ext ++ (f.key ++ f.payload))

def frame : WsFrame := mkFrame f.b₀ f.b₁ f.raw f.key f.payload

theorem length_raw : f.raw.length = 2 + f.ext.length + f.key.length + f.payload.length := by
  simp only [raw, length_cons, length_append]
  omega

end FrameParts

theorem parseWsFramePrefix_frame {f : FrameParts} {more} :
    parseWsFramePrefix (f.raw ++ more) = .ok (some (f.frame, f.raw.length)) := by
  have hlen := f.length_raw
  have hraw : (f.raw ++ more).take f.raw.length = f.raw := take_left
  have hbehind : (f.raw ++ more).drop 2 = f.ext ++ (f.key ++ (f.payload ++ more)) := by
    simp [FrameParts.raw]
  have hext : ((f.raw ++ more).drop 2).take (extensionSize f.b₁) = f.ext := by
    rw [hbehind, take_left' f.length_ext]
  have hkey : ((f.raw ++ more).drop (2 + extensionSize f.b₁)).take (keySize f.b₁) = f.key := by
    rw [← drop_drop, hbehind, drop_left' f.length_ext, take_left' f.length_key]
  have hpayload : ((f.raw ++ more).drop (2 + extensionSize f.b₁ + keySize f.b₁)).take
      f.payload.length = f.payload := by
    rw [← drop_drop, ← drop_drop, hbehind, drop_left' f.length_ext, drop_left' f.length_key,
      take_left]
  have hfront : f.raw ++ more = f.b₀ :: f.b₁ :: (f.ext ++ (f.key ++ f.payload) ++ more) := rfl
  rw [hfront, parseWsFramePrefix, ← hfront]
  dsimp only
  rw [hext, hkey, ← f.length_payload, hpayload, ← f.length_ext, ← f.length_key, ← hlen, hraw]
  have hle := f.payload_le
  have hall : (f.raw ++ more).length = f.raw.length + more.length := length_append
  rw [if_neg (by omega), if_neg (by omega), if_neg (by omega), if_neg (by omega)]
  rfl

variable {b₀ b₁ : UInt8}

theorem parseWsFramePrefix_tooLarge {ext} (hext : ext.length = extensionSize b₁)
    (hlen : frameLimit < payloadLength b₁ ext) (more : Bytes) :
    parseWsFramePrefix (b₀ :: b₁ :: (ext ++ more)) = .error frameTooLarge := by
  have htake : ((b₀ :: b₁ :: (ext ++ more)).drop 2).take (extensionSize b₁) = ext := take_left' hext
  rw [parseWsFramePrefix, htake, if_neg, if_pos hlen]
  simp only [length_cons, length_append]
  omega

theorem exists_front {α : Type} {l : List α} {n} (h : n ≤ l.length) :
    ∃ front rest, l = front ++ rest ∧ front.length = n :=
  ⟨l.take n, l.drop n, (take_append_drop n l).symm, length_take_of_le h⟩

/-- What a look at a buffer finds: too little, a frame that is too large, or a frame. -/
theorem parseWsFramePrefix_cases (buf : Bytes) :
    parseWsFramePrefix buf = .ok none ∨
    (∃ b₀ b₁ ext more, ext.length = extensionSize b₁ ∧ frameLimit < payloadLength b₁ ext ∧
      buf = b₀ :: b₁ :: (ext ++ more)) ∨
    ∃ (f : FrameParts) (more : Bytes), buf = f.raw ++ more := by
  match buf with
  | [] => exact .inl rfl
  | [b] => exact .inl rfl
  | b₀ :: b₁ :: rest =>
    have hlength : (b₀ :: b₁ :: rest).length = rest.length + 2 := rfl
    by_cases hshort : rest.length < extensionSize b₁
    · left
      rw [parseWsFramePrefix, if_pos (by omega)]
    obtain ⟨ext, rest, rfl, hext⟩ := exists_front (Nat.le_of_not_lt hshort)
    have htake : ((b₀ :: b₁ :: (ext ++ rest)).drop 2).take (extensionSize b₁) = ext :=
      take_left' hext
    by_cases hlimit : frameLimit < payloadLength b₁ ext
    · exact .inr (.inl ⟨b₀, b₁, ext, rest, hext, hlimit, rfl⟩)
    by_cases hstop : rest.length < keySize b₁ + payloadLength b₁ ext
    · left
      have hall : (b₀ :: b₁ :: (ext ++ rest)).length = 2 + ext.length + rest.length := by
        simp only [length_cons, length_append]
        omega
      rw [parseWsFramePrefix, htake, if_neg (by omega), if_neg hlimit]
      by_cases hkey : rest.length < keySize b₁
      · rw [if_pos (by omega)]
      · rw [if_neg (by omega), if_pos (by omega)]
    · right
      right
      obtain ⟨key, rest, rfl, hkey⟩ := exists_front (l := rest) (n := keySize b₁) (by omega)
      rw [length_append] at hstop
      obtain ⟨payload, rest, rfl, hpayload⟩ :=
        exists_front (l := rest) (n := payloadLength b₁ ext) (by omega)
      exact ⟨⟨b₀, b₁, ext, key, payload, hext, hkey, hpayload, by omega⟩,
        rest, by simp [FrameParts.raw]⟩

/-! ### Frames as they are sent

What a sender makes of a frame is written down here without the functions above. -/

/-- The length stands in the second byte itself, or in two or eight bytes behind it. -/
inductive LengthForm where
  | short
  | medium
  | long

namespace LengthForm

def size : LengthForm → Nat
  | .short => 0
  | .medium => 2
  | .long => 8

def bound : LengthForm → Nat
  | .short => 126
  | .medium => 2 ^ 16
  | .long => 2 ^ 64

/-- The lower seven bits of the second byte. -/
def code (length : Nat) : LengthForm → Nat
  | .short => length
  | .medium => 126
  | .long => 127

end LengthForm

open LengthForm

/-- The number in so many bytes, the highest one first. -/
def toBeBytes : (size n : Nat) → Bytes
  | 0, _ => []
  | size + 1, n => toBeBytes size (n / 256) ++ [UInt8.ofNat n]

/-- A frame with its payload as the sender has it. -/
structure SentFrame where
  fin : Bool
  reserved : Fin 8
  opcode : Fin 16
  form : LengthForm
  mask : Option (Fin 4 → UInt8)
  payload : Bytes
  fits : payload.length < form.bound
  within : payload.length ≤ 16 * 1024 * 1024

namespace SentFrame

variable (f : SentFrame)

def first : UInt8 := UInt8.ofNat ((if f.fin then 128 else 0) + 16 * f.reserved + f.opcode)

def second : UInt8 :=
  UInt8.ofNat ((if f.mask.isSome then 128 else 0) + f.form.code f.payload.length)

/-- The mask is laid over the payload again and again. -/
def masked : Bytes :=
  match f.mask with
  | none => f.payload
  | some key => f.payload.mapIdx fun i b => b ^^^ key ⟨i % 4, Nat.mod_lt i (by decide)⟩

def encode : Bytes :=
  f.first :: f.second :: (toBeBytes f.form.size f.payload.length ++
    ((f.mask.elim [] ofFn) ++ f.masked))

/-- The frame that is to be read from these bytes. -/
def frame : WsFrame := ⟨f.encode, f.payload, UInt8.ofNat f.opcode, f.fin⟩

end SentFrame

theorem length_toBeBytes {size n} : (toBeBytes size n).length = size := by
  induction size generalizing n with
  | zero => rfl
  | succ size ih => rw [toBeBytes, length_append, ih, length_singleton]

theorem fromBeBytes_toBeBytes {size n} (h : n < 256 ^ size) :
    fromBeBytes (toBeBytes size n) = n := by
  induction size generalizing n with
  | zero => simpa [toBeBytes, fromBeBytes, eq_comm] using h
  | succ size ih =>
    have hhigh : n / 256 < 256 ^ size := Nat.div_lt_of_lt_mul (by rwa [pow_succ, mul_comm] at h)
    have hfold := ih hhigh
    rw [fromBeBytes] at hfold
    rw [toBeBytes, fromBeBytes, foldl_append, hfold]
    simp
    omega

theorem firstByte : ∀ (fin : Bool) (reserved : Fin 8) (opcode : Fin 16),
    let b := UInt8.ofNat ((if fin then 128 else 0) + 16 * reserved + opcode)
    b &&& 0x0f = UInt8.ofNat opcode ∧ (b &&& 0x80 != 0) = fin := by
  decide +kernel

theorem secondByte : ∀ (masked : Bool) (code : Fin 128),
    let b := UInt8.ofNat ((if masked then 128 else 0) + code)
    shortLength b = code ∧ isMasked b = masked := by
  decide +kernel

namespace SentFrame

variable (f : SentFrame)

theorem second_spec : isMasked f.second = f.mask.isSome ∧ extensionSize f.second = f.form.size ∧
    payloadLength f.second (toBeBytes f.form.size f.payload.length) = f.payload.length := by
  have hfits := f.fits
  have hcode : f.form.code f.payload.length < 128 := by
    cases hform : f.form <;> simp_all [code, bound]
    omega
  obtain ⟨hshort, hmasked⟩ := secondByte f.mask.isSome ⟨_, hcode⟩
  refine ⟨hmasked, ?_⟩
  simp only [extensionSize, payloadLength, second, hshort]
  cases hform : f.form with
  | short =>
    have hlt : f.payload.length < 126 := by simpa [hform, bound] using hfits
    simp only [code, size]
    grind
  | medium =>
    have hlt : f.payload.length < 256 ^ 2 := by simpa [hform, bound] using hfits
    simp [code, size, fromBeBytes_toBeBytes hlt]
  | long =>
    have hlt : f.payload.length < 256 ^ 8 := by simpa [hform, bound] using hfits
    simp [code, size, fromBeBytes_toBeBytes hlt]

theorem length_masked : f.masked.length = f.payload.length := by
  rw [masked]
  split <;> simp

theorem unmask_masked {key} (h : f.mask = some key) : unmask (ofFn key) f.masked = f.payload := by
  rw [unmask, masked, h]
  refine ext_getElem (by simp) fun i _ _ => ?_
  have hi : i % 4 < 4 := Nat.mod_lt i (by decide)
  simp only [getElem_mapIdx, getD_eq_getElem?_getD, List.getElem?_ofFn, hi, dif_pos,
    Option.getD_some, UInt8.xor_assoc, UInt8.xor_self, UInt8.xor_zero]

/-- The parts that the readers see in the bytes of a sent frame. -/
def parts : FrameParts where
  b₀ := f.first
  b₁ := f.second
  ext := toBeBytes f.form.size f.payload.length
  key := f.mask.elim [] ofFn
  payload := f.masked
  length_ext := length_toBeBytes.trans f.second_spec.2.1.symm
  length_key := by
    rw [keySize, f.second_spec.1]
    cases f.mask <;> simp
  length_payload := f.length_masked.trans f.second_spec.2.2.symm
  payload_le := f.length_masked.trans_le f.within

theorem frame_parts : f.parts.frame = f.frame := by
  obtain ⟨hopcode, hfin⟩ := firstByte f.fin f.reserved f.opcode
  have hpayload : (if isMasked f.second then unmask (f.mask.elim [] ofFn) f.masked
      else f.masked) = f.payload := by
    rw [f.second_spec.1]
    cases hmask : f.mask with
    | none => simp [masked, hmask]
    | some key => exact f.unmask_masked hmask
  exact congr (congr (congrArg _ hpayload) hopcode) hfin

end SentFrame

/-- The look at the front of a buffer as a prefix parser. -/
def frameParser : PrefixParser UInt8 WsFrame IoError where
  parse := parseWsFramePrefix
  used_pos := by
    intro buf frame used h
    obtain hnone | ⟨b₀, b₁, ext, more, hext, hlimit, rfl⟩ | ⟨f, more, rfl⟩ :=
      parseWsFramePrefix_cases buf
    · rw [hnone] at h
      cases h
    · rw [parseWsFramePrefix_tooLarge hext hlimit] at h
      cases h
    · rw [parseWsFramePrefix_frame] at h
      cases h
      have hlen := f.length_raw
      exact ⟨by omega, by simp⟩
  parse_append := by
    intro buf after h
    obtain hnone | ⟨b₀, b₁, ext, more, hext, hlimit, rfl⟩ | ⟨f, more, rfl⟩ :=
      parseWsFramePrefix_cases buf
    · exact absurd hnone h
    · rw [parseWsFramePrefix_tooLarge hext hlimit, cons_append, cons_append,
        append_assoc, parseWsFramePrefix_tooLarge hext hlimit]
    · rw [append_assoc, parseWsFramePrefix_frame, parseWsFramePrefix_frame]

theorem raw_of_parse {bs : Bytes} {frame used}
    (h : frameParser.parse bs = .ok (some (frame, used))) :
    frame.raw = bs.take used := by
  simp only [frameParser, parseWsFramePrefix] at h
  grind [mkFrame]

/-- The frames in some bytes, with what is left behind them, are these bytes. -/
theorem flatten_taken (bs : Bytes) :
    ((frameParser.items bs).taken.map WsFrame.raw).flatten ++ (frameParser.items bs).rest = bs := by
  induction bs using frameParser.items_induction with
  | error bs e h => simp [items_of_error h]
  | none bs h => simp [items_of_none h]
  | some bs frame used h ih => simp [items_of_some h, raw_of_parse h, ih]

/-- No frame is without bytes. -/
theorem flatten_taken_eq_nil (bs : Bytes) :
    ((frameParser.items bs).taken.map WsFrame.raw).flatten = [] ↔
      (frameParser.items bs).taken = [] := by
  match h : frameParser.parse bs with
  | .error e => simp [items_of_error h]
  | .ok none => simp [items_of_none h]
  | .ok (some (frame, used)) =>
    obtain ⟨hpos, hle⟩ := frameParser.used_pos h
    have hne : frame.raw ≠ [] := by
      rw [raw_of_parse h, ne_eq, take_eq_nil_iff]
      rintro (rfl | rfl)
      · exact lt_irrefl _ hpos
      · exact absurd (hpos.trans_le hle) (lt_irrefl _)
    simp [items_of_some h, hne]

/-! ### The decoder -/

structure WsFrameDecoder where
  buf : Bytes
deriving DecidableEq

namespace WsFrameDecoder

/-- An error drops the frames that were taken before it, from the result and from the buffer. -/
def pushLoop : (rounds : Nat) → (buf : Bytes) → (frames : List WsFrame) →
    Except IoError (List WsFrame) × WsFrameDecoder
  | 0, buf, frames => (.ok frames, ⟨buf⟩)
  | rounds + 1, buf, frames =>
    match parseWsFramePrefix buf with
    | .error e => (.error e, ⟨buf⟩)
    | .ok none => (.ok frames, ⟨buf⟩)
    | .ok (some (frame, used)) => pushLoop rounds (buf.drop used) (frames ++ [frame])

/-- Every frame has a byte at least, so the length of the buffer gives rounds enough. -/
def push (decoder : WsFrameDecoder) (data : Bytes) :
    Except IoError (List WsFrame) × WsFrameDecoder :=
  pushLoop ((decoder.buf ++ data).length + 1) (decoder.buf ++ data) []

theorem pushLoop_spec (rounds : Nat) (buf : Bytes) (frames : List WsFrame) :
    let items := frameParser.itemsLoop rounds buf
    (items.error = none → pushLoop rounds buf frames =
      (.ok (frames ++ items.taken), ⟨items.rest⟩)) ∧
      ∀ e, items.error = some e → pushLoop rounds buf frames = (.error e, ⟨items.rest⟩) := by
  induction rounds generalizing buf frames with
  | zero => simp [pushLoop, itemsLoop]
  | succ rounds ih =>
    rcases hparse : parseWsFramePrefix buf with e | _ | ⟨frame, used⟩
    · have hitems := itemsLoop_of_error (p := frameParser) hparse rounds
      rw [pushLoop, hparse, hitems]
      simp
    · have hitems := itemsLoop_of_none (p := frameParser) hparse rounds
      rw [pushLoop, hparse, hitems]
      simp
    · have hitems := itemsLoop_of_some (p := frameParser) hparse rounds
      rw [pushLoop, hparse, hitems]
      simpa using ih (buf.drop used) (frames ++ [frame])

end WsFrameDecoder

/-! ### The blocking reader -/

variable {frame : WsFrame} {bs rest : Bytes}

section Blocking

variable {σ : Type} [Read σ]

/-- The rest of a frame behind its first two bytes. -/
def readWsFrameRest (b₀ b₁ : UInt8) : ReadM σ (Option WsFrame) := do
  let ext ← readExact (extensionSize b₁)
  if frameLimit < payloadLength b₁ ext then ReadM.fail frameTooLarge
  else do
    let key ← readExact (keySize b₁)
    let payload ← readExact (payloadLength b₁ ext)
    pure (some (mkFrame b₀ b₁ (b₀ :: b₁ :: (ext ++ (key ++ payload))) key payload))

/-- A stream that ends before the second byte of a frame has no more frames. -/
def readWsFrame : ReadM σ (Option WsFrame) := fun s =>
  match readExact 2 s with
  | (.ok first, s) => readWsFrameRest (first.getD 0 0) (first.getD 1 0) s
  | (.error e, s) => if e.kind = .unexpectedEof then (.ok none, s) else (.error e, s)

/-- The frames of a stream up to its end or an error. -/
def readWsFrames : (rounds : Nat) → σ → List WsFrame
  | 0, _ => []
  | rounds + 1, s =>
    match readWsFrame s with
    | (.ok (some frame), s) => frame :: readWsFrames rounds s
    | _ => []

theorem readWsFrames_of_some {s s' : σ} (h : readWsFrame s = (.ok (some frame), s')) {rounds} :
    readWsFrames (rounds + 1) s = frame :: readWsFrames rounds s' := by
  rw [readWsFrames, h]

theorem agrees_readWsFrameRest :
    Agrees (readWsFrameRest b₀ b₁ : ReadM σ (Option WsFrame)) (readWsFrameRest b₀ b₁) := by
  apply (agrees_readExact _).bind
  intro ext
  apply Agrees.ite
  · exact fun _ => agrees_fail _
  · exact fun _ => (agrees_readExact _).bind fun key => (agrees_readExact _).bind fun payload =>
      agrees_pure

theorem agrees_readWsFrame : Agrees (readWsFrame : ReadM σ (Option WsFrame)) readWsFrame := by
  intro s bs hs
  obtain ⟨s', hread, hs'⟩ := (agrees_readExact 2).apply hs
  rw [readWsFrame, readWsFrame, hread]
  match readExact 2 bs, hs' with
  | (.ok first, bs'), hs' => exact agrees_readWsFrameRest s' bs' hs'
  | (.error e, bs'), hs' =>
    by_cases he : e.kind = .unexpectedEof <;> simpa [he] using hs'

omit [Read σ] in
theorem readWsFrame_frame {f : FrameParts} {more} :
    readWsFrame (f.raw ++ more) = (.ok (some f.frame), more) := by
  have hfirst : readExact 2 (f.raw ++ more) =
      (.ok [f.b₀, f.b₁], f.ext ++ (f.key ++ (f.payload ++ more))) := by
    rw [readExact_bytes]
    simp [FrameParts.raw]
  have hext : readExact (extensionSize f.b₁) (f.ext ++ (f.key ++ (f.payload ++ more))) =
      (.ok f.ext, f.key ++ (f.payload ++ more)) := by
    rw [readExact_bytes, ← f.length_ext]
    simp
  have hkey : readExact (keySize f.b₁) (f.key ++ (f.payload ++ more)) =
      (.ok f.key, f.payload ++ more) := by
    rw [readExact_bytes, ← f.length_key]
    simp
  have hpayload : readExact (payloadLength f.b₁ f.ext) (f.payload ++ more) =
      (.ok f.payload, more) := by
    rw [readExact_bytes, ← f.length_payload]
    simp
  have hle : ¬ frameLimit < payloadLength f.b₁ f.ext := by
    have := f.payload_le
    have := f.length_payload
    omega
  rw [readWsFrame, hfirst]
  change readWsFrameRest f.b₀ f.b₁ _ = _
  rw [readWsFrameRest, ReadM.bind_ok hext, if_neg hle, ReadM.bind_ok hkey, ReadM.bind_ok hpayload]
  rfl

omit [Read σ] in
theorem exists_of_readExact {n x} (h : readExact n bs = (.ok x, rest)) :
    bs = x ++ rest ∧ x.length = n := by
  rw [readExact_bytes] at h
  by_cases hn : n ≤ bs.length
  · rw [if_pos hn] at h
    cases h
    exact ⟨(take_append_drop n bs).symm, length_take_of_le hn⟩
  · rw [if_neg hn] at h
    cases h

omit [Read σ] in
theorem exists_of_readWsFrameRest (h : readWsFrameRest b₀ b₁ bs = (.ok (some frame), rest)) :
    ∃ (f : FrameParts) (more : Bytes), b₀ :: b₁ :: bs = f.raw ++ more := by
  obtain ⟨ext, s₁, hext, h⟩ := ReadM.bind_eq_ok h
  by_cases hle : frameLimit < payloadLength b₁ ext
  · rw [if_pos hle] at h
    cases h
  · rw [if_neg hle] at h
    obtain ⟨key, s₂, hkey, h⟩ := ReadM.bind_eq_ok h
    obtain ⟨payload, s₃, hpayload, h⟩ := ReadM.bind_eq_ok h
    obtain ⟨rfl, hlext⟩ := exists_of_readExact hext
    obtain ⟨rfl, hlkey⟩ := exists_of_readExact hkey
    obtain ⟨rfl, hlpayload⟩ := exists_of_readExact hpayload
    exact ⟨⟨b₀, b₁, ext, key, payload, hlext, hlkey, hlpayload, by omega⟩, s₃,
      by simp [FrameParts.raw]⟩

omit [Read σ] in
/-- The blocking reader returns frames that the other one sees. -/
theorem exists_of_readWsFrame (h : readWsFrame bs = (.ok (some frame), rest)) :
    ∃ (f : FrameParts) (more : Bytes), bs = f.raw ++ more := by
  rw [readWsFrame] at h
  cases hfirst : readExact 2 bs with
  | mk r s₁ =>
    rw [hfirst] at h
    cases r with
    | error e =>
      by_cases he : e.kind = .unexpectedEof <;> simp [he] at h
    | ok first =>
      obtain ⟨rfl, htwo⟩ := exists_of_readExact hfirst
      obtain ⟨b₀, b₁, rfl⟩ := length_eq_two.mp htwo
      exact exists_of_readWsFrameRest h

omit [Read σ] in
/-- On a list of bytes the blocking reader finds the frames that the prefix parser finds. -/
theorem readWsFrames_bytes : ∀ {rounds}, bs.length < rounds →
    readWsFrames rounds bs = (frameParser.items bs).taken := by
  -- by induction along the parser; every round of the reader is an item of the parser
  have hnone : ∀ bs, (∀ r, parseWsFramePrefix bs ≠ .ok (some r)) →
      ∀ rounds, readWsFrames rounds bs = [] := by
    intro bs hbs rounds
    cases rounds with
    | zero => rfl
    | succ rounds =>
      rw [readWsFrames]
      split
      next frame rest hread =>
        obtain ⟨f, more, rfl⟩ := exists_of_readWsFrame hread
        exact absurd parseWsFramePrefix_frame (hbs _)
      · rfl
  induction bs using frameParser.items_induction with
  | error bs e hparse | none bs hparse =>
    intro rounds _
    first
    | rw [items_of_error hparse]
    | rw [items_of_none hparse]
    refine hnone bs (fun r h => ?_) rounds
    cases hparse.symm.trans h
  | some bs frame used hparse ih =>
    intro rounds hrounds
    obtain _ | rounds := rounds
    · omega
    obtain ⟨hpos, hle⟩ := frameParser.used_pos hparse
    obtain hno | ⟨b₀, b₁, ext, more, hext, hlimit, rfl⟩ | ⟨f, more, rfl⟩ :=
      parseWsFramePrefix_cases bs
    · cases hno.symm.trans hparse
    · cases (parseWsFramePrefix_tooLarge hext hlimit more).symm.trans hparse
    · obtain ⟨rfl, rfl⟩ : f.frame = frame ∧ f.raw.length = used := by
        have := parseWsFramePrefix_frame.symm.trans hparse
        simpa using this
      rw [length_append] at hrounds
      rw [drop_left] at ih
      rw [items_of_some hparse, drop_left, Items.taken_cons,
        readWsFrames_of_some readWsFrame_frame, ih (by omega)]

/-- On any stream that delivers the bytes the blocking reader finds the same frames. -/
theorem readWsFrames_eq {s : σ} (hs : Delivers s bs) {rounds} (hrounds : bs.length < rounds) :
    readWsFrames rounds s = (frameParser.items bs).taken := by
  rw [← readWsFrames_bytes hrounds]
  clear hrounds
  induction rounds generalizing s bs with
  | zero => rfl
  | succ rounds ih =>
    obtain ⟨s', hread, hs'⟩ := agrees_readWsFrame.apply hs
    match hbs : readWsFrame bs with
    | (.ok (some frame), bs') =>
      rw [hbs] at hread hs'
      rw [readWsFrames_of_some hread, readWsFrames_of_some hbs, ih hs']
    | (.ok none, bs') | (.error e, bs') => rw [readWsFrames, readWsFrames, hread, hbs]

end Blocking

end RsProxy.Engine
