import RsProxy.Engine.UpstreamBody
import RsProxy.Text.Net

/-!
# The vector of a chunked body

A chunked body that is read whole is collected in one vector, which is resized for every chunk
before its bytes are read. What a chunk says about its size is believed.
-/

namespace RsProxy.Engine

open Text Io Net List Nat

/-- A chunk behind its size line: the size, and what `read_exact` fills a slice with. -/
structure DeclaredChunk where
  size : UInt64
  fill : (length : Nat) → Except IoError { data : Bytes // data.length = length }

def appendChunk (body : Bytes) (chunk : DeclaredChunk) : Except ChunkFault Bytes :=
  match grown body.length chunk.size.toNat with
  | .error fault => .error fault
  | .ok length =>
    match chunk.fill length with
    | .error e => .error (.error e)
    | .ok data => .ok (body ++ data.val)

def appendChunks (body : Bytes) (chunks : List DeclaredChunk) : Except ChunkFault Bytes :=
  chunks.foldlM appendChunk body

/-- That many bytes are appended, or an error is returned. -/
def Appends (size : Nat) (body : Bytes) (result : Except ChunkFault Bytes) : Prop :=
  (∃ data, result = .ok (body ++ data) ∧ data.length = size) ∨ ∃ e, result = .error (.error e)

theorem grown_of_le {start size} (hfits : start + size ≤ isizeMax) :
    grown start size = .ok size := by
  have hword : (start + size) % 2 ^ 64 = start + size := mod_eq_of_lt (hfits.trans_lt (by decide))
  rw [grown, hword, if_neg hfits.not_gt, if_neg (le_add_right _ _).not_gt, Nat.add_sub_cancel_left]

theorem appends_appendChunk {body chunk} (hfits : body.length + chunk.size.toNat ≤ isizeMax) :
    Appends chunk.size.toNat body (appendChunk body chunk) := by
  rw [appendChunk, grown_of_le hfits]
  dsimp only
  split
  next e hfill => exact .inr ⟨e, rfl⟩
  next data hfill => exact .inl ⟨data.val, rfl, data.property⟩

theorem appendChunk_of_lt {body chunk} (hbody : body.length ≤ isizeMax)
    (hover : isizeMax < body.length + chunk.size.toNat) :
    ¬ Appends chunk.size.toNat body (appendChunk body chunk) := by
  have hsize : chunk.size.toNat < 2 ^ 64 := chunk.size.toNat_lt
  rw [appendChunk, grown]
  split_ifs with hcapacity hstart
  · rintro (⟨data, h, -⟩ | ⟨e, h⟩) <;> cases h
  · rintro (⟨data, h, -⟩ | ⟨e, h⟩) <;> cases h
  · -- a sum that is no word comes out below the old end
    omega

theorem appends_appendChunks {body chunks}
    (hfits : body.length + (chunks.map (·.size.toNat)).sum ≤ isizeMax) :
    Appends (chunks.map (·.size.toNat)).sum body (appendChunks body chunks) := by
  induction chunks generalizing body with
  | nil => exact .inl ⟨[], by rw [append_nil]; rfl, rfl⟩
  | cons chunk chunks ih =>
    rw [map_cons, sum_cons] at hfits ⊢
    rw [appendChunks, foldlM_cons]
    have hfirst : body.length + chunk.size.toNat ≤ isizeMax := by omega
    obtain ⟨data, hdata, hlength⟩ | ⟨e, he⟩ := appends_appendChunk hfirst
    · rw [hdata]
      obtain ⟨more, hmore, hlength'⟩ | ⟨e, he⟩ :=
        ih (show (body ++ data).length + _ ≤ _ by rw [length_append]; omega)
      · refine .inl ⟨data ++ more, ?_, by rw [length_append]; omega⟩
        rw [← append_assoc]
        exact hmore
      · exact .inr ⟨e, he⟩
    · rw [he]
      exact .inr ⟨e, rfl⟩

/-- A chunk is appended as it was declared, or an error is returned, if and only if the vector can
hold it; and so are all chunks of a body whose sizes add up to no more than that. -/
theorem chunks_appended_exactly (body : Bytes) (chunks : List DeclaredChunk)
    (hbody : body.length ≤ isizeMax) :
    (∀ chunk : DeclaredChunk, Appends chunk.size.toNat body (appendChunk body chunk) ↔
      body.length + chunk.size.toNat ≤ isizeMax) ∧
    (body.length + (chunks.map (·.size.toNat)).sum ≤ isizeMax →
      Appends (chunks.map (·.size.toNat)).sum body (appendChunks body chunks)) := by
  refine ⟨fun chunk => ⟨fun h => ?_, appends_appendChunk⟩, appends_appendChunks⟩
  by_contra! hover
  exact appendChunk_of_lt hbody hover h

/-- A chunk of letters that arrives whole. -/
def letters (size : UInt64) : DeclaredChunk :=
  ⟨size, fun length => .ok ⟨replicate length 0x61, length_replicate⟩⟩

theorem two_chunks_appended : Appends 5 [] (appendChunks [] [letters 2, letters 3]) :=
  (chunks_appended_exactly [] [letters 2, letters 3] (zero_le _)).2 (by decide)

/-- Behind one byte, the greatest size wraps to an empty vector. -/
theorem chunk_out_of_range :
    appendChunks [] [letters 1, letters 0xffffffffffffffff] = .error .sliceOutOfRange := by
  rfl

/-! ### The reader -/

section Reader

variable {υ : Type} [Read υ] {body : Bytes}

/-- What the relay collects behind a body is what some chunks append to it. -/
def Collects (body : Bytes) {α : Type} (p : RelayM υ Bytes α) : Prop :=
  ∀ s, ∃ chunks, appendChunks body chunks = .ok (body ++ (p s).1.1.flatten)

omit [Read υ] in
theorem collects_of_quiet {α : Type} {p : RelayM υ Bytes α} (h : ∀ s, (p s).1.1 = []) :
    Collects body p := by
  intro s
  refine ⟨[], ?_⟩
  rw [h s, flatten_nil, append_nil]
  rfl

omit [Read υ] in
theorem collects_read {α β : Type} {p : ReadM υ α} {P : α → Prop} (hp : p.Ensures P)
    {f : α → RelayM υ Bytes β} (hf : ∀ a, P a → Collects body (f a)) :
    Collects body (RelayM.ofRead p >>= f) := by
  intro s
  rcases hps : p s with ⟨e | a, s'⟩
  · rw [RelayM.bind_failed (by rw [RelayM.ofRead, hps])]
    exact ⟨[], by rw [flatten_nil, append_nil]; rfl⟩
  · rw [RelayM.ofRead_bind_ok hps]
    exact hf a (hp s a s' hps) s'

theorem collects_collectTrailers {rounds trailers} :
    Collects body (collectTrailers rounds trailers : RelayM υ Bytes Headers) := by
  induction rounds generalizing trailers with
  | zero => exact collects_of_quiet fun _ => rfl
  | succ rounds ih =>
    refine collects_read (ReadM.ensures_true _) fun line _ => ?_
    split
    · exact collects_of_quiet fun _ => rfl
    · split
      · exact ih
      · split <;> exact ih

omit [Read υ] in
theorem ensures_chunkSizeOf {line message} :
    (chunkSizeOf line message : ReadM υ Nat).Ensures (· < 2 ^ 64) := by
  unfold chunkSizeOf
  split
  next size hsize => exact ReadM.ensures_pure (lt_succ_of_le (le_of_parseHexUsize hsize))
  · exact ReadM.ensures_fail _

/-- The reader collects what its chunks append, one after the other. -/
theorem collects_readChunkedBody (hwithin : ReadsWithin υ) {rounds} :
    Collects body (readChunkedBody rounds body.length : RelayM υ Bytes Headers) := by
  induction rounds generalizing body with
  | zero => exact collects_of_quiet fun _ => rfl
  | succ rounds ih =>
    refine collects_read (ReadM.ensures_true _) fun line _ => ?_
    refine collects_read ensures_chunkSizeOf fun size hsize => ?_
    split
    · exact collects_collectTrailers
    split
    · exact collects_of_quiet fun _ => rfl
    next length hgrown =>
      refine collects_read (ensures_length_readExact hwithin length) fun data hdata => ?_
      have hrest : Collects (body ++ data) (RelayM.ofRead readDelimiter >>= fun _ =>
          readChunkedBody rounds (body.length + length) : RelayM υ Bytes Headers) := by
        rw [← hdata, ← length_append]
        exact collects_read (ReadM.ensures_true _) fun _ _ => ih
      intro s
      obtain ⟨chunks, hchunks⟩ := hrest s
      let chunk : DeclaredChunk := ⟨.ofNat size, fun n =>
        if h : data.length = n then .ok ⟨data, h⟩ else .error eofError⟩
      have hword : chunk.size.toNat = size := UInt64.toNat_ofNat_of_lt' hsize
      have hchunk : appendChunk body chunk = .ok (body ++ data) := by
        rw [appendChunk, hword, hgrown]
        simp [chunk, hdata]
      refine ⟨chunk :: chunks, ?_⟩
      rw [appendChunks, foldlM_cons, hchunk, RelayM.emit_bind, flatten_cons, ← append_assoc]
      exact hchunks

end Reader

end RsProxy.Engine
