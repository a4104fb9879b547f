import RsProxy.Io.Stream

/-!
# Sockets that do not block

What a socket does is given by the outcomes of the calls made to it, in order: a read brings a
piece, the end or an error, a write takes some of the bytes or fails. When the outcomes are used up,
the next call would block.
-/

namespace RsProxy.Io

open Text

/-- The buffer that a read fills. -/
def pieceSize : Nat := 8192

/-- What one read brings. No bytes are the end. -/
abbrev Piece := { bytes : Bytes // bytes.length ≤ pieceSize }

abbrev ReadOutcome := Except IoError Piece

/-- The number of bytes that a write takes. -/
abbrev WriteOutcome := Except IoError Nat

def wouldBlock (e : IoError) : Bool := e.kind = .wouldBlock || e.kind = .timedOut

/-- The errors of a connection whose other end is gone. -/
def connectionEnd (e : IoError) : Bool :=
  e.kind = .unexpectedEof || e.kind = .connectionReset || e.kind = .connectionAborted ||
    e.kind = .brokenPipe

/-- The other end is gone: a read reports the end or an error of such a connection. -/
def ReadOutcome.Ended : ReadOutcome → Prop
  | .ok piece => piece.val = []
  | .error e => connectionEnd e

def WriteOutcome.Ended : WriteOutcome → Prop
  | .ok _ => False
  | .error e => connectionEnd e

variable {e : IoError}

theorem not_wouldBlock (h : connectionEnd e) : wouldBlock e = false := by
  obtain ⟨kind, message⟩ := e
  cases kind <;> simp_all [connectionEnd, wouldBlock]

/-! ### Writing what is pending -/

/-- The bytes that were written, those that are still pending, and the error that stopped it. -/
structure Flushed where
  written : Bytes
  pending : Bytes
  error : Option IoError

/-- Write until nothing is pending, a write takes nothing or a write fails. Some errors only stop
the writing. -/
def flushLoop (stops : IoError → Bool) (pending : Bytes) : List WriteOutcome → Flushed
  | [] => ⟨[], pending, none⟩
  | .error e :: _ =>
    if pending = [] then ⟨[], pending, none⟩
    else ⟨[], pending, if wouldBlock e || stops e then none else some e⟩
  | .ok n :: writes =>
    if pending = [] ∨ n = 0 then ⟨[], pending, none⟩
    else
      let flushed := flushLoop stops (pending.drop n) writes
      { flushed with written := pending.take n ++ flushed.written }

/-- Nothing is lost and nothing is written twice. -/
theorem written_append_pending {stops pending writes} :
    (flushLoop stops pending writes).written ++ (flushLoop stops pending writes).pending =
      pending := by
  induction writes generalizing pending with
  | nil => rfl
  | cons write writes ih =>
    cases write with
    | error e =>
      rw [flushLoop]
      split <;> rfl
    | ok n =>
      rw [flushLoop]
      split
      · rfl
      · rw [List.append_assoc, ih, List.take_append_drop]

/-- The first write fails because the other end is gone: everything stays pending. -/
theorem flushLoop_of_ended (he : connectionEnd e) (pending : Bytes) (writes : List WriteOutcome) :
    flushLoop connectionEnd pending (.error e :: writes) = ⟨[], pending, none⟩ := by
  rw [flushLoop, he, Bool.or_true]
  split <;> rfl

end RsProxy.Io
