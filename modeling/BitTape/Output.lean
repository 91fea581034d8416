import BitTape.Bytes

/-!
# Writing to devices that fail

Text is written in calls, each with one chunk.  A device may take only a part of a chunk and then
reports a failure.  A guarded writer passes calls on until the first failure and refuses every call
after it, so that whoever writes a long text may look for a failure once, at the end.
-/

namespace BitTape

/-- What became of one write call. -/
structure Receipt (σ : Type) where
  device : σ
  /-- Number of bytes that were taken. -/
  taken : Nat
  /-- Why the call failed, if it did. -/
  failure : Option Bytes

/-- Something that takes chunks of bytes. -/
class Device (σ : Type) where
  write : σ → Bytes → Receipt σ

/-- A failed write, as a guarded writer reports it. -/
structure WriteFailure where
  /-- What the device said. -/
  reason : Bytes
  deriving DecidableEq

/-- The context in which a failed write is reported. -/
def WriteFailure.context : Bytes :=
  text "write failed"

/-- How a failed write is reported. -/
def WriteFailure.message (failure : WriteFailure) : Bytes :=
  WriteFailure.context ++ text ": " ++ failure.reason

/-- A writer that refuses everything after its first failure. -/
structure Guarded (σ : Type) where
  /-- The device that it guards. -/
  device : σ
  /-- The first failure, once there was one. -/
  failure : Option WriteFailure
  deriving DecidableEq

/-- Something to write to. -/
inductive Writer (σ : Type) where
  /-- A device as it is. -/
  | bare (device : σ)
  /-- A writer that is guarded already. -/
  | guarded (writer : Guarded σ)

/-- Guard a writer, unless it is guarded already. -/
def Writer.guard {σ : Type} : Writer σ → Guarded σ
  | bare device => { device, failure := none }
  | guarded writer => writer

namespace Guarded

variable {σ : Type} [Device σ]

/-- Write a chunk, and tell how many bytes were taken. -/
def write (writer : Guarded σ) (chunk : Bytes) : Guarded σ × Nat :=
  match writer.failure with
  | some _ => (writer, 0)
  | none =>
      let receipt := Device.write writer.device chunk
      ({ device := receipt.device, failure := receipt.failure.map WriteFailure.mk }, receipt.taken)

/-- After a failure nothing reaches the device. -/
theorem write_of_failure {writer : Guarded σ} {failure : WriteFailure}
    (failed : writer.failure = some failure) (chunk : Bytes) :
    writer.write chunk = (writer, 0) := by
  simp [write, failed]

/-- Write a text, and tell how many bytes were taken. -/
def writeString (writer : Guarded σ) (string : Bytes) : Guarded σ × Nat :=
  writer.write string

/-- Write a single byte. -/
def writeByte (writer : Guarded σ) (byte : UInt8) : Guarded σ :=
  (writer.write [byte]).1

/-- Write chunks in order. -/
def writeAll (writer : Guarded σ) (chunks : List Bytes) : Guarded σ :=
  chunks.foldl (fun writer chunk => (writer.write chunk).1) writer

@[simp]
theorem writeAll_nil (writer : Guarded σ) : writer.writeAll [] = writer := rfl

@[simp]
theorem writeAll_cons (writer : Guarded σ) (chunk : Bytes) (chunks : List Bytes) :
    writer.writeAll (chunk :: chunks) = (writer.write chunk).1.writeAll chunks := rfl

theorem writeAll_append (writer : Guarded σ) (front back : List Bytes) :
    writer.writeAll (front ++ back) = (writer.writeAll front).writeAll back := by
  simp [writeAll]

theorem writeAll_of_failure {writer : Guarded σ} {failure : WriteFailure}
    (failed : writer.failure = some failure) (chunks : List Bytes) :
    writer.writeAll chunks = writer := by
  induction chunks with
  | nil => rfl
  | cons chunk chunks ih => rw [writeAll_cons, write_of_failure failed, ih]

end Guarded

/-- Write chunks to a device up to the first failure. -/
def writeGuarded {σ : Type} [Device σ] (device : σ) (chunks : List Bytes) :
    σ × Option WriteFailure :=
  let writer := (Writer.bare device).guard.writeAll chunks
  (writer.device, writer.failure)

/-- Write chunks to a device, each whether the ones before it failed or not. -/
def writeRegardless {σ : Type} [Device σ] (device : σ) (chunks : List Bytes) : σ :=
  chunks.foldl (fun device chunk => (Device.write device chunk).device) device

/-- A device that keeps what it takes, and may be limited in calls and in bytes. -/
structure Sink where
  /-- Everything taken so far. -/
  taken : Array UInt8
  /-- Number of calls that may still succeed, if that is limited. -/
  calls : Option Nat
  /-- Number of bytes that may still be taken, if that is limited. -/
  room : Option Nat
  deriving DecidableEq

namespace Sink

/-- A sink that has taken nothing. -/
def limited (calls room : Option Nat) : Sink :=
  { taken := #[], calls, room }

/-- A sink that takes everything. -/
def unlimited : Sink :=
  limited none none

/-- What a sink says when it cannot take a whole chunk. -/
def shortWrite : Bytes :=
  text "short write"

/-- Take as much of a chunk as there is room for. -/
def fill (sink : Sink) (chunk : Bytes) : Receipt Sink :=
  match sink.room with
  | none => ⟨{ sink with taken := sink.taken ++ chunk }, chunk.length, none⟩
  | some room =>
      if room < chunk.length then
        ⟨{ sink with taken := sink.taken ++ chunk.take room, room := some 0 }, room,
          some shortWrite⟩
      else
        ⟨{ sink with taken := sink.taken ++ chunk, room := some (room - chunk.length) },
          chunk.length, none⟩

/-- Take a chunk, unless all calls are used up. -/
def write (sink : Sink) (chunk : Bytes) : Receipt Sink :=
  match sink.calls with
  | none => sink.fill chunk
  | some 0 => ⟨sink, 0, some shortWrite⟩
  | some (calls + 1) => { sink with calls := some calls }.fill chunk

instance : Device Sink where
  write := write

/-- Everything taken so far. -/
def content (sink : Sink) : Bytes :=
  sink.taken.toList

end Sink
end BitTape
