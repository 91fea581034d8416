import Mathlib.Data.List.Induction
import BitTape.Output

/-!
# Calls that reach a device

A guarded writer passes its calls on up to the first one that the device refuses.  A `Recorder`
makes the calls that reach a device visible.  What a sink with limits has taken, and which call it
refuses first, depends on the number and the lengths of the calls only.
-/

namespace BitTape

section Calls

variable {σ : Type} [Device σ]

/-- The device takes the calls one after the other and refuses none. -/
def Accepts : (device : σ) → (calls : List Bytes) → Prop
  | _, [] => True
  | device, call :: calls =>
      (Device.write device call).failure = none ∧ Accepts (Device.write device call).device calls

@[simp]
theorem writeRegardless_nil (device : σ) : writeRegardless device [] = device := rfl

@[simp]
theorem writeRegardless_cons (device : σ) (call : Bytes) (calls : List Bytes) :
    writeRegardless device (call :: calls) =
      writeRegardless (Device.write device call).device calls := rfl

namespace Guarded

theorem write_of_none (device : σ) (chunk : Bytes) :
    (write ({ device, failure := none } : Guarded σ) chunk).1 =
      { device := (Device.write device chunk).device
        failure := (Device.write device chunk).failure.map WriteFailure.mk } := rfl

/-- Calls that are not refused all reach the device. -/
theorem writeAll_of_accepts {device : σ} {calls : List Bytes} (accepts : Accepts device calls) :
    writeAll { device, failure := none } calls =
      { device := writeRegardless device calls, failure := none } := by
  induction calls generalizing device with
  | nil => rfl
  | cons call calls ih =>
      obtain ⟨taken, accepts⟩ := accepts
      rw [writeAll_cons, write_of_none, taken, Option.map_none, ih accepts, writeRegardless_cons]

/-- The first call that is refused is the last one that reaches the device. -/
theorem writeAll_of_refused {device : σ} {front : List Bytes} {call reason : Bytes}
    (accepts : Accepts device front)
    (refused : (Device.write (writeRegardless device front) call).failure = some reason)
    (rest : List Bytes) :
    writeAll { device, failure := none } (front ++ call :: rest) =
      { device := (Device.write (writeRegardless device front) call).device
        failure := some ⟨reason⟩ } := by
  rw [writeAll_append, writeAll_of_accepts accepts, writeAll_cons, write_of_none, refused,
    Option.map_some, writeAll_of_failure rfl]

end Guarded

/-! ## Recorded calls -/

/-- A device together with the calls that have reached it. -/
structure Recorder (σ : Type) where
  device : σ
  received : List Bytes

namespace Recorder

instance : Device (Recorder σ) where
  write recorder call :=
    let receipt := Device.write recorder.device call
    ⟨⟨receipt.device, recorder.received ++ [call]⟩, receipt.taken, receipt.failure⟩

theorem write_eq (recorder : Recorder σ) (call : Bytes) :
    Device.write recorder call =
      ⟨⟨(Device.write recorder.device call).device, recorder.received ++ [call]⟩,
        (Device.write recorder.device call).taken,
        (Device.write recorder.device call).failure⟩ := rfl

theorem accepts_iff {recorder : Recorder σ} {calls : List Bytes} :
    Accepts recorder calls ↔ Accepts recorder.device calls := by
  induction calls generalizing recorder with
  | nil => rfl
  | cons call calls ih => rw [Accepts, Accepts, ih, write_eq]

/-- All calls are recorded in order. -/
theorem writeRegardless_eq (recorder : Recorder σ) (calls : List Bytes) :
    writeRegardless recorder calls =
      ⟨writeRegardless recorder.device calls, recorder.received ++ calls⟩ := by
  induction calls generalizing recorder with
  | nil => simp
  | cons call calls ih =>
      rw [writeRegardless_cons, ih, write_eq, writeRegardless_cons, List.append_assoc,
        List.singleton_append]

theorem writeAll_device (recorder : Recorder σ) (failure : Option WriteFailure)
    (calls : List Bytes) :
    Guarded.writeAll { device := recorder.device, failure } calls =
      { device := (Guarded.writeAll { device := recorder, failure } calls).device.device
        failure := (Guarded.writeAll { device := recorder, failure } calls).failure } := by
  cases failure with
  | some failure => rw [Guarded.writeAll_of_failure rfl, Guarded.writeAll_of_failure rfl]
  | none =>
      induction calls generalizing recorder with
      | nil => rfl
      | cons call calls ih =>
          rw [Guarded.writeAll_cons, Guarded.writeAll_cons, Guarded.write_of_none,
            Guarded.write_of_none, write_eq]
          cases (Device.write recorder.device call).failure with
          | some reason => rw [Guarded.writeAll_of_failure rfl, Guarded.writeAll_of_failure rfl]
          | none => exact ih ⟨(Device.write recorder.device call).device, _⟩

theorem writeGuarded_device (recorder : Recorder σ) (calls : List Bytes) :
    writeGuarded recorder.device calls =
      ((writeGuarded recorder calls).1.device, (writeGuarded recorder calls).2) := by
  simp only [writeGuarded, Writer.guard]
  rw [recorder.writeAll_device]

end Recorder

end Calls

namespace Sink

/-! ## Sinks without limits -/

/-- A sink without limits that has taken some bytes. -/
def holding (bytes : Bytes) : Sink :=
  { taken := bytes.toArray, calls := none, room := none }

@[simp]
theorem content_holding (bytes : Bytes) : (holding bytes).content = bytes := rfl

theorem write_holding (bytes chunk : Bytes) :
    Device.write (holding bytes) chunk = ⟨holding (bytes ++ chunk), chunk.length, none⟩ := by
  simp [Device.write, write, fill, holding]

theorem writeAll_holding (bytes : Bytes) (chunks : List Bytes) :
    Guarded.writeAll { device := holding bytes, failure := none } chunks =
      { device := holding (bytes ++ chunks.flatten), failure := none } := by
  induction chunks generalizing bytes with
  | nil => simp
  | cons chunk chunks ih =>
      rw [Guarded.writeAll_cons, Guarded.write, write_holding, List.flatten_cons,
        ← List.append_assoc]
      exact ih (bytes ++ chunk)

theorem writeGuarded_unlimited (chunks : List Bytes) :
    writeGuarded unlimited chunks = (holding chunks.flatten, none) := by
  have kept := writeAll_holding [] chunks
  rw [List.nil_append] at kept
  rw [writeGuarded, Writer.guard, show unlimited = holding [] from rfl, kept]

/-! ## Limits -/

section Limits

variable (calls room : Option Nat) (before : List Bytes) (call : Bytes)

/-- All calls that the limit allows have been made. -/
def isSpent : Bool :=
  calls.any (· ≤ before.length)

/-- A call that is refused after others: the calls are used up, or it is longer than the room. -/
def refuses : Bool :=
  isSpent calls before || room.any (· < before.flatten.length + call.length)

/-- The part of a call that is taken after others. -/
def partTaken : Bytes :=
  if isSpent calls before then []
  else (room.map fun limit => call.take (limit - before.flatten.length)).getD call

/-- A sink with room for some bytes that has taken some calls, with a number of calls left. -/
def filled (left : Option Nat) : Sink :=
  { taken := before.flatten.toArray
    calls := left
    room := room.map (· - before.flatten.length) }

/-- A sink with limits that has taken some calls. -/
def holdingCalls : Sink :=
  filled room before (calls.map (· - before.length))

/-- What has been taken is no longer than the room. -/
def Fits : Prop :=
  ∀ limit ∈ room, before.flatten.length ≤ limit

end Limits

variable {calls room : Option Nat} {before : List Bytes} {call : Bytes}

theorem limited_eq (calls room : Option Nat) : limited calls room = holdingCalls calls room [] := by
  simp [limited, holdingCalls, filled]

theorem content_holdingCalls (calls room : Option Nat) (before : List Bytes) :
    (holdingCalls calls room before).content = before.flatten := rfl

theorem fill_of_short {limit : Nat} (fits : before.flatten.length ≤ limit)
    (short : limit < before.flatten.length + call.length) (left : Option Nat) :
    ((filled (some limit) before left).fill call).failure = some shortWrite ∧
      ((filled (some limit) before left).fill call).device.content =
        before.flatten ++ call.take (limit - before.flatten.length) := by
  have noRoom : limit - before.flatten.length < call.length := by omega
  simp only [fill, filled, Option.map_some, if_pos noRoom, content]
  simp

theorem fill_of_enough (fits : Fits room before)
    (enough : room.any (· < before.flatten.length + call.length) = false) (left : Option Nat) :
    (filled room before left).fill call =
      ⟨filled room (before ++ [call]) left, call.length, none⟩ := by
  cases room with
  | none => simp [fill, filled]
  | some limit =>
      have enough : ¬limit < before.flatten.length + call.length := by simpa using enough
      have fits := fits limit rfl
      have noShort : ¬limit - before.flatten.length < call.length := by omega
      simp only [fill, filled, Option.map_some, if_neg noShort]
      simp [Nat.sub_sub]

theorem write_of_refuses (fits : Fits room before)
    (refused : refuses calls room before call = true) :
    (Device.write (holdingCalls calls room before) call).failure = some shortWrite ∧
      (Device.write (holdingCalls calls room before) call).device.content =
        before.flatten ++ partTaken calls room before call := by
  change ((holdingCalls calls room before).write call).failure = some shortWrite ∧
    ((holdingCalls calls room before).write call).device.content = _
  cases spent : isSpent calls before with
  | true =>
      obtain ⟨limit, rfl, used⟩ := (Option.any_eq_true _ _).mp spent
      have none : limit - before.length = 0 := Nat.sub_eq_zero_of_le (by simpa using used)
      simp [write, holdingCalls, filled, none, partTaken, spent, content]
  | false =>
      obtain ⟨limit, rfl, short⟩ : ∃ limit, room = some limit ∧
          limit < before.flatten.length + call.length := by
        simpa [refuses, spent, Option.any_eq_true] using refused
      have filling (left : Option Nat) := fill_of_short (fits limit rfl) short left
      simp only [partTaken, spent, Bool.false_eq_true, if_false, Option.map_some, Option.getD_some]
      cases calls with
      | none => exact filling none
      | some limit =>
          have more : ¬limit ≤ before.length := by simpa [isSpent] using spent
          obtain ⟨left, left_eq⟩ : ∃ left, limit - before.length = left + 1 :=
            Nat.exists_eq_add_one.mpr (by omega)
          simp only [write, holdingCalls, filled, Option.map_some, left_eq]
          exact filling (some left)

theorem write_of_not_refuses (fits : Fits room before)
    (taken : refuses calls room before call = false) :
    Device.write (holdingCalls calls room before) call =
      ⟨holdingCalls calls room (before ++ [call]), call.length, none⟩ := by
  change (holdingCalls calls room before).write call = _
  obtain ⟨unspent, enough⟩ := Bool.or_eq_false_iff.mp taken
  have filling := fill_of_enough fits enough
  cases calls with
  | none => exact filling none
  | some limit =>
      have more : ¬limit ≤ before.length := by simpa [isSpent] using unspent
      obtain ⟨left, left_eq⟩ : ∃ left, limit - before.length = left + 1 :=
        Nat.exists_eq_add_one.mpr (by omega)
      have left_after : limit - (before ++ [call]).length = left := by
        rw [List.length_append, List.length_singleton]
        omega
      simp only [holdingCalls, Option.map_some, left_eq, left_after, write, filled]
      exact filling (some left)

theorem partTaken_isPrefix (calls room : Option Nat) (before : List Bytes) (call : Bytes) :
    partTaken calls room before call <+: call := by
  rw [partTaken]
  split
  · exact List.nil_prefix
  · cases room with
    | none => exact List.prefix_rfl
    | some limit => exact List.take_prefix _ _

theorem fits_of_not_refuses (taken : refuses calls room before call = false) :
    Fits room (before ++ [call]) := by
  rintro limit rfl
  have enough := (Bool.or_eq_false_iff.mp taken).2
  simpa using enough

/-- None of the calls is refused after the ones before it. -/
def Takes (calls room : Option Nat) (sent : List Bytes) : Prop :=
  ∀ place call, sent[place]? = some call → refuses calls room (sent.take place) call = false

theorem Takes.of_append {front back : List Bytes} (takes : Takes calls room (front ++ back)) :
    Takes calls room front := by
  intro place call present
  have inside : place < front.length := (List.getElem?_eq_some_iff.mp present).1
  have same := takes place call (by rwa [List.getElem?_append_left inside])
  rwa [List.take_append_of_le_length (Nat.le_of_lt inside)] at same

theorem takes_snoc_iff {front : List Bytes} :
    Takes calls room (front ++ [call]) ↔
      Takes calls room front ∧ refuses calls room front call = false := by
  constructor
  · intro takes
    exact ⟨takes.of_append, by simpa using takes front.length call (by simp)⟩
  · rintro ⟨takes, taken⟩ place other present
    rcases Nat.lt_or_ge place front.length with inside | behind
    · rw [List.getElem?_append_left inside] at present
      rw [List.take_append_of_le_length (Nat.le_of_lt inside)]
      exact takes place other present
    · rw [List.getElem?_append_right behind, List.getElem?_singleton] at present
      split at present
      · rename_i last
        cases present
        obtain rfl : place = front.length := by omega
        simpa using taken
      · cases present

theorem Takes.fits {sent : List Bytes} (takes : Takes calls room sent) : Fits room sent := by
  cases sent using List.reverseRecOn with
  | nil => exact fun _ _ => Nat.zero_le _
  | append_singleton front call => exact fits_of_not_refuses (takes_snoc_iff.mp takes).2

theorem not_takes_of_refuses {front : List Bytes} (refused : refuses calls room front call = true)
    (rest : List Bytes) : ¬Takes calls room (front ++ call :: rest) := by
  intro takes
  rw [List.append_cons] at takes
  rw [(takes_snoc_iff.mp takes.of_append).2] at refused
  cases refused

theorem takes_unlimited (sent : List Bytes) : Takes none none sent :=
  fun _ _ _ => rfl

/-- Either no call is refused, or there is a first one. -/
theorem takes_or_refuses (calls room : Option Nat) (sent : List Bytes) :
    Takes calls room sent ∨ ∃ front call rest, sent = front ++ call :: rest ∧
      Takes calls room front ∧ refuses calls room front call = true := by
  induction sent using List.reverseRecOn with
  | nil => exact .inl fun place call present => by simp at present
  | append_singleton sent last ih =>
      rcases ih with takes | ⟨front, call, rest, rfl, takes, refused⟩
      · cases decided : refuses calls room sent last with
        | false => exact .inl (takes_snoc_iff.mpr ⟨takes, decided⟩)
        | true => exact .inr ⟨sent, last, [], rfl, takes, decided⟩
      · exact .inr ⟨front, call, rest ++ [last], by simp, takes, refused⟩

theorem accepts_of_takes {sent : List Bytes} (takes : Takes calls room sent) :
    Accepts (limited calls room) sent ∧
      writeRegardless (limited calls room) sent = holdingCalls calls room sent := by
  suffices general : ∀ before, Fits room before → Takes calls room (before ++ sent) →
      Accepts (holdingCalls calls room before) sent ∧
        writeRegardless (holdingCalls calls room before) sent =
          holdingCalls calls room (before ++ sent) by
    rw [limited_eq]
    exact general [] (fun _ _ => Nat.zero_le _) takes
  clear takes
  induction sent with
  | nil =>
      intro before _ _
      rw [List.append_nil]
      exact ⟨trivial, rfl⟩
  | cons call rest ih =>
      intro before fits takes
      have taken : refuses calls room before call = false := by
        simpa using takes before.length call (by simp)
      have written := write_of_not_refuses fits taken
      obtain ⟨accepts, held⟩ :=
        ih (before ++ [call]) (fits_of_not_refuses taken) (by simpa using takes)
      rw [Accepts, writeRegardless_cons, written]
      exact ⟨⟨rfl, accepts⟩, by simpa using held⟩

/-- Calls of which none is refused reach the sink and fill it. -/
theorem writeGuarded_of_takes {sent : List Bytes} (takes : Takes calls room sent) :
    writeGuarded (⟨limited calls room, []⟩ : Recorder Sink) sent =
      (⟨holdingCalls calls room sent, sent⟩, none) := by
  obtain ⟨accepts, held⟩ := accepts_of_takes takes
  rw [writeGuarded, Writer.guard, Guarded.writeAll_of_accepts (Recorder.accepts_iff.mpr accepts),
    Recorder.writeRegardless_eq, held, List.nil_append]

/-- The first call that is refused is the last one to reach the sink, which takes a part of it. -/
theorem writeGuarded_of_refuses {front : List Bytes} (takes : Takes calls room front)
    (refused : refuses calls room front call = true) (rest : List Bytes) :
    ∃ sink : Sink, sink.content = front.flatten ++ partTaken calls room front call ∧
      writeGuarded (⟨limited calls room, []⟩ : Recorder Sink) (front ++ call :: rest) =
        (⟨sink, front ++ [call]⟩, some ⟨shortWrite⟩) := by
  obtain ⟨accepts, held⟩ := accepts_of_takes takes
  obtain ⟨failed, content_eq⟩ := write_of_refuses takes.fits refused
  refine ⟨_, content_eq, ?_⟩
  have reached : writeRegardless (⟨limited calls room, []⟩ : Recorder Sink) front =
      ⟨holdingCalls calls room front, front⟩ := by
    rw [Recorder.writeRegardless_eq, held, List.nil_append]
  have refusal : (Device.write (writeRegardless (⟨limited calls room, []⟩ : Recorder Sink) front)
      call).failure = some shortWrite := by
    rw [reached]
    exact failed
  rw [writeGuarded, Writer.guard,
    Guarded.writeAll_of_refused (Recorder.accepts_iff.mpr accepts) refusal, reached]
  rfl

end Sink
end BitTape
