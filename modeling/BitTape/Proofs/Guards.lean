import BitTape.Proofs.Devices

/-!
# Calls through guards

A writer may be called in three ways, through any number of guards around it, and the device behind
it may be changed from outside between two calls.  A guard passes calls on up to the first one that
the device refuses.  From then on it answers every call itself with that refusal, even if the device
would take calls again.
-/

namespace BitTape

/-! ## Calls -/

/-- A call of a writer. -/
inductive Call where
  | bytes (content : Bytes)
  | string (content : Bytes)
  | byte (content : UInt8)
  deriving DecidableEq

/-- What a call answers. -/
structure Answer where
  /-- Number of bytes that were taken, unless the call was for a single byte. -/
  taken : Option Nat
  failure : Option WriteFailure
  deriving DecidableEq

namespace Call

/-- The bytes that a call is to write. -/
def chunk : Call → Bytes
  | bytes content => content
  | string content => content
  | byte content => [content]

/-- The answer to a call of which a number of bytes was taken. -/
def answer (taken : Nat) (failure : Option WriteFailure) : Call → Answer
  | bytes _ => ⟨some taken, failure⟩
  | string _ => ⟨some taken, failure⟩
  | byte _ => ⟨none, failure⟩

end Call

/-- What may happen to a guarded device. -/
inductive Deed (σ : Type) where
  /-- A call through a number of further guards. -/
  | call (guards : Nat) (made : Call)
  /-- A change of the device from outside. -/
  | change (how : σ → σ)

namespace Guarded

variable {σ : Type}

/-- A guarded writer with a number of further guards around it. -/
def guardAgain (writer : Guarded σ) : (guards : Nat) → Guarded σ
  | 0 => writer
  | guards + 1 => (Writer.guarded (writer.guardAgain guards)).guard

/-- Further guards add nothing. -/
@[simp]
theorem guardAgain_eq (writer : Guarded σ) (guards : Nat) : writer.guardAgain guards = writer := by
  induction guards with
  | zero => rfl
  | succ guards ih => rw [guardAgain, Writer.guard, ih]

variable [Device σ]

/-- Make a call.  The failure in the answer is the one that the writer then keeps. -/
def call (writer : Guarded σ) : Call → Guarded σ × Answer
  | .bytes content =>
      let (next, taken) := writer.write content
      (next, ⟨some taken, next.failure⟩)
  | .string content =>
      let (next, taken) := writer.writeString content
      (next, ⟨some taken, next.failure⟩)
  | .byte content =>
      let next := writer.writeByte content
      (next, ⟨none, next.failure⟩)

theorem call_eq (writer : Guarded σ) (made : Call) :
    writer.call made =
      ((writer.write made.chunk).1,
        made.answer (writer.write made.chunk).2 (writer.write made.chunk).1.failure) := by
  cases made <;> rfl

/-- Let something happen, and tell the answer if it is a call. -/
def perform (writer : Guarded σ) : Deed σ → Guarded σ × Option Answer
  | .call guards made =>
      let (next, answer) := (writer.guardAgain guards).call made
      (next, some answer)
  | .change how => ({ writer with device := how writer.device }, none)

/-- Let things happen one after the other, and tell all answers. -/
def performAll (writer : Guarded σ) : List (Deed σ) → Guarded σ × List Answer
  | [] => (writer, [])
  | deed :: deeds =>
      let (next, answer) := writer.perform deed
      let (last, answers) := next.performAll deeds
      (last, answer.toList ++ answers)

theorem performAll_append (writer : Guarded σ) (front back : List (Deed σ)) :
    writer.performAll (front ++ back) =
      (((writer.performAll front).1.performAll back).1,
        (writer.performAll front).2 ++ ((writer.performAll front).1.performAll back).2) := by
  induction front generalizing writer with
  | nil => rfl
  | cons deed front ih => simp only [List.cons_append, performAll, ih, List.append_assoc]

end Guarded

/-! ## Deeds without a guard -/

namespace Deed

variable {σ : Type}

/-- The call of a deed, if it is one. -/
def call? : Deed σ → Option Call
  | call _ made => some made
  | change _ => none

/-- All calls, in order. -/
def calls (deeds : List (Deed σ)) : List Call :=
  deeds.filterMap call?

/-- The device if it gets none of the calls. -/
def changed (device : σ) : List (Deed σ) → σ
  | [] => device
  | call _ _ :: deeds => changed device deeds
  | change how :: deeds => changed (how device) deeds

variable [Device σ]

/-- The device if it gets all of the calls. -/
def reached (device : σ) : List (Deed σ) → σ
  | [] => device
  | call _ made :: deeds => reached (Device.write device made.chunk).device deeds
  | change how :: deeds => reached (how device) deeds

/-- The device gets all of the calls and refuses none. -/
def Accepted (device : σ) : List (Deed σ) → Prop
  | [] => True
  | call _ made :: deeds =>
      (Device.write device made.chunk).failure = none ∧
        Accepted (Device.write device made.chunk).device deeds
  | change how :: deeds => Accepted (how device) deeds

/-- What the device itself answers to calls that it does not refuse. -/
def answers (device : σ) : List (Deed σ) → List Answer
  | [] => []
  | call _ made :: deeds =>
      made.answer (Device.write device made.chunk).taken none ::
        answers (Device.write device made.chunk).device deeds
  | change how :: deeds => answers (how device) deeds

theorem accepted_or_refused (device : σ) (deeds : List (Deed σ)) :
    Accepted device deeds ∨ ∃ front guards made back reason,
      deeds = front ++ call guards made :: back ∧ Accepted device front ∧
        (Device.write (reached device front) made.chunk).failure = some reason := by
  induction deeds generalizing device with
  | nil => exact .inl trivial
  | cons deed deeds ih =>
      cases deed with
      | call guards made =>
          cases outcome : (Device.write device made.chunk).failure with
          | some reason => exact .inr ⟨[], guards, made, deeds, reason, rfl, trivial, outcome⟩
          | none =>
              rcases ih (Device.write device made.chunk).device with
                accepted | ⟨front, later, refused, back, reason, rfl, accepted, failed⟩
              · exact .inl ⟨outcome, accepted⟩
              · exact .inr ⟨call guards made :: front, later, refused, back, reason, rfl,
                  ⟨outcome, accepted⟩, failed⟩
      | change how =>
          rcases ih (how device) with
            accepted | ⟨front, later, refused, back, reason, rfl, accepted, failed⟩
          · exact .inl accepted
          · exact .inr ⟨change how :: front, later, refused, back, reason, rfl, accepted, failed⟩

theorem not_accepted_of_refused {device : σ} {front : List (Deed σ)} {made : Call} {reason : Bytes}
    (refused : (Device.write (reached device front) made.chunk).failure = some reason)
    (guards : Nat) (back : List (Deed σ)) :
    ¬Accepted device (front ++ call guards made :: back) := by
  induction front generalizing device with
  | nil =>
      rintro ⟨taken, -⟩
      rw [reached, taken] at refused
      cases refused
  | cons deed front ih =>
      cases deed with
      | call _ _ => exact fun accepted => ih refused accepted.2
      | change how => exact fun accepted => @ih (how device) refused accepted

end Deed

/-! ## Deeds behind a guard -/

namespace Guarded

variable {σ : Type} [Device σ]

theorem perform_call (device : σ) (guards : Nat) (made : Call) :
    perform { device, failure := none } (.call guards made) =
      ({ device := (Device.write device made.chunk).device
         failure := (Device.write device made.chunk).failure.map WriteFailure.mk },
        some (made.answer (Device.write device made.chunk).taken
          ((Device.write device made.chunk).failure.map WriteFailure.mk))) := by
  rw [perform, guardAgain_eq, call_eq]
  rfl

theorem perform_call_of_failure (device : σ) (failure : WriteFailure) (guards : Nat)
    (made : Call) :
    perform { device, failure := some failure } (.call guards made) =
      ({ device, failure := some failure }, some (made.answer 0 (some failure))) := by
  rw [perform, guardAgain_eq, call_eq]
  rfl

/-- If no call is refused, the device gets all of them and answers them. -/
theorem performAll_of_accepted {device : σ} {deeds : List (Deed σ)}
    (accepted : Deed.Accepted device deeds) :
    performAll { device, failure := none } deeds =
      ({ device := Deed.reached device deeds, failure := none }, Deed.answers device deeds) := by
  induction deeds generalizing device with
  | nil => rfl
  | cons deed deeds ih =>
      cases deed with
      | call guards made =>
          obtain ⟨taken, accepted⟩ := accepted
          simp only [performAll, perform_call, taken, Option.map_none, ih accepted]
          rfl
      | change how =>
          simp only [performAll, perform, @ih (how device) accepted]
          rfl

/-- After a failure the device gets no call, and every call is answered with that failure. -/
theorem performAll_of_failure (device : σ) (failure : WriteFailure) (deeds : List (Deed σ)) :
    performAll { device, failure := some failure } deeds =
      ({ device := Deed.changed device deeds, failure := some failure },
        (Deed.calls deeds).map (Call.answer 0 (some failure))) := by
  induction deeds generalizing device with
  | nil => rfl
  | cons deed deeds ih =>
      cases deed with
      | call guards made =>
          simp only [performAll, perform_call_of_failure, ih]
          rfl
      | change how =>
          simp only [performAll, perform, ih (how device)]
          rfl

/-- The first call that is refused is the last one that the device gets. -/
theorem performAll_of_refused {device : σ} {front : List (Deed σ)} {made : Call} {reason : Bytes}
    (accepted : Deed.Accepted device front)
    (refused : (Device.write (Deed.reached device front) made.chunk).failure = some reason)
    (guards : Nat) (back : List (Deed σ)) :
    performAll { device, failure := none } (front ++ .call guards made :: back) =
      ({ device := Deed.changed (Device.write (Deed.reached device front) made.chunk).device back
         failure := some ⟨reason⟩ },
        Deed.answers device front ++
          made.answer (Device.write (Deed.reached device front) made.chunk).taken (some ⟨reason⟩) ::
            (Deed.calls back).map (Call.answer 0 (some ⟨reason⟩))) := by
  rw [performAll_append, performAll_of_accepted accepted]
  simp only [performAll, perform_call, refused, Option.map_some, performAll_of_failure]
  rfl

end Guarded

/-! ## Recorded deeds -/

namespace Deed

variable {σ : Type}

/-- A deed on a device whose calls are recorded. -/
def recorded : Deed σ → Deed (Recorder σ)
  | call guards made => .call guards made
  | change how => .change fun recorder => { recorder with device := how recorder.device }

theorem calls_recorded (deeds : List (Deed σ)) : calls (deeds.map recorded) = calls deeds := by
  rw [calls, List.filterMap_map]
  congr 1
  funext deed
  cases deed <;> rfl

theorem changed_recorded (recorder : Recorder σ) (deeds : List (Deed σ)) :
    changed recorder (deeds.map recorded) = ⟨changed recorder.device deeds, recorder.received⟩ := by
  induction deeds generalizing recorder with
  | nil => rfl
  | cons deed deeds ih => cases deed <;> simp only [List.map_cons, recorded, changed, ih]

variable [Device σ]

theorem reached_recorded (recorder : Recorder σ) (deeds : List (Deed σ)) :
    reached recorder (deeds.map recorded) =
      ⟨reached recorder.device deeds, recorder.received ++ (calls deeds).map Call.chunk⟩ := by
  induction deeds generalizing recorder with
  | nil => simp [reached, calls]
  | cons deed deeds ih =>
      cases deed with
      | call guards made =>
          simp only [List.map_cons, recorded, reached, ih, Recorder.write_eq, List.append_assoc,
            List.singleton_append]
          rfl
      | change how =>
          simp only [List.map_cons, recorded, reached, ih]
          rfl

theorem accepted_recorded (recorder : Recorder σ) (deeds : List (Deed σ)) :
    Accepted recorder (deeds.map recorded) ↔ Accepted recorder.device deeds := by
  induction deeds generalizing recorder with
  | nil => rfl
  | cons deed deeds ih =>
      cases deed <;> simp only [List.map_cons, recorded, Accepted, ih, Recorder.write_eq]

theorem answers_recorded (recorder : Recorder σ) (deeds : List (Deed σ)) :
    answers recorder (deeds.map recorded) = answers recorder.device deeds := by
  induction deeds generalizing recorder with
  | nil => rfl
  | cons deed deeds ih =>
      cases deed <;> simp only [List.map_cons, recorded, answers, ih, Recorder.write_eq]

end Deed

namespace Guarded

variable {σ : Type} [Device σ] {device : σ}

/-- If no call is refused, the device gets all of them. -/
theorem performAll_recorded_of_accepted {deeds : List (Deed σ)}
    (accepted : Deed.Accepted device deeds) :
    performAll { device := (⟨device, []⟩ : Recorder σ), failure := none }
        (deeds.map Deed.recorded) =
      ({ device := ⟨Deed.reached device deeds, (Deed.calls deeds).map Call.chunk⟩
         failure := none },
        Deed.answers device deeds) := by
  rw [performAll_of_accepted ((Deed.accepted_recorded _ _).mpr accepted), Deed.reached_recorded,
    Deed.answers_recorded, List.nil_append]

/-- Otherwise the device gets the calls up to the first one that it refuses. -/
theorem performAll_recorded_of_refused {front : List (Deed σ)} {made : Call} {reason : Bytes}
    (accepted : Deed.Accepted device front)
    (refused : (Device.write (Deed.reached device front) made.chunk).failure = some reason)
    (guards : Nat) (back : List (Deed σ)) :
    performAll { device := (⟨device, []⟩ : Recorder σ), failure := none }
        ((front ++ .call guards made :: back).map Deed.recorded) =
      ({ device :=
           ⟨Deed.changed (Device.write (Deed.reached device front) made.chunk).device back,
             (Deed.calls front).map Call.chunk ++ [made.chunk]⟩
         failure := some ⟨reason⟩ },
        Deed.answers device front ++
          made.answer (Device.write (Deed.reached device front) made.chunk).taken (some ⟨reason⟩) ::
            (Deed.calls back).map (Call.answer 0 (some ⟨reason⟩))) := by
  have reached_eq := Deed.reached_recorded ⟨device, []⟩ front
  have recordedRefused :
      (Device.write (Deed.reached (⟨device, []⟩ : Recorder σ) (front.map Deed.recorded))
        made.chunk).failure = some reason := by
    rw [reached_eq]
    exact refused
  rw [List.map_append, List.map_cons, Deed.recorded,
    performAll_of_refused ((Deed.accepted_recorded _ _).mpr accepted) recordedRefused, reached_eq,
    Recorder.write_eq, Deed.changed_recorded, Deed.answers_recorded, Deed.calls_recorded,
    List.nil_append]

end Guarded

/-- A device gets its calls up to the first one that it refuses, unmodified and in order; every
later call is answered with the same refusal. -/
theorem guard_ends_calls_at_first_refusal {σ : Type} [Device σ] (device : σ)
    (deeds : List (Deed σ)) :
    let recorder : Recorder σ := ⟨device, []⟩
    let outcome := (Writer.bare recorder).guard.performAll (deeds.map Deed.recorded)
    (Writer.bare device).guard.performAll deeds =
        ({ device := outcome.1.device.device, failure := outcome.1.failure }, outcome.2) ∧
      (outcome.1.failure = none ↔ Deed.Accepted device deeds) ∧
      (Deed.Accepted device deeds ∧
          outcome =
            ({ device := ⟨Deed.reached device deeds, (Deed.calls deeds).map Call.chunk⟩
               failure := none },
              Deed.answers device deeds) ∨
        ∃ front guards made back reason,
          deeds = front ++ .call guards made :: back ∧ Deed.Accepted device front ∧
          (Device.write (Deed.reached device front) made.chunk).failure = some reason ∧
          (WriteFailure.mk reason).message = text "write failed: " ++ reason ∧
          outcome =
            ({ device :=
                 ⟨Deed.changed (Device.write (Deed.reached device front) made.chunk).device back,
                   (Deed.calls front).map Call.chunk ++ [made.chunk]⟩
               failure := some ⟨reason⟩ },
              Deed.answers device front ++
                made.answer (Device.write (Deed.reached device front) made.chunk).taken
                  (some ⟨reason⟩) ::
                (Deed.calls back).map (Call.answer 0 (some ⟨reason⟩)))) := by
  intro recorder outcome
  rcases Deed.accepted_or_refused device deeds with
    accepted | ⟨front, guards, made, back, reason, rfl, accepted, refused⟩
  · have outcome_eq : outcome = _ := Guarded.performAll_recorded_of_accepted accepted
    rw [outcome_eq]
    refine ⟨Guarded.performAll_of_accepted accepted, ?_, .inl ⟨accepted, rfl⟩⟩
    exact iff_of_true rfl accepted
  · have outcome_eq : outcome = _ :=
      Guarded.performAll_recorded_of_refused accepted refused guards back
    rw [outcome_eq]
    refine ⟨Guarded.performAll_of_refused accepted refused guards back, ?_, .inr
      ⟨front, guards, made, back, reason, rfl, accepted, refused, rfl, rfl⟩⟩
    exact iff_of_false (Option.some_ne_none _) (Deed.not_accepted_of_refused refused guards back)

/-- A sink that would take calls again gets none. -/
example :
    ((Writer.bare (Sink.limited (some 1) none)).guard.performAll
      [.call 0 (.string (text "ok")), .call 2 (.string (text "ko")),
        .change fun sink => { sink with calls := some 10 }, .call 1 (.byte 0)]).2 =
      [⟨some 2, none⟩, ⟨some 0, some ⟨Sink.shortWrite⟩⟩, ⟨none, some ⟨Sink.shortWrite⟩⟩] := by
  decide

end BitTape
