import LibPolyCall.Node.Interop

/-!
# What a message does to the handler

Every branch of the methods of `Node/ProtocolHandler`, also those that throw. `checkMessage` reads
no more of the handler than its version (`reads_checkMessage`), and passes what `verifyMessage`
would and a test of the length (`checkMessage_iff_verifyMessage`). `createMessage` takes one
sequence number at most (`createMessage_cases`), and `processMessage` removes at most the pending
message that an accepted response or error answers, and settles it if it is there
(`takes_processMessage`).
-/

namespace LibPolyCall.Node

open Bytes

/-- How a promise is settled. -/
inductive Outcome where
  | resolved (payload : List UInt8)
  | rejected (error : List UInt8)
  /-- Rejected by its timer, with `Message timeout`. -/
  | timeout
deriving DecidableEq

/-- The sequence number and the outcome for which an event stands that settles an entry. -/
def Emitted.settles : Emitted → Option (ℕ × Outcome)
  | .resolved sequence payload => some (sequence, .resolved payload)
  | .rejected sequence reason => some (sequence, .rejected reason)
  | _ => none

/-! ## What a method does to the handler -/

section Reading

variable {α β : Type} {handler handler' : ProtocolHandler}

/-- What follows a method that throws is not done. -/
theorem call_bind_error {method : HandlerM α} {thrown : Thrown} (next : α → HandlerM β)
    (h : method.call handler = (.error thrown, handler')) :
    (method >>= next).call handler = (.error thrown, handler') := by
  unfold HandlerM.call at h ⊢
  simp only [ExceptT.run_bind, StateT.run_bind, Id.run_bind, h]
  rfl

/-- Where the method does not throw, `catch` is skipped. -/
theorem call_tryCatch_ok {method : HandlerM α} {a : α} (caught : Thrown → HandlerM α)
    (h : method.call handler = (.ok a, handler')) :
    (tryCatch method caught).call handler = (.ok a, handler') := by
  unfold HandlerM.call at h ⊢
  rw [ExceptT.run_tryCatch]
  simp only [StateT.run_bind, Id.run_bind, h]
  rfl

/-- Where the method throws, `catch` goes on from the handler that it leaves. -/
theorem call_tryCatch_error {method : HandlerM α} {thrown : Thrown} (caught : Thrown → HandlerM α)
    (h : method.call handler = (.error thrown, handler')) :
    (tryCatch method caught).call handler = (caught thrown).call handler' := by
  unfold HandlerM.call at h ⊢
  rw [ExceptT.run_tryCatch]
  simp only [StateT.run_bind, Id.run_bind, h]

/-- The method leaves the handler as it is, and reads no more of it than its version. -/
def Reads (method : HandlerM α) : Prop :=
  ∃ result : ℕ → Except Thrown α, ∀ handler, method.call handler = (result handler.version, handler)

/-- Returning a value reads nothing. -/
theorem reads_pure (a : α) : Reads (pure a) := ⟨fun _ => .ok a, fun _ => rfl⟩

/-- Throwing reads nothing. -/
theorem reads_throw (thrown : Thrown) : Reads (throw thrown : HandlerM α) :=
  ⟨fun _ => .error thrown, fun _ => rfl⟩

/-- Two methods that only read do so one after the other. -/
theorem Reads.bind {method : HandlerM α} {next : α → HandlerM β} (h : Reads method)
    (hnext : ∀ a, Reads (next a)) : Reads (method >>= next) := by
  obtain ⟨result, hresult⟩ := h
  choose results hresults using hnext
  refine ⟨fun version => (result version).bind fun a => results a version, fun handler => ?_⟩
  cases hcase : result handler.version with
  | ok a =>
    rw [call_bind next ((hresult handler).trans (by rw [hcase])), hresults]
    simp only [hcase, Except.bind]
  | error thrown =>
    rw [call_bind_error next ((hresult handler).trans (by rw [hcase]))]
    simp only [hcase, Except.bind]

/-- Getting the handler reads no more than its version, if what follows does not. -/
theorem reads_get {next : ProtocolHandler → HandlerM α} (h : ∀ handler, Reads (next handler))
    (hversion : ∀ handler handler' : ProtocolHandler, handler.version = handler'.version →
      next handler = next handler') : Reads (get >>= next) := by
  choose result hresult using h
  refine ⟨fun version => result { newHandler with version } version, fun handler => ?_⟩
  rw [call_bind next call_get, hversion handler { newHandler with version := handler.version } rfl,
    hresult]

/-- A test that throws when it fails. -/
theorem reads_check {p : Prop} [Decidable p] {thrown : Thrown} {next : Unit → HandlerM α}
    (h : Reads (next ())) :
    Reads (if p then (throw thrown : HandlerM Unit) >>= next else next ()) := by
  split_ifs
  · exact (reads_throw thrown).bind fun _ => h
  · exact h

/-- `readUIntLE` reads the buffer only. -/
theorem reads_readUIntLE (buffer : List UInt8) (offset width : ℕ) :
    Reads (readUIntLE buffer offset width) := by
  unfold readUIntLE
  split_ifs
  · exact reads_throw _
  · exact reads_pure _

/-- `validateHeader` reads no more of the handler than its version. -/
theorem reads_validateHeader (header : List UInt8) : Reads (validateHeader header) := by
  unfold validateHeader
  refine reads_check ((reads_readUIntLE _ _ _).bind fun version => ?_)
  refine reads_get (fun handler => ?_) fun _ _ h => by simp only [h]
  refine reads_check ((reads_readUIntLE _ _ _).bind fun payloadLength => reads_check ?_)
  refine (reads_readUIntLE _ _ _).bind fun type => (reads_readUIntLE _ _ _).bind fun flags => ?_
  exact (reads_readUIntLE _ _ _).bind fun sequence =>
    (reads_readUIntLE _ _ _).bind fun checksum => reads_pure _

/-- The checks of a message read no more of the handler than its version. -/
theorem reads_checkMessage (data : List UInt8) : Reads (checkMessage data) := by
  unfold checkMessage
  refine reads_check ((reads_validateHeader _).bind fun header => ?_)
  exact reads_check (reads_check (reads_pure _))

end Reading

/-! ## Messages that cannot be built -/

section Building

variable {handler : ProtocolHandler} {type flags : ℕ} {payload : List UInt8}

/-- A value that does not fit is not written. -/
theorem call_writeUIntLE_large (handler : ProtocolHandler) (buffer : List UInt8)
    {value offset width : ℕ} (hvalue : 256 ^ width ≤ value) :
    (writeUIntLE buffer value offset width).call handler = (.error .rangeError, handler) := by
  rw [writeUIntLE, if_pos (.inl hvalue)]
  rfl

/-- `createHeader` throws before it takes a sequence number, or behind it, or gives the six
fields. -/
theorem createHeader_cases (handler : ProtocolHandler) (type payloadLength flags : ℕ) :
    (∃ thrown, (createHeader type payloadLength flags).call handler = (.error thrown, handler)) ∨
    (∃ thrown, (createHeader type payloadLength flags).call handler =
      (.error thrown, { handler with sequence := handler.sequence + 1 })) ∨
    handler.version < 256 ∧ type < 256 ∧ flags < 256 ^ 2 ∧ handler.sequence < 256 ^ 4 ∧
      payloadLength < 256 ^ 4 := by
  -- The fields are written in the order version, type, flags, sequence, length.
  by_cases hversion : handler.version < 256 ∧ type < 256 ∧ flags < 256 ^ 2
  · obtain ⟨hversion, htype, hflags⟩ := hversion
    by_cases hrest : handler.sequence < 256 ^ 4 ∧ payloadLength < 256 ^ 4
    · exact .inr (.inr ⟨hversion, htype, hflags, hrest⟩)
    · refine .inr (.inl ⟨.rangeError, ?_⟩)
      unfold createHeader
      refine (call_bind _ call_get).trans ?_
      refine (call_bind _ (call_writeUIntLE_zeros handler [] 15 rfl hversion)).trans ?_
      refine (call_bind _ (call_writeUIntLE_zeros handler _ 14 rfl htype)).trans ?_
      refine (call_bind _ (call_writeUIntLE_zeros handler _ 12 rfl hflags)).trans ?_
      -- From here on the sequence number has been taken.
      refine (call_bind _ call_nextSequence).trans ?_
      by_cases hsequence : handler.sequence < 256 ^ 4
      · have hlength : 256 ^ 4 ≤ payloadLength := by
          by_contra h
          exact hrest ⟨hsequence, Nat.lt_of_not_le h⟩
        refine (call_bind _ (call_writeUIntLE_zeros _ _ 8 rfl hsequence)).trans ?_
        exact call_bind_error _ (call_writeUIntLE_large _ _ hlength)
      · exact call_bind_error _ (call_writeUIntLE_large _ _ (Nat.not_lt.1 hsequence))
  · refine .inl ⟨.rangeError, ?_⟩
    unfold createHeader
    refine (call_bind _ call_get).trans ?_
    by_cases hv : handler.version < 256
    · refine (call_bind _ (call_writeUIntLE_zeros handler [] 15 rfl hv)).trans ?_
      by_cases ht : type < 256
      · have hf : 256 ^ 2 ≤ flags := by
          by_contra h
          exact hversion ⟨hv, ht, Nat.lt_of_not_le h⟩
        refine (call_bind _ (call_writeUIntLE_zeros handler _ 14 rfl ht)).trans ?_
        exact call_bind_error _ (call_writeUIntLE_large _ _ hf)
      · exact call_bind_error _ (call_writeUIntLE_large _ _ (by simpa using ht))
    · exact call_bind_error _ (call_writeUIntLE_large _ _ (by simpa using hv))

/-- `createMessage` takes one sequence number at most, and a message that it gives has it. -/
theorem createMessage_cases (handler : ProtocolHandler) (type : ℕ) (payload : List UInt8)
    (flags : ℕ) :
    (∃ thrown, (createMessage type payload flags).call handler = (.error thrown, handler)) ∨
    (∃ thrown, (createMessage type payload flags).call handler =
      (.error thrown, { handler with sequence := handler.sequence + 1 })) ∨
    ∃ message, (createMessage type payload flags).call handler =
        (.ok message, { handler with sequence := handler.sequence + 1 }) ∧
      readAt .little message 4 4 = handler.sequence := by
  rcases createHeader_cases handler type payload.length flags with
    ⟨thrown, hcall⟩ | ⟨thrown, hcall⟩ | ⟨hversion, htype, hflags, hsequence, hlength⟩
  · exact .inl ⟨thrown, call_bind_error _ hcall⟩
  · exact .inr (.inl ⟨thrown, call_bind_error _ hcall⟩)
  · refine .inr (.inr ⟨_, call_createMessage hversion htype hflags hsequence hlength, ?_⟩)
    rw [List.append_assoc, List.append_assoc, List.append_assoc]
    refine (readAt_append_right .little 4 _ (le_of_eq rfl)).trans ?_
    exact (readAt_encode .little 4 _ _).trans (decode_encode_of_lt .little hsequence)

end Building

/-! ## What a message answers -/

section Taking

variable {α : Type} {handler after : ProtocolHandler}

/-- The sequence number and the outcome of a response or an error. -/
def Header.answer (header : Header) (payload : List UInt8) : Option (ℕ × Outcome) :=
  if header.type = 0x04 then some (header.sequence, .resolved payload)
  else if header.type = 0x05 then some (header.sequence, .rejected payload)
  else none

/-- What a message answers on a handler of a version: it passes the tests of `processMessage`, and
is a response or an error. -/
def answer (version : ℕ) (data : List UInt8) : Option (ℕ × Outcome) :=
  match ((checkMessage data).call { newHandler with version }).1 with
  | .ok (header, payload) => header.answer payload
  | .error _ => none

/-- From one handler to another one message was taken in, which answered this. -/
structure Takes (handler after : ProtocolHandler) (called : Option (ℕ × Outcome)) : Prop where
  version : after.version = handler.version
  sequence : handler.sequence ≤ after.sequence
  pending : after.pendingMessages =
    handler.pendingMessages.filter fun sequence => !called.any (·.1 = sequence)
  emitted : ∃ emitted, after.emitted = handler.emitted ++ emitted ∧
    emitted.filterMap Emitted.settles =
      (called.filter fun c => handler.pendingMessages.contains c.1).toList

/-- Where nothing happens, nothing is answered. -/
theorem Takes.refl (handler : ProtocolHandler) : Takes handler handler none where
  version := rfl
  sequence := le_refl _
  pending := by simp
  emitted := ⟨[], by simp⟩

/-- An event that settles nothing makes no difference. -/
theorem Takes.emit {called : Option (ℕ × Outcome)} (h : Takes handler after called)
    {event : Emitted} (hevent : event.settles = none) :
    Takes handler { after with emitted := after.emitted ++ [event] } called := by
  obtain ⟨emitted, happend, hsettles⟩ := h.emitted
  refine ⟨h.version, h.sequence, h.pending, emitted ++ [event], ?_, ?_⟩
  · rw [happend, List.append_assoc]
  · rw [List.filterMap_append, hsettles, List.filterMap_cons_none hevent, List.filterMap_nil,
      List.append_nil]

/-- An event that settles a promise answers the message with its sequence number. -/
theorem takes_settle (handler : ProtocolHandler) (header : Header) (event : Emitted)
    {outcome : Outcome} (hevent : event.settles = some (header.sequence, outcome)) :
    ∃ after, (settle header event).call handler = (.ok (), after) ∧
      Takes handler after (some (header.sequence, outcome)) := by
  by_cases hmem : header.sequence ∈ handler.pendingMessages
  · refine ⟨{ handler with
        pendingMessages := handler.pendingMessages.filter (· ≠ header.sequence)
        emitted := handler.emitted ++ [event] }, ?_, rfl, le_refl _, ?_, [event], rfl, ?_⟩
    · unfold settle
      refine (call_bind _ call_get).trans ?_
      rw [if_pos hmem]
      rfl
    · simp [eq_comm]
    · simp [hevent, hmem, Option.filter]
  · refine ⟨handler, ?_, rfl, le_refl _, ?_, [], by simp, by simp [hmem]⟩
    · unfold settle
      refine (call_bind _ call_get).trans ?_
      rw [if_neg hmem]
      rfl
    · symm
      rw [List.filter_eq_self]
      intro sequence hsequence
      have : header.sequence ≠ sequence := fun h => hmem (h ▸ hsequence)
      simpa using this

/-- A handshake answers no message. -/
theorem takes_handleHandshake (handler : ProtocolHandler) (header : Header)
    (payload : List UInt8) :
    Takes handler ((handleHandshake header payload).call handler).2 none := by
  unfold handleHandshake
  by_cases hlength : 0 + 4 ≤ payload.length
  · rw [call_bind _ (call_readUIntLE handler hlength)]
    split_ifs with hmagic
    · exact .refl handler
    · -- The reply takes a sequence number, and is not sent from here.
      have hdone : Takes handler ({ handler with
          handshakeComplete := true
          emitted := handler.emitted ++ [.handshake header.sequence] } : ProtocolHandler) none :=
        ⟨rfl, le_refl _, by simp, [.handshake header.sequence], rfl, rfl⟩
      have hnext : Takes handler ({ handler with
          handshakeComplete := true
          sequence := handler.sequence + 1
          emitted := handler.emitted ++ [.handshake header.sequence] } : ProtocolHandler) none :=
        ⟨rfl, Nat.le_succ _, hdone.pending, hdone.emitted⟩
      rcases createMessage_cases ({ handler with
          handshakeComplete := true
          emitted := handler.emitted ++ [.handshake header.sequence] }) 0x01 [] flagReliable with
        ⟨thrown, hcall⟩ | ⟨thrown, hcall⟩ | ⟨message, hcall, -⟩
      · have h := congrArg Prod.snd (call_bind_error (fun reply => pure (some reply)) hcall)
        exact h ▸ hdone
      · have h := congrArg Prod.snd (call_bind_error (fun reply => pure (some reply)) hcall)
        exact h ▸ hnext
      · have h := congrArg Prod.snd (call_bind (fun reply => pure (some reply)) hcall)
        exact h ▸ hnext
  · have hread : (readUIntLE payload 0 4).call handler = (.error .rangeError, handler) := by
      rw [readUIntLE, if_pos (by omega)]
      rfl
    rw [call_bind_error _ hread]
    exact .refl handler

/-- What is noted about a message that settles nothing. -/
theorem takes_noted (handler : ProtocolHandler) (authenticated : Bool) (lastHeartbeat : Option ℕ)
    (event : Emitted) (hevent : event.settles = none) :
    Takes handler ({ handler with
      authenticated, lastHeartbeat, emitted := handler.emitted ++ [event] }) none :=
  ⟨rfl, le_refl _, by simp, [event], rfl, by simp [hevent]⟩

/-- What a method does stays when its result is not used. -/
theorem call_discard {β : Type} (method : HandlerM α) (b : β) (handler : ProtocolHandler) :
    ((method >>= fun _ => pure b).call handler).2 = (method.call handler).2 := by
  rcases h : method.call handler with ⟨result, after⟩
  cases result with
  | ok a => rw [call_bind _ h]; rfl
  | error thrown => rw [call_bind_error _ h]

/-- A response resolves the promise with its sequence number. -/
theorem takes_handleResponse (handler : ProtocolHandler) (header : Header) (payload : List UInt8) :
    Takes handler ((handleResponse header payload).call handler).2
      (some (header.sequence, .resolved payload)) := by
  obtain ⟨after, hcall, htakes⟩ := takes_settle handler header
    (.resolved header.sequence payload) rfl
  rw [handleResponse, call_bind _ hcall]
  exact htakes.emit rfl

/-- An error rejects the promise with its sequence number. -/
theorem takes_handleError (handler : ProtocolHandler) (header : Header) (payload : List UInt8) :
    Takes handler ((handleError header payload).call handler).2
      (some (header.sequence, .rejected payload)) := by
  obtain ⟨after, hcall, htakes⟩ := takes_settle handler header
    (.rejected header.sequence payload) rfl
  rw [handleError, call_bind _ hcall]
  exact htakes.emit rfl

/-- A message answers what its type says. -/
theorem takes_handleMessage (now : ℕ) (handler : ProtocolHandler) (header : Header)
    (payload : List UInt8) :
    Takes handler ((handleMessage now header payload).call handler).2 (header.answer payload) := by
  unfold handleMessage Header.answer
  split
  case h_1 h => rw [h]; exact takes_handleHandshake handler header payload
  case h_2 h => rw [h]; exact takes_noted handler true handler.lastHeartbeat _ rfl
  case h_3 h =>
    rw [h]
    exact takes_noted handler handler.authenticated handler.lastHeartbeat
      (.command header.sequence payload header.flags) rfl
  case h_4 h => rw [h, call_discard]; exact takes_handleResponse handler header payload
  case h_5 h => rw [h, call_discard]; exact takes_handleError handler header payload
  case h_6 h => rw [h]; exact takes_noted handler handler.authenticated (some now) _ rfl
  case h_7 h1 h2 h3 h4 h5 h6 =>
    rw [if_neg h4, if_neg h5]
    exact .refl handler

/-- What is caught is noted and thrown again. -/
theorem Takes.caught {method : HandlerM α} {called : Option (ℕ × Outcome)}
    (h : Takes handler (method.call handler).2 called) :
    Takes handler ((tryCatch method fun thrown => do
      Node.emit (.error thrown); throw thrown).call handler).2 called := by
  rcases hcall : method.call handler with ⟨result, after⟩
  rw [hcall] at h
  cases result with
  | ok a => exact call_tryCatch_ok _ hcall ▸ h
  | error thrown => exact call_tryCatch_error _ hcall ▸ h.emit rfl

/-- `processMessage` takes in a message with what it answers. -/
theorem takes_processMessage (now : ℕ) (handler : ProtocolHandler) (data : List UInt8) :
    Takes handler ((processMessage now data).call handler).2 (answer handler.version data) := by
  refine Takes.caught ?_
  obtain ⟨result, hresult⟩ := reads_checkMessage data
  unfold answer
  rw [hresult]
  cases hcase : result handler.version with
  | ok accepted =>
    rw [call_bind _ ((hresult handler).trans (by rw [hcase]))]
    exact takes_handleMessage now handler accepted.1 accepted.2
  | error thrown =>
    rw [call_bind_error _ ((hresult handler).trans (by rw [hcase]))]
    exact .refl handler

end Taking

/-! ## `verifyMessage` -/

/-- `verifyMessage`. -/
def verifyMessage (data : List UInt8) : HandlerM Bool :=
  tryCatch
    (do
      let header ← validateHeader (data.take headerSize)
      return calculateChecksum (data.drop headerSize) = header.checksum)
    (fun _ => return false)

/-- `processMessage` accepts what `verifyMessage` does and has the length that its header says:
`verifyMessage` does not look at it. -/
theorem checkMessage_iff_verifyMessage (handler : ProtocolHandler) (data : List UInt8) :
    (∃ accepted, ((checkMessage data).call handler).1 = .ok accepted) ↔
      ((verifyMessage data).call handler).1 = .ok true ∧
        ∃ header, ((validateHeader (data.take headerSize)).call handler).1 = .ok header ∧
          (data.drop headerSize).length = header.payloadLength := by
  obtain ⟨result, hresult⟩ := reads_validateHeader (data.take headerSize)
  have hvalid := hresult handler
  -- Both methods read the header first, and fail if it is not valid.
  cases hcase : result handler.version with
  | error thrown =>
    rw [hcase] at hvalid
    rw [hvalid]
    constructor
    · rintro ⟨accepted, haccepted⟩
      unfold checkMessage at haccepted
      split_ifs at haccepted
      · cases haccepted
      · rw [call_bind_error _ hvalid] at haccepted
        cases haccepted
    · rintro ⟨-, header, hheader, -⟩
      cases hheader
  | ok header =>
    rw [hcase] at hvalid
    -- A valid header has its length, so the first test of `processMessage` passes.
    have hlong : ¬data.length < headerSize := fun hshort => by
      have hne : (data.take headerSize).length ≠ headerSize := by
        rw [List.length_take]
        omega
      rw [validateHeader, if_pos hne] at hvalid
      cases congrArg Prod.fst hvalid
    have hverify : (verifyMessage data).call handler =
        (.ok (decide (calculateChecksum (data.drop headerSize) = header.checksum)), handler) :=
      call_tryCatch_ok _ (call_bind _ hvalid)
    rw [checkMessage, if_neg hlong, call_bind _ hvalid, hverify, hvalid]
    simp only [Except.ok.injEq, decide_eq_true_eq, exists_eq_left']
    -- What is left is the test of the length, and then the checksum that both compare.
    by_cases hlength : (data.drop headerSize).length = header.payloadLength
    · rw [if_neg (not_not_intro hlength), and_iff_left hlength]
      by_cases hchecksum : calculateChecksum (data.drop headerSize) = header.checksum
      · rw [if_neg (not_not_intro hchecksum)]
        exact iff_of_true ⟨_, rfl⟩ hchecksum
      · rw [if_pos hchecksum]
        refine iff_of_false ?_ hchecksum
        rintro ⟨accepted, haccepted⟩
        cases haccepted
    · rw [if_pos hlength]
      refine iff_of_false ?_ fun h => hlength h.2
      rintro ⟨accepted, haccepted⟩
      cases haccepted

end LibPolyCall.Node
