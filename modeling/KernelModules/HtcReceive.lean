import KernelModules.HtcTrailer

/-!
# The receive handler of HTC

The handler takes a buffer from the bus: it checks the header, has the trailer parsed, and gives
the payload to the endpoint, whose callback finds it in a container. Endpoint 0 is that of HTC
itself. The header tells how long the payload is, and the buffer can be longer than the frame.

Scatter and gather is not built.
-/

namespace KernelModules.HtcReceive

open HtcWire HtcTrailer

structure Netbuf where
  /-- What lies from the start of the buffer on. -/
  data : Bytes
  len : ℕ

namespace Netbuf

variable (nb : Netbuf)

def endpointID : ℕ := getField nb.data 0 FrameHdr.endpointID

def payloadLen : ℕ := getField nb.data 0 FrameHdr.payloadLen

def controlBytes0 : ℕ := getField nb.data 0 FrameHdr.controlBytes0

def hasTrailer : Bool := getField nb.data 0 FrameHdr.flags &&& flagsRecvTrailer ≠ 0

def trailerLen : ℕ := if nb.hasTrailer then nb.controlBytes0 else 0

end Netbuf

/-- What the handler cannot see to the end of: the polled pipes, and what runs when a pipe is
polled or an endpoint sends. -/
structure Env where
  ulIsPolled : ℕ → Bool
  dlPipeID : ℕ → ℕ
  sendCompleteCheck : Tx → ℕ → Tx
  trySend : Tx → ℕ → Tx

structure Rx where
  containers : ℕ
  hasEpRecv : ℕ → Bool
  ctrlResponseProcessing : Bool
  ctrlResponse : List UInt8

inductive Status
  | success
  | failure
  | inval
  | resources

inductive Fate
  | freed
  | delivered (epId : ℕ) (bytes : List UInt8)
  | response
  | wakeUp
  | suspendComplete (wowNack : Bool)
  deriving DecidableEq

structure Completion where
  status : Status
  fate : Fate
  rx : Rx
  session : Session

def pollCompletions (env : Env) (epId : ℕ) (s : Session) : Session :=
  if env.ulIsPolled epId then
    (List.range endpointMax).foldl (fun s i =>
      if env.dlPipeID i = env.dlPipeID epId ∧ env.ulIsPolled i then
        s.run fun tx => env.sendCompleteCheck tx i
      else s) s
  else s

/-- The length of the trailer, once it is parsed. -/
def takeTrailer (env : Env) (fuel : ℕ) (nb : Netbuf) (s : Session) :
    Option (Except Status ℕ × Session) :=
  if nb.hasTrailer then
    let temp := nb.controlBytes0
    if temp < sizeofRecordHdr ∨ nb.payloadLen < temp then some (.error .inval, s)
    else
      match processTrailer env.trySend nb.data fuel (hdrLength + nb.payloadLen - temp) temp s with
      | none => none
      | some (.ok, s) => some (.ok temp, s)
      | some (.eproto, s) => some (.error .failure, s)
  else some (.ok 0, s)

def msgSendSuspendComplete : ℕ := 6

def msgNackSuspend : ℕ := 7

def msgWakeupFromSuspendId : ℕ := 8

def maxControlMessageLength : ℕ := 256

/-- A message on endpoint 0. -/
def controlMessage (nb : Netbuf) (rx : Rx) (s : Session) : Completion :=
  let messageId := getField nb.data hdrLength messageID
  if messageId = msgWakeupFromSuspendId then ⟨.success, .wakeUp, rx, s⟩
  else if messageId = msgSendSuspendComplete then ⟨.success, .suspendComplete false, rx, s⟩
  else if messageId = msgNackSuspend then ⟨.success, .suspendComplete true, rx, s⟩
  else if rx.ctrlResponseProcessing then ⟨.failure, .freed, rx, s⟩
  else
    let ctrlResponseLength := min (nb.len - hdrLength) maxControlMessageLength
    ⟨.success, .response,
      { rx with
        ctrlResponse := bytesAt nb.data hdrLength ctrlResponseLength
        ctrlResponseProcessing := true }, s⟩

/-- `do_recv_completion_pkt`, on a container that goes back to the pool. -/
def deliver (nb : Netbuf) (trailerlen : ℕ) (rx : Rx) (s : Session) : Completion :=
  let actualLength := nb.len - hdrLength - trailerlen
  if rx.hasEpRecv nb.endpointID then
    ⟨.success, .delivered nb.endpointID (bytesAt nb.data hdrLength actualLength), rx, s⟩
  else ⟨.success, .freed, rx, s⟩

/-- What the handler does once the trailer is done. -/
def finish (nb : Netbuf) (trailerlen : ℕ) (rx : Rx) (s : Session) : Completion :=
  -- A trailer and nothing before it.
  if nb.payloadLen ≤ trailerlen then ⟨.success, .freed, rx, s⟩
  else if nb.endpointID = 0 then controlMessage nb rx s
  else if rx.containers = 0 then ⟨.resources, .freed, rx, s⟩
  else deliver nb trailerlen rx s

/-- `htc_rx_completion_handler`; `none` is a handler that has not returned yet. -/
def rxCompletionHandler (env : Env) (fuel : ℕ) (nb : Netbuf) (rx : Rx) (tx : Tx) :
    Option Completion :=
  if endpointMax ≤ nb.endpointID then some ⟨.failure, .freed, rx, .start tx⟩
  else
    let s := pollCompletions env nb.endpointID (.start tx)
    if nb.len < nb.payloadLen + hdrLength then some ⟨.failure, .freed, rx, s⟩
    else
      match takeTrailer env fuel nb s with
      | none => none
      | some (.error status, s) => some ⟨status, .freed, rx, s⟩
      | some (.ok trailerlen, s) => some (finish nb trailerlen rx s)

def TrailerFits (nb : Netbuf) : Prop :=
  nb.hasTrailer → sizeofRecordHdr ≤ nb.controlBytes0 ∧ nb.controlBytes0 ≤ nb.payloadLen ∧
    RecordsFit nb.data (hdrLength + nb.payloadLen - nb.controlBytes0) nb.controlBytes0

/-- The frame is in order, has data, and someone waits for it. -/
structure Deliverable (nb : Netbuf) (rx : Rx) : Prop where
  endpoint : nb.endpointID < endpointMax
  notControl : nb.endpointID ≠ 0
  frame : nb.payloadLen + hdrLength ≤ nb.len
  trailer : TrailerFits nb
  payload : nb.trailerLen < nb.payloadLen
  container : rx.containers ≠ 0
  callback : rx.hasEpRecv nb.endpointID

/-- A well-formed trailer of these records in a frame that gets as far as its trailer. -/
structure CarriesTrailer (nb : Netbuf) (records : List Record) : Prop where
  endpoint : nb.endpointID < endpointMax
  frame : nb.payloadLen + hdrLength ≤ nb.len
  flag : nb.hasTrailer
  inPayload : nb.controlBytes0 ≤ nb.payloadLen
  bytes : bytesAt nb.data (hdrLength + nb.payloadLen - nb.controlBytes0) nb.controlBytes0 =
    records.flatMap Record.encode

/-- What reaches a callback is the payload without the trailer; words are read inside the trailer;
the entries of a well-formed trailer are applied once each; and credits come from entries only. -/
structure ParsesExactly (nb : Netbuf) (tx : Tx) (c : Completion) : Prop where
  delivered : ∀ epId bytes, c.fate = .delivered epId bytes →
    epId = nb.endpointID ∧ bytes = bytesAt nb.data hdrLength (nb.payloadLen - nb.trailerLen)
  reads : ∀ p ∈ c.session.reads,
    hdrLength + nb.payloadLen - nb.trailerLen ≤ p ∧ p + 4 ≤ hdrLength + nb.payloadLen
  applied : ∀ records, CarriesTrailer nb records →
    c.session.applied = (records.flatMap Record.entries).map Entry.amount
  credits : ∀ ep, c.session.tx.txCredits ep + c.session.taken ep =
    tx.txCredits ep + received c.session.applied ep

theorem pollCompletions_advances (env : Env) (lo hi epId : ℕ) (s : Session) :
    Advances lo hi s (pollCompletions env epId s) := by
  unfold pollCompletions
  split_ifs
  · generalize List.range endpointMax = ids
    induction ids generalizing s with
    | nil => exact .refl _ _ _
    | cons i ids ih =>
      rw [List.foldl_cons]
      split_ifs
      · exact (Advances.run lo hi s _).trans (ih _)
      · exact ih s
  · exact .refl _ _ _

theorem pollCompletions_applied (env : Env) (epId : ℕ) (s : Session) :
    (pollCompletions env epId s).applied = s.applied := by
  unfold pollCompletions
  split_ifs
  · generalize List.range endpointMax = ids
    induction ids generalizing s with
    | nil => rfl
    | cons i ids ih =>
      rw [List.foldl_cons, ih]
      split_ifs <;> rfl
  · rfl

variable {fuel : ℕ} {nb : Netbuf}

theorem takeTrailer_spec (env : Env) (s : Session)
    (hfuel : nb.len ≤ fuel) (hframe : nb.payloadLen + hdrLength ≤ nb.len) :
    ∃ r s', takeTrailer env fuel nb s = some (r, s') ∧
      (TrailerFits nb ∧ r = .ok nb.trailerLen ∨ ¬TrailerFits nb ∧ ∃ status, r = .error status) ∧
      Advances (hdrLength + nb.payloadLen - nb.trailerLen) (hdrLength + nb.payloadLen) s s' := by
  simp only [takeTrailer, TrailerFits, Netbuf.trailerLen]
  split_ifs with hflag hsize
  · refine ⟨_, s, rfl, .inr ⟨fun h => ?_, _, rfl⟩, .refl _ _ _⟩
    have := h hflag
    omega
  · obtain ⟨status, s', hrun, hstatus, hadv⟩ := processTrailer_spec env.trySend nb.data
      (hdrLength + nb.payloadLen - nb.controlBytes0) s
      (show nb.controlBytes0 ≤ fuel by omega)
    rw [hrun]
    have hadv := hadv.mono (Nat.le_refl _)
      (show _ ≤ hdrLength + nb.payloadLen by omega)
    cases status with
    | ok =>
      have hfit := hstatus.mp rfl
      exact ⟨_, s', rfl, .inl ⟨fun _ => ⟨by omega, by omega, hfit⟩, rfl⟩, hadv⟩
    | eproto =>
      refine ⟨_, s', rfl, .inr ⟨fun h => ?_, _, rfl⟩, hadv⟩
      exact absurd (hstatus.mpr (h hflag).2.2) (by simp)
  · exact ⟨_, s, rfl, .inl ⟨fun h => absurd h hflag, rfl⟩, .refl _ _ _⟩

theorem takeTrailer_applied (env : Env) (s : Session)
    {records : List Record} (hfuel : nb.len ≤ fuel) (h : CarriesTrailer nb records) :
    ∃ r s', takeTrailer env fuel nb s = some (r, s') ∧
      s'.applied = s.applied ++ (records.flatMap Record.entries).map Entry.amount := by
  obtain ⟨-, hframe, hflag, hin, hbytes⟩ := h
  rw [takeTrailer, if_pos hflag]
  dsimp only
  split_ifs with hsize
  · refine ⟨_, s, rfl, ?_⟩
    -- A record is no shorter than its header.
    cases records with
    | nil => simp
    | cons record records =>
      have hlen := congrArg List.length hbytes
      rw [length_bytesAt, List.flatMap_cons, Record.encode] at hlen
      simp only [List.length_append, List.length_cons] at hlen
      simp only [sizeofRecordHdr] at hsize
      omega
  · obtain ⟨s', hrun, happlied⟩ := processTrailer_applied env.trySend records s
      (show nb.controlBytes0 ≤ fuel by omega) hbytes
    rw [hrun]
    exact ⟨_, s', rfl, happlied⟩

theorem controlMessage_session (nb : Netbuf) (rx : Rx) (s : Session) :
    (controlMessage nb rx s).session = s := by
  simp only [controlMessage]
  split_ifs <;> rfl

theorem controlMessage_not_delivered (nb : Netbuf) (rx : Rx) (s : Session) (epId : ℕ)
    (bytes : List UInt8) : (controlMessage nb rx s).fate ≠ .delivered epId bytes := by
  simp only [controlMessage]
  split_ifs <;> simp

theorem finish_session (nb : Netbuf) (trailerlen : ℕ) (rx : Rx) (s : Session) :
    (finish nb trailerlen rx s).session = s := by
  simp only [finish, deliver]
  split_ifs
  · rfl
  · exact controlMessage_session nb rx s
  all_goals rfl

theorem finish_delivered_iff (nb : Netbuf) (trailerlen : ℕ) (rx : Rx) (s : Session) (epId : ℕ)
    (bytes : List UInt8) :
    (finish nb trailerlen rx s).fate = .delivered epId bytes ↔
      (trailerlen < nb.payloadLen ∧ nb.endpointID ≠ 0 ∧ rx.containers ≠ 0 ∧
        rx.hasEpRecv nb.endpointID) ∧
      epId = nb.endpointID ∧
      bytes = bytesAt nb.data hdrLength (nb.len - hdrLength - trailerlen) := by
  simp only [finish, deliver]
  split_ifs with htrailer hcontrol hcontainer hrecv
  · simp [Nat.not_lt_of_le htrailer]
  · simp [hcontrol, controlMessage_not_delivered]
  · simp [hcontainer]
  · simp [Nat.lt_of_not_le htrailer, hcontrol, hcontainer, hrecv, eq_comm]
  · simp [hrecv]

/-- The handler returns. It delivers all of the buffer after the header but the length of the
trailer, if the frame can be delivered. -/
theorem rxCompletionHandler_spec (env : Env) (nb : Netbuf) (rx : Rx) (tx : Tx)
    (hfuel : nb.len ≤ fuel) :
    ∃ c, rxCompletionHandler env fuel nb rx tx = some c ∧
      (∀ epId bytes, c.fate = .delivered epId bytes ↔ Deliverable nb rx ∧ epId = nb.endpointID ∧
        bytes = bytesAt nb.data hdrLength (nb.len - hdrLength - nb.trailerLen)) ∧
      Advances (hdrLength + nb.payloadLen - nb.trailerLen) (hdrLength + nb.payloadLen)
        (.start tx) c.session ∧
      ∀ records, CarriesTrailer nb records →
        c.session.applied = (records.flatMap Record.entries).map Entry.amount := by
  simp only [rxCompletionHandler]
  split_ifs with hep hframe
  · refine ⟨_, rfl, fun epId bytes => ?_, .refl _ _ _, fun records h => ?_⟩
    · simpa using fun h : Deliverable nb rx => absurd h.endpoint (Nat.not_lt_of_le hep)
    · exact absurd h.endpoint (Nat.not_lt_of_le hep)
  · refine ⟨_, rfl, fun epId bytes => ?_, pollCompletions_advances _ _ _ _ _, fun records h => ?_⟩
    · simpa using fun h : Deliverable nb rx => absurd h.frame (Nat.not_le_of_lt hframe)
    · exact absurd h.frame (Nat.not_le_of_lt hframe)
  · have hframe := Nat.le_of_not_lt hframe
    obtain ⟨r, s', hrun, hfits, hadv⟩ := takeTrailer_spec env
      (pollCompletions env nb.endpointID (.start tx)) hfuel hframe
    have hadv := (pollCompletions_advances env _ _ nb.endpointID (.start tx)).trans hadv
    have happlied : ∀ records, CarriesTrailer nb records →
        s'.applied = (records.flatMap Record.entries).map Entry.amount := by
      intro records h
      obtain ⟨r', s'', hrun', happlied⟩ := takeTrailer_applied env
        (pollCompletions env nb.endpointID (.start tx)) hfuel h
      rw [hrun] at hrun'
      cases hrun'
      rw [happlied, pollCompletions_applied]
      rfl
    rw [hrun]
    rcases hfits with ⟨hfits, rfl⟩ | ⟨hfits, status, rfl⟩
    · refine ⟨_, rfl, fun epId bytes => ?_, ?_, ?_⟩
      · rw [finish_delivered_iff]
        refine and_congr_left fun _ => ⟨?_, ?_⟩
        · rintro ⟨hpayload, hcontrol, hcontainer, hrecv⟩
          exact ⟨Nat.lt_of_not_le hep, hcontrol, hframe, hfits, hpayload, hcontainer, hrecv⟩
        · intro h
          exact ⟨h.payload, h.notControl, h.container, h.callback⟩
      · rw [finish_session]
        exact hadv
      · rw [finish_session]
        exact happlied
    · refine ⟨_, rfl, fun epId bytes => ?_, hadv, happlied⟩
      simpa using fun h : Deliverable nb rx => absurd h.trailer hfits

theorem delivered_exact_iff {rx : Rx} (h : Deliverable nb rx) :
    bytesAt nb.data hdrLength (nb.len - hdrLength - nb.trailerLen) =
      bytesAt nb.data hdrLength (nb.payloadLen - nb.trailerLen) ↔
      nb.len = nb.payloadLen + hdrLength := by
  have hframe := h.frame
  have hpayload := h.payload
  constructor
  · intro heq
    have hlen := congrArg List.length heq
    rw [length_bytesAt, length_bytesAt] at hlen
    omega
  · intro hlen
    rw [hlen, Nat.add_sub_cancel]

theorem handler_exact_iff (env : Env) (nb : Netbuf) (rx : Rx) (tx : Tx) :
    (∀ fuel, nb.len ≤ fuel →
      ∃ c, rxCompletionHandler env fuel nb rx tx = some c ∧ ParsesExactly nb tx c) ↔
      (Deliverable nb rx → nb.len = nb.payloadLen + hdrLength) := by
  constructor
  · intro h hdeliverable
    obtain ⟨c, hrun, hexact⟩ := h nb.len (Nat.le_refl _)
    obtain ⟨c', hrun', hfate, -, -⟩ := rxCompletionHandler_spec env nb rx tx (Nat.le_refl nb.len)
    rw [hrun] at hrun'
    cases hrun'
    have hdelivered := (hfate _ _).mpr ⟨hdeliverable, rfl, rfl⟩
    exact (delivered_exact_iff hdeliverable).mp (hexact.delivered _ _ hdelivered).2
  · intro h fuel hfuel
    obtain ⟨c, hrun, hfate, hadv, happlied⟩ := rxCompletionHandler_spec env nb rx tx hfuel
    refine ⟨c, hrun, ?_, ?_, happlied, ?_⟩
    · intro epId bytes hdelivered
      obtain ⟨hdeliverable, rfl, rfl⟩ := (hfate epId bytes).mp hdelivered
      exact ⟨rfl, (delivered_exact_iff hdeliverable).mpr (h hdeliverable)⟩
    · intro p hp
      rcases hadv.reads p hp with hold | hin
      · exact absurd hold (List.not_mem_nil)
      · exact hin
    · intro ep
      have hcredits := hadv.credits ep
      have hnone : received (Session.start tx).applied ep = 0 := rfl
      have htaken : (Session.start tx).taken ep = 0 := rfl
      have htx : (Session.start tx).tx = tx := rfl
      rw [hnone, htaken, htx] at hcredits
      omega

/-- Four bytes of payload for endpoint 1, in a buffer that is four bytes longer than the frame. -/
def paddedFrame : Netbuf where
  data p := [1, 0, 4, 0, 0, 0, 0, 0, 10, 20, 30, 40].getD p 0
  len := 16

def quietEnv : Env where
  ulIsPolled _ := false
  dlPipeID _ := 0
  sendCompleteCheck tx _ := tx
  trySend tx _ := tx

def openRx : Rx where
  containers := 1
  hasEpRecv _ := true
  ctrlResponseProcessing := false
  ctrlResponse := []

/-- Four bytes of payload for endpoint 1, and a trailer that gives three credits to endpoint 2. -/
def creditFrame : Netbuf where
  data p := [1, 2, 12, 0, 8, 0, 0, 0, 5, 6, 7, 8, 1, 4, 0, 0, 2, 3, 0, 0].getD p 0
  len := 20

example : (rxCompletionHandler quietEnv 20 creditFrame openRx ⟨fun _ => 0, fun _ => 0⟩).map
    (fun c => (c.fate, c.session.applied)) = some (.delivered 1 [5, 6, 7, 8], [(2, 3)]) := by
  decide +kernel

/-- The callback gets eight bytes for the four of the payload. -/
theorem paddedFrame_not_exact :
    (rxCompletionHandler quietEnv paddedFrame.len paddedFrame openRx ⟨fun _ => 0, fun _ => 0⟩).map
        Completion.fate = some (.delivered 1 [10, 20, 30, 40, 0, 0, 0, 0]) ∧
      ¬∃ c, rxCompletionHandler quietEnv paddedFrame.len paddedFrame openRx
          ⟨fun _ => 0, fun _ => 0⟩ = some c ∧
        ParsesExactly paddedFrame ⟨fun _ => 0, fun _ => 0⟩ c := by
  have hfate : (rxCompletionHandler quietEnv paddedFrame.len paddedFrame openRx
      ⟨fun _ => 0, fun _ => 0⟩).map Completion.fate =
        some (.delivered 1 [10, 20, 30, 40, 0, 0, 0, 0]) := by decide +kernel
  refine ⟨hfate, ?_⟩
  rintro ⟨c, hrun, hexact⟩
  rw [hrun] at hfate
  have hbytes := (hexact.delivered _ _ (Option.some.inj hfate)).2
  exact absurd hbytes (by decide +kernel)

end KernelModules.HtcReceive
