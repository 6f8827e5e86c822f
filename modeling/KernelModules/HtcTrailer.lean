import KernelModules.HtcWire

/-!
# The trailer of an HTC frame

A loop takes the records of a trailer one after the other and applies the credit reports among
them. Every length in a trailer comes from the target. Between two entries of a report the lock is
released, and packets are sent that take credits again.
-/

namespace KernelModules.HtcTrailer

open HtcWire

structure Tx where
  txCredits : ℕ → ℤ
  txDepth : ℕ → ℕ

structure Session where
  tx : Tx
  /-- The credits that sending has taken, from the start of the parse on. -/
  taken : ℕ → ℤ
  /-- Where words of the trailer have been read. -/
  reads : List ℕ
  /-- The entries that have been applied: endpoints and credits. -/
  applied : List (ℕ × ℕ)

namespace Session

def start (tx : Tx) : Session := ⟨tx, fun _ => 0, [], []⟩

def read (s : Session) (p : ℕ) : Session := { s with reads := s.reads ++ [p] }

def run (s : Session) (f : Tx → Tx) : Session :=
  { s with
    tx := f s.tx
    taken := fun ep => s.taken ep + (s.tx.txCredits ep - (f s.tx).txCredits ep) }

def credit (s : Session) (epId credits : ℕ) : Session :=
  { s with
    tx := { s.tx with
      txCredits := fun ep => if ep = epId then s.tx.txCredits ep + credits else s.tx.txCredits ep }
    applied := s.applied ++ [(epId, credits)] }

end Session

def returnCredits (send : Tx → ℕ → Tx) (epId credits : ℕ) (s : Session) : Session :=
  let s := s.credit epId credits
  if s.tx.txCredits epId ≠ 0 ∧ s.tx.txDepth epId ≠ 0 then s.run fun tx => send tx epId else s

/-- `htc_process_credit_rpt`, on the entries from `pRpt` on. -/
def processCreditRpt (send : Tx → ℕ → Tx) (mem : Bytes) : ℕ → ℕ → Session → Session
  | 0, _, s => s
  | n + 1, pRpt, s =>
    let rptEpId := getField mem pRpt CreditReport.endpointID
    if endpointMax ≤ rptEpId then s.read pRpt
    else
      let rptCredits := getField mem pRpt CreditReport.credits
      processCreditRpt send mem n (pRpt + sizeofCreditReport)
        (returnCredits send rptEpId rptCredits ((s.read pRpt).read pRpt))

inductive AStatus
  | ok
  | eproto

def takeRecord (send : Tx → ℕ → Tx) (mem : Bytes) (recId recLen pRecordBuf : ℕ) (s : Session) :
    Session :=
  if recId = recordCredits then
    processCreditRpt send mem (recLen / sizeofCreditReport) pRecordBuf s
  else s

/-- `htc_process_trailer`; `none` is a loop that has not ended yet. -/
def processTrailer (send : Tx → ℕ → Tx) (mem : Bytes) :
    ℕ → ℕ → ℕ → Session → Option (AStatus × Session)
  | 0, _, length, s => if length = 0 then some (.ok, s) else none
  | fuel + 1, pBuffer, length, s =>
    if length = 0 then some (.ok, s)
    else if length < sizeofRecordHdr then some (.eproto, s)
    else
      let recLen := getField mem pBuffer RecordHdr.length
      let recId := getField mem pBuffer RecordHdr.recordID
      let s := (s.read pBuffer).read pBuffer
      if length - sizeofRecordHdr < recLen then some (.eproto, s)
      else
        let pRecordBuf := pBuffer + sizeofRecordHdr
        processTrailer send mem fuel (pRecordBuf + recLen) (length - sizeofRecordHdr - recLen)
          (takeRecord send mem recId recLen pRecordBuf s)

def received (applied : List (ℕ × ℕ)) (ep : ℕ) : ℤ :=
  (applied.map fun entry => if entry.1 = ep then (entry.2 : ℤ) else 0).sum

/-- Words are read between two positions only, and credits come from the entries applied. -/
structure Advances (lo hi : ℕ) (s s' : Session) : Prop where
  reads : ∀ p ∈ s'.reads, p ∈ s.reads ∨ (lo ≤ p ∧ p + 4 ≤ hi)
  credits : ∀ ep, s'.tx.txCredits ep + s'.taken ep - received s'.applied ep =
    s.tx.txCredits ep + s.taken ep - received s.applied ep

namespace Advances

variable {lo hi lo' hi' : ℕ} {s s' s'' : Session}

theorem refl (lo hi : ℕ) (s : Session) : Advances lo hi s s := ⟨fun _ hp => .inl hp, fun _ => rfl⟩

theorem trans (h : Advances lo hi s s') (h' : Advances lo hi s' s'') : Advances lo hi s s'' where
  reads p hp := by
    rcases h'.reads p hp with hold | hin
    · exact h.reads p hold
    · exact .inr hin
  credits ep := (h'.credits ep).trans (h.credits ep)

theorem mono (h : Advances lo hi s s') (hlo : lo' ≤ lo) (hhi : hi ≤ hi') :
    Advances lo' hi' s s' where
  reads p hp := (h.reads p hp).imp_right fun ⟨hl, hh⟩ => ⟨Nat.le_trans hlo hl, Nat.le_trans hh hhi⟩
  credits := h.credits

theorem read (s : Session) {p : ℕ} (hlo : lo ≤ p) (hhi : p + 4 ≤ hi) :
    Advances lo hi s (s.read p) where
  reads q hq := by
    rcases List.mem_append.mp hq with hold | hnew
    · exact .inl hold
    · rw [List.mem_singleton.mp hnew]
      exact .inr ⟨hlo, hhi⟩
  credits _ := rfl

theorem run (lo hi : ℕ) (s : Session) (f : Tx → Tx) : Advances lo hi s (s.run f) where
  reads _ hp := .inl hp
  credits ep := by
    simp only [Session.run]
    omega

theorem credit (lo hi : ℕ) (s : Session) (epId credits : ℕ) :
    Advances lo hi s (s.credit epId credits) where
  reads _ hp := .inl hp
  credits ep := by
    simp only [Session.credit, received, List.map_append, List.sum_append, List.map_cons,
      List.map_nil, List.sum_cons, List.sum_nil]
    by_cases hep : ep = epId
    · rw [if_pos hep, if_pos hep.symm]
      omega
    · rw [if_neg hep, if_neg (Ne.symm hep)]
      omega

end Advances

theorem returnCredits_advances (send : Tx → ℕ → Tx) (lo hi epId credits : ℕ) (s : Session) :
    Advances lo hi s (returnCredits send epId credits s) := by
  have hcredit := Advances.credit lo hi s epId credits
  simp only [returnCredits]
  split_ifs
  · exact hcredit.trans (.run _ _ _ _)
  · exact hcredit

theorem processCreditRpt_advances (send : Tx → ℕ → Tx) (mem : Bytes) (n pRpt : ℕ) (s : Session) :
    Advances pRpt (pRpt + 4 * n) s (processCreditRpt send mem n pRpt s) := by
  induction n generalizing pRpt s with
  | zero => exact .refl _ _ _
  | succ n ih =>
    have hread : ∀ s, Advances pRpt (pRpt + 4 * (n + 1)) s (s.read pRpt) :=
      fun s => .read s (Nat.le_refl _) (by omega)
    simp only [processCreditRpt]
    split_ifs
    · exact hread s
    · have hsize : sizeofCreditReport = 4 := rfl
      exact .trans (.trans (.trans (hread s) (hread _)) (returnCredits_advances send _ _ _ _ _))
        (.mono (ih _ _) (by omega) (by omega))

theorem takeRecord_advances (send : Tx → ℕ → Tx) (mem : Bytes) (recId recLen pRecordBuf : ℕ)
    (s : Session) :
    Advances pRecordBuf (pRecordBuf + recLen) s (takeRecord send mem recId recLen pRecordBuf s) := by
  unfold takeRecord
  split_ifs
  · refine (processCreditRpt_advances send mem _ pRecordBuf s).mono (Nat.le_refl _) ?_
    have := Nat.mul_div_le recLen sizeofCreditReport
    simp only [sizeofCreditReport] at this ⊢
    omega
  · exact .refl _ _ _

inductive RecordsFit (mem : Bytes) : ℕ → ℕ → Prop
  | nil (p : ℕ) : RecordsFit mem p 0
  | record {p length : ℕ} (hhdr : sizeofRecordHdr ≤ length)
      (hbody : getField mem p RecordHdr.length ≤ length - sizeofRecordHdr)
      (hrest : RecordsFit mem (p + sizeofRecordHdr + getField mem p RecordHdr.length)
        (length - sizeofRecordHdr - getField mem p RecordHdr.length)) : RecordsFit mem p length

variable {mem : Bytes} {length : ℕ}

theorem recordsFit_iff {p : ℕ} (hzero : length ≠ 0) :
    RecordsFit mem p length ↔ sizeofRecordHdr ≤ length ∧
      getField mem p RecordHdr.length ≤ length - sizeofRecordHdr ∧
      RecordsFit mem (p + sizeofRecordHdr + getField mem p RecordHdr.length)
        (length - sizeofRecordHdr - getField mem p RecordHdr.length) := by
  constructor
  · intro h
    cases h with
    | nil => exact absurd rfl hzero
    | record hhdr hbody hrest => exact ⟨hhdr, hbody, hrest⟩
  · rintro ⟨hhdr, hbody, hrest⟩
    exact .record hhdr hbody hrest

/-- The loop ends, and says whether the records fill the trailer. -/
theorem processTrailer_spec (send : Tx → ℕ → Tx) (mem : Bytes) {fuel : ℕ} (pBuffer : ℕ)
    (s : Session) (hfuel : length ≤ fuel) :
    ∃ status s', processTrailer send mem fuel pBuffer length s = some (status, s') ∧
      (status = .ok ↔ RecordsFit mem pBuffer length) ∧
      Advances pBuffer (pBuffer + length) s s' := by
  induction fuel generalizing pBuffer length s with
  | zero =>
    obtain rfl := Nat.le_zero.mp hfuel
    exact ⟨.ok, s, rfl, by simp [RecordsFit.nil], .refl _ _ _⟩
  | succ fuel ih =>
    have hread : ∀ s, 4 ≤ length → Advances pBuffer (pBuffer + length) s (s.read pBuffer) :=
      fun s hlen => .read s (Nat.le_refl _) (by omega)
    simp only [processTrailer]
    split_ifs with hzero hhdr hbody
    · subst hzero
      exact ⟨.ok, s, rfl, by simp [RecordsFit.nil], .refl _ _ _⟩
    · exact ⟨.eproto, s, rfl, by simp [recordsFit_iff hzero, Nat.not_le_of_lt hhdr],
        .refl _ _ _⟩
    · refine ⟨.eproto, _, rfl, by simp [recordsFit_iff hzero, Nat.not_le_of_lt hbody], ?_⟩
      exact (hread s (Nat.le_of_not_lt hhdr)).trans (hread _ (Nat.le_of_not_lt hhdr))
    · have hsize : sizeofRecordHdr = 4 := rfl
      have hhdr := Nat.le_of_not_lt hhdr
      have hbody := Nat.le_of_not_lt hbody
      obtain ⟨status, s', hrun, hstatus, hadv⟩ := ih (pBuffer + sizeofRecordHdr +
        getField mem pBuffer RecordHdr.length)
        (takeRecord send mem (getField mem pBuffer RecordHdr.recordID)
          (getField mem pBuffer RecordHdr.length) (pBuffer + sizeofRecordHdr)
          ((s.read pBuffer).read pBuffer))
        (show length - sizeofRecordHdr - getField mem pBuffer RecordHdr.length ≤ fuel by omega)
      refine ⟨status, s', hrun, by rw [hstatus, recordsFit_iff hzero]; simp [hhdr, hbody], ?_⟩
      have htake := takeRecord_advances send mem (getField mem pBuffer RecordHdr.recordID)
        (getField mem pBuffer RecordHdr.length) (pBuffer + sizeofRecordHdr)
        ((s.read pBuffer).read pBuffer)
      exact .trans (.trans (hread s hhdr) (hread _ hhdr))
        (.trans (htake.mono (by omega) (by omega)) (hadv.mono (by omega) (by omega)))

structure Entry where
  endpointID : UInt8
  credits : UInt8
  reserved : UInt8 × UInt8
  valid : endpointID.toNat < endpointMax

def Entry.encode (entry : Entry) : List UInt8 :=
  [entry.endpointID, entry.credits, entry.reserved.1, entry.reserved.2]

def Entry.amount (entry : Entry) : ℕ × ℕ := (entry.endpointID.toNat, entry.credits.toNat)

/-- A record whose length fits the byte for it. A report can end in a part of an entry. -/
inductive Record
  | credits (reserved : UInt8 × UInt8) (entries : List Entry) (pad : List UInt8)
      (hpad : pad.length < sizeofCreditReport)
      (hlen : sizeofCreditReport * entries.length + pad.length < 2 ^ 8)
  | other (id : UInt8) (reserved : UInt8 × UInt8) (body : List UInt8)
      (hid : id.toNat ≠ recordCredits) (hlen : body.length < 2 ^ 8)

namespace Record

def id : Record → UInt8
  | credits .. => 1
  | other id .. => id

def reserved : Record → UInt8 × UInt8
  | credits reserved .. => reserved
  | other _ reserved .. => reserved

def body : Record → List UInt8
  | credits _ entries pad .. => entries.flatMap Entry.encode ++ pad
  | other _ _ body .. => body

def entries : Record → List Entry
  | credits _ entries .. => entries
  | other .. => []

def encode (record : Record) : List UInt8 :=
  [record.id, UInt8.ofNat record.body.length, record.reserved.1, record.reserved.2] ++ record.body

theorem length_flatMap_encode (entries : List Entry) :
    (entries.flatMap Entry.encode).length = sizeofCreditReport * entries.length := by
  induction entries with
  | nil => rfl
  | cons entry entries ih =>
    rw [List.flatMap_cons, List.length_append, ih]
    simp only [Entry.encode, List.length_cons, List.length_nil, sizeofCreditReport]
    omega

theorem length_body_lt (record : Record) : record.body.length < 2 ^ 8 := by
  cases record with
  | credits reserved entries pad hpad hlen =>
    rw [body, List.length_append, length_flatMap_encode]
    exact hlen
  | other id reserved body hid hlen => exact hlen

end Record

theorem returnCredits_applied (send : Tx → ℕ → Tx) (epId credits : ℕ) (s : Session) :
    (returnCredits send epId credits s).applied = s.applied ++ [(epId, credits)] := by
  simp only [returnCredits]
  split_ifs <;> rfl

theorem processCreditRpt_applied (send : Tx → ℕ → Tx) {pRpt : ℕ}
    (entries : List Entry) (s : Session)
    (h : bytesAt mem pRpt (sizeofCreditReport * entries.length) = entries.flatMap Entry.encode) :
    (processCreditRpt send mem entries.length pRpt s).applied =
      s.applied ++ entries.map Entry.amount := by
  induction entries generalizing pRpt s with
  | nil => simp [processCreditRpt]
  | cons entry entries ih =>
    rw [List.length_cons, Nat.mul_succ, Nat.add_comm] at h
    obtain ⟨hhead, htail⟩ := bytesAt_eq_append (m := sizeofCreditReport) rfl h
    have hep : getField mem pRpt CreditReport.endpointID = entry.endpointID.toNat := by
      rw [CreditReport.endpointID, getField_low, (List.cons.inj hhead).1]
    have hcredits : getField mem pRpt CreditReport.credits = entry.credits.toNat := by
      rw [CreditReport.credits, getField_next, (List.cons.inj (List.cons.inj hhead).2).1]
    rw [List.length_cons, processCreditRpt, hep, hcredits, if_neg (Nat.not_le_of_lt entry.valid),
      ih _ htail, returnCredits_applied, List.map_cons, List.append_assoc]
    rfl

theorem takeRecord_applied (send : Tx → ℕ → Tx) {p : ℕ} (record : Record)
    (s : Session) (h : bytesAt mem p record.body.length = record.body) :
    (takeRecord send mem record.id.toNat record.body.length p s).applied =
      s.applied ++ record.entries.map Entry.amount := by
  cases record with
  | credits reserved entries pad hpad hlen =>
    have hsize : (entries.flatMap Entry.encode ++ pad).length / sizeofCreditReport =
        entries.length := by
      rw [List.length_append, Record.length_flatMap_encode,
        Nat.mul_add_div (by decide), Nat.div_eq_of_lt hpad, Nat.add_zero]
    rw [Record.body, List.length_append, Record.length_flatMap_encode] at h
    have hentries := (bytesAt_eq_append (Record.length_flatMap_encode entries) h).1
    rw [takeRecord, if_pos (show (Record.id _).toNat = recordCredits from rfl)]
    simp only [Record.body, hsize]
    exact processCreditRpt_applied send entries s hentries
  | other id reserved body hid hlen =>
    have hother : (Record.other id reserved body hid hlen).id.toNat ≠ recordCredits := hid
    rw [takeRecord, if_neg hother]
    simp [Record.entries]

/-- Every entry of a well-formed trailer is applied, in the order of the trailer. -/
theorem processTrailer_applied (send : Tx → ℕ → Tx) {fuel pBuffer : ℕ}
    (records : List Record) (s : Session) (hfuel : length ≤ fuel)
    (h : bytesAt mem pBuffer length = records.flatMap Record.encode) :
    ∃ s', processTrailer send mem fuel pBuffer length s = some (.ok, s') ∧
      s'.applied = s.applied ++ (records.flatMap Record.entries).map Entry.amount := by
  induction records generalizing fuel length pBuffer s with
  | nil =>
    have hzero : length = 0 := by simpa using congrArg List.length h
    subst hzero
    refine ⟨s, ?_, by simp⟩
    cases fuel <;> rfl
  | cons record records ih =>
    have hlen : length = sizeofRecordHdr + (record.body.length +
        (records.flatMap Record.encode).length) := by
      have hlen := congrArg List.length h
      rw [length_bytesAt, List.flatMap_cons, Record.encode, List.append_assoc, List.length_append,
        List.length_append] at hlen
      exact hlen
    rw [List.flatMap_cons, Record.encode, List.append_assoc, hlen] at h
    obtain ⟨hhdr, hrest⟩ := bytesAt_eq_append (m := sizeofRecordHdr) rfl h
    obtain ⟨hbody, hrest⟩ := bytesAt_eq_append rfl hrest
    have hrecId : getField mem pBuffer RecordHdr.recordID = record.id.toNat := by
      rw [RecordHdr.recordID, getField_low, (List.cons.inj hhdr).1]
    have hrecLen : getField mem pBuffer RecordHdr.length = record.body.length := by
      rw [RecordHdr.length, getField_next, (List.cons.inj (List.cons.inj hhdr).2).1,
        UInt8.toNat_ofNat_of_lt' record.length_body_lt]
    have hsize : sizeofRecordHdr = 4 := rfl
    obtain ⟨fuel, rfl⟩ : ∃ n, fuel = n + 1 := ⟨fuel - 1, by omega⟩
    obtain ⟨s', hrun, happlied⟩ := ih (takeRecord send mem record.id.toNat
      record.body.length (pBuffer + sizeofRecordHdr) ((s.read pBuffer).read pBuffer))
      (show (records.flatMap Record.encode).length ≤ fuel by omega) hrest
    refine ⟨s', ?_, ?_⟩
    · rw [processTrailer, if_neg (by omega), if_neg (by omega)]
      simp only [hrecId, hrecLen]
      rw [if_neg (by omega), ← hrun]
      congr 1
      omega
    · rw [happlied, takeRecord_applied send record _ hbody, List.flatMap_cons, List.map_append,
        List.append_assoc]
      rfl

end KernelModules.HtcTrailer
