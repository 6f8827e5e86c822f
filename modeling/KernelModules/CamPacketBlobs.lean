import KernelModules.CamPacketWalks
import Mathlib.Tactic

/-!
# Blobs in a command buffer

A command buffer of generic blobs is a row of blocks: a word with the type and the size of a blob,
then its payload, rounded up to words. The loop looks at a word as long as less than the length of
the descriptor has been read, also where fewer bytes than a word are left of it.

Positions count bytes from the start of the mapping.
-/

namespace KernelModules.CamPacket

structure Blob where
  type : UInt32
  size : UInt32
  /-- Where the payload begins. -/
  pos : ℕ

def blobType (word : UInt32) : UInt32 := (word &&& 0xFF) >>> 0

def blobSize (word : UInt32) : UInt32 := (word &&& 0xFFFFFF00) >>> 8

/-- Computed in `size_t`, and kept in 32 bits. -/
def blobBlockSize (size : UInt32) : UInt32 := UInt32.ofNat (4 + (size.toNat + 4 - 1) / 4 * 4)

/-- Where the loop is; also, which headers it has read and what it has handed to the handler. -/
structure BlobWalk where
  lenRead : UInt32
  blobPtr : ℕ
  headers : List ℕ
  blobs : List Blob
  /-- What is returned, once the function does. -/
  outcome : Option ℤ

def returned (rc : ℤ) : BlobWalk := ⟨0, 0, [], [], some rc⟩

/-- The checks before the loop. -/
def startBlobs (mm : MemMgr) (cmdBuf : CmdBufDesc) : BlobWalk :=
  if cmdBuf.length = 0 ∨ cmdBuf.size = 0 then returned (-einval)
  else
    match mm.getCpuBuf cmdBuf.memHandle with
    | .error rc => returned rc
    | .ok (cpuAddr, bufSize) =>
      if cpuAddr = 0 ∨ bufSize = 0 then returned 0
      else if bufSize < 4 ∨ bufSize - 4 < cmdBuf.offset.toNat then returned (-einval)
      else if bufSize - cmdBuf.offset.toNat < cmdBuf.length.toNat then returned (-einval)
      else ⟨0, cmdBuf.offset.toNat, [], [], none⟩

/-- One turn of the loop. The handler may depend on what it has been called with before. -/
def blobTurn (buf : Bytes) (cmdBuf : CmdBufDesc) (handler : List Blob → ℤ) (walk : BlobWalk) :
    BlobWalk :=
  match walk.outcome with
  | some _ => walk
  | none =>
    if walk.lenRead < cmdBuf.length then
      let word := wordAt buf walk.blobPtr
      let headers := walk.headers ++ [walk.blobPtr]
      let blockSize := blobBlockSize (blobSize word)
      if cmdBuf.length < walk.lenRead + blockSize then
        { walk with headers := headers, outcome := some (-einval) }
      else
        let blobs := walk.blobs ++ [⟨blobType word, blobSize word, walk.blobPtr + 4⟩]
        let rc := handler blobs
        if rc ≠ 0 then
          { walk with
            lenRead := walk.lenRead + blockSize, headers := headers, blobs := blobs,
            outcome := some rc }
        else
          { walk with
            lenRead := walk.lenRead + blockSize, headers := headers, blobs := blobs,
            blobPtr := walk.blobPtr + 4 * (blockSize.toNat / 4) }
    else { walk with outcome := some 0 }

def processGenericCmdBuffer (mm : MemMgr) (buf : Bytes) (cmdBuf : CmdBufDesc)
    (handler : List Blob → ℤ) (n : ℕ) : BlobWalk :=
  (blobTurn buf cmdBuf handler)^[n] (startBlobs mm cmdBuf)

section Rows

variable {buf : Bytes} {p q r : ℕ} {blobs : List Blob}

def blobAt (buf : Bytes) (q : ℕ) : Blob :=
  ⟨blobType (wordAt buf q), blobSize (wordAt buf q), q + 4⟩

def blockAt (buf : Bytes) (q : ℕ) : ℕ := 4 + (((blobAt buf q).size.toNat + 3) / 4) * 4

/-- From the one position to the other the buffer holds these blobs, each where the one before it
ends. -/
inductive Laid (buf : Bytes) (p : ℕ) : List Blob → ℕ → Prop
  | none : Laid buf p [] p
  | snoc {blobs : List Blob} {q : ℕ} (h : Laid buf p blobs q) :
      Laid buf p (blobs ++ [blobAt buf q]) (q + blockAt buf q)

theorem size_lt (buf : Bytes) (q : ℕ) : (blobAt buf q).size.toNat < 2 ^ 24 := by
  have hword := (wordAt buf q &&& 0xFFFFFF00).toNat_lt
  simp only [blobAt, blobSize, UInt32.toNat_shiftRight, Nat.shiftRight_eq_div_pow]
  exact Nat.div_lt_of_lt_mul hword

theorem blockAt_ge (buf : Bytes) (q : ℕ) : (blobAt buf q).size.toNat + 4 ≤ blockAt buf q := by
  unfold blockAt
  omega

theorem blockAt_le (buf : Bytes) (q : ℕ) : blockAt buf q ≤ 2 ^ 24 + 4 := by
  have hsize := size_lt buf q
  unfold blockAt
  omega

theorem toNat_blockSize (buf : Bytes) (q : ℕ) :
    (blobBlockSize (blobSize (wordAt buf q))).toNat = blockAt buf q := by
  have hsize := size_lt buf q
  simp only [blobBlockSize, UInt32.toNat_ofNat', blockAt, blobAt] at hsize ⊢
  omega

theorem Laid.start_le (h : Laid buf p blobs q) : p ≤ q := by
  induction h with
  | none => exact Nat.le_refl p
  | snoc _ ih => exact Nat.le_trans ih (Nat.le_add_right _ _)

theorem Laid.long (h : Laid buf p blobs q) (hne : blobs ≠ []) : p + 4 ≤ q := by
  cases h with
  | none => exact absurd rfl hne
  | @snoc blobs q h =>
    have hge := blockAt_ge buf q
    have hstart := h.start_le
    omega

theorem Laid.inside (h : Laid buf p blobs q) :
    ∀ blob ∈ blobs, p + 4 ≤ blob.pos ∧ blob.pos + blob.size.toNat ≤ q := by
  induction h with
  | none =>
    intro blob hblob
    cases hblob
  | @snoc blobs q h ih =>
    intro blob hblob
    have hge := blockAt_ge buf q
    have hstart := h.start_le
    rw [List.mem_append, List.mem_singleton] at hblob
    rcases hblob with hblob | rfl
    · have hinside := ih blob hblob
      exact ⟨hinside.1, by omega⟩
    · simp only [blobAt] at hge ⊢
      exact ⟨by omega, by omega⟩

def blockEnd (buf : Bytes) (p : ℕ) : ℕ → ℕ
  | 0 => p
  | n + 1 => blockEnd buf p n + blockAt buf (blockEnd buf p n)

theorem blockEnd_strictMono (buf : Bytes) (p : ℕ) : StrictMono (blockEnd buf p) := by
  refine strictMono_nat_of_lt_succ fun n => ?_
  have hge := blockAt_ge buf (blockEnd buf p n)
  rw [blockEnd]
  omega

theorem Laid.end_eq (h : Laid buf p blobs q) : q = blockEnd buf p blobs.length := by
  induction h with
  | none => rfl
  | @snoc blobs q h ih => rw [List.length_append, List.length_singleton, blockEnd, ← ih]

theorem Laid.next_le {blobs' : List Blob} (h : Laid buf p blobs q) (h' : Laid buf p blobs' r)
    (hqr : q < r) : q + blockAt buf q ≤ r := by
  rw [h.end_eq, h'.end_eq] at hqr
  have hnext := (blockEnd_strictMono buf p).monotone
    (Nat.succ_le_of_lt ((blockEnd_strictMono buf p).lt_iff_lt.mp hqr))
  rw [← h'.end_eq] at hnext
  rw [Nat.succ_eq_add_one, blockEnd, ← h.end_eq] at hnext
  exact hnext

end Rows

def CmdBufDesc.start (cmdBuf : CmdBufDesc) : ℕ := cmdBuf.offset.toNat

def CmdBufDesc.stop (cmdBuf : CmdBufDesc) : ℕ := cmdBuf.offset.toNat + cmdBuf.length.toNat

/-- A buffer that is mapped has an address and is not empty. -/
structure Mapped (mm : MemMgr) (cmdBuf : CmdBufDesc) (bufSize : ℕ) : Prop where
  address : ∃ cpuAddr, cpuAddr ≠ 0 ∧ mm.getCpuBuf cmdBuf.memHandle = .ok (cpuAddr, bufSize)
  nonempty : bufSize ≠ 0

def Tiles (buf : Bytes) (cmdBuf : CmdBufDesc) (bufSize : ℕ) : Prop :=
  ∃ blobs, blobs ≠ [] ∧ Laid buf cmdBuf.start blobs cmdBuf.stop ∧ cmdBuf.stop ≤ bufSize

structure StaysInside (mm : MemMgr) (buf : Bytes) (cmdBuf : CmdBufDesc) (bufSize : ℕ) : Prop where
  terminates : ∀ handler, ∃ n, (processGenericCmdBuffer mm buf cmdBuf handler n).outcome ≠ none
  headers : ∀ handler n, ∀ p ∈ (processGenericCmdBuffer mm buf cmdBuf handler n).headers,
    cmdBuf.start ≤ p ∧ p + 4 ≤ cmdBuf.stop
  payloads : ∀ handler n, ∀ blob ∈ (processGenericCmdBuffer mm buf cmdBuf handler n).blobs,
    cmdBuf.start ≤ blob.pos ∧ blob.pos + blob.size.toNat ≤ cmdBuf.stop
  adjacent : ∀ handler n, ∃ q,
    Laid buf cmdBuf.start (processGenericCmdBuffer mm buf cmdBuf handler n).blobs q
  tiled : ∀ handler, (∀ blobs, handler blobs = 0) →
    ((∃ n, (processGenericCmdBuffer mm buf cmdBuf handler n).outcome = some 0) ↔
      Tiles buf cmdBuf bufSize)

def Entered (cmdBuf : CmdBufDesc) (bufSize : ℕ) : Prop :=
  cmdBuf.length ≠ 0 ∧ cmdBuf.start + 4 ≤ bufSize ∧ cmdBuf.stop ≤ bufSize

/-- Where a row of blobs ends below the length of the descriptor, a whole word is left of it, and the
end of the next block can be told in 32 bits. -/
def HeadersFit (buf : Bytes) (cmdBuf : CmdBufDesc) : Prop :=
  ∀ blobs q, Laid buf cmdBuf.start blobs q → q < cmdBuf.stop →
    q + 4 ≤ cmdBuf.stop ∧ q - cmdBuf.start + blockAt buf q < 2 ^ 32

theorem size_ne_zero {cmdBuf : CmdBufDesc} (h : validateCmdDesc cmdBuf = 0)
    (hlength : cmdBuf.length ≠ 0) : cmdBuf.size ≠ 0 := by
  intro hsize
  have hle := length_le_size h
  rw [hsize] at hle
  exact hlength (UInt32.toNat_inj.mp (Nat.le_zero.mp hle))

section Descriptor

variable {mm : MemMgr} {buf : Bytes} {cmdBuf : CmdBufDesc} {bufSize : ℕ}
  {handler : List Blob → ℤ} {walk : BlobWalk}

theorem startBlobs_entered (hmapped : Mapped mm cmdBuf bufSize)
    (hdesc : validateCmdDesc cmdBuf = 0) (hentered : Entered cmdBuf bufSize) :
    startBlobs mm cmdBuf = ⟨0, cmdBuf.start, [], [], none⟩ := by
  obtain ⟨cpuAddr, haddr, hanswer⟩ := hmapped.address
  obtain ⟨hlength, hfirst, hstop⟩ := hentered
  have hsize : cmdBuf.size ≠ 0 := size_ne_zero hdesc hlength
  unfold CmdBufDesc.start at hfirst
  unfold CmdBufDesc.stop at hstop
  unfold startBlobs
  rw [if_neg (not_or.mpr ⟨hlength, hsize⟩), hanswer]
  dsimp only
  rw [if_neg (not_or.mpr ⟨haddr, hmapped.nonempty⟩), if_neg (by omega), if_neg (by omega)]
  rfl

theorem startBlobs_refused (hmapped : Mapped mm cmdBuf bufSize)
    (hentered : ¬ Entered cmdBuf bufSize) : startBlobs mm cmdBuf = returned (-einval) := by
  obtain ⟨cpuAddr, haddr, hanswer⟩ := hmapped.address
  unfold startBlobs
  split_ifs with hzero
  · rfl
  · rw [hanswer]
    dsimp only
    rw [if_neg (not_or.mpr ⟨haddr, hmapped.nonempty⟩)]
    split_ifs with hoffset hlength
    · rfl
    · rfl
    · exfalso
      refine hentered ⟨fun h => hzero (.inl h), ?_, ?_⟩
      · unfold CmdBufDesc.start
        omega
      · unfold CmdBufDesc.stop
        omega

theorem blobTurn_of_outcome (h : walk.outcome ≠ none) : blobTurn buf cmdBuf handler walk = walk := by
  unfold blobTurn
  split
  · rfl
  · contradiction

/-- What holds of a walk of so many turns, where every header fits. -/
structure InRow (buf : Bytes) (cmdBuf : CmdBufDesc) (handler : List Blob → ℤ) (n : ℕ)
    (walk : BlobWalk) : Prop where
  laid : ∃ q, Laid buf cmdBuf.start walk.blobs q ∧ q ≤ cmdBuf.stop
  headers : ∀ p ∈ walk.headers, cmdBuf.start ≤ p ∧ p + 4 ≤ cmdBuf.stop
  running : walk.outcome = none → walk.blobs.length = n ∧
    Laid buf cmdBuf.start walk.blobs walk.blobPtr ∧ walk.blobPtr ≤ cmdBuf.stop ∧
    walk.blobPtr = cmdBuf.start + walk.lenRead.toNat
  success : walk.outcome = some 0 → Laid buf cmdBuf.start walk.blobs cmdBuf.stop
  failure : ∀ rc, walk.outcome = some rc → rc ≠ 0 →
    handler walk.blobs = rc ∨ ∀ blobs, ¬ Laid buf cmdBuf.start blobs cmdBuf.stop

theorem inRow_start : InRow buf cmdBuf handler 0 ⟨0, cmdBuf.start, [], [], none⟩ where
  laid := ⟨cmdBuf.start, .none, Nat.le_add_right _ _⟩
  headers p hp := by cases hp
  running _ := ⟨rfl, .none, Nat.le_add_right _ _, rfl⟩
  success h := by cases h
  failure rc h := by cases h

/-- A turn of a walk that is on goes to the end of the next block, or it stops. -/
theorem InRow.turn {n : ℕ} (hfit : HeadersFit buf cmdBuf) (h : InRow buf cmdBuf handler n walk) :
    InRow buf cmdBuf handler (n + 1) (blobTurn buf cmdBuf handler walk) := by
  by_cases hnone : walk.outcome = none
  · obtain ⟨hcount, hlaid, hstop, hpos⟩ := h.running hnone
    unfold blobTurn
    rw [hnone]
    dsimp only
    have hlen : cmdBuf.stop = cmdBuf.start + cmdBuf.length.toNat := rfl
    by_cases hless : walk.lenRead < cmdBuf.length
    · rw [if_pos hless]
      rw [UInt32.lt_iff_toNat_lt] at hless
      obtain ⟨hheader, hword⟩ := hfit walk.blobs walk.blobPtr hlaid (by omega)
      have hblock : (walk.lenRead + blobBlockSize (blobSize (wordAt buf walk.blobPtr))).toNat =
          walk.lenRead.toNat + blockAt buf walk.blobPtr := by
        rw [UInt32.toNat_add, toNat_blockSize]
        exact Nat.mod_eq_of_lt (by omega)
      have hheaders : ∀ p ∈ walk.headers ++ [walk.blobPtr],
          cmdBuf.start ≤ p ∧ p + 4 ≤ cmdBuf.stop := by
        intro p hp
        rw [List.mem_append, List.mem_singleton] at hp
        rcases hp with hp | rfl
        · exact h.headers p hp
        · exact ⟨by omega, hheader⟩
      split_ifs with hlong hrc
      · -- The block is too long, and so is every row that goes this far.
        rw [UInt32.lt_iff_toNat_lt, hblock] at hlong
        refine ⟨⟨walk.blobPtr, hlaid, hstop⟩, hheaders, nofun, nofun, ?_⟩
        intro rc _ _
        refine .inr fun blobs hblobs => ?_
        have hnext := hlaid.next_le hblobs (by omega)
        omega
      · rw [UInt32.lt_iff_toNat_lt, hblock] at hlong
        refine ⟨⟨_, hlaid.snoc, by omega⟩, hheaders, nofun, ?_, ?_⟩
        · intro hzero
          exact absurd (Option.some.inj hzero) hrc
        · intro rc hout _
          exact .inl (Option.some.inj hout)
      · rw [UInt32.lt_iff_toNat_lt, hblock] at hlong
        have hwords : 4 * (blockAt buf walk.blobPtr / 4) = blockAt buf walk.blobPtr := by
          unfold blockAt
          omega
        refine ⟨⟨_, hlaid.snoc, by omega⟩, hheaders, ?_, ?_, ?_⟩
        · intro _
          dsimp only
          rw [toNat_blockSize, hwords, hblock]
          refine ⟨?_, hlaid.snoc, by omega, by omega⟩
          rw [List.length_append, List.length_singleton, hcount]
        · intro hout
          cases hout
        · intro rc hout
          cases hout
    · rw [if_neg hless]
      rw [UInt32.lt_iff_toNat_lt] at hless
      have hend : walk.blobPtr = cmdBuf.stop := by omega
      refine ⟨h.laid, h.headers, nofun, fun _ => hend ▸ hlaid, ?_⟩
      intro rc hout hrc
      exact absurd (Option.some.inj hout).symm hrc
  · rw [blobTurn_of_outcome hnone]
    exact ⟨h.laid, h.headers, fun hout => absurd hout hnone, h.success, h.failure⟩

theorem inRow_run (hfit : HeadersFit buf cmdBuf) (n : ℕ) :
    InRow buf cmdBuf handler n
      ((blobTurn buf cmdBuf handler)^[n] ⟨0, cmdBuf.start, [], [], none⟩) := by
  induction n with
  | zero => exact inRow_start
  | succ n ih =>
    rw [Function.iterate_succ_apply']
    exact ih.turn hfit

theorem run_terminates (hfit : HeadersFit buf cmdBuf) :
    ((blobTurn buf cmdBuf handler)^[cmdBuf.stop + 1]
      ⟨0, cmdBuf.start, [], [], none⟩).outcome ≠ none := by
  intro hnone
  obtain ⟨hcount, hlaid, hstop, -⟩ := (inRow_run hfit (cmdBuf.stop + 1)).running hnone
  have hle := (blockEnd_strictMono buf cmdBuf.start).le_apply (x := cmdBuf.stop + 1)
  have hend := hlaid.end_eq
  rw [hcount] at hend
  omega

theorem iterate_of_outcome (h : walk.outcome ≠ none) (n : ℕ) :
    (blobTurn buf cmdBuf handler)^[n] walk = walk :=
  Function.iterate_fixed (blobTurn_of_outcome h) n

theorem staysInside_of_refused (hmapped : Mapped mm cmdBuf bufSize)
    (hentered : ¬ Entered cmdBuf bufSize) : StaysInside mm buf cmdBuf bufSize := by
  have hrun (handler : List Blob → ℤ) (n : ℕ) :
      processGenericCmdBuffer mm buf cmdBuf handler n = returned (-einval) := by
    unfold processGenericCmdBuffer
    rw [startBlobs_refused hmapped hentered]
    exact iterate_of_outcome (Option.some_ne_none _) n
  refine ⟨fun handler => ⟨0, ?_⟩, ?_, ?_, fun handler n => ⟨cmdBuf.start, ?_⟩, ?_⟩
  · rw [hrun]
    exact Option.some_ne_none _
  · intro handler n p hp
    rw [hrun] at hp
    cases hp
  · intro handler n blob hblob
    rw [hrun] at hblob
    cases hblob
  · rw [hrun]
    exact .none
  · intro handler _
    constructor
    · rintro ⟨n, hout⟩
      rw [hrun] at hout
      cases hout
    · rintro ⟨blobs, hne, hlaid, hstop⟩
      -- A row of one blob is longer than a word.
      exfalso
      have hlong := hlaid.long hne
      refine hentered ⟨?_, by omega, hstop⟩
      intro hzero
      unfold CmdBufDesc.start CmdBufDesc.stop at hlong
      rw [hzero] at hlong
      exact absurd hlong (by simp)

theorem staysInside_of_fit (hmapped : Mapped mm cmdBuf bufSize)
    (hdesc : validateCmdDesc cmdBuf = 0) (hentered : Entered cmdBuf bufSize)
    (hfit : HeadersFit buf cmdBuf) : StaysInside mm buf cmdBuf bufSize := by
  have hrun (handler : List Blob → ℤ) (n : ℕ) :
      InRow buf cmdBuf handler n (processGenericCmdBuffer mm buf cmdBuf handler n) := by
    unfold processGenericCmdBuffer
    rw [startBlobs_entered hmapped hdesc hentered]
    exact inRow_run hfit n
  have hends (handler : List Blob → ℤ) :
      (processGenericCmdBuffer mm buf cmdBuf handler (cmdBuf.stop + 1)).outcome ≠ none := by
    unfold processGenericCmdBuffer
    rw [startBlobs_entered hmapped hdesc hentered]
    exact run_terminates hfit
  refine ⟨fun handler => ⟨_, hends handler⟩, fun handler n => (hrun handler n).headers, ?_, ?_, ?_⟩
  · intro handler n blob hblob
    obtain ⟨q, hlaid, hq⟩ := (hrun handler n).laid
    have hinside := hlaid.inside blob hblob
    exact ⟨by omega, by omega⟩
  · intro handler n
    obtain ⟨q, hlaid, -⟩ := (hrun handler n).laid
    exact ⟨q, hlaid⟩
  · intro handler hhandler
    constructor
    · rintro ⟨n, hout⟩
      refine ⟨_, ?_, (hrun handler n).success hout, hentered.2.2⟩
      intro hempty
      have hlaid := (hrun handler n).success hout
      rw [hempty] at hlaid
      have hend := hlaid.end_eq
      have hlength : cmdBuf.length.toNat ≠ 0 := fun h =>
        hentered.1 (UInt32.toNat_inj.mp h)
      simp only [CmdBufDesc.start, CmdBufDesc.stop, List.length_nil, blockEnd] at hend
      omega
    · rintro ⟨blobs, -, hlaid, -⟩
      refine ⟨cmdBuf.stop + 1, ?_⟩
      obtain ⟨rc, hout⟩ := Option.ne_none_iff_exists'.mp (hends handler)
      by_cases hrc : rc = 0
      · rw [hout, hrc]
      · exfalso
        rcases (hrun handler _).failure rc hout hrc with hfailed | hshort
        · exact hrc (hfailed.symm.trans (hhandler _))
        · exact hshort blobs hlaid

theorem mem_headers_turn (hnone : walk.outcome = none) (hless : walk.lenRead < cmdBuf.length) :
    walk.blobPtr ∈ (blobTurn buf cmdBuf handler walk).headers := by
  unfold blobTurn
  rw [hnone]
  dsimp only
  rw [if_pos hless]
  split_ifs
  · exact List.mem_append_right _ (List.mem_singleton_self _)
  · exact List.mem_append_right _ (List.mem_singleton_self _)
  · exact List.mem_append_right _ (List.mem_singleton_self _)

theorem turn_succeeds (buf : Bytes) (cmdBuf : CmdBufDesc) (walk : BlobWalk)
    (hnone : walk.outcome = none) (hless : walk.lenRead < cmdBuf.length)
    (hsum : (walk.lenRead.toNat + blockAt buf walk.blobPtr) % 2 ^ 32 ≤ cmdBuf.length.toNat) :
    ∃ headers, blobTurn buf cmdBuf (fun _ => 0) walk =
      ⟨walk.lenRead + blobBlockSize (blobSize (wordAt buf walk.blobPtr)),
        walk.blobPtr + blockAt buf walk.blobPtr, headers,
        walk.blobs ++ [blobAt buf walk.blobPtr], none⟩ := by
  have hwords : 4 * (blockAt buf walk.blobPtr / 4) = blockAt buf walk.blobPtr := by
    unfold blockAt
    omega
  refine ⟨walk.headers ++ [walk.blobPtr], ?_⟩
  unfold blobTurn
  rw [hnone]
  rw [if_pos hless, if_neg, if_neg (not_not.mpr rfl), toNat_blockSize, hwords]
  · rfl
  · rw [UInt32.lt_iff_toNat_lt, UInt32.toNat_add, toNat_blockSize]
    exact Nat.not_lt.mpr hsum

theorem run_of_laid {blobs : List Blob} {q : ℕ} (h : Laid buf cmdBuf.start blobs q)
    (hq : q < cmdBuf.stop) :
    ∃ headers lenRead,
      (blobTurn buf cmdBuf fun _ => 0)^[blobs.length] ⟨0, cmdBuf.start, [], [], none⟩ =
        ⟨lenRead, q, headers, blobs, none⟩ ∧ q = cmdBuf.start + lenRead.toNat := by
  have hlen : cmdBuf.stop = cmdBuf.start + cmdBuf.length.toNat := rfl
  have hword := cmdBuf.length.toNat_lt
  induction h with
  | none => exact ⟨[], 0, rfl, rfl⟩
  | @snoc blobs q h ih =>
    have hge := blockAt_ge buf q
    obtain ⟨headers, lenRead, hrun, hpos⟩ := ih (by omega)
    have hsum : (lenRead.toNat + blockAt buf q) % 2 ^ 32 = lenRead.toNat + blockAt buf q :=
      Nat.mod_eq_of_lt (by omega)
    obtain ⟨headers', hturn⟩ := turn_succeeds buf cmdBuf
      ⟨lenRead, q, headers, blobs, none⟩ rfl
      (UInt32.lt_iff_toNat_lt.mpr (by dsimp only; omega))
      (by dsimp only; rw [hsum]; omega)
    refine ⟨headers', lenRead + blobBlockSize (blobSize (wordAt buf q)), ?_, ?_⟩
    · rw [List.length_append, List.length_singleton, Function.iterate_succ_apply', hrun]
      exact hturn
    · rw [UInt32.toNat_add, toNat_blockSize, hsum]
      omega

theorem headersFit_of_staysInside (hmapped : Mapped mm cmdBuf bufSize)
    (hdesc : validateCmdDesc cmdBuf = 0) (hentered : Entered cmdBuf bufSize)
    (h : StaysInside mm buf cmdBuf bufSize) : HeadersFit buf cmdBuf := by
  intro blobs q hlaid hq
  have hlen : cmdBuf.stop = cmdBuf.start + cmdBuf.length.toNat := rfl
  have hword := cmdBuf.length.toNat_lt
  obtain ⟨headers, lenRead, hrun, hpos⟩ := run_of_laid hlaid hq
  have hless : lenRead < cmdBuf.length := UInt32.lt_iff_toNat_lt.mpr (by omega)
  have hheaders (n : ℕ) : ∀ p ∈ ((blobTurn buf cmdBuf fun _ => 0)^[n]
      ⟨0, cmdBuf.start, [], [], none⟩).headers, p + 4 ≤ cmdBuf.stop := by
    intro p hp
    refine (h.headers (fun _ => 0) n p ?_).2
    unfold processGenericCmdBuffer
    rw [startBlobs_entered hmapped hdesc hentered]
    exact hp
  refine ⟨?_, ?_⟩
  · refine hheaders (blobs.length + 1) q ?_
    rw [Function.iterate_succ_apply', hrun]
    exact mem_headers_turn rfl hless
  · by_contra hwrap
    have hle := blockAt_le buf q
    have hsum : (lenRead.toNat + blockAt buf q) % 2 ^ 32 < cmdBuf.length.toNat := by omega
    obtain ⟨headers', hturn⟩ := turn_succeeds buf cmdBuf
      ⟨lenRead, q, headers, blobs, none⟩ rfl hless (Nat.le_of_lt hsum)
    have hread := hheaders (blobs.length + 2) (q + blockAt buf q) (by
      rw [Function.iterate_succ_apply', Function.iterate_succ_apply', hrun, hturn]
      refine mem_headers_turn rfl (UInt32.lt_iff_toNat_lt.mpr ?_)
      rw [UInt32.toNat_add, toNat_blockSize]
      exact hsum)
    omega

/-- The loop stays inside the descriptor exactly when every header does. -/
theorem processGenericCmdBuffer_staysInside_iff (hmapped : Mapped mm cmdBuf bufSize)
    (hdesc : validateCmdDesc cmdBuf = 0) :
    StaysInside mm buf cmdBuf bufSize ↔ (Entered cmdBuf bufSize → HeadersFit buf cmdBuf) := by
  constructor
  · exact fun h hentered => headersFit_of_staysInside hmapped hdesc hentered h
  · intro hfit
    by_cases hentered : Entered cmdBuf bufSize
    · exact staysInside_of_fit hmapped hdesc hentered (hfit hentered)
    · exact staysInside_of_refused hmapped hentered

end Descriptor

def emptyBlobs : Bytes := fun _ => 0

def firstBytes (length : UInt32) : CmdBufDesc := ⟨1, 0, 4096, length⟩

theorem mapped_firstBytes (length : UInt32) : Mapped onePage (firstBytes length) 4096 :=
  ⟨⟨4096, by decide, rfl⟩, by decide⟩

/-- Two blobs behind one another, of five and three bytes. -/
def twoBlobs : Bytes := fun p => if p = 1 then 5 else if p = 13 then 3 else 0

theorem twoBlobs_staysInside : StaysInside onePage twoBlobs (firstBytes 20) 4096 := by
  refine (processGenericCmdBuffer_staysInside_iff (mapped_firstBytes 20) (by decide)).mpr ?_
  intro _ blobs q hlaid hq
  obtain rfl := hlaid.end_eq
  have hfew : blobs.length < 2 :=
    (blockEnd_strictMono twoBlobs 0).lt_iff_lt.mp (hq.trans_eq (by decide))
  interval_cases blobs.length
  · decide
  · decide

/-- Of five bytes the last one is read as a header. -/
theorem fifthByte_not_staysInside :
    validateCmdDesc (firstBytes 5) = 0 ∧ Mapped onePage (firstBytes 5) 4096 ∧
      ¬ StaysInside onePage emptyBlobs (firstBytes 5) 4096 := by
  refine ⟨by decide, mapped_firstBytes 5, fun h => ?_⟩
  have hread : 4 ∈
      (processGenericCmdBuffer onePage emptyBlobs (firstBytes 5) (fun _ => 0) 2).headers := by
    decide +kernel
  exact absurd (h.headers _ 2 4 hread).2 (by decide)

end KernelModules.CamPacket
