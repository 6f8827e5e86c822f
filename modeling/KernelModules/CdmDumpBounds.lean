import KernelModules.CdmLanguage

/-!
# What the dumps of a command buffer read and write

The first dump prints every command that begins in the source, and looks at the end again only
before each item. The second one copies the items of a command that fits into the destination, of
whatever the source holds; without room it goes on right behind the header.

A word is inside of the source if all its bytes are.
-/

namespace KernelModules.CdmCmd

/-- The words that the first dump reads of a command. -/
def dumpReads (mem : Mem) (bufNow bufEnd : ℕ) : List ℕ :=
  let cmd := mem bufNow / 2 ^ 24
  let count := mem bufNow % 2 ^ 16
  if cmd = cmdDmi ∨ cmd = cmdDmi32 ∨ cmd = cmdDmi64 then [bufNow, bufNow + 2, bufNow + 1]
  else if cmd = cmdRegCont then
    bufNow :: (bufNow + 1) :: List.range' (bufNow + cmdHeaderSize cmdRegCont)
      (dumpItems 1 bufEnd (bufNow + cmdHeaderSize cmdRegCont) count)
  else if cmd = cmdRegRandom then
    bufNow :: List.range' (bufNow + cmdHeaderSize cmdRegRandom)
      (dumpItems 2 bufEnd (bufNow + cmdHeaderSize cmdRegRandom) count)
  else if cmd = cmdBuffIndirect then [bufNow, bufNow + 1]
  else [bufNow]

def DumpInfo.hasRoom (d : DumpInfo) (words : ℕ) : Prop :=
  4 * words + dumpHeaderSize ≤ d.dstMaxSize - d.dstOffset
deriving Decidable

/-- The words that the second dump reads of a command. -/
def dumpReadsV2 (mem : Mem) (bufNow : ℕ) (d : DumpInfo) : List ℕ :=
  let cmd := mem bufNow / 2 ^ 24
  let count := mem bufNow % 2 ^ 16
  if cmd = cmdRegCont then
    if d.hasRoom (2 + count) then
      bufNow :: (bufNow + 1) :: List.range' (bufNow + cmdHeaderSize cmdRegCont) count
    else [bufNow]
  else if cmd = cmdRegRandom then
    if d.hasRoom (1 + 2 * count) then
      bufNow :: List.range' (bufNow + cmdHeaderSize cmdRegRandom) (2 * count)
    else [bufNow]
  else [bufNow]

/-- The bytes of the destination that the second dump writes for a command. -/
def dumpWritesV2 (mem : Mem) (bufNow : ℕ) (d : DumpInfo) : List ℕ :=
  let cmd := mem bufNow / 2 ^ 24
  let count := mem bufNow % 2 ^ 16
  if cmd = cmdRegCont then
    if d.hasRoom (2 + count) then List.range' d.dstOffset (4 * (2 + count) + dumpHeaderSize) else []
  else if cmd = cmdRegRandom then
    if d.hasRoom (1 + 2 * count) then
      List.range' d.dstOffset (4 * (1 + 2 * count) + dumpHeaderSize)
    else []
  else []

def itemWords (mem : Mem) (p : ℕ) : ℕ :=
  if mem p / 2 ^ 24 = cmdRegCont then 1 else if mem p / 2 ^ 24 = cmdRegRandom then 2 else 0

def itemCount (mem : Mem) (p : ℕ) : ℕ :=
  if mem p / 2 ^ 24 = cmdRegCont ∨ mem p / 2 ^ 24 = cmdRegRandom then mem p % 2 ^ 16 else 0

/-- By how many words a walk goes over the header. A type that the walks do not know counts for one,
although `CDMCmdHeaderSizes` has three words for 0xc to 0xe. -/
def headerWords (mem : Mem) (p : ℕ) : ℕ :=
  let cmd := mem p / 2 ^ 24
  if cmd = cmdDmi ∨ cmd = cmdDmi32 ∨ cmd = cmdDmi64 then cmdHeaderSize cmdDmi
  else if cmd = cmdRegCont then cmdHeaderSize cmdRegCont
  else if cmd = cmdRegRandom then cmdHeaderSize cmdRegRandom
  else if cmd = cmdBuffIndirect then cmdHeaderSize cmdBuffIndirect
  else if cmd = cmdGenIrq then cmdHeaderSize cmdGenIrq
  else if cmd = cmdWaitEvent then cmdHeaderSize cmdWaitEvent
  else if cmd = cmdChangeBase then cmdHeaderSize cmdChangeBase
  else if cmd = cmdPerfCtrl then cmdHeaderSize cmdPerfCtrl
  else 1

def commandWords (mem : Mem) (p : ℕ) : ℕ :=
  headerWords mem p + itemWords mem p * itemCount mem p

def printedWords (mem : Mem) (p : ℕ) : ℕ :=
  let cmd := mem p / 2 ^ 24
  if cmd = cmdDmi ∨ cmd = cmdDmi32 ∨ cmd = cmdDmi64 then 3
  else if cmd = cmdRegCont ∨ cmd = cmdBuffIndirect then 2
  else 1

def dumpBytes (mem : Mem) (p : ℕ) : ℕ :=
  if itemWords mem p = 0 then 0 else 4 * commandWords mem p + dumpHeaderSize

def Copied (mem : Mem) (p : ℕ) (d : DumpInfo) : Prop :=
  itemWords mem p ≠ 0 ∧ d.hasRoom (commandWords mem p)
deriving Decidable

section Commands

variable {mem : Mem} {p bufEnd : ℕ} {d : DumpInfo}

theorem itemWords_regCont (h : mem p / 2 ^ 24 = cmdRegCont) : itemWords mem p = 1 :=
  if_pos h

theorem itemWords_regRandom (h : mem p / 2 ^ 24 = cmdRegRandom) : itemWords mem p = 2 := by
  unfold itemWords
  rw [h]
  rfl

theorem headerWords_pos (mem : Mem) (p : ℕ) : 0 < headerWords mem p := by
  unfold headerWords
  dsimp only
  split_ifs <;> decide

theorem kind_cases (mem : Mem) (p : ℕ) :
    mem p / 2 ^ 24 = cmdRegCont ∨ mem p / 2 ^ 24 = cmdRegRandom ∨
      (mem p / 2 ^ 24 ≠ cmdRegCont ∧ mem p / 2 ^ 24 ≠ cmdRegRandom) := by
  by_cases hcont : mem p / 2 ^ 24 = cmdRegCont
  · exact .inl hcont
  · by_cases hrandom : mem p / 2 ^ 24 = cmdRegRandom
    · exact .inr (.inl hrandom)
    · exact .inr (.inr ⟨hcont, hrandom⟩)

theorem dumpCmd_spec :
    dumpCmd mem p bufEnd =
      headerWords mem p +
        dumpItems (itemWords mem p) bufEnd (p + headerWords mem p) (itemCount mem p) := by
  unfold dumpCmd headerWords itemWords itemCount
  rcases kind_cases mem p with hcont | hrandom | ⟨hcont, hrandom⟩
  · rw [hcont]
    rfl
  · rw [hrandom]
    rfl
  · simp only [hcont, hrandom, or_self, reduceIte, dumpItems, Nat.add_zero]

theorem mem_dumpReads {q : ℕ} :
    q ∈ dumpReads mem p bufEnd ↔ p ≤ q ∧ q < p + printedWords mem p +
      dumpItems (itemWords mem p) bufEnd (p + headerWords mem p) (itemCount mem p) := by
  unfold dumpReads printedWords headerWords itemWords itemCount
  rcases kind_cases mem p with hcont | hrandom | ⟨hcont, hrandom⟩
  · rw [hcont]
    change q ∈ p :: (p + 1) :: List.range' (p + 2)
      (dumpItems 1 bufEnd (p + 2) (mem p % 2 ^ 16)) ↔
        p ≤ q ∧ q < p + 2 + dumpItems 1 bufEnd (p + 2) (mem p % 2 ^ 16)
    rw [List.mem_cons, List.mem_cons, List.mem_range'_1]
    omega
  · rw [hrandom]
    change q ∈ p :: List.range' (p + 1) (dumpItems 2 bufEnd (p + 1) (mem p % 2 ^ 16)) ↔
      p ≤ q ∧ q < p + 1 + dumpItems 2 bufEnd (p + 1) (mem p % 2 ^ 16)
    rw [List.mem_cons, List.mem_range'_1]
    omega
  · simp only [hcont, hrandom, or_self, false_or, reduceIte, dumpItems, Nat.add_zero]
    split_ifs
    · simp only [List.mem_cons, List.not_mem_nil, or_false]
      omega
    · simp only [List.mem_cons, List.not_mem_nil, or_false]
      omega
    · rw [List.mem_singleton]
      omega

theorem commandWords_regCont (h : mem p / 2 ^ 24 = cmdRegCont) :
    commandWords mem p = 2 + mem p % 2 ^ 16 := by
  unfold commandWords headerWords itemWords itemCount
  rw [h]
  exact congrArg (2 + ·) (Nat.one_mul _)

theorem commandWords_regRandom (h : mem p / 2 ^ 24 = cmdRegRandom) :
    commandWords mem p = 1 + 2 * (mem p % 2 ^ 16) := by
  unfold commandWords headerWords itemWords itemCount
  rw [h]
  rfl

theorem itemWords_eq_zero (hcont : mem p / 2 ^ 24 ≠ cmdRegCont)
    (hrandom : mem p / 2 ^ 24 ≠ cmdRegRandom) : itemWords mem p = 0 := by
  unfold itemWords
  rw [if_neg hcont, if_neg hrandom]

theorem not_copied (hcont : mem p / 2 ^ 24 ≠ cmdRegCont)
    (hrandom : mem p / 2 ^ 24 ≠ cmdRegRandom) : ¬ Copied mem p d :=
  fun h => h.1 (itemWords_eq_zero hcont hrandom)

theorem regRandom_ne_regCont (h : mem p / 2 ^ 24 = cmdRegRandom) : mem p / 2 ^ 24 ≠ cmdRegCont := by
  rw [h]
  decide

/-! Room is asked for the whole command, and what is put is the command behind its own header. -/

theorem copied_regCont (h : mem p / 2 ^ 24 = cmdRegCont) :
    Copied mem p d ↔ d.hasRoom (2 + mem p % 2 ^ 16) := by
  rw [Copied, itemWords_regCont h, commandWords_regCont h]
  exact and_iff_right Nat.one_ne_zero

theorem copied_regRandom (h : mem p / 2 ^ 24 = cmdRegRandom) :
    Copied mem p d ↔ d.hasRoom (1 + 2 * (mem p % 2 ^ 16)) := by
  rw [Copied, itemWords_regRandom h, commandWords_regRandom h]
  exact and_iff_right (Nat.succ_ne_zero 1)

theorem dumpBytes_regCont (h : mem p / 2 ^ 24 = cmdRegCont) :
    dumpBytes mem p = 4 * (2 + mem p % 2 ^ 16) + dumpHeaderSize := by
  rw [dumpBytes, itemWords_regCont h, commandWords_regCont h, if_neg Nat.one_ne_zero]

theorem dumpBytes_regRandom (h : mem p / 2 ^ 24 = cmdRegRandom) :
    dumpBytes mem p = 4 * (1 + 2 * (mem p % 2 ^ 16)) + dumpHeaderSize := by
  rw [dumpBytes, itemWords_regRandom h, commandWords_regRandom h, if_neg (Nat.succ_ne_zero 1)]

theorem mem_dumpReadsV2 {q : ℕ} :
    q ∈ dumpReadsV2 mem p d ↔
      p ≤ q ∧ q < p + (if Copied mem p d then commandWords mem p else 1) := by
  have hcontHeader : cmdHeaderSize cmdRegCont = 2 := rfl
  have hrandomHeader : cmdHeaderSize cmdRegRandom = 1 := rfl
  unfold dumpReadsV2
  rcases kind_cases mem p with hcont | hrandom | ⟨hcont, hrandom⟩
  · rw [if_pos hcont, commandWords_regCont hcont, hcontHeader]
    simp only [copied_regCont hcont]
    split_ifs
    · rw [List.mem_cons, List.mem_cons, List.mem_range'_1]
      omega
    · rw [List.mem_singleton]
      omega
  · rw [if_neg (regRandom_ne_regCont hrandom), if_pos hrandom, commandWords_regRandom hrandom,
      hrandomHeader]
    simp only [copied_regRandom hrandom]
    split_ifs
    · rw [List.mem_cons, List.mem_range'_1]
      omega
    · rw [List.mem_singleton]
      omega
  · rw [if_neg hcont, if_neg hrandom, if_neg (not_copied hcont hrandom), List.mem_singleton]
    omega

theorem mem_dumpWritesV2 {b : ℕ} (h : b ∈ dumpWritesV2 mem p d) :
    Copied mem p d ∧ d.dstOffset ≤ b ∧ b < d.dstOffset + dumpBytes mem p := by
  unfold dumpWritesV2 at h
  dsimp only at h
  rcases kind_cases mem p with hcont | hrandom | ⟨hcont, hrandom⟩
  · rw [if_pos hcont] at h
    rw [copied_regCont hcont, dumpBytes_regCont hcont]
    split_ifs at h with hroom
    · exact ⟨hroom, List.mem_range'_1.mp h⟩
    · cases h
  · rw [if_neg (regRandom_ne_regCont hrandom), if_pos hrandom] at h
    rw [copied_regRandom hrandom, dumpBytes_regRandom hrandom]
    split_ifs at h with hroom
    · exact ⟨hroom, List.mem_range'_1.mp h⟩
    · cases h
  · rw [if_neg hcont, if_neg hrandom] at h
    cases h

theorem dumpV2_spec (d : DumpInfo) (tag : String) (ws : List ℕ) (header items : ℕ) :
    (dumpV2 d tag ws header items).1 = header + (if d.hasRoom ws.length then items else 0) ∧
      (dumpV2 d tag ws header items).2.dstOffset =
        d.dstOffset + (if d.hasRoom ws.length then 4 * ws.length + dumpHeaderSize else 0) ∧
      (dumpV2 d tag ws header items).2.dstMaxSize = d.dstMaxSize := by
  by_cases hroom : d.hasRoom ws.length
  · rw [if_pos hroom, if_pos hroom]
    have hput : ¬ d.dstMaxSize - d.dstOffset < 4 * ws.length + dumpHeaderSize := Nat.not_lt.mpr hroom
    unfold dumpV2 DumpInfo.put
    rw [if_neg hput]
    exact ⟨rfl, rfl, rfl⟩
  · rw [if_neg hroom, if_neg hroom]
    have hput : d.dstMaxSize - d.dstOffset < 4 * ws.length + dumpHeaderSize := Nat.lt_of_not_le hroom
    unfold dumpV2 DumpInfo.put
    rw [if_pos hput]
    exact ⟨rfl, rfl, rfl⟩

theorem dumpCmdV2_spec (mem : Mem) (p : ℕ) (d : DumpInfo) :
    (dumpCmdV2 mem p d).1 =
        headerWords mem p + (if Copied mem p d then itemWords mem p * itemCount mem p else 0) ∧
      (dumpCmdV2 mem p d).2.dstOffset =
        d.dstOffset + (if Copied mem p d then dumpBytes mem p else 0) ∧
      (dumpCmdV2 mem p d).2.dstMaxSize = d.dstMaxSize := by
  rcases kind_cases mem p with hcont | hrandom | ⟨hcont, hrandom⟩
  · have hlen : (mem (p + 1) % 2 ^ 24 :: mem p % 2 ^ 16 ::
        wordsAt mem (p + 2) (mem p % 2 ^ 16)).length = 2 + mem p % 2 ^ 16 := by
      rw [List.length_cons, List.length_cons, length_wordsAt]
      omega
    have hdump := dumpV2_spec d "CDM_REG_CONT:"
      (mem (p + 1) % 2 ^ 24 :: mem p % 2 ^ 16 :: wordsAt mem (p + 2) (mem p % 2 ^ 16)) 2 (mem p % 2 ^ 16)
    rw [hlen] at hdump
    simp only [copied_regCont hcont, dumpBytes_regCont hcont, itemWords_regCont hcont, Nat.one_mul]
    unfold headerWords itemCount dumpCmdV2
    rw [hcont]
    exact hdump
  · have hlen : (mem p % 2 ^ 16 :: pairsAt mem (p + 1) (mem p % 2 ^ 16)).length =
        1 + 2 * (mem p % 2 ^ 16) := by
      rw [List.length_cons, length_pairsAt]
      omega
    have hdump := dumpV2_spec d "CDM_REG_RANDOM:"
      (mem p % 2 ^ 16 :: pairsAt mem (p + 1) (mem p % 2 ^ 16)) 1 (2 * (mem p % 2 ^ 16))
    rw [hlen] at hdump
    simp only [copied_regRandom hrandom, dumpBytes_regRandom hrandom, itemWords_regRandom hrandom]
    unfold headerWords itemCount dumpCmdV2
    rw [hrandom]
    exact hdump
  · have hcopied : ¬ Copied mem p d := not_copied hcont hrandom
    rw [if_neg hcopied, if_neg hcopied]
    unfold dumpCmdV2 headerWords
    simp only [hcont, hrandom, reduceIte, Nat.add_zero]
    split_ifs <;> exact ⟨rfl, rfl, rfl⟩

end Commands

/-- All bytes of a word lie in the source, of which `srcEnd` is the last byte. -/
def InSource (start srcEnd q : ℕ) : Prop := start ≤ q ∧ 4 * q + 3 ≤ srcEnd

/-- The first dump looks for a command there. -/
inductive DumpVisits (mem : Mem) (start srcEnd : ℕ) : ℕ → Prop
  | start : DumpVisits mem start srcEnd start
  | next {p : ℕ} (h : DumpVisits mem start srcEnd p)
      (hend : 4 * (p + dumpCmd mem p srcEnd) ≤ srcEnd) :
      DumpVisits mem start srcEnd (p + dumpCmd mem p srcEnd)

/-- The second dump gets there with this destination. -/
inductive DumpVisitsV2 (mem : Mem) (start srcEnd : ℕ) (d₀ : DumpInfo) : ℕ → DumpInfo → Prop
  | start : DumpVisitsV2 mem start srcEnd d₀ start d₀
  | next {p : ℕ} {d : DumpInfo} (h : DumpVisitsV2 mem start srcEnd d₀ p d)
      (hfree : d.dstOffset < d.dstMaxSize) (hend : 4 * (p + (dumpCmdV2 mem p d).1) ≤ srcEnd) :
      DumpVisitsV2 mem start srcEnd d₀ (p + (dumpCmdV2 mem p d).1) (dumpCmdV2 mem p d).2

structure DumpConfined (mem : Mem) (start srcEnd : ℕ) (d₀ : DumpInfo) : Prop where
  terminates : ∃ fuel, dumpCmdBuf mem srcEnd fuel start ≠ none
  reads : ∀ p, DumpVisits mem start srcEnd p →
    ∀ q ∈ dumpReads mem p srcEnd, InSource start srcEnd q
  terminatesV2 : ∃ fuel, dumpCmdBufsV2 mem srcEnd fuel start d₀ ≠ none
  readsV2 : ∀ p d, DumpVisitsV2 mem start srcEnd d₀ p d → d.dstOffset < d.dstMaxSize →
    ∀ q ∈ dumpReadsV2 mem p d, InSource start srcEnd q
  writesV2 : ∀ p d, DumpVisitsV2 mem start srcEnd d₀ p d → d.dstOffset < d.dstMaxSize →
    ∀ b ∈ dumpWritesV2 mem p d, b < d₀.dstMaxSize
  offsetV2 : ∀ fuel r, dumpCmdBufsV2 mem srcEnd fuel start d₀ = some r →
    r.2.2.dstOffset ≤ d₀.dstMaxSize
  /-- What is looked at next is a header. -/
  skippedV2 : ∀ p d, DumpVisitsV2 mem start srcEnd d₀ p d → d.dstOffset < d.dstMaxSize →
    4 * (p + (dumpCmdV2 mem p d).1) ≤ srcEnd → (dumpCmdV2 mem p d).1 = commandWords mem p

/-- The headers of the source, the first one at its start. -/
inductive RealHeader (mem : Mem) (start srcEnd : ℕ) : ℕ → Prop
  | start : RealHeader mem start srcEnd start
  | next {p : ℕ} (h : RealHeader mem start srcEnd p) (hend : 4 * (p + commandWords mem p) ≤ srcEnd) :
      RealHeader mem start srcEnd (p + commandWords mem p)

/-- The headers up to where the destination is full, with how much of it is filled. -/
inductive RealHeaderV2 (mem : Mem) (start srcEnd : ℕ) (d₀ : DumpInfo) : ℕ → ℕ → Prop
  | start : RealHeaderV2 mem start srcEnd d₀ start d₀.dstOffset
  | next {p filled : ℕ} (h : RealHeaderV2 mem start srcEnd d₀ p filled)
      (hfree : filled < d₀.dstMaxSize) (hend : 4 * (p + commandWords mem p) ≤ srcEnd) :
      RealHeaderV2 mem start srcEnd d₀ (p + commandWords mem p)
        (if filled + dumpBytes mem p ≤ d₀.dstMaxSize then filled + dumpBytes mem p else filled)

/-- What is printed of the header lies in the source, and so do the items, or the source ends
between two of them. -/
def PrintFits (mem : Mem) (srcEnd p : ℕ) : Prop :=
  4 * (p + printedWords mem p) ≤ srcEnd + 1 ∧
    (itemWords mem p ≠ 0 → 4 * (p + commandWords mem p) ≤ srcEnd + 1 ∨
      4 * itemWords mem p ∣ srcEnd + 1 - 4 * (p + headerWords mem p))

/-- The first word lies in the source, and so does all of a command that is copied; one without room
has no items, or it is the last one. -/
def CopyFits (mem : Mem) (srcEnd dstMaxSize p filled : ℕ) : Prop :=
  4 * (p + 1) ≤ srcEnd + 1 ∧
    (itemWords mem p ≠ 0 →
      (filled + dumpBytes mem p ≤ dstMaxSize → 4 * (p + commandWords mem p) ≤ srcEnd + 1) ∧
      (dstMaxSize < filled + dumpBytes mem p →
        itemCount mem p = 0 ∨ srcEnd < 4 * (p + headerWords mem p)))

section Walks

variable {mem : Mem} {start srcEnd p : ℕ} {d d₀ : DumpInfo}

theorem dumpItems_spec (srcEnd size tempPtr count : ℕ) :
    ∃ k ≤ count, dumpItems size srcEnd tempPtr count = size * k ∧
      (∀ j < k, 4 * (tempPtr + size * j) ≤ srcEnd) ∧
      (k = count ∨ srcEnd < 4 * (tempPtr + size * k)) := by
  induction count generalizing tempPtr with
  | zero => exact ⟨0, Nat.le_refl 0, rfl, nofun, .inl rfl⟩
  | succ count ih =>
    rw [dumpItems]
    by_cases hend : srcEnd < 4 * tempPtr
    · refine ⟨0, Nat.zero_le _, ?_, nofun, .inr ?_⟩
      · rw [if_pos hend, Nat.mul_zero]
      · rwa [Nat.mul_zero, Nat.add_zero]
    · obtain ⟨k, hk, hitems, hbefore, hlast⟩ := ih (tempPtr + size)
      have hstep (j : ℕ) : tempPtr + size + size * j = tempPtr + size * (j + 1) := by
        rw [Nat.mul_succ]
        omega
      refine ⟨k + 1, Nat.succ_le_succ hk, ?_, ?_, ?_⟩
      · rw [if_neg hend, hitems, Nat.mul_succ]
        omega
      · intro j hj
        cases j with
        | zero => simpa using hend
        | succ j =>
          rw [← hstep]
          exact hbefore j (by omega)
      · rw [← hstep]
        exact hlast.imp (congrArg Nat.succ) id

theorem commandWords_of_none (h : itemWords mem p = 0) :
    commandWords mem p = headerWords mem p := by
  unfold commandWords
  rw [h, Nat.zero_mul, Nat.add_zero]

theorem printedWords_eq (h : itemWords mem p ≠ 0) : printedWords mem p = headerWords mem p := by
  unfold printedWords headerWords
  rcases kind_cases mem p with hcont | hrandom | ⟨hcont, hrandom⟩
  · rw [hcont]
    rfl
  · rw [hrandom]
    rfl
  · exact absurd (itemWords_eq_zero hcont hrandom) h

variable {mem' : Mem} {q fuel : ℕ}

/-- Of a command with items the first dump reads the words that it goes over. -/
theorem mem_dumpReads_of_items (h : itemWords mem p ≠ 0) :
    q ∈ dumpReads mem p srcEnd ↔ p ≤ q ∧ q < p + dumpCmd mem p srcEnd := by
  rw [mem_dumpReads, dumpCmd_spec, printedWords_eq h, Nat.add_assoc]

theorem dumpV2_congr {n : ℕ} {ws ws' : List ℕ} (tag : String) (header items : ℕ)
    (hlen : ws.length = n) (hlen' : ws'.length = n) (h : d.hasRoom n → ws' = ws) :
    dumpV2 d tag ws' header items = dumpV2 d tag ws header items := by
  by_cases hroom : d.hasRoom n
  · rw [h hroom]
  · have hput : d.dstMaxSize - d.dstOffset < 4 * n + dumpHeaderSize := Nat.lt_of_not_le hroom
    unfold dumpV2 DumpInfo.put
    rw [hlen, hlen', if_pos hput, if_pos hput]

/-- What the second dump does with a command is decided by the words that it reads. -/
theorem dumpCmdV2_congr (h : ∀ q ∈ dumpReadsV2 mem p d, mem' q = mem q) :
    dumpCmdV2 mem' p d = dumpCmdV2 mem p d := by
  have hpos : 0 < commandWords mem p := Nat.add_pos_left (headerWords_pos mem p) _
  have hfirst : mem' p = mem p := h p (mem_dumpReadsV2.mpr ⟨le_rfl, by split_ifs <;> omega⟩)
  simp only [mem_dumpReadsV2] at h
  unfold dumpCmdV2
  rw [hfirst]
  rcases kind_cases mem p with hcont | hrandom | ⟨hcont, hrandom⟩
  · rw [hcont]
    have hlen (m : Mem) : (m (p + 1) % 2 ^ 24 :: mem p % 2 ^ 16 ::
        wordsAt m (p + 2) (mem p % 2 ^ 16)).length = 2 + mem p % 2 ^ 16 := by
      rw [List.length_cons, List.length_cons, length_wordsAt]
      omega
    refine dumpV2_congr _ _ _ (hlen mem) (hlen mem') fun hroom => ?_
    rw [if_pos ((copied_regCont hcont).mpr hroom), commandWords_regCont hcont] at h
    rw [h (p + 1) (by omega)]
    refine congrArg _ (congrArg _ (List.map_congr_left fun i hi => ?_))
    rw [List.mem_range] at hi
    exact h (p + 2 + i) (by omega)
  · rw [hrandom]
    have hlen (m : Mem) : (mem p % 2 ^ 16 :: pairsAt m (p + 1) (mem p % 2 ^ 16)).length =
        1 + 2 * (mem p % 2 ^ 16) := by
      rw [List.length_cons, length_pairsAt]
      omega
    refine dumpV2_congr _ _ _ (hlen mem) (hlen mem') fun hroom => ?_
    rw [if_pos ((copied_regRandom hrandom).mpr hroom), commandWords_regRandom hrandom] at h
    refine congrArg _ (List.flatMap_congr fun i hi => ?_)
    rw [List.mem_range] at hi
    exact congrArg₂ (fun x y => [x % 2 ^ 24, y]) (h (p + 1 + 2 * i) (by omega))
      (h (p + 1 + 2 * i + 1) (by omega))
  · simp only [hcont, hrandom, reduceIte]

/-! What the loops look at they visit. -/

theorem dumpCmdBuf_visited {ps : List ℕ} (h : DumpVisits mem start srcEnd p)
    (hrun : dumpCmdBuf mem srcEnd fuel p = some ps) (hq : q ∈ ps) :
    DumpVisits mem start srcEnd q := by
  induction fuel generalizing p ps with
  | zero => cases hrun
  | succ fuel ih =>
    rw [dumpCmdBuf] at hrun
    split_ifs at hrun with hend
    · obtain ⟨qs, hrest, rfl⟩ := Option.map_eq_some_iff.mp hrun
      rcases List.mem_cons.mp hq with rfl | hq
      · exact h
      · exact ih (h.next hend) hrest hq
    · cases hrun
      rwa [List.mem_singleton.mp hq]

theorem dumpCmdBufsV2_visited {r : ℤ × List ℕ × DumpInfo}
    (h : DumpVisitsV2 mem start srcEnd d₀ p d) (hrun : dumpCmdBufsV2 mem srcEnd fuel p d = some r)
    (hq : q ∈ r.2.1) :
    ∃ d, d.dstOffset < d.dstMaxSize ∧ DumpVisitsV2 mem start srcEnd d₀ q d := by
  induction fuel generalizing p d r with
  | zero => cases hrun
  | succ fuel ih =>
    rw [dumpCmdBufsV2] at hrun
    dsimp only at hrun
    split_ifs at hrun with hfull hend
    · cases hrun
      cases hq
    · obtain ⟨rest, hrest, rfl⟩ := Option.map_eq_some_iff.mp hrun
      rcases List.mem_cons.mp hq with rfl | hq
      · exact ⟨d, Nat.lt_of_not_le hfull, h⟩
      · exact ih (h.next (Nat.lt_of_not_le hfull) hend) hrest hq
    · cases hrun
      rw [List.mem_singleton.mp hq]
      exact ⟨d, Nat.lt_of_not_le hfull, h⟩

theorem printedWords_pos (mem : Mem) (p : ℕ) : 0 < printedWords mem p := by
  unfold printedWords
  dsimp only
  split_ifs <;> decide

theorem dumpCmd_next :
    (4 * (p + dumpCmd mem p srcEnd) ≤ srcEnd → dumpCmd mem p srcEnd = commandWords mem p) ∧
      (4 * (p + commandWords mem p) ≤ srcEnd → dumpCmd mem p srcEnd = commandWords mem p) := by
  obtain ⟨k, hk, hitems, -, hlast⟩ :=
    dumpItems_spec srcEnd (itemWords mem p) (p + headerWords mem p) (itemCount mem p)
  have hmono : itemWords mem p * k ≤ itemWords mem p * itemCount mem p :=
    Nat.mul_le_mul_left _ hk
  rw [dumpCmd_spec, hitems]
  unfold commandWords
  rcases hlast with rfl | hlast
  · exact ⟨fun _ => rfl, fun _ => rfl⟩
  · exact ⟨fun _ => by omega, fun _ => by omega⟩

theorem visits_iff : DumpVisits mem start srcEnd p ↔ RealHeader mem start srcEnd p := by
  constructor
  · intro h
    induction h with
    | start => exact .start
    | next _ hend ih =>
      have hwhole := dumpCmd_next.1 hend
      rw [hwhole] at hend ⊢
      exact ih.next hend
  · intro h
    induction h with
    | start => exact .start
    | next _ hend ih =>
      have hwhole := dumpCmd_next.2 hend
      rw [← hwhole] at hend ⊢
      exact ih.next hend

theorem reads_iff (hstart : start ≤ p) :
    (∀ q ∈ dumpReads mem p srcEnd, InSource start srcEnd q) ↔ PrintFits mem srcEnd p := by
  obtain ⟨k, hk, hitems, hbefore, hlast⟩ :=
    dumpItems_spec srcEnd (itemWords mem p) (p + headerWords mem p) (itemCount mem p)
  have hpos := printedWords_pos mem p
  have hall : (∀ q ∈ dumpReads mem p srcEnd, InSource start srcEnd q) ↔
      4 * (p + printedWords mem p + itemWords mem p * k) ≤ srcEnd + 1 := by
    simp only [mem_dumpReads, hitems, InSource]
    constructor
    · intro h
      have hq := (h (p + printedWords mem p + itemWords mem p * k - 1) (by omega)).2
      omega
    · intro h q hq
      exact ⟨by omega, by omega⟩
  rw [hall]
  unfold PrintFits
  by_cases hnone : itemWords mem p = 0
  · rw [hnone, Nat.zero_mul, Nat.add_zero]
    exact ⟨fun h => ⟨h, fun hitem => absurd rfl hitem⟩, fun h => h.1⟩
  · rw [printedWords_eq hnone]
    have hcommand : commandWords mem p = headerWords mem p + itemWords mem p * itemCount mem p := rfl
    have hmono : itemWords mem p * k ≤ itemWords mem p * itemCount mem p :=
      Nat.mul_le_mul_left _ hk
    constructor
    · intro h
      refine ⟨by omega, fun _ => ?_⟩
      rcases hlast with rfl | hlast
      · exact .inl (by omega)
      · refine .inr ⟨k, ?_⟩
        rw [Nat.mul_assoc]
        omega
    · rintro ⟨hheader, hfits⟩
      rcases hfits hnone with hwhole | ⟨m, hm⟩
      · omega
      · rw [Nat.mul_assoc] at hm
        have hle : itemWords mem p * k ≤ itemWords mem p * m := by
          cases k with
          | zero => exact Nat.mul_le_mul_left _ (Nat.zero_le m)
          | succ j =>
            have hlt := hbefore j (Nat.lt_succ_self j)
            have hjm : itemWords mem p * j < itemWords mem p * m := by omega
            exact Nat.mul_le_mul_left _ (Nat.lt_of_mul_lt_mul_left hjm)
        omega

theorem dumpCmd_pos (mem : Mem) (p srcEnd : ℕ) : 0 < dumpCmd mem p srcEnd := by
  rw [dumpCmd_spec]
  exact Nat.add_pos_left (headerWords_pos mem p) _

theorem dumpCmdBuf_terminates (mem : Mem) (srcEnd n p : ℕ) (hn : srcEnd < 4 * (p + n)) :
    ∃ fuel, dumpCmdBuf mem srcEnd fuel p ≠ none := by
  induction n generalizing p with
  | zero =>
    have hpos := dumpCmd_pos mem p srcEnd
    refine ⟨1, ?_⟩
    rw [dumpCmdBuf]
    rw [if_neg (by omega)]
    exact Option.some_ne_none _
  | succ n ih =>
    have hpos := dumpCmd_pos mem p srcEnd
    obtain ⟨fuel, hfuel⟩ := ih (p + dumpCmd mem p srcEnd) (by omega)
    refine ⟨fuel + 1, ?_⟩
    rw [dumpCmdBuf]
    split_ifs
    · rwa [Ne, Option.map_eq_none_iff]
    · exact Option.some_ne_none _

theorem dumpCmdBufsV2_terminates (mem : Mem) (srcEnd n p : ℕ) (d : DumpInfo)
    (hn : srcEnd < 4 * (p + n)) : ∃ fuel, dumpCmdBufsV2 mem srcEnd fuel p d ≠ none := by
  induction n generalizing p d with
  | zero =>
    refine ⟨1, ?_⟩
    rw [dumpCmdBufsV2]
    dsimp only
    split_ifs
    · exact Option.some_ne_none _
    · omega
    · exact Option.some_ne_none _
  | succ n ih =>
    have hpos : 0 < (dumpCmdV2 mem p d).1 := by
      rw [(dumpCmdV2_spec ..).1]
      exact Nat.add_pos_left (headerWords_pos mem p) _
    obtain ⟨fuel, hfuel⟩ := ih (p + (dumpCmdV2 mem p d).1) (dumpCmdV2 mem p d).2 (by omega)
    refine ⟨fuel + 1, ?_⟩
    rw [dumpCmdBufsV2]
    dsimp only
    split_ifs
    · exact Option.some_ne_none _
    · rwa [Ne, Option.map_eq_none_iff]
    · exact Option.some_ne_none _

theorem copied_iff_fits (hfree : d.dstOffset < d.dstMaxSize) :
    Copied mem p d ↔ itemWords mem p ≠ 0 ∧ d.dstOffset + dumpBytes mem p ≤ d.dstMaxSize := by
  unfold Copied DumpInfo.hasRoom dumpBytes
  by_cases hnone : itemWords mem p = 0
  · exact ⟨fun h => absurd hnone h.1, fun h => absurd hnone h.1⟩
  · rw [if_neg hnone]
    constructor
    · exact fun h => ⟨h.1, by omega⟩
    · exact fun h => ⟨h.1, by omega⟩

theorem dumpBytes_of_none (h : itemWords mem p = 0) : dumpBytes mem p = 0 :=
  if_pos h

theorem dumpCmdV2_filled (hfree : d.dstOffset < d.dstMaxSize) :
    (dumpCmdV2 mem p d).2.dstOffset =
      if d.dstOffset + dumpBytes mem p ≤ d.dstMaxSize then d.dstOffset + dumpBytes mem p
      else d.dstOffset := by
  rw [(dumpCmdV2_spec ..).2.1]
  by_cases hnone : itemWords mem p = 0
  · have hcopied : ¬ Copied mem p d := fun h => h.1 hnone
    rw [if_neg hcopied, dumpBytes_of_none hnone, Nat.add_zero, ite_self]
  · by_cases hfits : d.dstOffset + dumpBytes mem p ≤ d.dstMaxSize
    · rw [if_pos ((copied_iff_fits hfree).mpr ⟨hnone, hfits⟩), if_pos hfits]
    · rw [if_neg fun h => hfits ((copied_iff_fits hfree).mp h).2, if_neg hfits, Nat.add_zero]

theorem dumpCmdV2_offset_le (mem : Mem) (p : ℕ) (hle : d.dstOffset ≤ d.dstMaxSize) :
    (dumpCmdV2 mem p d).2.dstOffset ≤ d.dstMaxSize := by
  rw [(dumpCmdV2_spec ..).2.1]
  split_ifs with hcopied
  · have hroom := hcopied.2
    unfold DumpInfo.hasRoom at hroom
    unfold dumpBytes
    rw [if_neg hcopied.1]
    omega
  · exact hle

theorem dumpCmdBufsV2_offset_le {fuel : ℕ} {r : ℤ × List ℕ × DumpInfo}
    (hle : d.dstOffset ≤ d.dstMaxSize) (h : dumpCmdBufsV2 mem srcEnd fuel p d = some r) :
    r.2.2.dstOffset ≤ d.dstMaxSize := by
  induction fuel generalizing p d r with
  | zero => cases h
  | succ fuel ih =>
    have hnext := dumpCmdV2_offset_le mem p hle
    have hmax := (dumpCmdV2_spec mem p d).2.2
    rw [dumpCmdBufsV2] at h
    dsimp only at h
    split_ifs at h
    · cases h
      exact hle
    · obtain ⟨rest, hrest, rfl⟩ := Option.map_eq_some_iff.mp h
      rw [← hmax] at hnext ⊢
      exact ih (r := rest) hnext hrest
    · cases h
      exact hnext

theorem visitsV2_max (h : DumpVisitsV2 mem start srcEnd d₀ p d) : d.dstMaxSize = d₀.dstMaxSize := by
  induction h with
  | start => rfl
  | next _ _ _ ih => rw [(dumpCmdV2_spec ..).2.2, ih]

theorem start_le_visitsV2 (h : DumpVisitsV2 mem start srcEnd d₀ p d) : start ≤ p := by
  induction h with
  | start => exact Nat.le_refl _
  | next _ _ _ ih => exact Nat.le_trans ih (Nat.le_add_right _ _)

theorem start_le_visits (h : DumpVisits mem start srcEnd p) : start ≤ p := by
  induction h with
  | start => exact Nat.le_refl _
  | next _ _ ih => exact Nat.le_trans ih (Nat.le_add_right _ _)

theorem dumpCmdV2_le : (dumpCmdV2 mem p d).1 ≤ commandWords mem p := by
  rw [(dumpCmdV2_spec ..).1]
  unfold commandWords
  split_ifs
  · exact Nat.le_refl _
  · omega

/-- What the second dump reads of a command lies in the source, and it goes on behind it, exactly if
the command fits. -/
theorem readsV2_iff (hstart : start ≤ p) (hfree : d.dstOffset < d.dstMaxSize) :
    ((∀ q ∈ dumpReadsV2 mem p d, InSource start srcEnd q) ∧
      (4 * (p + (dumpCmdV2 mem p d).1) ≤ srcEnd → (dumpCmdV2 mem p d).1 = commandWords mem p)) ↔
      CopyFits mem srcEnd d.dstMaxSize p d.dstOffset := by
  have hcommand : commandWords mem p = headerWords mem p + itemWords mem p * itemCount mem p := rfl
  have hheader := headerWords_pos mem p
  have hall : (∀ q ∈ dumpReadsV2 mem p d, InSource start srcEnd q) ↔
      4 * (p + (if Copied mem p d then commandWords mem p else 1)) ≤ srcEnd + 1 := by
    have hpos : 0 < if Copied mem p d then commandWords mem p else 1 := by
      split_ifs
      · omega
      · exact Nat.one_pos
    simp only [mem_dumpReadsV2, InSource]
    generalize (if Copied mem p d then commandWords mem p else 1) = words at hpos ⊢
    constructor
    · intro h
      have hq := (h (p + words - 1) (by omega)).2
      omega
    · intro h q hq
      exact ⟨by omega, by omega⟩
  rw [hall, (dumpCmdV2_spec ..).1]
  unfold CopyFits
  by_cases hcopied : Copied mem p d
  · rw [if_pos hcopied, if_pos hcopied]
    obtain ⟨hitem, hfits⟩ := (copied_iff_fits hfree).mp hcopied
    constructor
    · rintro ⟨hwhole, -⟩
      exact ⟨by omega, fun _ => ⟨fun _ => hwhole, fun h => absurd hfits (Nat.not_le.mpr h)⟩⟩
    · rintro ⟨-, hrest⟩
      exact ⟨(hrest hitem).1 hfits, fun _ => rfl⟩
  · rw [if_neg hcopied, if_neg hcopied, Nat.add_zero]
    constructor
    · rintro ⟨hfirst, hskip⟩
      refine ⟨hfirst, fun hitem => ⟨?_, ?_⟩⟩
      · exact fun hfits => absurd ((copied_iff_fits hfree).mpr ⟨hitem, hfits⟩) hcopied
      · intro _
        by_cases hend : srcEnd < 4 * (p + headerWords mem p)
        · exact .inr hend
        · have hwhole := hskip (Nat.le_of_not_lt hend)
          have hzero : itemWords mem p * itemCount mem p = 0 := by omega
          exact .inl ((Nat.mul_eq_zero.mp hzero).resolve_left hitem)
    · rintro ⟨hfirst, hrest⟩
      refine ⟨hfirst, fun hend => ?_⟩
      by_cases hnone : itemWords mem p = 0
      · exact (commandWords_of_none hnone).symm
      · have hfull : ¬ d.dstOffset + dumpBytes mem p ≤ d.dstMaxSize := fun hfits =>
          hcopied ((copied_iff_fits hfree).mpr ⟨hnone, hfits⟩)
        rcases (hrest hnone).2 (Nat.lt_of_not_le hfull) with hzero | hlast
        · rw [hcommand, hzero, Nat.mul_zero, Nat.add_zero]
        · omega

/-- The dumps stay inside, and meet only headers, exactly where every command fits. -/
theorem dump_confined_iff :
    DumpConfined mem start srcEnd d₀ ↔
      d₀.dstOffset ≤ d₀.dstMaxSize ∧
        (∀ p, RealHeader mem start srcEnd p → PrintFits mem srcEnd p) ∧
        ∀ p filled, RealHeaderV2 mem start srcEnd d₀ p filled → filled < d₀.dstMaxSize →
          CopyFits mem srcEnd d₀.dstMaxSize p filled := by
  constructor
  · intro h
    refine ⟨?_, ?_, ?_⟩
    · by_contra hover
      have hrun : dumpCmdBufsV2 mem srcEnd 1 start d₀ = some (-enospc, [], d₀) := by
        rw [dumpCmdBufsV2, if_pos (by omega)]
      exact hover (h.offsetV2 1 _ hrun)
    · intro p hreal
      have hvisits := visits_iff.mpr hreal
      exact (reads_iff (start_le_visits hvisits)).mp (h.reads p hvisits)
    · have hvisited : ∀ p filled, RealHeaderV2 mem start srcEnd d₀ p filled →
          ∃ d, DumpVisitsV2 mem start srcEnd d₀ p d ∧ d.dstOffset = filled := by
        intro p filled hreal
        induction hreal with
        | start => exact ⟨d₀, .start, rfl⟩
        | @next p filled _ hfree hend ih =>
          obtain ⟨d, hvisits, rfl⟩ := ih
          have hmax := visitsV2_max hvisits
          rw [← hmax] at hfree ⊢
          have hshort : 4 * (p + (dumpCmdV2 mem p d).1) ≤ srcEnd :=
            Nat.le_trans (Nat.mul_le_mul_left 4 (Nat.add_le_add_left dumpCmdV2_le p)) hend
          have hwhole := h.skippedV2 p d hvisits hfree hshort
          have hnext := hvisits.next hfree hshort
          rw [hwhole] at hnext
          exact ⟨_, hnext, dumpCmdV2_filled hfree⟩
      intro p filled hreal hfree
      obtain ⟨d, hvisits, rfl⟩ := hvisited p filled hreal
      have hmax := visitsV2_max hvisits
      rw [← hmax] at hfree ⊢
      exact (readsV2_iff (start_le_visitsV2 hvisits) hfree).mp
        ⟨h.readsV2 p d hvisits hfree, h.skippedV2 p d hvisits hfree⟩
  · rintro ⟨hle, hprint, hcopy⟩
    have hreal : ∀ p d, DumpVisitsV2 mem start srcEnd d₀ p d →
        RealHeaderV2 mem start srcEnd d₀ p d.dstOffset := by
      intro p d hvisits
      induction hvisits with
      | start => exact .start
      | @next p d hvisits hfree hend ih =>
        have hmax := visitsV2_max hvisits
        have hfits := hcopy p d.dstOffset ih (hmax ▸ hfree)
        rw [← hmax] at hfits
        have hwhole := ((readsV2_iff (start_le_visitsV2 hvisits) hfree).mpr hfits).2 hend
        rw [hwhole] at hend ⊢
        rw [dumpCmdV2_filled hfree, hmax]
        exact ih.next (hmax ▸ hfree) hend
    have hboth : ∀ p d, DumpVisitsV2 mem start srcEnd d₀ p d → d.dstOffset < d.dstMaxSize →
        (∀ q ∈ dumpReadsV2 mem p d, InSource start srcEnd q) ∧
          (4 * (p + (dumpCmdV2 mem p d).1) ≤ srcEnd →
            (dumpCmdV2 mem p d).1 = commandWords mem p) := by
      intro p d hvisits hfree
      have hmax := visitsV2_max hvisits
      refine (readsV2_iff (start_le_visitsV2 hvisits) hfree).mpr ?_
      rw [hmax] at hfree ⊢
      exact hcopy p d.dstOffset (hreal p d hvisits) hfree
    refine ⟨dumpCmdBuf_terminates mem srcEnd (srcEnd + 1) start (by omega), ?_,
      dumpCmdBufsV2_terminates mem srcEnd (srcEnd + 1) start d₀ (by omega),
      fun p d hvisits hfree => (hboth p d hvisits hfree).1, ?_,
      fun fuel r => dumpCmdBufsV2_offset_le hle,
      fun p d hvisits hfree => (hboth p d hvisits hfree).2⟩
    · intro p hvisits
      exact (reads_iff (start_le_visits hvisits)).mpr (hprint p (visits_iff.mp hvisits))
    · intro p d hvisits hfree b hb
      obtain ⟨hcopied, -, hlt⟩ := mem_dumpWritesV2 hb
      rw [← visitsV2_max hvisits]
      exact Nat.lt_of_lt_of_le hlt ((copied_iff_fits hfree).mp hcopied).2

end Walks

def twoRegs : Mem := fun p => if p = 0 then 0x03000002 else 0

def freshDump (dstMaxSize : ℕ) : DumpInfo := ⟨0, dstMaxSize, []⟩

/-- Without its second register the command is copied from beyond the source; with both registers and
without room for them, they are taken for commands. -/
theorem twoRegs_not_confined :
    ¬ DumpConfined twoRegs 0 11 (freshDump 4096) ∧ ¬ DumpConfined twoRegs 0 15 (freshDump 50) := by
  constructor
  · intro h
    have hread : 3 ∈ dumpReadsV2 twoRegs 0 (freshDump 4096) := by decide +kernel
    exact absurd (h.readsV2 0 _ .start (by decide) 3 hread).2 (by decide)
  · intro h
    have hskip := h.skippedV2 0 _ .start (by decide) (by decide +kernel)
    revert hskip
    decide +kernel

end KernelModules.CdmCmd
