import KernelModules.CdmCommands

/-!
# Executing undoes building

What `cdm_write_*` have laid out is executed as the register writes that were asked for, and both
walks see the commands where they were put.
-/

namespace KernelModules.CdmCmd

/-- A call of `cdm_write_changebase`, `cdm_write_regcontinuous` or `cdm_write_regrandom`. -/
inductive Cmd
  | changeBase (base : ℕ)
  | regContinuous (reg : ℕ) (vals : List ℕ)
  | regRandom (vals : List (ℕ × ℕ))

namespace Cmd

def write (mem : Mem) (p : ℕ) : Cmd → Mem × ℕ
  | changeBase base => writeChangebase mem p base
  | regContinuous reg vals => writeRegcontinuous mem p reg vals
  | regRandom vals => writeRegrandom mem p vals

def requiredSize : Cmd → ℕ
  | changeBase _ => requiredSizeChangebase
  | regContinuous _ vals => requiredSizeRegContinuous vals.length
  | regRandom vals => requiredSizeRegRandom vals.length

/-- A base that is known is the offset of a register space that is mapped. Offsets have 24 bits,
and there are as many values as the field for their number can tell. -/
def inScope (baseTable : List (Option RegMap)) : Cmd → Prop
  | changeBase base => base < 2 ^ 24 ∧ ∃ addr ≠ 0, getIoremapFromBase baseTable base = some addr
  | regContinuous reg vals => reg < 2 ^ 24 ∧ 0 < vals.length ∧ vals.length < 2 ^ 16
  | regRandom vals => 0 < vals.length ∧ vals.length < 2 ^ 16

/-! What a command asks for. -/

def newBase (baseTable : List (Option RegMap)) (base : ℕ) : Cmd → ℕ
  | changeBase hwBase => (getIoremapFromBase baseTable hwBase).getD base
  | _ => base

def writes (base : ℕ) : Cmd → List (ℕ × ℕ)
  | changeBase _ => []
  | regContinuous reg vals => vals.zipIdx.map fun v => (base + reg + 4 * v.2, v.1)
  | regRandom vals => vals.map fun regVal => (base + regVal.1, regVal.2)

def dumpSize : Cmd → ℕ
  | changeBase _ => 0
  | regContinuous _ vals => 4 * (2 + vals.length) + dumpHeaderSize
  | regRandom vals => 4 * (1 + 2 * vals.length) + dumpHeaderSize

def words : Cmd → List ℕ
  | changeBase base => [base % 2 ^ 24 + 2 ^ 24 * cmdChangeBase]
  | regContinuous reg vals => countHeader cmdRegCont vals.length :: reg % 2 ^ 24 :: vals
  | regRandom vals => countHeader cmdRegRandom vals.length :: regVals vals

end Cmd

def build : List Cmd → Mem → ℕ → Mem × ℕ
  | [], mem, p => (mem, p)
  | cmd :: cmds, mem, p => build cmds (cmd.write mem p).1 (cmd.write mem p).2

/-- The last base and the register writes that are asked for. -/
def meaning (baseTable : List (Option RegMap)) : ℕ → List Cmd → ℕ × List (ℕ × ℕ)
  | base, [] => (base, [])
  | base, cmd :: cmds =>
    let rest := meaning baseTable (cmd.newBase baseTable base) cmds
    (rest.1, cmd.writes base ++ rest.2)

def starts : List Cmd → ℕ → List ℕ
  | [], _ => []
  | cmd :: cmds, p => p :: starts cmds (p + cmd.requiredSize)

def based (base : ℕ) : List Cmd → Prop
  | [] | .changeBase _ :: _ => True
  | _ :: _ => base ≠ 0

theorem length_regVals (vals : List (ℕ × ℕ)) : (regVals vals).length = 2 * vals.length := by
  unfold regVals
  induction vals with
  | nil => rfl
  | cons regVal vals ih =>
    rw [List.flatMap_cons, List.length_append, ih]
    change 2 + 2 * vals.length = 2 * (vals.length + 1)
    omega

theorem length_words (cmd : Cmd) : cmd.words.length = cmd.requiredSize := by
  cases cmd with
  | changeBase base => rfl
  | regContinuous reg vals =>
    change vals.length + 1 + 1 = 2 + vals.length
    omega
  | regRandom vals =>
    change (regVals vals).length + 1 = 1 + 2 * vals.length
    rw [length_regVals]
    omega

theorem requiredSize_pos (cmd : Cmd) : 0 < cmd.requiredSize := by
  rw [← length_words]
  cases cmd with
  | changeBase base => exact Nat.succ_pos _
  | regContinuous reg vals => exact Nat.succ_pos _
  | regRandom vals => exact Nat.succ_pos _

theorem write_eq (cmd : Cmd) (mem : Mem) (p : ℕ) :
    cmd.write mem p = (Memory.store mem p cmd.words, p + cmd.requiredSize) := by
  cases cmd with
  | changeBase base => rfl
  | regContinuous reg vals => exact congrArg (Prod.mk _) (Nat.add_assoc p _ _)
  | regRandom vals => exact congrArg (Prod.mk _) (Nat.add_assoc p _ _)

theorem build_of_lt {q : ℕ} (cmds : List Cmd) (mem : Mem) {p : ℕ} (hq : q < p) :
    (build cmds mem p).1 q = mem q := by
  induction cmds generalizing mem p with
  | nil => rfl
  | cons cmd cmds ih =>
    rw [build, write_eq]
    have hrest := ih (Memory.store mem p cmd.words) (Nat.lt_add_right cmd.requiredSize hq)
    exact hrest.trans (Memory.store_of_lt mem cmd.words hq)

theorem build_spec (cmds : List Cmd) (mem : Mem) (p : ℕ) :
    Memory.Holds (build cmds mem p).1 p (cmds.flatMap Cmd.words) ∧
      (build cmds mem p).2 = p + (cmds.flatMap Cmd.words).length := by
  induction cmds generalizing mem p with
  | nil => exact ⟨trivial, rfl⟩
  | cons cmd cmds ih =>
    rw [build, write_eq, List.flatMap_cons, List.length_append, length_words]
    obtain ⟨hholds, hend⟩ := ih (Memory.store mem p cmd.words) (p + cmd.requiredSize)
    refine ⟨Memory.holds_append.mpr ⟨?_, ?_⟩, ?_⟩
    · apply (Memory.holds_store mem p cmd.words).congr
      intro q hq _
      rw [length_words] at hq
      exact build_of_lt cmds _ hq
    · rw [length_words]
      exact hholds
    · dsimp only at hend ⊢
      omega

theorem countHeader_div (cmd count : ℕ) : countHeader cmd count / 2 ^ 24 = cmd := by
  unfold countHeader
  omega

variable {count : ℕ} {cmds : List Cmd} {fuel bufEnd : ℕ} {d : DumpInfo}

theorem countHeader_mod (cmd : ℕ) (h : count < 2 ^ 16) :
    countHeader cmd count % 2 ^ 16 = count := by
  unfold countHeader
  omega

variable {mem : Mem} {p base : ℕ} {baseTable : List (Option RegMap)}

theorem ioMemcpy_eq {dest src : ℕ} (k : ℕ) {vals : List ℕ} (h : Memory.Holds mem src vals) :
    ioMemcpy mem (dest + 4 * k) src vals.length =
      (vals.zipIdx k).map fun v => (dest + 4 * v.2, v.1) := by
  induction vals generalizing src k with
  | nil => rfl
  | cons v vals ih =>
    have hrest := ih (k + 1) h.2
    rw [List.length_cons, ioMemcpy, List.zipIdx_cons, List.map_cons, h.1, ← hrest]
    exact congrArg (List.cons _) (congrArg (ioMemcpy mem · (src + 1) vals.length) (by omega))

theorem regRandomLoop_eq {data : ℕ} {vals : List (ℕ × ℕ)} (h : Memory.Holds mem data (regVals vals)) :
    regRandomLoop mem base data vals.length =
      vals.map fun regVal => (base + regVal.1, regVal.2) := by
  induction vals generalizing data with
  | nil => rfl
  | cons regVal vals ih =>
    obtain ⟨hreg, hval, hrest⟩ := h
    rw [List.length_cons, regRandomLoop, hreg, hval, ih hrest, List.map_cons]

/-! What is read of a header. -/

theorem changeBase_header {hwBase : ℕ} (h : Memory.Holds mem p (Cmd.changeBase hwBase).words) :
    mem p / 2 ^ 24 = cmdChangeBase ∧ mem p % 2 ^ 24 = hwBase % 2 ^ 24 := by
  have hword : mem p = hwBase % 2 ^ 24 + 2 ^ 24 * 8 := h.1
  unfold cmdChangeBase
  omega

theorem count_header {cmd : ℕ} {rest : List ℕ}
    (h : Memory.Holds mem p (countHeader cmd count :: rest)) (hlt : count < 2 ^ 16) :
    mem p / 2 ^ 24 = cmd ∧ mem p % 2 ^ 16 = count := by
  have hword : mem p = countHeader cmd count := h.1
  rw [hword, countHeader_div, countHeader_mod _ hlt]
  exact ⟨rfl, rfl⟩

variable {cmd : Cmd}

theorem execute_eq {size : ℕ} (h : Memory.Holds mem p cmd.words)
    (hscope : cmd.inScope baseTable) (hbased : based base [cmd]) (hsize : 4 * cmd.requiredSize ≤ size) :
    execute baseTable mem base p size =
      some (cmd.newBase baseTable base, cmd.writes base, 4 * cmd.requiredSize) := by
  cases cmd with
  | changeBase hwBase =>
    obtain ⟨hlt, addr, -, hknown⟩ := hscope
    obtain ⟨htype, hmod⟩ := changeBase_header h
    have hfield : mem p % 2 ^ 24 = hwBase := by omega
    have hnew : (Cmd.changeBase hwBase).newBase baseTable base = addr := by
      change (getIoremapFromBase baseTable hwBase).getD base = addr
      rw [hknown]
      rfl
    unfold execute
    rw [hnew, htype, hfield, hknown]
    rfl
  | regContinuous reg vals =>
    obtain ⟨hreg, hpos, hlt⟩ := hscope
    obtain ⟨htype, hcount⟩ := count_header h hlt
    obtain ⟨-, hoffset, hvals⟩ := h
    have hfield : mem (p + 1) % 2 ^ 24 = reg := by omega
    have hused : 4 * (2 + vals.length) ≤ size := hsize
    have hhdr : cmdHeaderSize cmdRegCont = 2 := rfl
    have hbase : base ≠ 0 := hbased
    have hcopy : ioMemcpy mem (base + reg) (p + 2) vals.length =
        (Cmd.regContinuous reg vals).writes base := ioMemcpy_eq 0 hvals
    have hbytes : vals.length * 4 + 4 * 2 = 4 * (Cmd.regContinuous reg vals).requiredSize := by
      change vals.length * 4 + 4 * 2 = 4 * (2 + vals.length)
      omega
    unfold execute regContWrite
    rw [htype, if_pos rfl, hcount, hfield, hhdr]
    dsimp only
    rw [if_neg (by omega), if_neg (by omega), hcopy, hbytes]
    rfl
  | regRandom vals =>
    obtain ⟨hpos, hlt⟩ := hscope
    obtain ⟨htype, hcount⟩ := count_header h hlt
    obtain ⟨-, hvals⟩ := h
    have hused : 4 * (1 + 2 * vals.length) ≤ size := hsize
    have hhdr : cmdHeaderSize cmdRegRandom = 1 := rfl
    have hbase : base ≠ 0 := hbased
    have hbytes : vals.length * (4 * 2) + 4 * 1 = 4 * (Cmd.regRandom vals).requiredSize := by
      change vals.length * (4 * 2) + 4 * 1 = 4 * (1 + 2 * vals.length)
      omega
    unfold execute regRandomWrite
    rw [htype, if_neg (by decide), if_pos rfl, hcount, hhdr]
    rw [if_neg hbase, if_neg (by omega), regRandomLoop_eq hvals, hbytes]
    rfl

theorem based_of_newBase (hscope : cmd.inScope baseTable)
    (hbased : based base [cmd]) : based (cmd.newBase baseTable base) cmds := by
  have hbase : cmd.newBase baseTable base ≠ 0 := by
    cases cmd with
    | changeBase hwBase =>
      obtain ⟨-, addr, haddr, hknown⟩ := hscope
      change (getIoremapFromBase baseTable hwBase).getD base ≠ 0
      rw [hknown]
      exact haddr
    | regContinuous reg vals => exact hbased
    | regRandom vals => exact hbased
  rcases cmds with _ | ⟨_ | _ | _, cmds⟩
  · trivial
  · trivial
  · exact hbase
  · exact hbase

theorem cmdBufWrite_eq
    (h : Memory.Holds mem p (cmds.flatMap Cmd.words)) (hscope : ∀ cmd ∈ cmds, cmd.inScope baseTable)
    (hbased : based base cmds) (hsize : 4 * (cmds.flatMap Cmd.words).length < 2 ^ 32)
    (hfuel : cmds.length < fuel) :
    cmdBufWrite baseTable mem fuel base p (4 * (cmds.flatMap Cmd.words).length) =
      some ⟨0, (meaning baseTable base cmds).1, (meaning baseTable base cmds).2, starts cmds p⟩ := by
  induction cmds generalizing fuel p base with
  | nil =>
    obtain ⟨fuel, rfl⟩ := Nat.exists_eq_succ_of_ne_zero (Nat.ne_of_gt hfuel)
    exact if_pos rfl
  | cons cmd cmds ih =>
    rw [List.length_cons] at hfuel
    rw [List.flatMap_cons, List.length_append, length_words] at hsize
    rw [List.flatMap_cons] at h
    obtain ⟨hcmd, hrest⟩ := Memory.holds_append.mp h
    rw [length_words] at hrest
    have hin := hscope cmd List.mem_cons_self
    have hone : based base [cmd] := by
      cases cmd with
      | changeBase hwBase => trivial
      | regContinuous reg vals => exact hbased
      | regRandom vals => exact hbased
    have hpos := requiredSize_pos cmd
    obtain ⟨fuel, rfl⟩ := Nat.exists_eq_succ_of_ne_zero (show fuel ≠ 0 by omega)
    have hless : cmds.length < fuel := by omega
    have hnext := ih hrest (fun other hother => hscope other (List.mem_cons_of_mem _ hother))
      (based_of_newBase hin hone) (by omega) hless
    rw [List.flatMap_cons, List.length_append, length_words, cmdBufWrite,
      if_neg (by omega), execute_eq hcmd hin hone (by omega)]
    dsimp only
    have hwords : p + 4 * cmd.requiredSize / 4 = p + cmd.requiredSize := by omega
    have hleft : (4 * (cmd.requiredSize + (cmds.flatMap Cmd.words).length) + 2 ^ 32 -
        4 * cmd.requiredSize) % 2 ^ 32 = 4 * (cmds.flatMap Cmd.words).length := by omega
    rw [hwords, hleft, hnext]
    rfl

theorem dumpItems_eq {size q : ℕ} (hsize : 0 < size)
    (hend : 4 * (q + size * count) ≤ bufEnd + 1) : dumpItems size bufEnd q count = size * count := by
  induction count generalizing q with
  | zero => rfl
  | succ count ih =>
    rw [Nat.mul_succ] at hend ⊢
    rw [dumpItems, if_neg (by omega), ih (by omega)]
    omega

theorem dumpCmd_eq (h : Memory.Holds mem p cmd.words)
    (hscope : cmd.inScope baseTable) (hend : 4 * (p + cmd.requiredSize) ≤ bufEnd + 1) :
    dumpCmd mem p bufEnd = cmd.requiredSize := by
  cases cmd with
  | changeBase hwBase =>
    obtain ⟨htype, -⟩ := changeBase_header h
    unfold dumpCmd
    rw [htype]
    rfl
  | regContinuous reg vals =>
    obtain ⟨htype, hcount⟩ := count_header h hscope.2.2
    change 4 * (p + (2 + vals.length)) ≤ bufEnd + 1 at hend
    have hitems : dumpItems 1 bufEnd (p + 2) vals.length = 1 * vals.length :=
      dumpItems_eq Nat.one_pos (by omega)
    unfold dumpCmd
    rw [htype, hcount]
    change 2 + dumpItems 1 bufEnd (p + 2) vals.length = 2 + vals.length
    omega
  | regRandom vals =>
    obtain ⟨htype, hcount⟩ := count_header h hscope.2
    change 4 * (p + (1 + 2 * vals.length)) ≤ bufEnd + 1 at hend
    have hitems : dumpItems 2 bufEnd (p + 1) vals.length = 2 * vals.length :=
      dumpItems_eq Nat.two_pos (by omega)
    unfold dumpCmd
    rw [htype, hcount]
    change 1 + dumpItems 2 bufEnd (p + 1) vals.length = 1 + 2 * vals.length
    omega

theorem words_ne_nil (h : cmds ≠ []) : 0 < (cmds.flatMap Cmd.words).length := by
  obtain ⟨cmd, cmds, rfl⟩ := List.exists_cons_of_ne_nil h
  have hpos := requiredSize_pos cmd
  rw [List.flatMap_cons, List.length_append, length_words]
  omega

theorem dumpCmdBuf_eq
    (h : Memory.Holds mem p (cmds.flatMap Cmd.words)) (hscope : ∀ cmd ∈ cmds, cmd.inScope baseTable)
    (hend : bufEnd + 1 = 4 * (p + (cmds.flatMap Cmd.words).length)) (hne : cmds ≠ [])
    (hfuel : cmds.length ≤ fuel) : dumpCmdBuf mem bufEnd fuel p = some (starts cmds p) := by
  induction cmds generalizing fuel p with
  | nil => exact absurd rfl hne
  | cons cmd cmds ih =>
    rw [List.length_cons] at hfuel
    rw [List.flatMap_cons, List.length_append, length_words] at hend
    rw [List.flatMap_cons] at h
    obtain ⟨hcmd, hrest⟩ := Memory.holds_append.mp h
    rw [length_words] at hrest
    obtain ⟨fuel, rfl⟩ := Nat.exists_eq_succ_of_ne_zero (show fuel ≠ 0 by omega)
    have hinside : 4 * (p + cmd.requiredSize) ≤ bufEnd + 1 := by omega
    have hlen := dumpCmd_eq hcmd (hscope cmd List.mem_cons_self) hinside
    unfold dumpCmdBuf
    rw [hlen]
    by_cases hlast : cmds = []
    · rw [hlast] at hend ⊢
      exact if_neg (by rw [List.flatMap_nil, List.length_nil] at hend; omega)
    · have hpos := words_ne_nil hlast
      have hless : cmds.length ≤ fuel := by omega
      have hnext := ih hrest (fun other hother => hscope other (List.mem_cons_of_mem _ hother))
        (by omega) hlast hless
      rw [if_pos (by omega), hnext]
      rfl

theorem length_wordsAt (p n : ℕ) : (wordsAt mem p n).length = n := by
  unfold wordsAt
  rw [List.length_map, List.length_range]

theorem length_pairsAt (p n : ℕ) : (pairsAt mem p n).length = 2 * n := by
  unfold pairsAt
  induction n with
  | zero => rfl
  | succ n ih =>
    rw [List.range_succ, List.flatMap_append, List.length_append, ih]
    rfl

theorem dumpV2_eq {ws : List ℕ} (tag : String) (header items : ℕ)
    (hroom : d.dstOffset + (4 * ws.length + dumpHeaderSize) ≤ d.dstMaxSize) :
    (dumpV2 d tag ws header items).1 = header + items ∧
      (dumpV2 d tag ws header items).2.dstOffset = d.dstOffset + (4 * ws.length + dumpHeaderSize) ∧
        (dumpV2 d tag ws header items).2.dstMaxSize = d.dstMaxSize := by
  unfold dumpV2 DumpInfo.put
  rw [if_neg (by omega)]
  exact ⟨rfl, rfl, rfl⟩

theorem dumpCmdV2_eq (h : Memory.Holds mem p cmd.words)
    (hscope : cmd.inScope baseTable) (hroom : d.dstOffset + cmd.dumpSize ≤ d.dstMaxSize) :
    (dumpCmdV2 mem p d).1 = cmd.requiredSize ∧
      (dumpCmdV2 mem p d).2.dstOffset = d.dstOffset + cmd.dumpSize ∧
        (dumpCmdV2 mem p d).2.dstMaxSize = d.dstMaxSize := by
  cases cmd with
  | changeBase hwBase =>
    obtain ⟨htype, -⟩ := changeBase_header h
    unfold dumpCmdV2
    rw [htype]
    exact ⟨rfl, rfl, rfl⟩
  | regContinuous reg vals =>
    obtain ⟨htype, hcount⟩ := count_header h hscope.2.2
    have hlen : (mem (p + 1) % 2 ^ 24 :: vals.length :: wordsAt mem (p + 2) vals.length).length =
        2 + vals.length := by
      rw [List.length_cons, List.length_cons, length_wordsAt]
      omega
    have hdump := dumpV2_eq (d := d) "CDM_REG_CONT:" 2 vals.length (by rw [hlen]; exact hroom)
    rw [hlen] at hdump
    unfold dumpCmdV2
    rw [htype, hcount]
    exact hdump
  | regRandom vals =>
    obtain ⟨htype, hcount⟩ := count_header h hscope.2
    have hlen : (vals.length :: pairsAt mem (p + 1) vals.length).length = 1 + 2 * vals.length := by
      rw [List.length_cons, length_pairsAt]
      omega
    have hdump := dumpV2_eq (d := d) "CDM_REG_RANDOM:" 1 (2 * vals.length)
      (by rw [hlen]; exact hroom)
    rw [hlen] at hdump
    unfold dumpCmdV2
    rw [htype, hcount]
    exact hdump

theorem dumpCmdBufsV2_eq {srcEnd : ℕ}
    (h : Memory.Holds mem p (cmds.flatMap Cmd.words)) (hscope : ∀ cmd ∈ cmds, cmd.inScope baseTable)
    (hend : srcEnd + 1 = 4 * (p + (cmds.flatMap Cmd.words).length)) (hne : cmds ≠ [])
    (hfuel : cmds.length ≤ fuel)
    (hroom : d.dstOffset + (cmds.map Cmd.dumpSize).sum < d.dstMaxSize) :
    ∃ d', dumpCmdBufsV2 mem srcEnd fuel p d = some (0, starts cmds p, d') := by
  induction cmds generalizing fuel p d with
  | nil => exact absurd rfl hne
  | cons cmd cmds ih =>
    rw [List.length_cons] at hfuel
    rw [List.flatMap_cons, List.length_append, length_words] at hend
    rw [List.flatMap_cons] at h
    rw [List.map_cons, List.sum_cons] at hroom
    obtain ⟨hcmd, hrest⟩ := Memory.holds_append.mp h
    rw [length_words] at hrest
    obtain ⟨fuel, rfl⟩ := Nat.exists_eq_succ_of_ne_zero (show fuel ≠ 0 by omega)
    obtain ⟨hlen, hoffset, hmax⟩ :=
      dumpCmdV2_eq (d := d) hcmd (hscope cmd List.mem_cons_self) (by omega)
    unfold dumpCmdBufsV2
    rw [if_neg (by omega), hlen]
    by_cases hlast : cmds = []
    · rw [hlast] at hend ⊢
      rw [List.flatMap_nil, List.length_nil] at hend
      exact ⟨_, if_neg (by omega)⟩
    · have hpos := words_ne_nil hlast
      have hless : cmds.length ≤ fuel := by omega
      have hleft : (dumpCmdV2 mem p d).2.dstOffset + (cmds.map Cmd.dumpSize).sum <
          (dumpCmdV2 mem p d).2.dstMaxSize := by omega
      obtain ⟨d', hnext⟩ := ih hrest
        (fun other hother => hscope other (List.mem_cons_of_mem _ hother)) (by omega) hlast hless hleft
      rw [if_pos (by omega), hnext]
      exact ⟨d', rfl⟩

/-- Each call uses the words it has to, executing the buffer writes the registers that were asked
for, in order, and both walks stop at each command and nowhere else. -/
theorem executed_of_built (baseTable : List (Option RegMap)) (base : ℕ) (mem : Mem) (p : ℕ)
    {cmds : List Cmd} (hscope : ∀ cmd ∈ cmds, cmd.inScope baseTable) (hbased : based base cmds)
    (hsize : 4 * ((build cmds mem p).2 - p) < 2 ^ 32) :
    (∀ cmd ∈ cmds, ∀ mem p, (cmd.write mem p).2 = p + cmd.requiredSize ∧
      ∀ q, q < p ∨ p + cmd.requiredSize ≤ q → (cmd.write mem p).1 q = mem q) ∧
    (∀ fuel > cmds.length,
      cmdBufWrite baseTable (build cmds mem p).1 fuel base p (4 * ((build cmds mem p).2 - p)) =
        some ⟨0, (meaning baseTable base cmds).1, (meaning baseTable base cmds).2, starts cmds p⟩) ∧
    (cmds ≠ [] → ∀ fuel ≥ cmds.length,
      dumpCmdBuf (build cmds mem p).1 (4 * (build cmds mem p).2 - 1) fuel p = some (starts cmds p) ∧
      ∀ d : DumpInfo, d.dstOffset + (cmds.map Cmd.dumpSize).sum < d.dstMaxSize →
        ∃ d', dumpCmdBufsV2 (build cmds mem p).1 (4 * (build cmds mem p).2 - 1) fuel p d =
          some (0, starts cmds p, d')) := by
  obtain ⟨hholds, hend⟩ := build_spec cmds mem p
  have hwords : (build cmds mem p).2 - p = (cmds.flatMap Cmd.words).length := by omega
  refine ⟨?_, ?_, ?_⟩
  · intro cmd _ mem p
    rw [write_eq]
    refine ⟨rfl, fun q hq => ?_⟩
    rcases hq with hlt | hge
    · exact Memory.store_of_lt mem cmd.words hlt
    · rw [← length_words] at hge
      exact Memory.store_of_ge mem cmd.words hge
  · intro fuel hfuel
    rw [hwords] at hsize ⊢
    exact cmdBufWrite_eq hholds hscope hbased hsize hfuel
  · intro hne fuel hfuel
    have hpos := words_ne_nil hne
    have hlast : 4 * (build cmds mem p).2 - 1 + 1 = 4 * (p + (cmds.flatMap Cmd.words).length) := by
      omega
    refine ⟨dumpCmdBuf_eq hholds hscope hlast hne hfuel, fun d hroom => ?_⟩
    exact dumpCmdBufsV2_eq hholds hscope hlast hne hfuel hroom

def oneSpace : List (Option RegMap) := [none, some ⟨0x1000, 0xaf000⟩]

def threeCmds : List Cmd :=
  [.changeBase 0xaf000, .regContinuous 0x10 [1, 2, 3], .regRandom [(0x20, 5)]]

theorem threeCmds_executed :
    cmdBufWrite oneSpace (build threeCmds (fun _ => 0) 100).1 4 0 100
        (4 * ((build threeCmds (fun _ => 0) 100).2 - 100)) =
      some ⟨0, 0x1000, [(0x1010, 1), (0x1014, 2), (0x1018, 3), (0x1020, 5)], [100, 101, 106]⟩ := by
  have hscope : ∀ cmd ∈ threeCmds, cmd.inScope oneSpace := by
    intro cmd hmem
    rcases List.mem_cons.mp hmem with rfl | hmem
    · exact ⟨by decide, 0x1000, by decide, rfl⟩
    rcases List.mem_pair.mp hmem with rfl | rfl
    · exact ⟨by decide, by decide, by decide⟩
    · exact ⟨by decide, by decide⟩
  have hbuilt := executed_of_built oneSpace 0 (fun _ => 0) 100 hscope trivial (by decide)
  exact hbuilt.2.1 4 (by decide)

end KernelModules.CdmCmd
