import KernelModules.CdmCommands

/-!
# What the execution of a command buffer reads

A turn of `cam_cdm_util_cmd_buf_write` compares the size of a command with the bytes that are left,
and takes the bytes that were used from them. The two are not the same: of a header of so many words
the comparison counts as many bytes. In between lie sizes that pass and are too short.
-/

namespace KernelModules.CdmCmd

def isDmi (cmdCmdType : ℕ) : Prop :=
  cmdCmdType = cmdDmi ∨ cmdCmdType = cmdSwdDmi32 ∨ cmdCmdType = cmdSwdDmi64
deriving Decidable

/-- How many bytes the command takes up, with its header and its payload. -/
def commandBytes (mem : Mem) (cmdBuf : ℕ) : ℕ :=
  let cdmCmdType := mem cmdBuf / 2 ^ 24
  let count := mem cmdBuf % 2 ^ 16
  if cdmCmdType = cmdRegCont then 4 * requiredSizeRegContinuous count
  else if cdmCmdType = cmdRegRandom then 4 * requiredSizeRegRandom count
  else if isDmi cdmCmdType then 4 * cmdHeaderSize cmdDmi + count + 1
  else 4

/-- The base behind a command that is supported and has something to write to. -/
def nextBase (baseTable : List (Option RegMap)) (mem : Mem) (base cmdBuf : ℕ) : Option ℕ :=
  let cdmCmdType := mem cmdBuf / 2 ^ 24
  if cdmCmdType = cmdRegCont ∨ cdmCmdType = cmdRegRandom then
    if base = 0 ∨ mem cmdBuf % 2 ^ 16 = 0 then none else some base
  else if isDmi cdmCmdType then if base = 0 then none else some base
  else if cdmCmdType = cmdChangeBase then getIoremapFromBase baseTable (mem cmdBuf % 2 ^ 24)
  else none

/-- The fewest bytes that the command is checked for. -/
def checkedBytes (mem : Mem) (cmdBuf : ℕ) : ℕ :=
  let cdmCmdType := mem cmdBuf / 2 ^ 24
  let count := mem cmdBuf % 2 ^ 16
  if cdmCmdType = cmdRegCont then count * 4 + cmdHeaderSize cmdRegCont
  else if cdmCmdType = cmdRegRandom then count * (4 * 2) + cmdHeaderSize cmdRegRandom
  else if isDmi cdmCmdType then cmdHeaderSize cmdDmi + count + 1
  else 0

/-- The words that a turn reads, at least the first one of the command. -/
def turnReads (baseTable : List (Option RegMap)) (mem : Mem) (base cmdBuf cmdBufSize : ℕ) :
    List ℕ :=
  let cdmCmdType := mem cmdBuf / 2 ^ 24
  let count := mem cmdBuf % 2 ^ 16
  if (execute baseTable mem base cmdBuf cmdBufSize).isNone then [cmdBuf]
  else if cdmCmdType = cmdRegCont then
    cmdBuf :: (cmdBuf + 1) :: List.range' (cmdBuf + cmdHeaderSize cmdRegCont) count
  else if cdmCmdType = cmdRegRandom then
    cmdBuf :: List.range' (cmdBuf + cmdHeaderSize cmdRegRandom) (2 * count)
  else if cdmCmdType = cmdSwdDmi64 then
    cmdBuf :: (cmdBuf + 2) ::
      List.range' (cmdBuf + cmdHeaderSize cmdDmi) (2 * ((count + 1) / 8))
  else if isDmi cdmCmdType then
    cmdBuf :: (cmdBuf + 2) :: List.range' (cmdBuf + cmdHeaderSize cmdDmi) ((count + 1) / 4)
  else [cmdBuf]

section Turn

variable {baseTable : List (Option RegMap)} {mem : Mem} {base cmdBuf cmdBufSize : ℕ}

theorem counted_spec (base cmdBufSize : ℕ) (writes : List (ℕ × ℕ))
    {count header used used' : ℕ} {short : Prop} [Decidable short] (hcount : count < 2 ^ 16)
    (hshort : short → cmdBufSize < header)
    (hused : used = used') {size : ℕ} (hsize : header ≤ size) :
    ((if short ∨ base = 0 then none
      else if count = 0 ∨ 0x10000 < count ∨ cmdBufSize < size then none
      else some (writes, used)).map (base, ·)).map (fun r => (r.1, r.2.2)) =
      if size ≤ cmdBufSize then
        (if base = 0 ∨ count = 0 then none else some base).map (·, used')
      else none := by
  by_cases hfits : size ≤ cmdBufSize
  · have hnot : ¬short := fun h => absurd (hshort h) (by omega)
    rw [if_pos hfits]
    by_cases hbase : base = 0 ∨ count = 0
    · rw [if_pos hbase]
      split_ifs
      · rfl
      · rfl
      · omega
    · rw [if_neg hbase, if_neg fun h => h.elim hnot fun hzero => hbase (.inl hzero),
        if_neg (by omega), hused]
      rfl
  · rw [if_neg hfits]
    split_ifs
    · rfl
    · rfl
    · omega

theorem regContWrite_spec :
    ((regContWrite mem base cmdBuf cmdBufSize).map (base, ·)).map (fun r => (r.1, r.2.2)) =
      if mem cmdBuf % 2 ^ 16 * 4 + cmdHeaderSize cmdRegCont ≤ cmdBufSize then
        (if base = 0 ∨ mem cmdBuf % 2 ^ 16 = 0 then none else some base).map
          (·, 4 * requiredSizeRegContinuous (mem cmdBuf % 2 ^ 16))
      else none := by
  refine counted_spec base cmdBufSize _ (Nat.mod_lt _ (by decide)) id ?_ (Nat.le_add_left _ _)
  have hheader : cmdHeaderSize cmdRegCont = 2 := rfl
  unfold requiredSizeRegContinuous
  omega

theorem regRandomWrite_spec :
    ((regRandomWrite mem base cmdBuf cmdBufSize).map (base, ·)).map (fun r => (r.1, r.2.2)) =
      if mem cmdBuf % 2 ^ 16 * (4 * 2) + cmdHeaderSize cmdRegRandom ≤ cmdBufSize then
        (if base = 0 ∨ mem cmdBuf % 2 ^ 16 = 0 then none else some base).map
          (·, 4 * requiredSizeRegRandom (mem cmdBuf % 2 ^ 16))
      else none := by
  have hheader : cmdHeaderSize cmdRegRandom = 1 := rfl
  have hused : mem cmdBuf % 2 ^ 16 * (4 * 2) + 4 * cmdHeaderSize cmdRegRandom =
      4 * requiredSizeRegRandom (mem cmdBuf % 2 ^ 16) := by
    unfold requiredSizeRegRandom
    omega
  have hspec := counted_spec base cmdBufSize
    (regRandomLoop mem base (cmdBuf + cmdHeaderSize cmdRegRandom) (mem cmdBuf % 2 ^ 16))
    (Nat.mod_lt (mem cmdBuf) (by decide : 2 ^ 16 > 0)) False.elim hused
    (Nat.le_add_left (cmdHeaderSize cmdRegRandom) (mem cmdBuf % 2 ^ 16 * (4 * 2)))
  simp only [false_or] at hspec
  exact hspec

theorem swdDmiWrite_spec (cdmCmdType : ℕ) :
    (if base = 0 then none
      else (swdDmiWrite mem cdmCmdType base cmdBuf cmdBufSize).map (base, ·)).map
        (fun r => (r.1, r.2.2)) =
      if cmdHeaderSize cmdDmi + mem cmdBuf % 2 ^ 16 + 1 ≤ cmdBufSize then
        (if base = 0 then none else some base).map
          (·, 4 * cmdHeaderSize cmdDmi + mem cmdBuf % 2 ^ 16 + 1)
      else none := by
  by_cases hbase : base = 0
  · rw [if_pos hbase, if_pos hbase]
    split_ifs
    · rfl
    · rfl
  · rw [if_neg hbase, if_neg hbase]
    unfold swdDmiWrite
    by_cases hfits : cmdHeaderSize cmdDmi + mem cmdBuf % 2 ^ 16 + 1 ≤ cmdBufSize
    · rw [if_pos hfits, if_neg (Nat.not_lt.mpr hfits)]
      rfl
    · rw [if_neg hfits, if_pos (Nat.lt_of_not_le hfits)]
      rfl

theorem execute_spec (baseTable : List (Option RegMap)) (mem : Mem) (base cmdBuf cmdBufSize : ℕ) :
    (execute baseTable mem base cmdBuf cmdBufSize).map (fun r => (r.1, r.2.2)) =
      if checkedBytes mem cmdBuf ≤ cmdBufSize then
        (nextBase baseTable mem base cmdBuf).map (·, commandBytes mem cmdBuf)
      else none := by
  unfold execute checkedBytes nextBase commandBytes
  generalize mem cmdBuf / 2 ^ 24 = cdmCmdType
  by_cases hcont : cdmCmdType = cmdRegCont
  · simp only [hcont, reduceIte, true_or]
    exact regContWrite_spec
  by_cases hrandom : cdmCmdType = cmdRegRandom
  · have hother : cmdRegRandom ≠ cmdRegCont := by decide
    simp only [hrandom, hother, reduceIte, or_true]
    exact regRandomWrite_spec
  simp only [hcont, hrandom, or_self, reduceIte]
  by_cases hdmi : isDmi cdmCmdType
  · have hwrite : cdmCmdType = cmdDmi ∨ cdmCmdType = cmdSwdDmi32 ∨ cdmCmdType = cmdSwdDmi64 := hdmi
    simp only [hdmi, hwrite, reduceIte]
    exact swdDmiWrite_spec cdmCmdType
  · have hwrite : ¬ (cdmCmdType = cmdDmi ∨ cdmCmdType = cmdSwdDmi32 ∨
        cdmCmdType = cmdSwdDmi64) := hdmi
    simp only [hdmi, hwrite, reduceIte, Nat.zero_le]
    by_cases hchange : cdmCmdType = cmdChangeBase
    · rw [if_pos hchange, if_pos hchange, Option.map_map]
      rfl
    · rw [if_neg hchange, if_neg hchange]
      rfl

theorem execute_some {r : ℕ × List (ℕ × ℕ) × ℕ}
    (h : execute baseTable mem base cmdBuf cmdBufSize = some r) :
    checkedBytes mem cmdBuf ≤ cmdBufSize ∧ nextBase baseTable mem base cmdBuf = some r.1 ∧
      r.2.2 = commandBytes mem cmdBuf := by
  have hspec := execute_spec baseTable mem base cmdBuf cmdBufSize
  rw [h] at hspec
  split_ifs at hspec with hchecked
  · obtain ⟨base', hbase, hpair⟩ := Option.map_eq_some_iff.mp hspec.symm
    obtain ⟨rfl, hused⟩ := Prod.mk.inj hpair
    exact ⟨hchecked, hbase, hused.symm⟩
  · cases hspec

theorem execute_of_checked {base' : ℕ} (hchecked : checkedBytes mem cmdBuf ≤ cmdBufSize)
    (hbase : nextBase baseTable mem base cmdBuf = some base') :
    ∃ writes, execute baseTable mem base cmdBuf cmdBufSize =
      some (base', writes, commandBytes mem cmdBuf) := by
  have hspec := execute_spec baseTable mem base cmdBuf cmdBufSize
  rw [if_pos hchecked, hbase] at hspec
  obtain ⟨⟨base'', writes, used⟩, hexec, hpair⟩ := Option.map_eq_some_iff.mp hspec
  obtain ⟨rfl, rfl⟩ := Prod.mk.inj hpair
  exact ⟨writes, hexec⟩

theorem commandBytes_ge (mem : Mem) (cmdBuf : ℕ) : 4 ≤ commandBytes mem cmdBuf := by
  have hcont : cmdHeaderSize cmdRegCont = 2 := rfl
  have hrandom : cmdHeaderSize cmdRegRandom = 1 := rfl
  have hdmi : cmdHeaderSize cmdDmi = 3 := rfl
  unfold commandBytes requiredSizeRegContinuous requiredSizeRegRandom
  rw [hcont, hrandom, hdmi]
  dsimp only
  split_ifs
  · omega
  · omega
  · omega
  · omega

theorem checkedBytes_le (mem : Mem) (cmdBuf : ℕ) :
    checkedBytes mem cmdBuf ≤ commandBytes mem cmdBuf := by
  have hcont : cmdHeaderSize cmdRegCont = 2 := rfl
  have hrandom : cmdHeaderSize cmdRegRandom = 1 := rfl
  have hdmi : cmdHeaderSize cmdDmi = 3 := rfl
  unfold checkedBytes commandBytes requiredSizeRegContinuous requiredSizeRegRandom
  rw [hcont, hrandom, hdmi]
  dsimp only
  split_ifs
  · omega
  · omega
  · omega
  · omega

theorem block_inside {p skip header n bytes q : ℕ}
    (h : q ∈ p :: (p + skip) :: List.range' (p + header) n) (hskip : 4 * (skip + 1) ≤ bytes)
    (hbytes : 4 * (header + n) ≤ bytes) : q = p ∨ (p ≤ q ∧ 4 * (q + 1) ≤ 4 * p + bytes) := by
  simp only [List.mem_cons, List.mem_range'_1] at h
  omega

/-- Beyond the first word nothing is read of a command that is refused, and of the others only what
they take up. -/
theorem turnReads_inside {q : ℕ} (h : q ∈ turnReads baseTable mem base cmdBuf cmdBufSize) :
    q = cmdBuf ∨ (execute baseTable mem base cmdBuf cmdBufSize ≠ none ∧ cmdBuf ≤ q ∧
      4 * (q + 1) ≤ 4 * cmdBuf + commandBytes mem cmdBuf) := by
  have hregCont : cmdHeaderSize cmdRegCont = 2 := rfl
  have hregRandom : cmdHeaderSize cmdRegRandom = 1 := rfl
  have hheader : cmdHeaderSize cmdDmi = 3 := rfl
  unfold turnReads at h
  unfold commandBytes requiredSizeRegContinuous requiredSizeRegRandom
  rw [hregCont, hregRandom, hheader] at h ⊢
  dsimp only at h ⊢
  generalize mem cmdBuf / 2 ^ 24 = cdmCmdType at h ⊢
  by_cases hexec : execute baseTable mem base cmdBuf cmdBufSize = none
  · rw [hexec] at h
    exact .inl (List.mem_singleton.mp h)
  rw [if_neg (by rwa [Option.isNone_iff_eq_none])] at h
  by_cases hcont : cdmCmdType = cmdRegCont
  · rw [if_pos hcont] at h ⊢
    exact (block_inside h (by omega) (by omega)).imp_right fun hin => ⟨hexec, hin⟩
  rw [if_neg hcont] at h ⊢
  by_cases hrandom : cdmCmdType = cmdRegRandom
  · rw [if_pos hrandom] at h ⊢
    simp only [List.mem_cons, List.mem_range'_1] at h
    rcases h with rfl | ⟨hlo, hhi⟩
    · exact .inl rfl
    · exact .inr ⟨hexec, by omega, by omega⟩
  rw [if_neg hrandom] at h ⊢
  by_cases hwide : cdmCmdType = cmdSwdDmi64
  · have hdmi : isDmi cdmCmdType := .inr (.inr hwide)
    rw [if_pos hwide] at h
    rw [if_pos hdmi]
    exact (block_inside h (by omega) (by omega)).imp_right fun hin => ⟨hexec, hin⟩
  rw [if_neg hwide] at h
  by_cases hdmi : isDmi cdmCmdType
  · rw [if_pos hdmi] at h ⊢
    exact (block_inside h (by omega) (by omega)).imp_right fun hin => ⟨hexec, hin⟩
  · rw [if_neg hdmi] at h
    exact .inl (List.mem_singleton.mp h)

variable {mem' : Mem}

theorem ioMemcpy_congr {dest src len : ℕ} (h : ∀ q ∈ List.range' src len, mem' q = mem q) :
    ioMemcpy mem' dest src len = ioMemcpy mem dest src len := by
  induction len generalizing dest src with
  | zero => rfl
  | succ len ih =>
    rw [List.range'_succ, List.forall_mem_cons] at h
    rw [ioMemcpy, ioMemcpy, h.1, ih h.2]

theorem regRandomLoop_congr {data count : ℕ}
    (h : ∀ q ∈ List.range' data (2 * count), mem' q = mem q) :
    regRandomLoop mem' base data count = regRandomLoop mem base data count := by
  induction count generalizing data with
  | zero => rfl
  | succ count ih =>
    rw [Nat.mul_succ, List.range'_succ, List.range'_succ, List.forall_mem_cons,
      List.forall_mem_cons] at h
    rw [regRandomLoop, regRandomLoop, h.1, h.2.1, ih h.2.2]

theorem dmiLoop_congr (regs : List ℕ) {data count : ℕ}
    (h : ∀ q ∈ List.range' data (regs.length * count), mem' q = mem q) :
    dmiLoop mem' regs data count = dmiLoop mem regs data count := by
  induction count generalizing data with
  | zero => rfl
  | succ count ih =>
    rw [Nat.mul_succ, Nat.add_comm, ← List.range'_append_1, List.forall_mem_append] at h
    rw [dmiLoop, dmiLoop, ih h.2]
    refine congrArg (· ++ _) (List.map_congr_left fun reg hreg => ?_)
    rw [h.1 _ (List.mem_range'_1.mpr ⟨Nat.le_add_right _ _, ?_⟩)]
    exact Nat.add_lt_add_left (List.snd_lt_of_mem_zipIdx hreg) _

/-- What a turn does is decided by the words that it reads. -/
theorem execute_congr
    (h : ∀ q ∈ turnReads baseTable mem base cmdBuf cmdBufSize, mem' q = mem q) :
    execute baseTable mem' base cmdBuf cmdBufSize =
      execute baseTable mem base cmdBuf cmdBufSize := by
  have hfirst : mem' cmdBuf = mem cmdBuf := by
    refine h cmdBuf ?_
    unfold turnReads
    dsimp only
    split_ifs <;> exact List.mem_cons_self
  by_cases hexec : execute baseTable mem base cmdBuf cmdBufSize = none
  · have hnone := execute_spec baseTable mem' base cmdBuf cmdBufSize
    unfold checkedBytes nextBase commandBytes at hnone
    rw [hfirst] at hnone
    have hspec := execute_spec baseTable mem base cmdBuf cmdBufSize
    rw [hexec] at hspec ⊢
    exact Option.map_eq_none_iff.mp (hnone.trans hspec.symm)
  · unfold turnReads at h
    rw [if_neg (by rwa [Option.isNone_iff_eq_none])] at h
    unfold execute regContWrite regRandomWrite swdDmiWrite
    dsimp only at h ⊢
    rw [hfirst]
    generalize mem cmdBuf / 2 ^ 24 = cdmCmdType at h ⊢
    by_cases hcont : cdmCmdType = cmdRegCont
    · rw [if_pos hcont, List.forall_mem_cons, List.forall_mem_cons] at h
      simp only [hcont, reduceIte, h.2.1, ioMemcpy_congr h.2.2]
    rw [if_neg hcont] at h
    by_cases hrandom : cdmCmdType = cmdRegRandom
    · rw [if_pos hrandom, List.forall_mem_cons] at h
      simp only [if_neg hcont, if_pos hrandom, regRandomLoop_congr h.2]
    rw [if_neg hrandom] at h
    by_cases hwide : cdmCmdType = cmdSwdDmi64
    · rw [if_pos hwide, List.forall_mem_cons, List.forall_mem_cons] at h
      have hdata (r s : ℕ) := dmiLoop_congr [r, s] h.2.2
      simp only [if_neg hcont, if_neg hrandom, if_pos hwide, h.2.1, hdata]
    rw [if_neg hwide] at h
    by_cases hdmi : isDmi cdmCmdType
    · rw [if_pos hdmi, List.forall_mem_cons, List.forall_mem_cons,
        ← Nat.one_mul ((mem cmdBuf % 2 ^ 16 + 1) / 4)] at h
      have hdata (r : ℕ) := dmiLoop_congr [r] h.2.2
      simp only [hcont, hrandom, hwide, reduceIte, h.2.1, hdata]
    · unfold isDmi at hdmi
      simp only [hcont, hrandom, hdmi, reduceIte]

end Turn

/-- The loop gets to a base, the address of a command and a number of bytes left, as its counter has
it. -/
inductive Reached (baseTable : List (Option RegMap)) (mem : Mem) (base₀ start size : ℕ) :
    ℕ → ℕ → ℕ → Prop
  | start : Reached baseTable mem base₀ start size base₀ start size
  | turn {base cmdBuf left base' usedBytes : ℕ} {writes : List (ℕ × ℕ)}
      (h : Reached baseTable mem base₀ start size base cmdBuf left) (hleft : left ≠ 0)
      (hexec : execute baseTable mem base cmdBuf left = some (base', writes, usedBytes)) :
      Reached baseTable mem base₀ start size base' (cmdBuf + usedBytes / 4)
        ((left + 2 ^ 32 - usedBytes) % 2 ^ 32)

/-- The bytes hold one command after the other, as far as they are supported; what is left is
counted without wrapping. -/
inductive Parsed (baseTable : List (Option RegMap)) (mem : Mem) (base₀ start size : ℕ) :
    ℕ → ℕ → ℕ → Prop
  | start : Parsed baseTable mem base₀ start size base₀ start size
  | command {base cmdBuf left base' : ℕ}
      (h : Parsed baseTable mem base₀ start size base cmdBuf left)
      (hbase : nextBase baseTable mem base cmdBuf = some base')
      (hfits : commandBytes mem cmdBuf ≤ left) :
      Parsed baseTable mem base₀ start size base' (cmdBuf + commandBytes mem cmdBuf / 4)
        (left - commandBytes mem cmdBuf)

def InGap (baseTable : List (Option RegMap)) (mem : Mem) (base cmdBuf left : ℕ) : Prop :=
  nextBase baseTable mem base cmdBuf ≠ none ∧ checkedBytes mem cmdBuf ≤ left ∧
    left < commandBytes mem cmdBuf

structure Confined (baseTable : List (Option RegMap)) (mem : Mem) (base₀ start size : ℕ) :
    Prop where
  terminates : ∃ fuel, cmdBufWrite baseTable mem fuel base₀ start size ≠ none
  reads : ∀ base cmdBuf left, Reached baseTable mem base₀ start size base cmdBuf left → left ≠ 0 →
    ∀ q ∈ turnReads baseTable mem base cmdBuf left, start ≤ q ∧ 4 * (q + 1) ≤ 4 * start + size
  counter : ∀ base cmdBuf left, Reached baseTable mem base₀ start size base cmdBuf left → left ≠ 0 →
    ∀ r, execute baseTable mem base cmdBuf left = some r → r.2.2 ≤ left
  /-- A command that does not fit is the end, with nothing written. -/
  rejected : ∀ base cmdBuf left, Reached baseTable mem base₀ start size base cmdBuf left →
    left ≠ 0 → left < commandBytes mem cmdBuf →
      ∀ fuel, cmdBufWrite baseTable mem (fuel + 1) base cmdBuf left =
        some ⟨-einval, base, [], [cmdBuf]⟩

section Runs

variable {baseTable : List (Option RegMap)} {mem : Mem} {base₀ start size base cmdBuf left : ℕ}

theorem Parsed.inside (h : Parsed baseTable mem base₀ start size base cmdBuf left) :
    start ≤ cmdBuf ∧ 4 * cmdBuf + left ≤ 4 * start + size := by
  induction h with
  | start => exact ⟨Nat.le_refl _, Nat.le_refl _⟩
  | @command base cmdBuf left base' h hbase hfits ih => exact ⟨by omega, by omega⟩

theorem turn_wraps_not {usedBytes : ℕ} (hfits : usedBytes ≤ left) (hleft : left < 2 ^ 32) :
    (left + 2 ^ 32 - usedBytes) % 2 ^ 32 = left - usedBytes := by
  omega

theorem Parsed.left_le (h : Parsed baseTable mem base₀ start size base cmdBuf left) :
    left ≤ size := by
  have hinside := h.inside
  omega

/-- The commands that the loop looks at are reached. -/
theorem visited_reached {fuel p : ℕ} {r : Executed}
    (h : Reached baseTable mem base₀ start size base cmdBuf left)
    (hrun : cmdBufWrite baseTable mem fuel base cmdBuf left = some r) (hp : p ∈ r.visited) :
    ∃ base left, left ≠ 0 ∧ Reached baseTable mem base₀ start size base p left := by
  induction fuel generalizing base cmdBuf left r with
  | zero => cases hrun
  | succ fuel ih =>
    rw [cmdBufWrite] at hrun
    split_ifs at hrun with hleft
    · cases hrun
      cases hp
    cases hexec : execute baseTable mem base cmdBuf left with
    | none =>
      rw [hexec] at hrun
      cases hrun
      rw [List.mem_singleton.mp hp]
      exact ⟨base, left, hleft, h⟩
    | some next =>
      rw [hexec] at hrun
      obtain ⟨rest, hrest, rfl⟩ := Option.map_eq_some_iff.mp hrun
      rcases List.mem_cons.mp hp with rfl | hp
      · exact ⟨base, left, hleft, h⟩
      · exact ih (h.turn hleft hexec) hrest hp

theorem Parsed.reached (hsize : size < 2 ^ 32)
    (h : Parsed baseTable mem base₀ start size base cmdBuf left) :
    Reached baseTable mem base₀ start size base cmdBuf left := by
  induction h with
  | start => exact .start
  | @command base cmdBuf left base' h hbase hfits ih =>
    have hge := commandBytes_ge mem cmdBuf
    obtain ⟨writes, hexec⟩ :=
      execute_of_checked (Nat.le_trans (checkedBytes_le mem cmdBuf) hfits) hbase
    have hnext := ih.turn (by omega) hexec
    rwa [turn_wraps_not hfits (Nat.lt_of_le_of_lt h.left_le hsize)] at hnext

section NoGap

variable (hsize : size < 2 ^ 32)
  (hgap : ∀ base cmdBuf left, Parsed baseTable mem base₀ start size base cmdBuf left → left ≠ 0 →
    ¬ InGap baseTable mem base cmdBuf left)
include hsize hgap

omit hsize in
theorem used_le (h : Parsed baseTable mem base₀ start size base cmdBuf left) (hleft : left ≠ 0)
    {r : ℕ × List (ℕ × ℕ) × ℕ} (hexec : execute baseTable mem base cmdBuf left = some r) :
    r.2.2 ≤ left := by
  obtain ⟨hchecked, hbase, hused⟩ := execute_some hexec
  by_contra hlong
  refine hgap base cmdBuf left h hleft ⟨?_, hchecked, by omega⟩
  rw [hbase]
  exact Option.some_ne_none _

theorem Parsed.next (h : Parsed baseTable mem base₀ start size base cmdBuf left)
    (hleft : left ≠ 0) {base' usedBytes : ℕ} {writes : List (ℕ × ℕ)}
    (hexec : execute baseTable mem base cmdBuf left = some (base', writes, usedBytes)) :
    Parsed baseTable mem base₀ start size base' (cmdBuf + usedBytes / 4)
      ((left + 2 ^ 32 - usedBytes) % 2 ^ 32) := by
  have hfits := used_le hgap h hleft hexec
  obtain ⟨-, hbase, hused⟩ := execute_some hexec
  dsimp only at hfits hbase hused
  rw [turn_wraps_not hfits (Nat.lt_of_le_of_lt h.left_le hsize), hused]
  exact h.command hbase (hused ▸ hfits)

theorem parsed_of_reached (h : Reached baseTable mem base₀ start size base cmdBuf left) :
    Parsed baseTable mem base₀ start size base cmdBuf left := by
  induction h with
  | start => exact .start
  | turn _ hleft hexec ih => exact ih.next hsize hgap hleft hexec

theorem terminates_of_parsed (h : Parsed baseTable mem base₀ start size base cmdBuf left) :
    ∃ fuel, cmdBufWrite baseTable mem fuel base cmdBuf left ≠ none := by
  induction left using Nat.strong_induction_on generalizing base cmdBuf with
  | _ left ih =>
    by_cases hleft : left = 0
    · refine ⟨1, ?_⟩
      rw [cmdBufWrite, if_pos hleft]
      exact Option.some_ne_none _
    · cases hexec : execute baseTable mem base cmdBuf left with
      | none =>
        refine ⟨1, ?_⟩
        rw [cmdBufWrite, if_neg hleft, hexec]
        exact Option.some_ne_none _
      | some r =>
        obtain ⟨base', writes, usedBytes⟩ := r
        have hnext := h.next hsize hgap hleft hexec
        have hfits := used_le hgap h hleft hexec
        have hge := commandBytes_ge mem cmdBuf
        have hused := (execute_some hexec).2.2
        dsimp only at hfits hused
        have hless := turn_wraps_not hfits (Nat.lt_of_le_of_lt h.left_le hsize)
        obtain ⟨fuel, hfuel⟩ := ih _ (by omega) hnext
        refine ⟨fuel + 1, ?_⟩
        rw [cmdBufWrite, if_neg hleft, hexec]
        rwa [Ne, Option.map_eq_none_iff]

end NoGap

/-- A run stays inside its buffer exactly when no command that it comes to is in the gap. -/
theorem cmdBufWrite_confined_iff (hsize : size < 2 ^ 32) (hwords : 4 ∣ size) :
    Confined baseTable mem base₀ start size ↔
      ∀ base cmdBuf left, Parsed baseTable mem base₀ start size base cmdBuf left → left ≠ 0 →
        ¬ InGap baseTable mem base cmdBuf left := by
  constructor
  · rintro h base cmdBuf left hparsed hleft ⟨hbase, hchecked, hlong⟩
    obtain ⟨base', hbase'⟩ := Option.ne_none_iff_exists'.mp hbase
    obtain ⟨writes, hexec⟩ := execute_of_checked hchecked hbase'
    have hfits := h.counter base cmdBuf left (hparsed.reached hsize) hleft _ hexec
    dsimp only at hfits
    omega
  · intro hgap
    refine ⟨terminates_of_parsed hsize hgap .start, ?_, ?_, ?_⟩
    · intro base cmdBuf left hreached hleft q hq
      have hparsed := parsed_of_reached hsize hgap hreached
      obtain ⟨hstart, hstop⟩ := hparsed.inside
      rcases turnReads_inside hq with rfl | ⟨hexec, hlo, hhi⟩
      · exact ⟨hstart, by omega⟩
      · obtain ⟨r, hexec⟩ := Option.ne_none_iff_exists'.mp hexec
        have hfits := used_le hgap hparsed hleft hexec
        have hused := (execute_some hexec).2.2
        exact ⟨by omega, by omega⟩
    · intro base cmdBuf left hreached hleft r hexec
      exact used_le hgap (parsed_of_reached hsize hgap hreached) hleft hexec
    · intro base cmdBuf left hreached hleft hlong fuel
      rw [cmdBufWrite, if_neg hleft]
      cases hexec : execute baseTable mem base cmdBuf left with
      | none => rfl
      | some r =>
        exfalso
        have hfits := used_le hgap (parsed_of_reached hsize hgap hreached) hleft hexec
        have hused := (execute_some hexec).2.2
        omega

end Runs

def oneReg : Mem := fun p => if p = 0 then 0x03000001 else 0

theorem oneReg_confined : Confined [] oneReg 0x1000 0 12 := by
  refine (cmdBufWrite_confined_iff (by decide) (by decide)).mpr ?_
  intro base cmdBuf left hparsed hleft
  have hplace : (cmdBuf = 0 ∧ left = 12) ∨ left = 0 := by
    clear hleft
    induction hparsed with
    | start => exact .inl ⟨rfl, rfl⟩
    | @command base cmdBuf left base' h hbase hfits ih =>
      have hge := commandBytes_ge oneReg cmdBuf
      rcases ih with ⟨rfl, rfl⟩ | rfl
      · exact .inr (by decide)
      · omega
  rcases hplace with ⟨rfl, rfl⟩ | rfl
  · rintro ⟨-, -, hlong⟩
    exact absurd hlong (by decide)
  · exact absurd rfl hleft

/-- Of the same command two words pass as well. -/
theorem oneReg_not_confined : ¬ Confined [] oneReg 0x1000 0 8 := by
  intro h
  have hfits := h.counter 0x1000 0 8 .start (by decide) (0x1000, [(0x1000, 0)], 12) (by decide)
  exact absurd hfits (by decide)

end KernelModules.CdmCmd
