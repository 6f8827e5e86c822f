import KernelModules.IspMoves

/-!
# Every request object is on one list

Objects are moved by hand from list to list, and the active ones are counted by hand. Three steps
get that wrong: an error while a request waits, a reg update for a request that is not expected to
wait, and a failed start of a request with outputs.
-/

namespace KernelModules.Isp

variable {c : Ctx} {q : Queues} {req : Req} {a : ℕ}

/-- How often object `a` is on a list. -/
def held (l : List Req) (a : ℕ) : ℕ := l.countP (·.obj = a)

/-- Every object of the context is on exactly one of the four lists, and the counter is right. -/
structure Accounted (q : Queues) : Prop where
  once : ∀ a, held q.free a + held q.pending a + held q.wait a + held q.active a =
    if a < reqMax then 1 else 0
  count : q.activeReqCnt = q.active.length
  tame : q.wild = false

@[simp] theorem held_nil (a : ℕ) : held [] a = 0 := rfl

@[simp] theorem held_cons (req : Req) (l : List Req) (a : ℕ) :
    held (req :: l) a = held l a + if req.obj = a then 1 else 0 := by
  unfold held
  rw [List.countP_cons]
  simp

@[simp] theorem held_append (l l' : List Req) (a : ℕ) : held (l ++ l') a = held l a + held l' a :=
  List.countP_append

theorem held_map {f : Req → Req} (hf : ∀ req, (f req).obj = req.obj) (l : List Req) (a : ℕ) :
    held (l.map f) a = held l a := by
  induction l with
  | nil => rfl
  | cons req l ih => rw [List.map_cons, held_cons, held_cons, ih, hf]

@[simp] theorem held_map_fail (reset : Bool) (l : List Req) (a : ℕ) :
    held (l.map (Req.fail reset)) a = held l a := held_map (f := Req.fail reset) (fun _ => rfl) l a

@[simp] theorem held_map_flush (l : List Req) (a : ℕ) : held (l.map Req.flush) a = held l a :=
  held_map (f := Req.flush) (fun _ => rfl) l a

theorem held_failed_kept (l : List Req) (a : ℕ) : held (failed l) a + held (kept l) a = held l a := by
  have h := congrArg (held · a) (List.takeWhile_append_dropWhile (l := l) (p := (!·.bubbleReport)))
  rw [held_append] at h
  rw [failed, kept, held_map_fail]
  exact h

theorem held_take_drop (n : ℕ) (l : List Req) (a : ℕ) :
    held (l.take n) a + held (l.drop n) a = held l a := by
  rw [← held_append, List.take_append_drop]

theorem held_flushReq (cancel : Option ℕ) (l : List Req) (a : ℕ) :
    held (flushReq cancel l).1 a + held (flushReq cancel l).2 a = held l a := by
  cases cancel with
  | none => simp [flushReq]
  | some id =>
    unfold flushReq
    dsimp only
    rw [held_map_flush]
    induction l with
    | nil => rfl
    | cons req l ih =>
      by_cases h : req.requestId = id
      · rw [List.find?_cons_of_pos (by simpa using h), List.eraseP_cons_of_pos (by simpa using h)]
        simp only [Option.toList_some, held_cons, held_nil]
        omega
      · rw [List.find?_cons_of_neg (by simpa using h), List.eraseP_cons_of_neg (by simpa using h)]
        rw [held_cons, held_cons]
        omega

theorem held_enqueueRequestInOrder (l : List Req) (req : Req) (a : ℕ) :
    held (enqueueRequestInOrder l req) a = held l a + if req.obj = a then 1 else 0 := by
  have h := congrArg (held · a)
    (List.rdropWhile_append_rtakeWhile (l := l) (p := (req.requestId < ·.requestId)))
  rw [held_append] at h
  rw [enqueueRequestInOrder, held_append, held_cons]
  omega

/-- The part of it that is about the lists. -/
structure OnLists (q : Queues) : Prop where
  once : ∀ a, held q.free a + held q.pending a + held q.wait a + held q.active a =
    if a < reqMax then 1 else 0
  tame : q.wild = false

variable {before after : List Req} {old : Req} {q' : Queues} {c' : Ctx} {hwRc : ℤ}

theorem OnLists.bufDoneForRequest (h : OnLists q)
    (ha : q.active = before ++ old :: after) (ho : req.obj = old.obj) (lastFlushReq : ℕ) :
    OnLists (q.bufDoneForRequest before after req lastFlushReq) := by
  have honce : ∀ a, held q.free a + held q.pending a + held q.wait a +
      (held before a + (held after a + if req.obj = a then 1 else 0)) =
        if a < reqMax then 1 else 0 := by
    intro a
    rw [← h.once a, ha, held_append, held_cons, ho]
  unfold Queues.bufDoneForRequest
  cases req.done lastFlushReq with
  | unfinished =>
    refine ⟨fun a => ?_, h.tame⟩
    rw [← honce a, held_append, held_cons]
  | flushed =>
    refine ⟨fun a => ?_, h.tame⟩
    rw [← honce a]
    simp only [held_append, held_cons, held_nil, Req.fail]
    omega
  | retried =>
    refine ⟨fun a => ?_, h.tame⟩
    rw [← honce a]
    simp only [held_append, held_cons]
    omega
  | completed =>
    refine ⟨fun a => ?_, h.tame⟩
    rw [← honce a]
    simp only [held_append, held_cons, held_nil]
    omega

theorem OnLists.regUpd (h : OnLists q) : OnLists q.regUpd := by
  unfold Queues.regUpd
  cases hw : q.wait with
  | nil => exact h
  | cons req wait =>
    have honce := h.once
    rw [hw] at honce
    dsimp only
    split
    · refine ⟨fun a => ?_, h.tame⟩
      rw [← honce a]
      simp only [held_append, held_cons, held_nil]
      omega
    · refine ⟨fun a => ?_, h.tame⟩
      rw [← honce a]
      simp only [held_append, held_cons, held_nil]
      omega

theorem OnLists.regUpdInSof (h : OnLists q)
    (hreq : ∀ req ∈ q.wait.head?, req.fenceMapOut.length = req.numAcked) :
    OnLists q.regUpdInSof := by
  unfold Queues.regUpdInSof
  cases hw : q.wait with
  | nil => exact h
  | cons req wait =>
    have honce := h.once
    rw [hw] at honce
    dsimp only
    rw [if_pos (hreq req (by simp [hw]))]
    refine ⟨fun a => ?_, h.tame⟩
    rw [← honce a]
    simp only [held_append, held_cons, held_nil]
    omega

theorem OnLists.reportBubble (h : OnLists q) (linked notes : Bool) :
    OnLists (q.reportBubble linked notes) := by
  unfold Queues.reportBubble
  cases hw : q.wait with
  | nil => exact h
  | cons req wait =>
    have honce := h.once
    rw [hw] at honce
    refine ⟨fun a => ?_, h.tame⟩
    rw [← honce a]
    simp only [held_append, held_cons, held_nil, Req.bubble]
    omega

theorem OnLists.reapply (h : OnLists q) : OnLists q.reapply := by
  unfold Queues.reapply
  cases ha : q.active with
  | nil => exact h
  | cons req active =>
    have honce := h.once
    rw [ha] at honce
    refine ⟨fun a => ?_, h.tame⟩
    rw [← honce a]
    simp only [held_cons]
    omega

theorem OnLists.failActive (h : OnLists q) : OnLists q.failActive := by
  refine ⟨fun a => ?_, h.tame⟩
  rw [← h.once a]
  simp only [Queues.failActive, held_append, held_map_fail, held_nil]
  omega

theorem OnLists.handleError (h : OnLists q) (lastAppliedReqId : ℕ) :
    OnLists (q.handleError lastAppliedReqId) := by
  have hlists : OnLists q.errorInLists := by
    unfold Queues.errorInLists
    split
    · refine ⟨fun a => ?_, h.tame⟩
      rw [← h.once a, ← held_failed_kept q.active a]
      simp only [held_append, held_nil]
      omega
    · next hkept =>
      have hkept : kept q.active = [] := not_not.mp hkept
      refine ⟨fun a => ?_, h.tame⟩
      rw [← h.once a, ← held_failed_kept q.active a, ← held_failed_kept q.wait a, hkept]
      simp only [held_append, held_nil]
      omega
  refine ⟨fun a => ?_, hlists.tame⟩
  rw [← hlists.once a,
    ← held_take_drop (errorCount lastAppliedReqId q.errorInLists.pending) q.errorInLists.pending a]
  simp only [Queues.handleError, Queues.errorInPending, held_append, held_map_fail]
  omega

theorem OnLists.config {packet : Packet} (hm : ConfigMove c packet q')
    (h : OnLists c.q) : OnLists q' := by
  cases hm with
  | same => exact h
  | untouched hfree =>
    refine ⟨fun a => ?_, h.tame⟩
    rw [← h.once a, hfree]
    simp only [held_append, held_cons, held_nil]
    omega
  | refused hfree =>
    refine ⟨fun a => ?_, h.tame⟩
    rw [← h.once a, hfree]
    simp only [held_append, held_cons, held_nil, Req.prepare]
    omega
  | first hfree hi hst hp hf =>
    refine ⟨fun a => ?_, h.tame⟩
    rw [← h.once a, hfree, hp]
    simp only [held_cons, held_nil, Req.accept, Req.prepare]
    omega
  | merged hfree hi hst hp hno hf =>
    refine ⟨fun a => ?_, h.tame⟩
    rw [← h.once a, hfree, hp]
    simp only [held_append, held_cons, held_nil, Req.prepare, Req.merge]
    omega
  | @update old free hfree hi hf =>
    refine ⟨fun a => ?_, h.tame⟩
    have hput : held (enqueueRequestInOrder c.q.pending (old.accept packet)) a =
        held c.q.pending a + if old.obj = a then 1 else 0 := held_enqueueRequestInOrder ..
    rw [← h.once a, hfree, hput, held_cons]
    dsimp only
    omega

theorem OnLists.start (hm : StartMove c hwRc c') (h : OnLists c.q) : OnLists c'.q := by
  have honce := h.once
  cases hm with
  | refused => exact h
  | failed hp hacq hrc hs hl hq =>
    rw [hq]
    exact ⟨honce, h.tame⟩
  | waits hp hs hl hq =>
    rw [hq]
    refine ⟨fun a => ?_, h.tame⟩
    rw [← honce a, hp]
    simp only [held_append, held_cons, held_nil]
    omega
  | runs hp hs hl hq =>
    rw [hq]
    refine ⟨fun a => ?_, h.tame⟩
    rw [← honce a, hp]
    simp only [held_append, held_cons, held_nil]
    omega

theorem OnLists.apply {apply : Apply} (hm : ApplyMove q apply q') (h : OnLists q) : OnLists q' := by
  cases hm with
  | same => exact h
  | failed hp =>
    refine ⟨fun a => ?_, h.tame⟩
    rw [← h.once a, hp]
    simp only [held_cons]
  | applied hp =>
    refine ⟨fun a => ?_, h.tame⟩
    rw [← h.once a, hp]
    simp only [held_append, held_cons, held_nil]
    omega

theorem OnLists.flushPending (h : OnLists q) (cancel : Option ℕ) :
    OnLists (q.flushPending cancel) := by
  refine ⟨fun a => ?_, h.tame⟩
  rw [← h.once a, ← held_flushReq cancel q.pending a]
  simp only [Queues.flushPending, held_append]
  omega

theorem OnLists.flushWaitAndActive (h : OnLists q) :
    OnLists { q.flushWaitAndActive with processBubble := false } := by
  refine ⟨fun a => ?_, h.tame⟩
  rw [← h.once a]
  simp only [Queues.flushWaitAndActive, held_append, held_map_flush, held_nil]
  omega

theorem OnLists.stop (h : OnLists q) : OnLists q.stop := by
  refine ⟨fun a => ?_, h.tame⟩
  rw [← h.once a]
  simp only [Queues.stop, held_append, held_map_fail, held_nil]
  omega

theorem initReqList_obj (q : Queues) (i : ℕ) :
    (((allReqs q).find? (·.obj = i)).getD { obj := i }).obj = i := by
  cases hf : (allReqs q).find? (·.obj = i) with
  | none => rfl
  | some req =>
    have h := List.find?_some hf
    simpa using h

theorem held_initReqList (q : Queues) (a : ℕ) :
    held (initReqList q) a = if a < reqMax then 1 else 0 := by
  have hrange : ∀ n, held ((List.range n).map fun i =>
      ((allReqs q).find? (·.obj = i)).getD { obj := i }) a = if a < n then 1 else 0 := by
    intro n
    induction n with
    | zero => rfl
    | succ n ih =>
      rw [List.range_succ, List.map_append, held_append, ih, List.map_singleton, held_cons,
        held_nil, initReqList_obj]
      by_cases hlt : a < n
      · rw [if_pos hlt, if_neg (by omega), if_pos (by omega)]
      · by_cases heq : n = a
        · rw [if_neg hlt, if_pos heq, if_pos (by omega)]
        · rw [if_neg hlt, if_neg heq, if_neg (by omega)]
  exact hrange reqMax

theorem held_map_mark (syncId : ℤ) (l : List Req) (a : ℕ) :
    held (l.map (Req.mark syncId)) a = held l a := held_map (f := Req.mark syncId) (fun _ => rfl) l a

theorem OnLists.signal (h : OnLists q) (syncId : ℤ) : OnLists (signalElsewhere q syncId) := by
  refine ⟨fun a => ?_, h.tame⟩
  rw [← h.once a]
  simp only [signalElsewhere, held_map_mark]

/-- In the SOF substate a reg update finds a request without open outputs, if any; and no buf done
runs out of requests. -/
def findsOutputs : Conds where
  event c
    | .regUpdate => c.substate = .sof →
      ∀ req ∈ c.q.wait.head?, req.fenceMapOut.length = req.numAcked
    | .done handles => handled c (.done handles) → ¬ RunsOut c handles
    | _ => True

theorem onLists_kept : Kept findsOutputs OnLists where
  config _ hm _ h := h.config hm
  start hm _ _ _ h := h.start hm
  apply hm _ h := h.apply hm
  event := by
    intro c e q' hm hc h
    cases hm with
    | same => exact h
    | error => exact h.handleError _
    | regUpd => exact h.regUpd
    | regUpdInSof hs => exact h.regUpdInSof (hc hs)
    | reportBubble => exact h.reportBubble ..
    | noBubble => exact ⟨h.once, h.tame⟩
    | reapply => exact h.reapply
    | failActive => exact h.failActive
    | bufDone handles hh =>
      refine bufDone_kept h (hc hh) fun hd h => ?_
      exact h.bufDoneForRequest hd.active (ackHandles_same ..).1 _
  flushPending cancel h := h.flushPending cancel
  flushWaitAndActive h := h.flushWaitAndActive
  noBubble h := ⟨h.once, h.tame⟩
  release _ h := ⟨h.once, h.tame⟩
  stop h := h.stop
  setup hp hw ha h := by
    refine ⟨fun a => ?_, h.tame⟩
    rw [held_initReqList, held_nil]
    omega
  signal syncId h := h.signal syncId

theorem onLists_initial : OnLists initial.q := by
  refine ⟨fun a => ?_, rfl⟩
  have h := held_initReqList { free := [] } a
  simpa [initial, initReqList, allReqs] using h

def Counted (q : Queues) : Prop := q.activeReqCnt = q.active.length

theorem Counted.bufDoneForRequest (h : Counted q)
    (ha : q.active = before ++ old :: after) (lastFlushReq : ℕ) :
    Counted (q.bufDoneForRequest before after req lastFlushReq) := by
  have hcount : q.activeReqCnt = before.length + (after.length + 1 : ℕ) := by
    rw [Counted, ha] at h
    simpa using h
  unfold Counted Queues.bufDoneForRequest
  cases req.done lastFlushReq with
  | unfinished => simp [hcount]
  | flushed =>
    simp only [hcount, List.length_append]
    omega
  | retried =>
    simp only [hcount, List.length_append]
    omega
  | completed =>
    simp only [hcount, List.length_append]
    omega

theorem Counted.regUpd (h : Counted q) : Counted q.regUpd := by
  unfold Queues.regUpd
  split
  · exact h
  split
  · unfold Counted at h ⊢
    simp only [h, List.length_append, List.length_singleton]
    omega
  · exact h

theorem Counted.regUpdInSof (h : Counted q) : Counted q.regUpdInSof := by
  unfold Queues.regUpdInSof
  split
  · exact h
  split
  · exact h
  · exact h

theorem Counted.reportBubble (h : Counted q) (linked notes : Bool) :
    Counted (q.reportBubble linked notes) := by
  unfold Queues.reportBubble
  split
  · exact h
  · unfold Counted at h ⊢
    simp only [h, List.length_append, List.length_singleton]
    omega

theorem Counted.reapply (h : Counted q) : Counted q.reapply := by
  unfold Queues.reapply
  cases ha : q.active with
  | nil => exact h
  | cons req active =>
    unfold Counted at h ⊢
    simp only [h, ha, List.length_cons]
    omega

theorem Counted.handleError (h : Counted q) (hw : q.wait = []) (lastAppliedReqId : ℕ) :
    Counted (q.handleError lastAppliedReqId) := by
  unfold Counted at h
  unfold Queues.handleError Queues.errorInPending Queues.errorInLists Counted
  split
  · simp only [h, hw, List.length_nil]
    omega
  · simp only [h, hw, List.length_nil]
    omega

theorem Counted.start (hm : StartMove c hwRc c')
    (ha : c.q.active = []) (hc : hwRc ≠ 0 → c.hwAcquired = true → ∀ req ∈ c.q.pending.head?,
      c.rdiOnlyContext = true ∨ req.fenceMapOut.length = 0) (h : Counted c.q) :
    Counted c'.q := by
  cases hm with
  | refused => exact h
  | failed hp hacq hrc hs hl hq =>
    have hwaits := hc hrc hacq _ (by rw [hp]; rfl)
    rw [hq, Counted, ha]
    exact if_pos hwaits
  | waits hp hs hl hq =>
    rw [hq, Counted, ha]
    rfl
  | runs hp hs hl hq =>
    rw [hq, Counted, ha]
    rfl

/-- A start fails only for a request without outputs or in a context of RDIs; no request waits when
an error is handled; in the SOF substate a reg update finds a request without open outputs, if any;
and no buf done runs out of requests. -/
def accountable : Conds where
  start c hwRc := hwRc ≠ 0 → c.hwAcquired = true → ∀ req ∈ c.q.pending.head?,
    c.rdiOnlyContext = true ∨ req.fenceMapOut.length = 0
  event c
    | .error => handled c .error → c.q.wait = []
    | .regUpdate => c.substate = .sof →
      ∀ req ∈ c.q.wait.head?, req.fenceMapOut.length = req.numAcked
    | .done handles => handled c (.done handles) → ¬ RunsOut c handles
    | _ => True

theorem counted_kept : Kept accountable Counted where
  config _ hm _ h := by cases hm <;> exact h
  start hm _ ha hc h := h.start hm ha hc
  apply hm _ h := by cases hm <;> exact h
  event := by
    intro c e q' hm hc h
    cases hm with
    | same => exact h
    | error hh => exact h.handleError (hc hh) _
    | regUpd => exact h.regUpd
    | regUpdInSof => exact h.regUpdInSof
    | reportBubble => exact h.reportBubble ..
    | noBubble => exact h
    | reapply => exact h.reapply
    | failActive =>
      unfold Counted at h ⊢
      simp [Queues.failActive, h]
    | bufDone handles hh =>
      exact bufDone_kept h (hc hh) fun hd h => h.bufDoneForRequest hd.active _
  flushPending _ h := h
  flushWaitAndActive _ := rfl
  noBubble h := h
  release ha _ := by
    rw [Counted, ha]
    rfl
  stop _ := rfl
  setup _ _ ha h := by
    rw [Counted, ha] at h
    exact h
  signal syncId h := by
    unfold Counted at h ⊢
    simpa [signalElsewhere] using h

theorem onLists_of_meets {K : Conds}
    (hreg : ∀ c, K.event c .regUpdate → findsOutputs.event c .regUpdate)
    (hdone : ∀ c handles, K.event c (.done handles) → findsOutputs.event c (.done handles))
    {is : List Input} (hm : machine.Meets K.Step initial is) :
    OnLists (machine.run initial is).1.q := by
  have hlists : machine.Meets findsOutputs.Step initial is := by
    refine Machine.Meets.mono machine (fun c i hi => ?_) hm
    refine hi.mono (fun _ _ _ => trivial) (fun _ _ _ => trivial) (fun _ _ _ => trivial) ?_
    rintro c (_ | _ | _ | _ | _ | handles) he
    · trivial
    · trivial
    · exact hreg c he
    · trivial
    · trivial
    · exact hdone c handles he
  exact (onLists_kept.run onLists_initial hlists).2

/-- As long as the critical steps go well, every object stays on exactly one list and the active
requests are counted right. -/
theorem accounted_of_accountable {is : List Input}
    (hm : machine.Meets accountable.Step initial is) :
    Accounted (machine.run initial is).1.q := by
  have honce := onLists_of_meets (K := accountable) (fun _ h => h) (fun _ _ h => h) hm
  exact ⟨honce.once, (counted_kept.run rfl hm).2, honce.tame⟩

/-- A first request is started, a second one applied, and the first one gets its buf done. -/
def twoRequests : List Input :=
  [.acquireDev (some .pix), .link, .config { requestId := 1, init := true, fences := [(3, 7)] } {},
    .start 0, .event .regUpdate, .event .epoch,
    .config { requestId := 2, fences := [(3, 8), (4, 9)] } {}, .apply { requestId := 2 } 0,
    .event .regUpdate, .event (.done [3]), .event (.done [3])]

theorem twoRequests_accounted : Accounted (machine.run initial twoRequests).1.q :=
  accounted_of_accountable ⟨trivial, trivial, ⟨trivial, fun h => absurd h.1 (by decide)⟩,
    fun _ hrc => absurd rfl hrc, fun _ hsof => absurd hsof (by decide), fun _ => trivial,
    ⟨trivial, fun h => absurd h.1 (by decide)⟩, fun _ _ => trivial,
    fun _ hsof => absurd hsof (by decide), fun _ _ ⟨_, ha, _⟩ => (by cases ha),
    fun _ _ ⟨_, ha, _, hleft⟩ => (by
      cases ha
      exact hleft rfl), trivial⟩

def failedStart : List Input :=
  [.acquireDev (some .pix), .link,
    .config { requestId := 1, init := true, fences := [(3, 7)] } {}, .start (-110)]

/-- The request is pending again but still counted as active. -/
theorem failedStart_counted : ¬ ∀ is : List Input, Accounted (machine.run initial is).1.q := by
  intro h
  have hcount := (h failedStart).count
  revert hcount
  decide

end KernelModules.Isp
