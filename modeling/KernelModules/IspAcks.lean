import KernelModules.IspMoves

/-!
# Acknowledgements

What a buf done does to a request that it is handed to. Each handle is left aside, or an output is
signalled and dealt with, or the request is only counted on because its bubble is looked after.
-/

namespace KernelModules.Isp

variable {req : Req}

def reset (req : Req) : ℕ := req.fenceMapOut.countP (·.syncId = -1)

structure Clean (req : Req) : Prop where
  detected : req.bubbleDetected = false
  acked : req.numAcked = reset req

def Req.recovers (req : Req) : Prop := req.bubbleDetected = true ∧ req.bubbleReport = true

def Req.note (req : Req) (handle : ℕ) : Req :=
  { req with dones := req.dones ++ [(handle, req.bubbleDetected)] }

/-- What one handle of a buf done does to the request it is handed to. -/
inductive Acks (req : Req) (handle : ℕ) : Req → Prop
  | noted : Acks req handle (req.note handle)
  | ignored (hb : req.recovers) :
      Acks req handle { req.note handle with numAcked := req.numAcked + 1 }
  | signalled {j : ℕ} {f : Fence} {status : SyncStatus} (hj : req.fenceMapOut[j]? = some f)
      (hres : f.resource = handle) (hopen : f.syncId ≠ -1) (hf : f.elsewhere = false)
      (hstatus : status = .success → req.bubbleDetected = false) (hb : ¬ req.recovers) :
      Acks req handle { req.note handle with
        numAcked := req.numAcked + 1
        fenceMapOut := req.fenceMapOut.set j
          { f with signals := f.signals ++ [status], syncId := -1 } }

variable {f : Fence} {j handle : ℕ}

theorem signal_of_open (status : SyncStatus) (ho : f.syncId ≠ -1)
    (hf : f.elsewhere = false) :
    f.signal status = ({ f with signals := f.signals ++ [status] }, true) := by
  unfold Fence.signal
  rw [if_neg]
  rintro (h | h)
  · exact ho h
  · rw [hf] at h
    contradiction

theorem signal_of_elsewhere (status : SyncStatus) (hf : f.elsewhere = true) :
    f.signal status = (f, false) := by
  unfold Fence.signal
  rw [if_pos (.inr hf)]

theorem set_self {α : Type*} {l : List α} {a : α} (h : l[j]? = some a) : l.set j a = l := by
  obtain ⟨hj, rfl⟩ := List.getElem?_eq_some_iff.mp h
  exact List.set_getElem_self hj

theorem ackFence_acks {status : SyncStatus}
    (hj : req.fenceMapOut[j]? = some f) (hres : f.resource = handle) (ho : f.syncId ≠ -1)
    (hstatus : status = .success → req.bubbleDetected = false) (hb : ¬ req.recovers) :
    Acks req handle ((req.note handle).ackFence j f status) := by
  unfold Req.ackFence
  cases hf : f.elsewhere with
  | false =>
    rw [signal_of_open status ho hf]
    exact .signalled hj hres ho hf hstatus hb
  | true =>
    rw [signal_of_elsewhere status hf]
    have hset : (req.note handle).fenceMapOut.set j f = req.fenceMapOut := set_self hj
    dsimp only
    rw [hset]
    exact .noted

theorem ackHandle_acks (req : Req) (handle : ℕ) : Acks req handle (req.ackHandle handle).1 := by
  unfold Req.ackHandle
  dsimp only
  split
  · exact .noted
  next j hfind =>
  split
  · exact .noted
  next f hj =>
  have hres : f.resource = handle := by
    obtain ⟨hlt, hmatch, -⟩ := List.findIdx?_eq_some_iff_getElem.mp hfind
    obtain ⟨-, rfl⟩ := List.getElem?_eq_some_iff.mp hj
    simpa using hmatch
  split
  · exact .noted
  next ho =>
  split
  · next hd =>
    have hd : req.bubbleDetected = false := by simpa using hd
    refine ackFence_acks hj hres ho (fun _ => hd) fun hb => ?_
    rw [hb.1] at hd
    contradiction
  next hd =>
  have hd : req.bubbleDetected = true := by simpa using hd
  split
  · next hr =>
    refine ackFence_acks hj hres ho (fun h => SyncStatus.noConfusion h) fun hb => ?_
    rw [hb.2] at hr
    contradiction
  · next hr => exact .ignored ⟨hd, by simpa using hr⟩

theorem ackHandles_induct {P : Req → Prop}
    (hstep : ∀ req handle req', Acks req handle req' → P req → P req') (h : P req)
    (handles : List ℕ) : P (req.ackHandles handles).1 := by
  induction handles generalizing req with
  | nil => exact h
  | cons handle handles ih => exact ih (hstep _ _ _ (ackHandle_acks req handle) h)

theorem ackHandles_flags (req : Req) (handles : List ℕ) :
    (req.ackHandles handles).1.bubbleDetected = req.bubbleDetected ∧
      (req.ackHandles handles).1.bubbleReport = req.bubbleReport := by
  refine ackHandles_induct (P := fun req' => req'.bubbleDetected = req.bubbleDetected ∧
    req'.bubbleReport = req.bubbleReport) ?_ ⟨rfl, rfl⟩ handles
  intro req₁ handle req₂ hacks h
  cases hacks <;> exact h

theorem recovers_ackHandles (req : Req) (handles : List ℕ) :
    (req.ackHandles handles).1.recovers ↔ req.recovers := by
  obtain ⟨hd, hr⟩ := ackHandles_flags req handles
  unfold Req.recovers
  rw [hd, hr]

theorem countP_set_open {l : List Fence} {f' : Fence} (hj : l[j]? = some f)
    (ho : f.syncId ≠ -1) (hf : f'.syncId = -1) :
    (l.set j f').countP (·.syncId = -1) = l.countP (·.syncId = -1) + 1 := by
  obtain ⟨hlt, rfl⟩ := List.getElem?_eq_some_iff.mp hj
  rw [List.countP_set hlt]
  simp [ho, hf]

theorem ackHandles_acked (h : ¬ req.recovers → req.numAcked = reset req) (handles : List ℕ) :
    ¬ (req.ackHandles handles).1.recovers →
      (req.ackHandles handles).1.numAcked = reset (req.ackHandles handles).1 := by
  refine ackHandles_induct (P := fun req => ¬ req.recovers → req.numAcked = reset req) ?_ h handles
  intro req handle req' hacks h hb
  cases hacks with
  | noted => exact h hb
  | ignored hb' => exact absurd hb' hb
  | signalled hj hres ho hf hstatus hb' =>
    have hacked := h hb'
    unfold reset at hacked ⊢
    dsimp only
    rw [countP_set_open hj ho]
    · omega
    · rfl

theorem ackHandles_reset (hb : req.recovers) (handles : List ℕ) :
    (req.ackHandles handles).1.fenceMapOut = req.fenceMapOut := by
  refine (ackHandles_induct (P := fun req' => req'.recovers ∧
    req'.fenceMapOut = req.fenceMapOut) ?_ ⟨hb, rfl⟩ handles).2
  intro req₁ handle req₂ hacks h
  cases hacks with
  | noted => exact h
  | ignored => exact h
  | signalled hj hres ho hf hstatus hb' => exact absurd h.1 hb'

theorem mem_set_cases {α : Type*} {l : List α} {a b : α} (h : b ∈ l.set j a) :
    b = a ∨ ∃ i, i ≠ j ∧ l[i]? = some b := by
  obtain ⟨i, hi⟩ := List.mem_iff_getElem?.mp h
  by_cases hij : j = i
  · subst hij
    rw [List.getElem?_set_self'] at hi
    obtain ⟨-, -, rfl⟩ := Option.map_eq_some_iff.mp hi
    exact .inl rfl
  · rw [List.getElem?_set_ne hij] at hi
    exact .inr ⟨i, Ne.symm hij, hi⟩

theorem resource_inj {l : List Fence} (hl : (l.map (·.resource)).Nodup) {i : ℕ} {f' : Fence}
    (hi : l[i]? = some f) (hj : l[j]? = some f') (h : f.resource = f'.resource) : i = j := by
  obtain ⟨hlt, -⟩ := List.getElem?_eq_some_iff.mp hi
  refine (List.getElem?_inj (by simpa using hlt) hl).mp ?_
  rw [List.getElem?_map, List.getElem?_map, hi, hj, Option.map_some, Option.map_some, h]

theorem ackHandle_open (hd : req.bubbleDetected = false)
    (hres : (req.fenceMapOut.map (·.resource)).Nodup)
    (hf : ∀ f ∈ req.fenceMapOut, f.elsewhere = false) :
    ∀ f ∈ (req.ackHandle handle).1.fenceMapOut,
      f.syncId = -1 ∨ (f ∈ req.fenceMapOut ∧ f.resource ≠ handle) := by
  unfold Req.ackHandle
  dsimp only
  split
  · next hnone =>
    intro f hmem
    refine .inr ⟨hmem, ?_⟩
    simpa using List.findIdx?_eq_none_iff.mp hnone f hmem
  next j hfind =>
  obtain ⟨hlt, hmatch, -⟩ := List.findIdx?_eq_some_iff_getElem.mp hfind
  have hj : req.fenceMapOut[j]? = some req.fenceMapOut[j] := List.getElem?_eq_getElem hlt
  generalize req.fenceMapOut[j] = found at hmatch hj
  have hmatch : found.resource = handle := by simpa using hmatch
  have hother : ∀ i f, i ≠ j → req.fenceMapOut[i]? = some f → f.resource ≠ handle := by
    intro i f hne hi heq
    exact hne (resource_inj hres hi hj (heq.trans hmatch.symm))
  rw [hj]
  dsimp only
  split
  · next hdead =>
    intro f hmem
    obtain ⟨i, hi⟩ := List.mem_iff_getElem?.mp hmem
    by_cases hij : i = j
    · subst hij
      obtain rfl := Option.some.inj (hj.symm.trans hi)
      exact .inl hdead
    · exact .inr ⟨hmem, hother i f hij hi⟩
  next ho =>
  rw [if_pos (by simp [hd])]
  unfold Req.ackFence
  rw [signal_of_open _ ho (hf _ (List.mem_of_getElem? hj))]
  intro f hmem
  rcases mem_set_cases hmem with rfl | ⟨i, hij, hi⟩
  · exact .inl rfl
  · exact .inr ⟨List.mem_of_getElem? hi, hother i f hij hi⟩

theorem Acks.outputs {req' : Req} (h : Acks req handle req') :
    req'.fenceMapOut.map (·.resource) = req.fenceMapOut.map (·.resource) ∧
      ((∀ f ∈ req.fenceMapOut, f.elsewhere = false) →
        ∀ f ∈ req'.fenceMapOut, f.elsewhere = false) := by
  cases h with
  | noted => exact ⟨rfl, fun h => h⟩
  | ignored => exact ⟨rfl, fun h => h⟩
  | signalled hj hres ho hf hstatus hb =>
    refine ⟨?_, fun h f hmem => ?_⟩
    · rw [List.map_set]
      refine set_self ?_
      rw [List.getElem?_map, hj]
      rfl
    · rcases List.mem_or_eq_of_mem_set hmem with hold | rfl
      · exact h f hold
      · exact hf

theorem ackHandles_open {handles : List ℕ} (hd : req.bubbleDetected = false)
    (hres : (req.fenceMapOut.map (·.resource)).Nodup)
    (hf : ∀ f ∈ req.fenceMapOut, f.elsewhere = false) :
    ∀ f ∈ (req.ackHandles handles).1.fenceMapOut,
      f.syncId = -1 ∨ (f ∈ req.fenceMapOut ∧ f.resource ∉ handles) := by
  induction handles generalizing req with
  | nil => exact fun f hmem => .inr ⟨hmem, List.not_mem_nil⟩
  | cons handle handles ih =>
    have hacks := ackHandle_acks req handle
    obtain ⟨hres', hf'⟩ := hacks.outputs
    have hd' : (req.ackHandle handle).1.bubbleDetected = false :=
      (ackHandles_flags req [handle]).1.trans hd
    intro f hmem
    rcases ih hd' (by rwa [hres']) (hf' hf) f hmem with hdead | ⟨hold, hnot⟩
    · exact .inl hdead
    · rcases ackHandle_open hd hres hf f hold with hdead | ⟨hold', hne⟩
      · exact .inl hdead
      · refine .inr ⟨hold', fun hin => ?_⟩
        rcases List.mem_cons.mp hin with heq | hin
        · exact hne heq
        · exact hnot hin

theorem Clean.completes (h : Clean req) (hres : (req.fenceMapOut.map (·.resource)).Nodup)
    (hf : ∀ f ∈ req.fenceMapOut, f.elsewhere = false) {handles : List ℕ}
    (hall : ∀ f ∈ req.fenceMapOut, f.resource ∈ handles) (lastFlushReq : ℕ) :
    (req.ackHandles handles).1.done lastFlushReq = .completed := by
  have hno : ¬ req.recovers := fun hb => by
    have hd := hb.1
    rw [h.detected] at hd
    contradiction
  have hacked := ackHandles_acked (fun _ => h.acked) handles
    fun hb => hno ((recovers_ackHandles req handles).mp hb)
  have hreset : reset (req.ackHandles handles).1 =
      (req.ackHandles handles).1.fenceMapOut.length := by
    refine List.countP_eq_length.mpr fun f hmem => ?_
    rcases ackHandles_open h.detected hres hf f hmem with hdead | ⟨hold, hnot⟩
    · simpa using hdead
    · exact absurd (hall f hold) hnot
  have hd : (req.ackHandles handles).1.bubbleDetected = false :=
    (ackHandles_flags req handles).1.trans h.detected
  unfold Req.done
  rw [if_neg (by omega), hd]
  rfl

theorem ackHandles_append (req : Req) (handles handles' : List ℕ) :
    (req.ackHandles (handles ++ handles')).1 = ((req.ackHandles handles).1.ackHandles handles').1 := by
  induction handles generalizing req with
  | nil => rfl
  | cons handle handles ih => exact ih (req.ackHandle handle).1

def Req.ackAll (req : Req) (dones : List (List ℕ)) : Req :=
  dones.foldl (fun req handles => (req.ackHandles handles).1) req

theorem ackAll_eq (req : Req) (dones : List (List ℕ)) :
    req.ackAll dones = (req.ackHandles dones.flatten).1 := by
  induction dones generalizing req with
  | nil => rfl
  | cons handles dones ih =>
    rw [List.flatten_cons, ackHandles_append, ← ih]
    rfl

end KernelModules.Isp
