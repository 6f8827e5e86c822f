import KernelModules.QdfIntParse

/-!
# Arrays of integers of the WLAN driver framework

The numbers of a list are parsed one after the other, as far as the array goes, and each is stored
once the comma or the end behind it is seen.
-/

namespace KernelModules.Qdf

/-- The loop over the slots of the array that are left, with the number of those in use. It gives
the status with the size that is written, and the array. -/
def arrayLoop (bits : ℕ) : ℕ → ℕ → (ℕ → ℕ) → Str → Except Error ℕ × (ℕ → ℕ)
  | 0, _, outArray, _ => (.error .failure, outArray)
  | left + 1, size, outArray, inStr =>
    match intParseLazy inStr with
    | .error e => (.error e, outArray)
    | .ok (value, negate, rest) =>
      if value % 2 ^ bits ≠ value ∨ negate = true then (.error .range, outArray)
      else
        match strLeftTrim rest with
        | [] => (.ok (size + 1), Function.update outArray size value)
        | c :: rest =>
          if c = 44 then arrayLoop bits left (size + 1) (Function.update outArray size value) rest
          else (.error .failure, outArray)

def uint16ArrayParse (inStr : Str) (outArray : ℕ → ℕ) (arraySize : ℕ) :
    Except Error ℕ × (ℕ → ℕ) := arrayLoop 16 arraySize 0 outArray inStr

def uint8ArrayParse (inStr : Str) (outArray : ℕ → ℕ) (arraySize : ℕ) :
    Except Error ℕ × (ℕ → ℕ) := arrayLoop 8 arraySize 0 outArray inStr

/-- The unsigned integer parser accepts the string, with a value in range. -/
def Element (bits : ℕ) (p : Str) (v : ℕ) : Prop := uint64Parse p = .ok v ∧ v < 2 ^ bits

/-- The trimmed string is split at its commas, and the pieces are parsed. -/
def SplitParse (bits : ℕ) (s : Str) (vs : List ℕ) : Prop :=
  List.Forall₂ (Element bits) ((strTrim s).splitOn 44) vs

/-- The array with these values from a slot on. -/
def stored (outArray : ℕ → ℕ) (size : ℕ) (vs : List ℕ) : ℕ → ℕ := fun i =>
  if i < size then outArray i else vs.getD (i - size) (outArray i)

variable {bits left size n v : ℕ} {outArray out' : ℕ → ℕ} {s t p ws rest : Str} {neg : Bool}
variable {vs : List ℕ} {ps : List Str}

theorem stored_nil : stored outArray size [] = outArray := by
  funext i
  simp [stored]

theorem stored_cons :
    stored (Function.update outArray size v) (size + 1) vs = stored outArray size (v :: vs) := by
  funext i
  unfold stored
  rcases Nat.lt_trichotomy i size with hlt | rfl | hgt
  · rw [if_pos (by omega), if_pos hlt, Function.update_of_ne hlt.ne]
  · simp
  · obtain ⟨k, rfl⟩ : ∃ k, i = size + 1 + k := ⟨i - (size + 1), by omega⟩
    rw [if_neg (by omega), if_neg (by omega), Function.update_of_ne (by omega),
      Nat.add_sub_cancel_left, show size + 1 + k - size = k + 1 by omega, List.getD_cons_succ]

/-- Blanks, and then a comma or nothing. -/
def Behind (t : Str) : Prop := ∀ c ∈ (strLeftTrim t).head?, c = 44

theorem Behind.comma : Behind (44 :: t) := by
  rintro c ⟨⟩
  rfl

theorem Blank.behind (h : Blank ws) : Behind ws := by
  simp [Behind, strLeftTrim_eq_nil.mpr h]

theorem Behind.head (h : Behind t) : ∀ c ∈ t.head?, c = 44 ∨ isSpace c = true := by
  rintro c hc
  obtain ⟨t', rfl⟩ := List.head?_eq_some_iff.mp hc
  by_cases hspace : isSpace c = true
  · exact Or.inr hspace
  · exact Or.inl (h c (by simp [strLeftTrim, hspace]))

theorem Behind.stops (h : Behind t) : Stops isHex t := fun c hc => by
  rcases h.head c hc with rfl | hspace
  · rfl
  · exact not_isHex_of_isSpace hspace

theorem strLeftTrim_append_eq (s t : Str) : strLeftTrim (s ++ t) =
    if strLeftTrim s = [] then strLeftTrim t else strLeftTrim s ++ t := by
  simp [strLeftTrim, List.dropWhile_append]

theorem consumeSign_append (h : s ≠ []) :
    consumeSign (s ++ t) = ((consumeSign s).1, (consumeSign s).2 ++ t) := by
  obtain ⟨c, s, rfl⟩ := List.exists_cons_of_ne_nil h
  by_cases h45 : c = 45
  · simp [consumeSign, consumeChar, h45]
  · by_cases h43 : c = 43 <;> simp [consumeSign, consumeChar, h43, h45]

theorem consumeRadix_append (ht : Behind t) :
    consumeRadix (s ++ t) = (consumeRadix s).map fun r => (r.1, r.2 ++ t) := by
  have hnot : ∀ c ∈ t.head?, ¬(48 ≤ c ∧ c ≤ 57) ∧ c ≠ 98 ∧ c ≠ 111 ∧ c ≠ 120 := fun c hc => by
    have hkind := ht.head c hc
    refine ⟨fun hlow => ?_, ?_, ?_, ?_⟩
    · obtain ⟨d, -, hd⟩ := decimal_iff.mpr hlow
      simpa [isHex, hd] using ht.stops c hc
    all_goals
      rintro rfl
      revert hkind
      decide
  rcases s with _ | ⟨c, _ | ⟨d, s⟩⟩
  · rcases t with _ | ⟨c, t⟩
    · rfl
    · have hc := (hnot c rfl).1
      rw [List.nil_append, consumeRadix_eq fun h48 => absurd (by rw [h48]; decide) hc, if_neg hc]
      rfl
  · rw [List.singleton_append, consumeRadix_eq fun _ d hd => (hnot d hd).2, consumeRadix_eq (by simp)]
    split_ifs <;> rfl
  · by_cases hpre : c = 48 ∧ (d = 98 ∨ d = 111 ∨ d = 120)
    · obtain ⟨rfl, rfl | rfl | rfl⟩ := hpre <;> rfl
    · have hne : c = 48 → ∀ d' ∈ (d :: s).head?, d' ≠ 98 ∧ d' ≠ 111 ∧ d' ≠ 120 := by
        simpa using hpre
      rw [List.cons_append, consumeRadix_eq hne, consumeRadix_eq (s := d :: s ++ t) hne]
      split_ifs <;> rfl

/-- Nothing is parsed in front of a comma. -/
theorem Behind.fails (h : Behind s) : intParseLazy s = .error .failure := by
  unfold intParseLazy
  cases hs : strLeftTrim s with
  | nil => rfl
  | cons c u =>
    obtain rfl := h c (by simp [hs])
    simp [consumeSign, consumeChar, consumeRadix]

theorem intParseLazy_append (ht : Behind t) :
    intParseLazy (s ++ t) = (intParseLazy s).map fun r => (r.1, r.2.1, r.2.2 ++ t) := by
  by_cases hs : strLeftTrim s = []
  · have hst : Behind (s ++ t) := by rwa [Behind, strLeftTrim_append_eq, if_pos hs]
    rw [hst.fails, Behind.fails (s := s) (by simp [Behind, hs])]
    rfl
  · have hradix := consumeRadix_append (s := (consumeSign (strLeftTrim s)).2) ht
    simp only [intParseLazy, strLeftTrim_append_eq, if_neg hs, consumeSign_append hs, hradix]
    cases consumeRadix (consumeSign (strLeftTrim s)).2 with
    | none => rfl
    | some r =>
      simp only [Option.map_some, digitLoop_append ht.stops]
      cases digitLoop r.1 0 r.2 <;> rfl

theorem intParseLazy_piece (h : intParseLazy s = .ok (v, neg, ws ++ 44 :: t)) :
    ∃ p, s = p ++ 44 :: t ∧ intParseLazy p = .ok (v, neg, ws) := by
  have hsuffix : ws ++ 44 :: t <:+ s := by
    have htrim : strLeftTrim s <:+ s := List.dropWhile_suffix _
    obtain ⟨sign, hsign, -⟩ := consumeSign_eq (strLeftTrim s)
    unfold intParseLazy at h
    dsimp only at h
    split at h
    · cases h
    next radix str hradix =>
      split at h
      · cases h
      next hloop =>
        cases h
        obtain ⟨pre, hpre, -⟩ := consumeRadix_some hradix
        obtain ⟨cs, rfl, -⟩ := digitLoop_ok hloop
        rw [hsign, hpre, ← List.append_assoc, ← List.append_assoc] at htrim
        exact (List.suffix_append _ _).trans htrim
  obtain ⟨q, rfl⟩ := hsuffix
  rw [← List.append_assoc, intParseLazy_append .comma] at h
  refine ⟨q ++ ws, (List.append_assoc ..).symm, ?_⟩
  cases hp : intParseLazy (q ++ ws) with
  | error e => simp [hp, Except.map] at h
  | ok r =>
    simp only [hp, Except.map, Except.ok.injEq, Prod.mk.injEq] at h
    obtain ⟨hv, hneg, hrest⟩ := h
    rw [← hv, ← hneg, ← List.append_cancel_right hrest]

theorem element_iff : Element bits p v ↔
    ∃ rest, intParseLazy p = .ok (v, false, rest) ∧ Blank rest ∧ v < 2 ^ bits := by
  unfold Element uint64Parse intParse
  cases intParseLazy p with
  | error e => simp [bind, Except.bind]
  | ok r =>
    obtain ⟨w, neg, rest⟩ := r
    by_cases hrest : strLeftTrim rest = []
    · cases neg <;> simp [bind, Except.bind, toUint64, hrest, strLeftTrim_eq_nil.mp hrest]
    · have hnot : ¬Blank rest := fun hb => hrest (strLeftTrim_eq_nil.mpr hb)
      simp [bind, Except.bind, hrest, hnot]

theorem Element.comma_notMem (h : Element bits p v) : 44 ∉ p := by
  intro hmem
  obtain ⟨a, b, rfl⟩ := List.append_of_mem hmem
  obtain ⟨rest, hp, hblank, -⟩ := element_iff.mp h
  rw [intParseLazy_append .comma] at hp
  cases ha : intParseLazy a with
  | error e => simp [ha, Except.map] at hp
  | ok r =>
    obtain ⟨w, neg, rest'⟩ := r
    rw [ha] at hp
    cases hp
    exact absurd (hblank 44 (by simp)) (by decide)

theorem comma_notMem (h : List.Forall₂ (Element bits) ps vs) : ∀ p ∈ ps, 44 ∉ p := by
  induction h with
  | nil => simp
  | cons hp _ ih => exact List.forall_mem_cons.mpr ⟨hp.comma_notMem, ih⟩

theorem Element.arrayLoop (h : Element bits p v) (ht : Behind t) :
    arrayLoop bits (left + 1) size outArray (p ++ t) =
      match strLeftTrim t with
      | [] => (.ok (size + 1), Function.update outArray size v)
      | _ :: t => Qdf.arrayLoop bits left (size + 1) (Function.update outArray size v) t := by
  obtain ⟨rest, hp, hblank, hv⟩ := element_iff.mp h
  have hmod := Nat.mod_eq_of_lt hv
  rw [Qdf.arrayLoop, intParseLazy_append ht, hp]
  simp only [Except.map, hmod, strLeftTrim_append_eq, if_pos (strLeftTrim_eq_nil.mpr hblank)]
  cases hst : strLeftTrim t with
  | nil => simp
  | cons c u =>
    obtain rfl := ht c (by simp [hst])
    simp

theorem arrayLoop_intercalate (h : List.Forall₂ (Element bits) ps vs) (hne : ps ≠ [])
    (hle : vs.length ≤ left) : arrayLoop bits left size outArray ([44].intercalate ps) =
      (.ok (size + vs.length), stored outArray size vs) := by
  induction h generalizing left size outArray with
  | nil => exact absurd rfl hne
  | @cons p v ps vs hp hps ih =>
    obtain ⟨left, rfl⟩ : ∃ k, left = k + 1 := ⟨left - 1, by simp at hle; omega⟩
    by_cases hnil : ps = []
    · subst hnil
      cases hps
      have hend : Behind [] := by simp [Behind, strLeftTrim]
      have hlast : arrayLoop bits (left + 1) size outArray (p ++ []) = _ := hp.arrayLoop hend
      rw [List.append_nil] at hlast
      rw [List.intercalate_singleton, hlast, ← stored_cons, stored_nil]
      rfl
    · rw [List.intercalate_cons_of_ne_nil hnil, List.append_assoc, List.singleton_append,
        hp.arrayLoop .comma, ← stored_cons, List.length_cons, Nat.add_comm vs.length,
        ← Nat.add_assoc]
      exact ih hnil (by simpa using hle)

theorem arrayLoop_ok (h : arrayLoop bits left size outArray s = (.ok n, out')) :
    ∃ ps vs, ps ≠ [] ∧ s = [44].intercalate ps ∧ List.Forall₂ (Element bits) ps vs ∧
      vs.length ≤ left ∧ n = size + vs.length ∧ out' = stored outArray size vs := by
  induction left generalizing size outArray s with
  | zero => cases h
  | succ left ih =>
    rw [arrayLoop] at h
    split at h
    · cases h
    next v neg rest hlazy =>
      split_ifs at h with hbad
      · cases h
      obtain ⟨hv, hneg⟩ := not_or.mp hbad
      obtain rfl : neg = false := by simpa using hneg
      have hlt : v < 2 ^ bits := not_not.mp hv ▸ Nat.mod_lt v (Nat.two_pow_pos bits)
      split at h
      next hrest =>
        cases h
        have hs := element_iff.mpr ⟨rest, hlazy, strLeftTrim_eq_nil.mp hrest, hlt⟩
        refine ⟨[s], [v], by simp, by simp, .cons hs .nil, by simp, rfl, ?_⟩
        rw [← stored_cons, stored_nil]
      next c t hrest =>
        split_ifs at h with hc
        · subst hc
          obtain ⟨ws, hws, heq⟩ := exists_strLeftTrim rest
          rw [heq, hrest] at hlazy
          obtain ⟨p, rfl, hp⟩ := intParseLazy_piece hlazy
          obtain ⟨ps, vs, hne, rfl, hps, hle, rfl, rfl⟩ := ih h
          refine ⟨p :: ps, v :: vs, by simp, ?_, .cons (element_iff.mpr ⟨ws, hp, hws, hlt⟩) hps,
            by simpa using hle, by simp; omega, stored_cons⟩
          rw [List.intercalate_cons_of_ne_nil hne, List.append_assoc, List.singleton_append]
        · cases h

theorem arrayLoop_blank (hws : Blank ws) :
    arrayLoop bits left size outArray (s ++ ws) = arrayLoop bits left size outArray s := by
  induction left generalizing size outArray s with
  | zero => rfl
  | succ left ih =>
    rw [arrayLoop, arrayLoop, intParseLazy_append hws.behind]
    cases intParseLazy s with
    | error e => rfl
    | ok r =>
      obtain ⟨v, neg, rest⟩ := r
      simp only [Except.map, strLeftTrim_append_eq, strLeftTrim_eq_nil.mpr hws]
      cases strLeftTrim rest with
      | nil => rfl
      | cons c t => simp [ih]

theorem arrayLoop_strTrim (s : Str) :
    arrayLoop bits left size outArray (strTrim s) = arrayLoop bits left size outArray s := by
  have hright : ∃ ws, Blank ws ∧ s = strRightTrim s ++ ws := by
    obtain ⟨ws, hws, hs⟩ := exists_strLeftTrim s.reverse
    refine ⟨ws.reverse, fun c hc => hws c (List.mem_reverse.mp hc), ?_⟩
    have hrev := congrArg List.reverse hs
    rwa [List.reverse_reverse, List.reverse_append] at hrev
  obtain ⟨ws, hws, hs⟩ := hright
  have hnil : Blank [] := by simp [Blank]
  have hleft : strLeftTrim (strTrim s) = strLeftTrim (strRightTrim s) :=
    strLeftTrim_append hnil (stops_dropWhile isSpace _)
  nth_rewrite 2 [hs]
  rw [arrayLoop_blank hws]
  cases left with
  | zero => rfl
  | succ left => simp only [arrayLoop, intParseLazy, hleft]

theorem arrayLoop_ok_iff : arrayLoop bits left 0 outArray s = (.ok n, out') ↔
    ∃ vs, SplitParse bits s vs ∧ vs.length ≤ left ∧ n = vs.length ∧
      out' = fun i => vs.getD i (outArray i) := by
  have hstored : ∀ vs, stored outArray 0 vs = fun i => vs.getD i (outArray i) := fun vs => rfl
  rw [← arrayLoop_strTrim]
  constructor
  · intro h
    obtain ⟨ps, vs, hne, hs, hps, hle, rfl, rfl⟩ := arrayLoop_ok h
    refine ⟨vs, ?_, hle, Nat.zero_add _, hstored vs⟩
    rwa [SplitParse, hs, List.splitOn_intercalate _ (comma_notMem hps) hne]
  · rintro ⟨vs, hvs, hle, rfl, rfl⟩
    have hrun : arrayLoop bits left 0 outArray _ = _ :=
      arrayLoop_intercalate hvs (List.splitOn_ne_nil _ _) hle
    rwa [List.intercalate_splitOn, Nat.zero_add, hstored] at hrun

/-- A list that fits is split at its commas, and its pieces are parsed; other strings fail. -/
theorem array_parse_iff (s : Str) (outArray : ℕ → ℕ) (arraySize n : ℕ) (out' : ℕ → ℕ) :
    (uint8ArrayParse s outArray arraySize = (.ok n, out') ↔
      ∃ vs, SplitParse 8 s vs ∧ vs.length ≤ arraySize ∧ n = vs.length ∧
        out' = fun i => vs.getD i (outArray i)) ∧
    (uint16ArrayParse s outArray arraySize = (.ok n, out') ↔
      ∃ vs, SplitParse 16 s vs ∧ vs.length ≤ arraySize ∧ n = vs.length ∧
        out' = fun i => vs.getD i (outArray i)) :=
  ⟨arrayLoop_ok_iff, arrayLoop_ok_iff⟩

/-- There is no room for the second element of 1,2. -/
theorem uint16ArrayParse_no_room : ¬∀ s outArray arraySize,
    (∃ n out', uint16ArrayParse s outArray arraySize = (.ok n, out')) ↔ ∃ vs, SplitParse 16 s vs := by
  intro hall
  have hsplit : SplitParse 16 [49, 44, 50] [1, 2] := by
    have hpieces : (strTrim [49, 44, 50]).splitOn 44 = [[49], [50]] := by decide
    rw [SplitParse, hpieces]
    exact .cons ⟨by decide, by decide⟩ (.cons ⟨by decide, by decide⟩ .nil)
  obtain ⟨n, out', h⟩ := (hall [49, 44, 50] (fun _ => 0) 1).mpr ⟨_, hsplit⟩
  cases h

end KernelModules.Qdf
