import KernelModules.QdfStr

/-!
# The ini files of the WLAN driver framework

The parser walks over the bytes of a file and a NUL behind them, and ends strings with a NUL where
it finds a `=`, a `#` or the end of a line. The text it reads ends at the first NUL of the file. A
key is trimmed, and a value is handed on as it is.
-/

namespace KernelModules.Qdf

def cstr (s : Str) : Str := s.takeWhile (· ≠ 0)

def isEol (c : UInt8) : Bool := c == 10 || c == 13

/-- The bytes from `key` to the cursor, and the offset of `value` into them. -/
structure IniLine where
  bytes : Str
  value : Option ℕ
  comment : Bool

/-- The cursor goes past a byte that does not end the line. -/
def IniLine.see (l : IniLine) (c : UInt8) : IniLine :=
  if c = 61 then
    if l.value.isNone && !l.comment then
      { l with bytes := l.bytes ++ [0], value := some (l.bytes.length + 1) }
    else { l with bytes := l.bytes ++ [c] }
  else if c = 35 then { l with bytes := l.bytes ++ [0], comment := true }
  else { l with bytes := l.bytes ++ [c] }

/-- The look for the end of the line; `none` when it is past the bytes. -/
def iniLine : IniLine → Str → Option (IniLine × Str)
  | _, [] => none
  | l, c :: rest =>
    if isEol c then some ({ l with bytes := l.bytes ++ [0] }, rest)
    else if c = 0 then some (l, c :: rest)
    else iniLine (l.see c) rest

def sectionName (key : Str) : Option Str :=
  if key.head? = some 91 ∧ key.getLast? = some 93 then some key.dropLast.tail else none

inductive IniEvent
  | item (key value : Str)
  | section (name : Str)
  deriving DecidableEq

/-- The callback for the line, whose bytes go on with `rest`. -/
def IniLine.event (l : IniLine) (rest : Str) : Option IniEvent :=
  let key := strTrim (cstr (l.bytes ++ rest))
  match l.value with
  | some k => some (.item key (cstr ((l.bytes ++ rest).drop k)))
  | none => (sectionName key).map .section

variable {σ ε : Type*}

/-- The loop over the lines; a callback fails with `some` error. -/
def iniLoop (callback : σ → IniEvent → σ × Option ε) : ℕ → Str → σ → Option (σ × Option ε)
  | 0, _, _ => none
  | _ + 1, [], _ => none
  | fuel + 1, c :: buf, context =>
    if c = 0 then some (context, none)
    else
      match iniLine ⟨[], none, false⟩ (c :: buf) with
      | none => none
      | some (l, rest) =>
        match l.event rest with
        | none => iniLoop callback fuel (rest.dropWhile isEol) context
        | some e =>
          match callback context e with
          | (context, some error) => some (context, some error)
          | (context, none) => iniLoop callback fuel (rest.dropWhile isEol) context

/-- The parse of the content of a file, which `qdf_file_read` has put a NUL behind. -/
def iniParse (callback : σ → IniEvent → σ × Option ε) (content : Str) (context : σ) :
    Option (σ × Option ε) :=
  iniLoop callback (content.length + 1) (content ++ [0]) context

/-- What the line means, by the way its value is spelled. -/
def lineEvent (spell : Str → Str) (line : Str) : Option IniEvent :=
  let text := line.takeWhile (· ≠ 35)
  if 61 ∈ text then
    some (.item (strTrim (text.takeWhile (· ≠ 61))) (spell (text.dropWhile (· ≠ 61)).tail))
  else (sectionName (strTrim text)).map .section

def iniEvents (spell : Str → Str) (text : Str) : List IniEvent :=
  (text.splitOnP isEol).filterMap (lineEvent spell)

/-- The callbacks are invoked one by one, up to the first that fails. -/
def invoke (callback : σ → IniEvent → σ × Option ε) : List IniEvent → σ → σ × Option ε
  | [], context => (context, none)
  | e :: events, context =>
    match callback context e with
    | (context, some error) => (context, some error)
    | (context, none) => invoke callback events context

variable {l : IniLine} {s t line rest : Str} {callback : σ → IniEvent → σ × Option ε}

theorem iniLine_append (hs : ∀ c ∈ s, isEol c = false ∧ c ≠ 0) :
    iniLine l (s ++ t) = iniLine (s.foldl IniLine.see l) t := by
  induction s generalizing l with
  | nil => rfl
  | cons c s ih =>
    obtain ⟨heol, hzero⟩ := hs c List.mem_cons_self
    rw [List.cons_append, iniLine, if_neg (by simp [heol]), if_neg hzero,
      ih fun c hc => hs c (List.mem_cons_of_mem _ hc)]
    rfl

theorem foldl_see_plain (hs : ∀ c ∈ s, c ≠ 35)
    (hvalue : l.value.isSome ∨ l.comment ∨ ∀ c ∈ s, c ≠ 61) :
    s.foldl IniLine.see l = { l with bytes := l.bytes ++ s } := by
  induction s generalizing l with
  | nil => simp
  | cons c s ih =>
    have hsee : l.see c = { l with bytes := l.bytes ++ [c] } := by
      unfold IniLine.see
      rw [if_neg (hs c List.mem_cons_self)]
      split_ifs with heq hfirst
      · rw [Bool.and_eq_true, Option.isNone_iff_eq_none, Bool.not_eq_true'] at hfirst
        simp [hfirst.1, hfirst.2] at hvalue
        exact absurd heq hvalue.1
      · rfl
      · rfl
    rw [List.foldl_cons, hsee, ih (fun c hc => hs c (List.mem_cons_of_mem _ hc)) ?_]
    · simp
    · exact hvalue.imp id (Or.imp id fun h c hc => h c (List.mem_cons_of_mem _ hc))

theorem foldl_see_comment (hl : l.comment = true) (s : Str) :
    ∃ t, s.foldl IniLine.see l = { l with bytes := l.bytes ++ t } := by
  induction s generalizing l with
  | nil => exact ⟨[], by simp⟩
  | cons c s ih =>
    obtain ⟨d, hd⟩ : ∃ d, l.see c = { l with bytes := l.bytes ++ [d] } := by
      unfold IniLine.see
      split_ifs with heq hfirst
      · simp [hl] at hfirst
      · exact ⟨c, rfl⟩
      · exact ⟨0, by rw [← hl]⟩
      · exact ⟨c, rfl⟩
    rw [List.foldl_cons, hd]
    obtain ⟨t, ht⟩ := ih (l := { l with bytes := l.bytes ++ [d] }) hl
    exact ⟨d :: t, by simp [ht]⟩

theorem foldl_see_tail (hs : ∀ c ∈ s.head?, c = 35) : ∃ behind comment,
    s.foldl IniLine.see l = ⟨l.bytes ++ behind, l.value, comment⟩ ∧
      ∀ t, ∃ t', behind ++ 0 :: t = 0 :: t' := by
  cases s with
  | nil => exact ⟨[], l.comment, by simp, fun t => ⟨t, rfl⟩⟩
  | cons c s =>
    obtain rfl := hs c rfl
    obtain ⟨u, hu⟩ := foldl_see_comment
      (l := { l with bytes := l.bytes ++ [0], comment := true }) rfl s
    exact ⟨0 :: u, true, hu.trans (by simp), fun t => ⟨u ++ 0 :: t, rfl⟩⟩

theorem exists_split (p : UInt8 → Bool) (s : Str) : ∃ t t', s = t ++ t' ∧ s.takeWhile p = t ∧
    s.dropWhile p = t' ∧ (∀ c ∈ t, p c = true) ∧ Stops p t' :=
  ⟨_, _, List.takeWhile_append_dropWhile.symm, rfl, rfl, fun _ => List.mem_takeWhile_imp,
    stops_dropWhile p s⟩

/-- The line as the parser leaves it: the string of the key, then that of the value. -/
theorem foldl_see (hline : ∀ c ∈ line, c ≠ 0) : ∃ key behind value comment,
    line.foldl IniLine.see ⟨[], none, false⟩ = ⟨key ++ behind, value, comment⟩ ∧
      (∀ c ∈ key, c ≠ 0) ∧
      ∀ t, ∃ t', behind ++ 0 :: t = 0 :: t' ∧
        lineEvent id line = match value with
          | some k => some (.item (strTrim key) (cstr ((key ++ 0 :: t').drop k)))
          | none => (sectionName (strTrim key)).map .section := by
  obtain ⟨text, tail, rfl, htext, -, hhash, htail⟩ := exists_split (· ≠ 35) line
  simp only [lineEvent, htext, List.foldl_append]
  have htail' : ∀ c ∈ tail.head?, c = 35 := fun c hc => by simpa using htail c hc
  by_cases heq : 61 ∈ text
  · rw [if_pos heq]
    obtain ⟨key, rest, rfl, hkey, hrest, hplain, hstop⟩ := exists_split (· ≠ 61) text
    obtain ⟨value, rfl⟩ : ∃ value, rest = 61 :: value := by
      cases rest with
      | nil => simpa using hplain 61 (by simpa using heq)
      | cons c value => exact ⟨value, by simpa using hstop c rfl⟩
    have hfirst : key.foldl IniLine.see ⟨[], none, false⟩ = ⟨key, none, false⟩ :=
      foldl_see_plain (fun c hc => by simpa using hhash c (by simp [hc]))
        (Or.inr (Or.inr fun c hc => by simpa using hplain c hc))
    have hsecond : value.foldl IniLine.see ⟨key ++ [0], some (key.length + 1), false⟩ =
        ⟨key ++ [0] ++ value, some (key.length + 1), false⟩ :=
      foldl_see_plain (fun c hc => by simpa using hhash c (by simp [hc])) (Or.inl rfl)
    rw [hkey, hrest, List.foldl_append, List.foldl_cons, hfirst,
      show IniLine.see ⟨key, none, false⟩ 61 = ⟨key ++ [0], some (key.length + 1), false⟩ from rfl,
      hsecond]
    obtain ⟨behind, comment, hfold, hbehind⟩ := foldl_see_tail
      (l := ⟨key ++ [0] ++ value, some (key.length + 1), false⟩) htail'
    refine ⟨key, 0 :: (value ++ behind), some (key.length + 1), comment, hfold.trans (by simp),
      fun c hc => hline c (by simp [hc]), fun t => ⟨value ++ behind ++ 0 :: t, rfl, ?_⟩⟩
    obtain ⟨t', ht'⟩ := hbehind t
    have hvalue : cstr (value ++ 0 :: t') = value :=
      takeWhile_append (fun c hc => by simpa using hline c (by simp [hc])) (by rintro c ⟨⟩; rfl)
    have hdrop : (key ++ 0 :: (value ++ 0 :: t')).drop (key.length + 1) = value ++ 0 :: t' := by
      rw [List.drop_add_one_eq_tail_drop, List.drop_left, List.tail_cons]
    rw [List.append_assoc, ht']
    simp only [hdrop, hvalue]
    rfl
  · have hfirst : text.foldl IniLine.see ⟨[], none, false⟩ = ⟨text, none, false⟩ :=
      foldl_see_plain (fun c hc => by simpa using hhash c hc)
        (Or.inr (Or.inr fun c hc => by rintro rfl; exact heq hc))
    rw [if_neg heq, hfirst]
    obtain ⟨behind, comment, hfold, hbehind⟩ := foldl_see_tail (l := ⟨text, none, false⟩) htail'
    exact ⟨text, behind, none, comment, hfold, fun c hc => hline c (by simp [hc]), fun t => by
      obtain ⟨t', ht'⟩ := hbehind t
      exact ⟨t', ht', rfl⟩⟩

theorem event_of_foldl (hline : ∀ c ∈ line, c ≠ 0)
    (hbytes : l.bytes ++ rest = (line.foldl IniLine.see ⟨[], none, false⟩).bytes ++ 0 :: t)
    (hvalue : l.value = (line.foldl IniLine.see ⟨[], none, false⟩).value) :
    l.event rest = lineEvent id line := by
  obtain ⟨key, behind, value, comment, heq, hkey, hbehind⟩ := foldl_see hline
  obtain ⟨t', ht', hevent⟩ := hbehind t
  rw [heq] at hbytes hvalue
  have hcstr : cstr (key ++ 0 :: t') = key :=
    takeWhile_append (by simpa using hkey) (by rintro c ⟨⟩; rfl)
  rw [IniLine.event, hbytes, List.append_assoc, ht', hvalue, hevent, hcstr]

variable {e : UInt8} {key value : Str} {spell : Str → Str}

theorem iniLine_line (hline : ∀ c ∈ line, isEol c = false ∧ c ≠ 0)
    (he : isEol e = true ∨ e = 0) : ∃ l rest,
      iniLine ⟨[], none, false⟩ (line ++ e :: t) = some (l, rest) ∧
      l.event rest = lineEvent id line ∧ rest.dropWhile isEol = (e :: t).dropWhile isEol := by
  rw [iniLine_append hline, iniLine]
  rcases he with heol | rfl
  · rw [if_pos heol]
    refine ⟨_, _, rfl, event_of_foldl (t := t) (fun c hc => (hline c hc).2) (by simp) rfl, ?_⟩
    rw [List.dropWhile_cons_of_pos heol]
  · exact ⟨_, _, rfl, event_of_foldl (t := t) (fun c hc => (hline c hc).2) rfl rfl, rfl⟩

theorem lineEvent_value (h : lineEvent id line = some (.item key value)) :
    ∀ c ∈ value, c ∈ line := fun c hc => by
  unfold lineEvent at h
  dsimp only at h
  split_ifs at h
  · cases h
    exact (List.takeWhile_prefix _).mem ((List.dropWhile_suffix _).mem (List.mem_of_mem_tail hc))
  · obtain ⟨name, -, hname⟩ := Option.map_eq_some_iff.mp h
    cases hname

theorem iniEvents_cons_eol (he : isEol e = true) :
    iniEvents spell (line ++ e :: t) =
      iniEvents spell line ++ iniEvents spell t := by
  rw [iniEvents, List.splitOnP_append_cons _ _ he, List.filterMap_append]
  rfl

theorem iniEvents_dropWhile (spell : Str → Str) (t : Str) :
    iniEvents spell (t.dropWhile isEol) = iniEvents spell t := by
  induction t with
  | nil => rfl
  | cons c t ih =>
    by_cases hc : isEol c
    · rw [List.dropWhile_cons_of_pos hc, ih, ← List.nil_append (c :: t), iniEvents_cons_eol hc]
      rfl
    · rw [List.dropWhile_cons_of_neg hc]

theorem mem_of_mem_splitOnP {p : UInt8 → Bool} (h : line ∈ t.splitOnP p) : ∀ c ∈ line, c ∈ t := by
  induction t generalizing line with
  | nil => simp_all
  | cons x t ih =>
    rw [List.splitOnP_cons_eq_if_modifyHead] at h
    split_ifs at h
    · rcases List.mem_cons.mp h with rfl | h
      · simp
      · exact fun c hc => List.mem_cons_of_mem _ (ih h c hc)
    · cases hsplit : t.splitOnP p with
      | nil => exact absurd hsplit (List.splitOnP_ne_nil p t)
      | cons first rest =>
        rw [hsplit] at h ih
        rcases List.mem_cons.mp h with rfl | h
        · exact List.forall_mem_cons.mpr ⟨List.mem_cons_self, fun c hc =>
            List.mem_cons_of_mem _ (ih List.mem_cons_self c hc)⟩
        · exact fun c hc =>
            List.mem_cons_of_mem _ (ih (List.mem_cons_of_mem _ h) c hc)

theorem iniEvents_value (h : .item key value ∈ iniEvents id t) :
    ∀ c ∈ value, c ∈ t := fun c hc => by
  obtain ⟨line, hline, hevent⟩ := List.mem_filterMap.mp h
  exact mem_of_mem_splitOnP hline c (lineEvent_value hevent c hc)

theorem iniEvents_nil (spell : Str → Str) : iniEvents spell [] = [] := rfl

theorem dropWhile_nul : (t ++ 0 :: rest).dropWhile isEol = t.dropWhile isEol ++ 0 :: rest := by
  induction t with
  | nil => rfl
  | cons c t ih =>
    by_cases hc : isEol c
    · rw [List.cons_append, List.dropWhile_cons_of_pos hc, List.dropWhile_cons_of_pos hc, ih]
    · rw [List.cons_append, List.dropWhile_cons_of_neg hc, List.dropWhile_cons_of_neg hc,
        List.cons_append]

theorem iniEvents_line (hline : ∀ c ∈ line, isEol c = false) :
    iniEvents spell line = (lineEvent spell line).toList := by
  rw [iniEvents, List.splitOnP_eq_singleton hline]
  cases hevent : lineEvent spell line <;> simp [hevent]

theorem iniLoop_eq {fuel : ℕ} (context : σ) (ht : ∀ c ∈ t, c ≠ 0) (hfuel : t.length < fuel) :
    iniLoop callback fuel (t ++ 0 :: rest) context =
      some (invoke callback (iniEvents id t) context) := by
  induction fuel generalizing t context with
  | zero => cases hfuel
  | succ fuel ih =>
    by_cases hnil : t = []
    · subst hnil
      rfl
    obtain ⟨line, after, hsplit, hline, hafter⟩ : ∃ line after, t = line ++ after ∧
        (∀ c ∈ line, isEol c = false) ∧ ∀ c ∈ after.head?, isEol c = true :=
      ⟨t.takeWhile (! isEol ·), t.dropWhile (! isEol ·), List.takeWhile_append_dropWhile.symm,
        fun c hc => by simpa using List.mem_takeWhile_imp hc,
        fun c hc => by simpa using stops_dropWhile (! isEol ·) t c hc⟩
    have hbytes : ∀ c ∈ line, isEol c = false ∧ c ≠ 0 := fun c hc =>
      ⟨hline c hc, ht c (hsplit ▸ List.mem_append_left _ hc)⟩
    have hnext : ∃ l rest', iniLine ⟨[], none, false⟩ (t ++ 0 :: rest) = some (l, rest') ∧
        l.event rest' = lineEvent id line ∧
        rest'.dropWhile isEol = after.dropWhile isEol ++ 0 :: rest := by
      rw [hsplit, List.append_assoc, ← dropWhile_nul]
      cases after with
      | nil => exact iniLine_line hbytes (Or.inr rfl)
      | cons e after =>
        exact iniLine_line (t := after ++ 0 :: rest) hbytes (Or.inl (hafter e rfl))
    have hevents : iniEvents id t =
        (lineEvent id line).toList ++ iniEvents id (after.dropWhile isEol) := by
      rw [hsplit, iniEvents_dropWhile, ← iniEvents_line hline]
      cases after with
      | nil => simp [iniEvents_nil]
      | cons e after =>
        rw [iniEvents_cons_eol (hafter e rfl), ← List.nil_append (e :: after),
          iniEvents_cons_eol (hafter e rfl)]
        rfl
    have hshort : (after.dropWhile isEol).length < fuel := by
      have hle := (List.dropWhile_sublist (l := after) isEol).length_le
      have hpos := List.length_pos_iff.mpr hnil
      rw [hsplit, List.length_append] at hpos hfuel
      cases line with
      | cons c line => simp at hfuel; omega
      | nil =>
        cases after with
        | nil => simp at hpos
        | cons e after =>
          rw [List.dropWhile_cons_of_pos (hafter e rfl)]
          have hle := (List.dropWhile_sublist (l := after) isEol).length_le
          simp at hfuel
          omega
    have htail : ∀ c ∈ after.dropWhile isEol, c ≠ 0 := fun c hc =>
      ht c (hsplit ▸ List.mem_append_right _ ((List.dropWhile_sublist isEol).mem hc))
    obtain ⟨l, rest', hl, hevent, hrest⟩ := hnext
    obtain ⟨c, t, rfl⟩ := List.exists_cons_of_ne_nil hnil
    rw [List.cons_append] at hl ⊢
    rw [iniLoop, if_neg (ht c List.mem_cons_self), hl, hevents]
    dsimp only
    rw [hevent, hrest]
    cases lineEvent id line with
    | none => exact ih _ htail hshort
    | some e =>
      simp only [Option.toList_some, List.singleton_append, invoke]
      cases callback context e with
      | mk context' status =>
        cases status with
        | none => exact ih _ htail hshort
        | some error => rfl

theorem exists_cstr (content : Str) : ∃ rest, content ++ [0] = cstr content ++ 0 :: rest ∧
    (∀ c ∈ cstr content, c ≠ 0) ∧ (cstr content).length < content.length + 1 := by
  obtain ⟨text, tail, rfl, htext, -, hplain, hstop⟩ := exists_split (· ≠ 0) content
  obtain ⟨rest, hrest⟩ : ∃ rest, tail ++ [0] = 0 :: rest := by
    cases tail with
    | nil => exact ⟨[], rfl⟩
    | cons c tail => exact ⟨tail ++ [0], by simpa using hstop c rfl⟩
  rw [show cstr (text ++ tail) = text from htext, List.append_assoc, hrest]
  exact ⟨rest, rfl, fun c hc => by simpa using hplain c hc, by
    simp only [List.length_append]
    omega⟩

/-- The parse ends inside the file, and invokes the callbacks for the lines of its text. -/
theorem iniParse_eq (callback : σ → IniEvent → σ × Option ε) (content : Str) (context : σ) :
    iniParse callback content context =
      some (invoke callback (iniEvents id (cstr content)) context) := by
  obtain ⟨rest, heq, hplain, hlen⟩ := exists_cstr content
  rw [iniParse, heq]
  exact iniLoop_eq context hplain hlen

/-- The value of a = b is handed on with the blank in front of it. -/
theorem iniParse_untrimmed : ¬∀ (callback : List IniEvent → IniEvent → List IniEvent × Option Unit)
    (content : Str) (context : List IniEvent), iniParse callback content context =
      some (invoke callback (iniEvents strTrim (cstr content)) context) := fun hall =>
  absurd (hall (fun log e => (log ++ [e], none)) [97, 32, 61, 32, 98] []) (by decide)

end KernelModules.Qdf
