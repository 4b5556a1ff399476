import BootTrust.Proofs.Command.Words
/-
What a command line is taken to say. The reader goes over a line once for the words in front of the
command and once for those behind it. Both are runs of small steps, one for each piece of the line
(`Level.Piece`), and a step takes from the line what it adds to the level: values, switches and
operands together stay what they are.

So a line that is understood is taken to say just what its words say
(`Invocation.isSaidBy_of_parse`).
-/

set_option autoImplicit false

namespace BootTrust.Command

/-! ## The pieces of a line -/

namespace Level

/-- One step of the reader: the piece in front of the words, and what it adds to the level. -/
inductive Piece (inner : Bool) (known : Setting → Bool) :
    Level → List String → Level → List String → Prop where
  | divider (level : Level) (more : List String) (hinner : inner = true) :
    Piece inner known level ("--" :: more) { level with operands := level.operands ++ more } []
  | operand (level : Level) (word : String) (more : List String) (hinner : inner = true)
      (hword : isOption word = false) :
    Piece inner known level (word :: more) { level with operands := level.operands ++ [word] } more
  /-- How much is to be logged is not kept. -/
  | verbose (level : Level) (more : List String) :
    Piece inner known level ("--verbose" :: more) level more
  | letters (level : Level) (word : String) (more : List String) (hword : isOption word = true)
      (hshort : ¬ IsLong word) : Piece inner known level (word :: more) level more
  | switch (level : Level) (switch : Switch) (more : List String) :
    Piece inner known level (switch.word :: more)
      { level with switches := switch :: level.switches } more
  /-- An option with its value joined to it. An option that a level has already is not taken
  again. -/
  | joined (level : Level) (setting : Setting) (value : String) (more : List String)
      (hknown : known setting = true) (hfirst : level.value? setting = none) :
    Piece inner known level ((setting.word ++ "=" ++ value) :: more)
      { level with settings := (setting, value) :: level.settings } more
  | separate (level : Level) (setting : Setting) (value : String) (more : List String)
      (hknown : known setting = true) (hfirst : level.value? setting = none)
      (hvalue : isOption value = false) :
    Piece inner known level (setting.word :: value :: more)
      { level with settings := (setting, value) :: level.settings } more

/-- Step by step, until the words are used up or the outer level is at the command. -/
inductive Reads (inner : Bool) (known : Setting → Bool) :
    Level → List String → Level → List String → Prop where
  | finished (level : Level) : Reads inner known level [] level []
  | command (level : Level) (word : String) (more : List String) (houter : inner = false)
      (hword : isOption word = false) : Reads inner known level (word :: more) level (word :: more)
  | piece {level level' level'' : Level} {words words' rest : List String}
      (hpiece : Piece inner known level words level' words')
      (hreads : Reads inner known level' words' level'' rest) :
    Reads inner known level words level'' rest

variable {inner : Bool} {known : Setting → Bool} {level level' : Level}
  {words words' rest : List String}

theorem addSetting_eq_some {setting : Setting} {value : String}
    (h : level.addSetting setting value = some level') :
    level.value? setting = none
      ∧ level' = { level with settings := (setting, value) :: level.settings } := by
  unfold addSetting at h
  split at h
  next hadds =>
    obtain ⟨-, hnone⟩ := Bool.and_eq_true_iff.mp hadds
    exact ⟨Option.isNone_iff_eq_none.mp hnone, (Option.some.inj h).symm⟩
  next => cases h

theorem addSwitch_eq_some {switch : Switch} (h : level.addSwitch switch = some level') :
    level' = { level with switches := switch :: level.switches } := by
  unfold addSwitch at h
  split at h
  next => cases h
  next => exact (Option.some.inj h).symm

theorem isOption_of_isValue {word : String} (h : isValue word = true) : isOption word = false := by
  unfold isValue at h
  split at h
  next hword => exact (Token.isFormOf hword).2
  next => cases h

theorem reads_of_read (h : read inner known level words = some (level', rest)) :
    Reads inner known level words level' rest := by
  fun_induction read inner known level words generalizing level' rest with
  | case1 level =>
    obtain ⟨rfl, rfl⟩ := Prod.mk.inj (Option.some.inj h)
    exact .finished level
  | case2 level word more hword hinner =>
    obtain ⟨rfl, rfl⟩ := Prod.mk.inj (Option.some.inj h)
    obtain rfl : word = "--" := Token.isFormOf hword
    exact .piece (.divider level more hinner) (.finished _)
  | case3 => cases h
  | case4 level word more operand hword hinner ih =>
    obtain ⟨rfl, hoperand⟩ : operand = word ∧ isOption word = false := Token.isFormOf hword
    exact .piece (.operand level operand more hinner hoperand) (ih h)
  | case5 level word more operand hword houter =>
    obtain ⟨rfl, rfl⟩ := Prod.mk.inj (Option.some.inj h)
    obtain ⟨rfl, hoperand⟩ : operand = word ∧ isOption word = false := Token.isFormOf hword
    exact .command level operand more (Bool.not_eq_true _ ▸ houter) hoperand
  | case6 level word more letters hword hletters ih =>
    obtain ⟨hoption, hshort⟩ : isOption word = true ∧ ¬ IsLong word := Token.isFormOf hword
    exact .piece (.letters level word more hoption hshort) (ih h)
  | case7 => cases h
  | case8 level word more name value hword ih =>
    obtain ⟨setting, hsetting, hadds⟩ := Option.bind_eq_some_iff.mp h
    split at hadds
    next hknown =>
      obtain ⟨added, hadded, hread⟩ := Option.bind_eq_some_iff.mp hadds
      obtain ⟨hfirst, rfl⟩ := addSetting_eq_some hadded
      obtain rfl : word = "--" ++ name ++ "=" ++ value := Token.isFormOf hword
      obtain rfl := Setting.ofName?_eq_some hsetting
      exact .piece (.joined level setting value more hknown hfirst) (ih _ hread)
    next => cases hadds
  | case9 level word more hword ih =>
    obtain rfl : word = "--verbose" := Token.isFormOf hword
    exact .piece (.verbose level more) (ih h)
  | case10 level word more name hword hverbose switch hswitch ih =>
    obtain ⟨added, hadded, hread⟩ := Option.bind_eq_some_iff.mp h
    obtain rfl := addSwitch_eq_some hadded
    obtain rfl : word = "--" ++ name := Token.isFormOf hword
    obtain rfl := Switch.ofName?_eq_some hswitch
    exact .piece (.switch level switch more) (ih _ hread)
  | case11 => cases h
  | case12 level word name hword hverbose hswitch value more ih =>
    obtain ⟨setting, hsetting, hadds⟩ := Option.bind_eq_some_iff.mp h
    split at hadds
    next hboth =>
      obtain ⟨hknown, hvalue⟩ := Bool.and_eq_true_iff.mp hboth
      obtain ⟨added, hadded, hread⟩ := Option.bind_eq_some_iff.mp hadds
      obtain ⟨hfirst, rfl⟩ := addSetting_eq_some hadded
      obtain rfl : word = "--" ++ name := Token.isFormOf hword
      obtain rfl := Setting.ofName?_eq_some hsetting
      exact .piece (.separate level setting value more hknown hfirst (isOption_of_isValue hvalue))
        (ih _ hread)
    next => cases hadds

/-- The outer level ends in front of a command, the inner one with the line. -/
theorem Reads.ends (h : Reads inner known level words level' rest) :
    (inner = true → rest = []) ∧ ∀ word more, rest = word :: more → isOption word = false := by
  induction h with
  | finished level => exact ⟨fun _ => rfl, fun _ _ hrest => by cases hrest⟩
  | command level word more houter hword =>
    refine ⟨fun hinner => ?_, fun word' more' hrest => ?_⟩
    · rw [houter] at hinner
      cases hinner
    · obtain ⟨rfl, -⟩ := List.cons.inj hrest
      exact hword
  | piece _ _ ih => exact ih

/-! ### Values -/

theorem value?_cons (level : Level) (setting other : Setting) (value : String) :
    ({ level with settings := (other, value) :: level.settings } : Level).value? setting
      = if other = setting then some value else level.value? setting := by
  rw [value?, value?, List.lookup_cons, eq_comm]
  rcases h : setting == other with _ | _
  · rw [if_neg (fun heq => by simp [heq] at h)]
  · rw [if_pos (LawfulBEq.eq_of_beq h).symm]

/-- What a level has of an option, and what the words that are left give it, stay the same
together. -/
theorem Piece.values (h : Piece inner known level words level' words') (setting : Setting) :
    (level.value? setting).toList ++ valuesOn setting words
      = (level'.value? setting).toList ++ valuesOn setting words' := by
  cases h with
  | divider more => rw [valuesOn_divider]; rfl
  | operand word more hinner hword => rw [valuesOn_of_not_isLong (not_isLong hword)]; rfl
  | verbose more =>
    have hword : "--verbose" ≠ setting.word := by
      rcases setting with _ | _ | _ | _ | _ <;> decide
    rw [valuesOn_of_notMem (by decide) hword (by decide)]
  | letters word more hword hshort => rw [valuesOn_of_not_isLong hshort]
  | switch switch more =>
    rw [valuesOn_of_notMem switch.word_ne_divider (switch.word_ne_setting setting)
      switch.equality_notMem]
    rfl
  | joined other value more hknown hfirst =>
    rw [valuesOn_joined, value?_cons]
    split
    next heq => rw [← heq, hfirst]; rfl
    next => rfl
  | separate other value more hknown hfirst hvalue =>
    rw [valuesOn_separate setting other hvalue, value?_cons]
    split
    next heq => rw [← heq, hfirst]; rfl
    next => rfl

theorem Reads.values (h : Reads inner known level words level' rest) (setting : Setting) :
    (level.value? setting).toList ++ valuesOn setting words
      = (level'.value? setting).toList ++ valuesOn setting rest := by
  induction h with
  | finished => rfl
  | command => rfl
  | piece hpiece _ ih => rw [hpiece.values, ih]

/-- An option that a level does not know is not added to it. -/
theorem Piece.unknown (h : Piece inner known level words level' words') {setting : Setting}
    (hunknown : known setting = false) : level'.value? setting = level.value? setting := by
  cases h with
  | divider | operand | verbose | letters | switch => rfl
  | joined other value more hknown | separate other value more hknown =>
    rw [value?_cons, if_neg]
    rintro rfl
    rw [hknown] at hunknown
    cases hunknown

theorem Reads.unknown (h : Reads inner known level words level' rest) {setting : Setting}
    (hunknown : known setting = false) : level'.value? setting = level.value? setting := by
  induction h with
  | finished => rfl
  | command => rfl
  | piece hpiece _ ih => rw [ih, hpiece.unknown hunknown]

/-! ### Switches -/

/-- A switch that is on at a level, or on the words that are left, is still so. -/
theorem Piece.switches (h : Piece inner known level words level' words') (switch : Switch) :
    switch ∈ level.switches ∨ switch.word ∈ optionWords words
      ↔ switch ∈ level'.switches ∨ switch.word ∈ optionWords words' := by
  cases h with
  | divider more => rw [optionWords_divider]; rfl
  | operand word more hinner hword => rw [mem_optionWords_of_not_isLong (not_isLong hword)]
  | verbose more =>
    have hword : switch.word ≠ "--verbose" := by
      rcases switch with _ | _ <;> decide
    rw [mem_optionWords_of_ne hword (by decide)]
  | letters word more hword hshort => rw [mem_optionWords_of_not_isLong hshort]
  | switch other more =>
    have hword : switch.word = other.word ↔ switch = other := ⟨Switch.word_injective, congrArg _⟩
    rw [optionWords_cons other.word_ne_divider, List.mem_cons, List.mem_cons, hword]
    rw [or_assoc]
    exact or_left_comm
  | joined other value more hknown hfirst =>
    rw [mem_optionWords_of_ne (joined_ne switch.equality_notMem).symm (joined_ne (by decide))]
  | separate other value more hknown hfirst hvalue =>
    rw [mem_optionWords_of_ne (switch.word_ne_setting other) other.word_ne_divider,
      mem_optionWords_of_not_isLong (not_isLong hvalue)]

theorem Reads.switches (h : Reads inner known level words level' rest) (switch : Switch) :
    switch ∈ level.switches ∨ switch.word ∈ optionWords words
      ↔ switch ∈ level'.switches ∨ switch.word ∈ optionWords rest := by
  induction h with
  | finished => rfl
  | command => rfl
  | piece hpiece _ ih => rw [hpiece.switches, ih]

/-! ### Operands -/

/-- The operands that a level has, and those that are left, stay the same together. -/
theorem Piece.operands (h : Piece inner known level words level' words') :
    level.operands ++ operandsOn words = level'.operands ++ operandsOn words' := by
  cases h with
  | divider more => rw [operandsOn_divider, operandsOn, List.append_nil]
  | operand word more hinner hword =>
    rw [operandsOn_operand hword, List.append_assoc, List.singleton_append]
  | verbose more =>
    have halone : ∀ setting : Setting, "--verbose" ≠ setting.word := by
      intro setting
      rcases setting with _ | _ | _ | _ | _ <;> decide
    rw [operandsOn_option (by decide) (by decide) halone]
  | letters word more hword hshort =>
    rw [operandsOn_option hword (isLong_divider.ne hshort).symm
      fun setting => (setting.isLong_word.ne hshort).symm]
  | switch switch more =>
    rw [operandsOn_option (isOption_of_isLong switch.isLong_word) switch.word_ne_divider
      switch.word_ne_setting]
  | joined other value more hknown hfirst =>
    rw [operandsOn_option (isOption_of_isLong (isLong_joined other value)) (joined_ne (by decide))
      fun setting => joined_ne setting.equality_notMem]
  | separate other value more hknown hfirst hvalue => rw [operandsOn_separate]

theorem Reads.operands (h : Reads inner known level words level' rest) :
    level.operands ++ operandsOn words = level'.operands ++ operandsOn rest := by
  induction h with
  | finished => rfl
  | command => rfl
  | piece hpiece _ ih => rw [hpiece.operands, ih]

/-- The outer level has no operands. -/
theorem Piece.outer (h : Piece inner known level words level' words') (houter : inner = false) :
    level'.operands = level.operands := by
  cases h with
  | divider more hinner | operand word more hinner hword =>
    rw [houter] at hinner
    cases hinner
  | verbose | letters | switch | joined | separate => rfl

theorem Reads.outer (h : Reads inner known level words level' rest) (houter : inner = false) :
    level'.operands = level.operands := by
  induction h with
  | finished => rfl
  | command => rfl
  | piece hpiece _ ih => rw [ih, hpiece.outer houter]

end Level

/-! ## The whole line -/

/-- That a line is read at two levels, with the name of the command between them. -/
structure Levels (line : List String) (outer : Level) (name : String) (inner : Level) : Prop where
  read : ∃ more, Level.Reads false (· ≠ .label) .empty line outer (name :: more)
    ∧ Level.Reads true (fun s => s ≠ .label || name = "volume") .empty more inner []

namespace Levels

variable {line : List String} {outer inner : Level} {name : String}

/-- An option has the values that the two levels have for it. -/
theorem valuesOn_eq (h : Levels line outer name inner) (setting : Setting) :
    valuesOn setting line = (outer.value? setting).toList ++ (inner.value? setting).toList := by
  obtain ⟨more, houter, hinner⟩ := h.read
  have hline := houter.values setting
  have hmore := hinner.values setting
  have hname := not_isLong (houter.ends.2 name more rfl)
  rw [valuesOn_of_not_isLong hname] at hline
  simp only [valuesOn, List.append_nil] at hmore
  calc valuesOn setting line = (Level.empty.value? setting).toList ++ valuesOn setting line := rfl
    _ = (outer.value? setting).toList ++ valuesOn setting more := hline
    _ = (outer.value? setting).toList ++ (inner.value? setting).toList := by rw [← hmore]; rfl

/-- The value that counts is the one on the line, or that of the environment. -/
theorem value?_eq_given? (h : Levels line outer name inner) (environment : List (String × String))
    (setting : Setting) :
    Invocation.value? environment outer inner setting = given? environment line setting := by
  rw [Invocation.value?, given?, h.valuesOn_eq]
  rcases inner.value? setting with _ | value
  · rcases outer.value? setting with _ | value
    · rfl
    · rfl
  · rw [Option.toList_some, List.getLast?_concat]
    rfl

theorem contains_iff (h : Levels line outer name inner) (switch : Switch) :
    (outer.switches ++ inner.switches).contains switch = true ↔ switch.word ∈ optionWords line := by
  obtain ⟨more, houter, hinner⟩ := h.read
  have hline := houter.switches switch
  have hmore := hinner.switches switch
  rw [mem_optionWords_of_not_isLong (not_isLong (houter.ends.2 name more rfl))] at hline
  simp only [Level.empty, List.not_mem_nil, false_or, optionWords, List.takeWhile_nil,
    or_false] at hline hmore
  rw [List.contains_iff_mem, List.mem_append, optionWords, hline, ← hmore]

theorem operandsOn_eq (h : Levels line outer name inner) :
    operandsOn line = name :: inner.operands := by
  obtain ⟨more, houter, hinner⟩ := h.read
  have hline := houter.operands
  have hmore := hinner.operands
  rw [houter.outer rfl, operandsOn_operand (houter.ends.2 name more rfl)] at hline
  simp only [Level.empty, List.nil_append, operandsOn, List.append_nil] at hline hmore
  rw [hline, hmore]

/-- Only a volume is looked for by a label, and it is given with the command. -/
theorem label_eq_given? (h : Levels line outer "volume" inner)
    (environment : List (String × String)) :
    inner.value? .label = given? environment line .label := by
  obtain ⟨more, houter, -⟩ := h.read
  have hnone : outer.value? .label = none := houter.unknown (by decide)
  rw [← h.value?_eq_given? environment, Invocation.value?, hnone]
  rcases inner.value? .label with _ | value
  · rfl
  · rfl

end Levels

/-- The name of an action, and what it is to be done to. -/
def Action.operands : Action → List String
  | .check => ["check"]
  | .sign resource => ["sign", resource]
  | .hash file => ["hash", file.text]
  | .volume _ => ["volume"]

namespace Invocation

/-- That an invocation is what a line says in an environment. -/
structure IsSaidBy (environment : List (String × String)) (line : List String)
    (invocation : Invocation) : Prop where
  action : operandsOn line = invocation.action.operands
  label : ∀ label, invocation.action = .volume label → label = given? environment line .label
  config : invocation.config = (given? environment line .config).map Path.mk
  state : invocation.state = ⟨(given? environment line .state).getD defaultState⟩
  signEndpoint : invocation.signEndpoint = given? environment line .signEndpoint
  seedPath : invocation.seedPath = (given? environment line .seedPath).map Path.mk
  json : invocation.json = true ↔ "--json" ∈ optionWords line
  useSignedUrl : invocation.useSignedUrl = true ↔ "--use-signed-url" ∈ optionWords line

theorem operands_of_action? {name : String} {inner : Level} {action : Action}
    (h : action? name inner = some action) : name :: inner.operands = action.operands := by
  unfold action? at h
  split at h
  next hoperands =>
    rw [hoperands]
    grind [Action.operands]
  next operand hoperands =>
    rw [hoperands]
    grind [Action.operands]
  next => cases h

theorem label_of_action? {name : String} {inner : Level} {label : Option String}
    (h : action? name inner = some (.volume label)) :
    name = "volume" ∧ label = inner.value? .label := by
  unfold action? at h
  grind

/-- A line that is understood is taken to say what it says. -/
theorem isSaidBy_of_parse {environment : List (String × String)} {line : List String}
    {invocation : Invocation} (h : parse environment line = some invocation) :
    invocation.IsSaidBy environment line := by
  obtain ⟨⟨outer, rest⟩, houter, hcommand⟩ := Option.bind_eq_some_iff.mp h
  rcases rest with _ | ⟨name, more⟩
  · cases hcommand
  · obtain ⟨⟨inner, rest⟩, hinner, hfound⟩ := Option.bind_eq_some_iff.mp hcommand
    obtain ⟨action, haction, hmade⟩ := Option.bind_eq_some_iff.mp hfound
    have hreads := Level.reads_of_read hinner
    obtain rfl := hreads.ends.1 rfl
    have hlevels : Levels line outer name inner := ⟨more, Level.reads_of_read houter, hreads⟩
    have hvalue : value? environment outer inner = given? environment line :=
      funext (hlevels.value?_eq_given? environment)
    simp only [hvalue] at hmade
    split at hmade
    next =>
      obtain rfl := Option.some.inj hmade
      refine ⟨?_, fun label hlabel => ?_, rfl, rfl, rfl, rfl, hlevels.contains_iff .json,
        hlevels.contains_iff .useSignedUrl⟩
      · rw [hlevels.operandsOn_eq, operands_of_action? haction]
      · obtain ⟨rfl, rfl⟩ := label_of_action? (haction.trans (congrArg some hlabel))
        exact hlevels.label_eq_given? environment
    next => cases hmade

end Invocation

end BootTrust.Command
