import BootTrust.Command.Arguments
/-
The words of a command line, without regard to how they are read. An option has a value where its
word stands in front of the value, or is joined to it by an equality sign; of several values the
last one counts, and the environment speaks for an option that has none (`given?`). A switch is on
where its word stands. Behind the word `--` there are only operands.

What a line says is the sum of what its words say, one after another, except that the word of an
option takes the next one with it. The laws below say this for each form that a word can have.
-/

set_option autoImplicit false

namespace BootTrust.Command

/-! ## Words -/

def Setting.name : Setting → String
  | .config => "config"
  | .state => "state"
  | .signEndpoint => "sign-endpoint"
  | .seedPath => "seed-path"
  | .label => "label"

def Setting.word (setting : Setting) : String :=
  "--" ++ setting.name

def Switch.name : Switch → String
  | .json => "json"
  | .useSignedUrl => "use-signed-url"

def Switch.word (switch : Switch) : String :=
  "--" ++ switch.name

/-- Whether a word is written like an option. A single `-` is not. -/
def isOption (word : String) : Bool :=
  match word.toList with
  | '-' :: _ :: _ => true
  | _ => false

/-- That a word begins with two dashes. -/
def IsLong (word : String) : Prop :=
  "--".toList <+: word.toList

/-- What follows some beginning of a word, if the word has it. -/
def behind? (beginning word : String) : Option String :=
  if beginning.toList.isPrefixOf word.toList then
    some (String.ofList (word.toList.drop beginning.length))
  else none

/-- The values that a line gives an option, in their order. -/
def valuesOn (setting : Setting) : List String → List String
  | [] => []
  | word :: more =>
    if word = "--" then []
    else if word = setting.word then more.take 1 ++ valuesOn setting more
    else (behind? (setting.word ++ "=") word).toList ++ valuesOn setting more

/-- The words of a line that may be options. -/
def optionWords (line : List String) : List String :=
  line.takeWhile (· ≠ "--")

/-- Whether a word is that of an option and has its value behind it. -/
def takesNext (word : String) : Bool :=
  [Setting.config, .state, .signEndpoint, .seedPath, .label].any (·.word = word)

/-- The words of a line that are neither options nor values of options. -/
def operandsOn : List String → List String
  | [] => []
  | [word] => if isOption word then [] else [word]
  | word :: next :: more =>
    if word = "--" then next :: more
    else if takesNext word then operandsOn more
    else if isOption word then operandsOn (next :: more)
    else word :: operandsOn (next :: more)

/-- The value of an option: the last one on the line, or that of its variable. -/
def given? (environment : List (String × String)) (line : List String) (setting : Setting) :
    Option String :=
  (valuesOn setting line).getLast?.or
    (setting.inEnvironment?.bind fun name => environment.lookup name)

/-- The option in front of the command gives way to the one behind it, and a word behind `--` is no
option. -/
example :
    given? [("TRUSTCTL_STATE", "a")] ["--state", "c", "sign", "--state=d", "--", "--state=e"] .state
    = some "d" := by
  decide

/-! ## The forms of a word -/

theorem Setting.ofName?_eq_some {name : String} {setting : Setting}
    (h : Setting.ofName? name = some setting) : name = setting.name := by
  unfold ofName? at h
  grind [Setting.name]

theorem Switch.ofName?_eq_some {name : String} {switch : Switch}
    (h : Switch.ofName? name = some switch) : name = switch.name := by
  unfold ofName? at h
  grind [Switch.name]

theorem behind?_eq_some_iff {beginning word value : String} :
    behind? beginning word = some value ↔ word = beginning ++ value := by
  rw [behind?]
  constructor
  · intro h
    split at h
    next hprefix =>
      obtain ⟨rest, hrest⟩ := List.isPrefixOf_iff_prefix.mp hprefix
      obtain rfl := Option.some.inj h
      rw [← hrest, ← String.length_toList, List.drop_left, ← String.toList_inj,
        String.toList_append, String.toList_ofList, hrest]
    next => cases h
  · rintro rfl
    rw [String.toList_append, if_pos (List.isPrefixOf_iff_prefix.mpr (List.prefix_append _ _)),
      ← String.length_toList, List.drop_left, String.ofList_toList]

/-- The form of a word in terms of its text. -/
def Token.IsFormOf (word : String) : Token → Prop
  | .divider => word = "--"
  | .long name none => word = "--" ++ name
  | .long name (some value) => word = "--" ++ name ++ "=" ++ value
  | .short _ => isOption word = true ∧ ¬ IsLong word
  | .plain text => text = word ∧ isOption word = false

theorem Token.isFormOf {word : String} {token : Token} (h : Token.ofText word = token) :
    token.IsFormOf word := by
  subst h
  unfold ofText
  split
  next h => exact String.toList_inj.mp h
  next cs _ h =>
    have hsplit : cs = cs.takeWhile (· ≠ '=') ++ cs.dropWhile (· ≠ '=') :=
      List.takeWhile_append_dropWhile.symm
    have hbehind : cs.drop (cs.takeWhile (· ≠ '=')).length = cs.dropWhile (· ≠ '=') := by
      have hleft :
          (cs.takeWhile (· ≠ '=') ++ cs.dropWhile (· ≠ '=')).drop (cs.takeWhile (· ≠ '=')).length
          = cs.dropWhile (· ≠ '=') := List.drop_left
      rwa [List.takeWhile_append_dropWhile] at hleft
    have hstop := List.head?_dropWhile_not (· ≠ '=') cs
    dsimp only
    rw [hbehind]
    generalize cs.takeWhile (· ≠ '=') = name at hsplit
    generalize cs.dropWhile (· ≠ '=') = behind at hsplit hstop
    rw [hsplit] at h
    rcases behind with _ | ⟨c, value⟩
    · rw [List.append_nil] at h
      rw [IsFormOf, ← String.toList_inj, h]
      simp
    · obtain rfl : c = '=' := by simpa using hstop
      rw [IsFormOf, ← String.toList_inj, h]
      simp
  next c cs _ hlong h =>
    refine ⟨?_, fun hprefix => ?_⟩
    · simp only [isOption, h]
    · rw [IsLong, h] at hprefix
      exact hlong (List.cons_prefix_cons.mp (List.cons_prefix_cons.mp hprefix).2).1.symm
  next hlong _ hshort =>
    refine ⟨rfl, ?_⟩
    rw [isOption]
    split
    next h => exact absurd h (hshort _ _)
    next => rfl

/-! ## What a word contributes -/

variable {setting other : Setting} {switch : Switch} {word value : String} {more : List String}

theorem Setting.word_injective (h : setting.word = other.word) : setting = other := by
  revert h
  rcases setting with _ | _ | _ | _ | _ <;> rcases other with _ | _ | _ | _ | _ <;> decide

theorem Switch.word_injective {other : Switch} (h : switch.word = other.word) : switch = other := by
  revert h
  rcases switch with _ | _ <;> rcases other with _ | _ <;> decide

theorem Switch.word_ne_setting (switch : Switch) (setting : Setting) :
    switch.word ≠ setting.word := by
  rcases switch with _ | _ <;> rcases setting with _ | _ | _ | _ | _ <;> decide

theorem Setting.word_ne_divider (setting : Setting) : setting.word ≠ "--" := by
  rcases setting with _ | _ | _ | _ | _ <;> decide

theorem Switch.word_ne_divider (switch : Switch) : switch.word ≠ "--" := by
  rcases switch with _ | _ <;> decide

theorem Setting.equality_notMem (setting : Setting) : '=' ∉ setting.word.toList := by
  rcases setting with _ | _ | _ | _ | _ <;> decide

theorem Switch.equality_notMem (switch : Switch) : '=' ∉ switch.word.toList := by
  rcases switch with _ | _ <;> decide

theorem joined_ne (h : '=' ∉ word.toList) : setting.word ++ "=" ++ value ≠ word := by
  rintro rfl
  simp at h

theorem isLong_append (name : String) : IsLong ("--" ++ name) := by
  rw [IsLong, String.toList_append]
  exact List.prefix_append _ _

theorem isLong_divider : IsLong "--" :=
  List.prefix_refl _

theorem Setting.isLong_word (setting : Setting) : IsLong setting.word :=
  isLong_append _

theorem Switch.isLong_word (switch : Switch) : IsLong switch.word :=
  isLong_append _

theorem isLong_joined (setting : Setting) (value : String) :
    IsLong (setting.word ++ "=" ++ value) := by
  rw [Setting.word, String.append_assoc, String.append_assoc]
  exact isLong_append _

theorem IsLong.ne {other : String} (h : IsLong other) (hword : ¬ IsLong word) : other ≠ word := by
  rintro rfl
  exact hword h

theorem not_isLong (h : isOption word = false) : ¬ IsLong word := by
  rintro ⟨rest, hrest⟩
  rw [isOption, ← hrest] at h
  cases h

theorem isOption_of_isLong (h : IsLong word) : isOption word = true := by
  rcases hword : isOption word with _ | _
  · exact absurd h (not_isLong hword)
  · rfl

/-- A word with a value joined to it belongs to one option. -/
theorem behind?_joined (setting other : Setting) (value : String) :
    behind? (setting.word ++ "=") (other.word ++ "=" ++ value)
      = if other = setting then some value else none := by
  split
  next h => rw [h, behind?_eq_some_iff]
  next hne =>
    rcases hbehind : behind? (setting.word ++ "=") (other.word ++ "=" ++ value) with _ | value'
    · rfl
    · -- the word of the option is what stands in front of the first equality sign
      have hname : ∀ (setting : Setting) (value : String),
          (setting.word ++ "=" ++ value).toList.takeWhile (· ≠ '=') = setting.word.toList := by
        intro setting value
        rw [String.toList_append, String.toList_append, List.append_assoc,
          List.takeWhile_append_of_pos]
        · exact List.append_nil _
        · intro c hc
          exact decide_eq_true fun heq => setting.equality_notMem (heq ▸ hc)
      have heq := hname other value
      rw [behind?_eq_some_iff.mp hbehind, hname] at heq
      exact absurd (Setting.word_injective (String.toList_inj.mp heq).symm) hne

/-! ## Values -/

theorem valuesOn_divider (setting : Setting) (more : List String) :
    valuesOn setting ("--" :: more) = [] := by
  rw [valuesOn, if_pos rfl]

/-- A word that is neither that of an option nor has a value joined to it gives the option none. -/
theorem valuesOn_of_other (hdivider : word ≠ "--") (hword : word ≠ setting.word)
    (hjoined : ∀ value, setting.word ++ "=" ++ value ≠ word) :
    valuesOn setting (word :: more) = valuesOn setting more := by
  have hbehind : behind? (setting.word ++ "=") word = none :=
    Option.eq_none_iff_forall_ne_some.mpr fun value hvalue =>
      hjoined value (behind?_eq_some_iff.mp hvalue).symm
  rw [valuesOn, if_neg hdivider, if_neg hword, hbehind, Option.toList_none, List.nil_append]

theorem valuesOn_of_notMem (hdivider : word ≠ "--") (hword : word ≠ setting.word)
    (h : '=' ∉ word.toList) : valuesOn setting (word :: more) = valuesOn setting more :=
  valuesOn_of_other hdivider hword fun _ => joined_ne h

theorem valuesOn_of_not_isLong (h : ¬ IsLong word) :
    valuesOn setting (word :: more) = valuesOn setting more :=
  valuesOn_of_other (isLong_divider.ne h).symm (setting.isLong_word.ne h).symm
    fun value => (isLong_joined setting value).ne h

theorem valuesOn_joined (setting other : Setting) (value : String) (more : List String) :
    valuesOn setting ((other.word ++ "=" ++ value) :: more)
      = if other = setting then value :: valuesOn setting more else valuesOn setting more := by
  rw [valuesOn, if_neg (joined_ne (by decide)), if_neg (joined_ne setting.equality_notMem),
    behind?_joined]
  split
  next => rfl
  next => rfl

theorem valuesOn_separate (setting other : Setting) (hvalue : isOption value = false) :
    valuesOn setting (other.word :: value :: more)
      = if other = setting then value :: valuesOn setting more else valuesOn setting more := by
  have hskip : valuesOn setting (value :: more) = valuesOn setting more :=
    valuesOn_of_not_isLong (not_isLong hvalue)
  split
  next h =>
    rw [h, valuesOn, if_neg setting.word_ne_divider, if_pos rfl, hskip, List.take_succ_cons,
      List.take_zero, List.singleton_append]
  next hne =>
    rw [valuesOn_of_notMem other.word_ne_divider (fun heq => hne (Setting.word_injective heq))
      other.equality_notMem, hskip]

/-! ## Switches -/

theorem optionWords_divider (more : List String) : optionWords ("--" :: more) = [] := by
  rw [optionWords, List.takeWhile_cons_of_neg (by decide)]

theorem optionWords_cons (h : word ≠ "--") :
    optionWords (word :: more) = word :: optionWords more := by
  simp [optionWords, h]

theorem mem_optionWords_of_ne (h : switch.word ≠ word) (hdivider : word ≠ "--") :
    switch.word ∈ optionWords (word :: more) ↔ switch.word ∈ optionWords more := by
  rw [optionWords_cons hdivider, List.mem_cons, or_iff_right h]

theorem mem_optionWords_of_not_isLong (h : ¬ IsLong word) :
    switch.word ∈ optionWords (word :: more) ↔ switch.word ∈ optionWords more :=
  mem_optionWords_of_ne (switch.isLong_word.ne h) (isLong_divider.ne h).symm

/-! ## Operands -/

theorem operandsOn_divider (more : List String) : operandsOn ("--" :: more) = more := by
  rcases more with _ | ⟨next, more⟩
  · rfl
  · rw [operandsOn, if_pos rfl]

theorem takesNext_word (setting : Setting) : takesNext setting.word = true := by
  rcases setting with _ | _ | _ | _ | _ <;> decide

theorem takesNext_eq_false (h : ∀ setting : Setting, word ≠ setting.word) :
    takesNext word = false := by
  rw [takesNext, List.any_eq_false]
  exact fun setting _ heq => h setting (of_decide_eq_true heq).symm

theorem operandsOn_operand (h : isOption word = false) :
    operandsOn (word :: more) = word :: operandsOn more := by
  have hshort := not_isLong h
  have halone : takesNext word = false :=
    takesNext_eq_false fun setting => (setting.isLong_word.ne hshort).symm
  rcases more with _ | ⟨next, more⟩
  · simp [operandsOn, h]
  · rw [operandsOn, if_neg (isLong_divider.ne hshort).symm, halone, h, if_neg Bool.false_ne_true,
      if_neg Bool.false_ne_true]

theorem operandsOn_option (h : isOption word = true) (hdivider : word ≠ "--")
    (halone : ∀ setting : Setting, word ≠ setting.word) :
    operandsOn (word :: more) = operandsOn more := by
  rcases more with _ | ⟨next, more⟩
  · simp [operandsOn, h]
  · rw [operandsOn, if_neg hdivider, takesNext_eq_false halone, h,
      if_neg Bool.false_ne_true, if_pos rfl]

theorem operandsOn_separate (setting : Setting) (value : String) (more : List String) :
    operandsOn (setting.word :: value :: more) = operandsOn more := by
  rw [operandsOn, if_neg setting.word_ne_divider, takesNext_word, if_pos rfl]

end BootTrust.Command
