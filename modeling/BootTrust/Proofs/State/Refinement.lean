import BootTrust.Proofs.State.File
import BootTrust.State.Store
import BootTrust.Trace
import Mathlib.Data.List.Pairwise
/-
A store in a file behaves like a store in memory. The two run side by side: whenever a value is set
in the file, it is set in memory too, and a request that the file refuses is not made in memory. The
memory at a point of the run is the `shadow` of what has happened before.

The relation between the two is that the file is seen as its shadow (`seen_as_shadow`). It
outlasts every request, with one exception. A file below a missing directory is reported as
missing whatever its name is; once a request has made the directory, a name that is too long is
reported as such, and the file cannot be read any more. Such a file can never be written either,
so nothing that was kept is lost.
-/

set_option autoImplicit false

namespace BootTrust

variable {σ : Type}

/-! ## The shadow of a run -/

theorem StateStore.serve_set (store : StateStore σ) (state : σ) (key value : String) :
    store.serve state (.set key value)
      = ((store.set state key value).1, .done (store.set state key value).2) :=
  rfl

abbrev StateEvent (σ : Type) := Event σ StateCall StateReply

/-- The change that an event makes, if it makes one. -/
def StateEvent.performed? (event : StateEvent σ) : Option StateCall :=
  match event.call with
  | .get _ => none
  | .set key value => if event.reply.isOk then some (.set key value) else none

/-- A store in memory that only makes the changes that went well in some events. -/
def shadow (initial : SortedMap String) (events : List (StateEvent σ)) : SortedMap String :=
  MemoryState.store.serveAll initial (events.filterMap StateEvent.performed?)

theorem shadow_concat_set {initial : SortedMap String} {past : List (StateEvent σ)}
    {event : StateEvent σ} {key value : String} (hcall : event.call = .set key value)
    (hok : event.reply.isOk = true) :
    shadow initial (past ++ [event]) = MemoryState.set (shadow initial past) key value := by
  have hperformed : event.performed? = some (.set key value) := by
    simp only [StateEvent.performed?, hcall, hok, if_true]
  rw [shadow, List.filterMap_append, StateStore.serveAll, List.foldl_append, List.filterMap_cons,
    hperformed]
  rfl

theorem shadow_concat_none {initial : SortedMap String} {past : List (StateEvent σ)}
    {event : StateEvent σ} (h : event.performed? = none) :
    shadow initial (past ++ [event]) = shadow initial past := by
  rw [shadow, List.filterMap_append, List.filterMap_cons, h, List.filterMap_nil, List.append_nil]
  rfl

/-- As long as every request goes well, the shadow is what all of them make in memory. -/
theorem shadow_trace {store : StateStore σ} {state : σ} {initial : SortedMap String}
    {calls : List StateCall}
    (hok : ∀ event ∈ trace store.serve state calls, event.reply.isOk = true) :
    shadow initial (trace store.serve state calls) = MemoryState.store.serveAll initial calls := by
  induction calls generalizing state initial with
  | nil => rfl
  | cons call calls ih =>
    obtain ⟨hfirst, hrest⟩ := List.forall_mem_cons.mp hok
    rcases call with key | ⟨key, value⟩
    -- looking up a value is no change, on either side
    · exact ih hrest
    · have hperformed : StateEvent.performed? (⟨state, .set key value,
          (store.serve state (.set key value)).2,
          (store.serve state (.set key value)).1⟩ : StateEvent σ)
          = some (.set key value) := if_pos hfirst
      rw [trace, shadow, List.filterMap_cons, hperformed]
      exact ih hrest

/-- A store is seen as its shadow; or it cannot be read any more, which takes a request that
failed. -/
def SeenAsShadow (view : σ → Option (SortedMap String)) (fragile : Prop)
    (initial : SortedMap String) (past : List (StateEvent σ)) (state : σ) : Prop :=
  view state = some (shadow initial past)
    ∨ view state = none ∧ fragile ∧ ∃ failed ∈ past, ∃ key value e,
        failed.call = .set key value ∧ failed.reply = .done (.error e)

section

variable {store : StateStore σ} {view : σ → Option (SortedMap String)} {fragile : Prop}
  {initial : SortedMap String}

/-- Every request keeps a store seen as its shadow. -/
theorem SeenAsShadow.serve (seen : store.IsSeenAs view fragile) {past : List (StateEvent σ)}
    {event : StateEvent σ} (h : SeenAsShadow view fragile initial past event.before)
    (hserve : store.serve event.before event.call = (event.after, event.reply)) :
    SeenAsShadow view fragile initial (past ++ [event]) event.after := by
  obtain ⟨before, call, reply, after⟩ := event
  simp only at h hserve ⊢
  rcases call with key | ⟨key, value⟩
  -- a value is looked up, and nothing changes on either side
  · obtain ⟨rfl, -⟩ : before = after ∧ _ := by
      simpa only [StateStore.serve, Prod.mk.injEq] using hserve
    rcases h with h | ⟨hnone, hfragile, failed, hmem, hfailed⟩
    · left
      rw [h, shadow_concat_none rfl]
    · exact Or.inr ⟨hnone, hfragile, failed, List.mem_append_left _ hmem, hfailed⟩
  · rw [StateStore.serve_set] at hserve
    rcases hset : store.set before key value with ⟨after', outcome⟩
    rw [hset] at hserve
    obtain ⟨rfl, rfl⟩ : after' = after ∧ _ := by simpa only [Prod.mk.injEq] using hserve
    rcases h with h | ⟨hnone, hfragile, failed, hmem, hfailed⟩
    · rcases outcome with e | ⟨⟩
      -- the store refuses and the shadow stays, or the store is lost, and this is the request that
      -- did it
      · rcases seen.set_error h hset with hsame | ⟨hlost, hfragile⟩
        · left
          rw [hsame, shadow_concat_none rfl]
        · exact Or.inr ⟨hlost, hfragile, _, List.mem_append_right _ List.mem_cons_self, key, value,
            e, rfl, rfl⟩
      · left
        rw [seen.set_ok h hset, shadow_concat_set rfl rfl]
    -- a store that is lost stays lost
    · obtain ⟨e, hrefused⟩ := seen.set_unseen key value hnone
      rw [hrefused] at hset
      obtain ⟨rfl, -⟩ : before = after' ∧ _ := by simpa only [Prod.mk.injEq] using hset
      exact Or.inr ⟨hnone, hfragile, failed, List.mem_append_left _ hmem, hfailed⟩

/-- Throughout a run a store is seen as its shadow. -/
theorem seen_as_shadow (seen : store.IsSeenAs view fragile) {state : σ}
    (hstate : view state = some initial) {calls : List StateCall}
    {past future : List (StateEvent σ)} {event : StateEvent σ}
    (h : trace store.serve state calls = past ++ event :: future) :
    SeenAsShadow view fragile initial past event.before := by
  refine Event.invariant_before (Or.inl hstate) (fun past event _ hserve hpast => ?_) h
  exact SeenAsShadow.serve seen hpast hserve

end

/-! ## A file and its shadow -/

namespace FileState

/-- What a file holds as a state, if it holds one. -/
inductive Holds (p : Path) (disk : Disk) : SortedMap String → Prop where
  /-- The file is missing. -/
  | missing {cause : IoFailure} (hread : disk.read p = .error cause)
    (hkind : cause.kind = .notFound) :
    Holds p disk .empty
  /-- The file is blank. -/
  | blank {bytes : Bytes} {text : String} (hread : disk.read p = .ok bytes)
    (htext : Utf8.decode? bytes = some text) (hblank : Text.isAllBlank text = true) :
    Holds p disk .empty
  /-- The file is a JSON object of texts. -/
  | object {bytes : Bytes} {text : String} {raw : SortedMap String}
    (hread : disk.read p = .ok bytes) (htext : Utf8.decode? bytes = some text)
    (hblank : Text.isAllBlank text = false)
    (hraw : Json.readAll Json.textMap (Utf8.encode text) = .ok raw) :
    Holds p disk (State.foldKeys raw)

theorem Holds.read {p : Path} {disk : Disk} {initial : SortedMap String}
    (h : Holds p disk initial) : FileState.read p disk = .ok initial := by
  rcases h with ⟨hread, hkind⟩ | ⟨hread, htext, hblank⟩ | ⟨hread, htext, hblank, hraw⟩
  · exact read_of_notFound hread hkind
  · simp only [FileState.read, hread, htext, parse, hblank, if_true]
  · simp only [FileState.read, hread, htext, parse, hblank, hraw]
    rfl

/-- What one request to a file does, compared with the shadow `shadow initial past` before it. -/
structure AgreesWithMemory (p : Path) (initial : SortedMap String) (past : List (StateEvent Disk))
    (event : StateEvent Disk) : Prop where
  /-- A request that goes well has the reply of the store in memory. -/
  reply : event.reply.isOk = true →
    event.reply = (MemoryState.store.serve (shadow initial past) event.call).2
  /-- Looking up a value goes well, unless a name on the path is too long and the file could not be
  written before. -/
  lookup : ∀ key, event.call = .get key → event.reply.isOk = true
    ∨ (∃ name ∈ p.names, ¬ Disk.NameFits name) ∧ ∃ failed ∈ past, ∃ key value e,
        failed.call = .set key value ∧ failed.reply = .done (.error e)
  /-- Looking up a value does not change the disk. -/
  unchanged : ∀ key, event.call = .get key → event.after = event.before
  /-- A value that was set is found under all spellings of its key, and other keys keep theirs. -/
  values : ∀ key value, event.call = .set key value → event.reply.isOk = true → ∀ key',
    (store p).get event.after key' = if Text.asciiLower key' = Text.asciiLower key
      then .ok (some value) else (store p).get event.before key'
  /-- After a value was set, the file is the printed shadow. -/
  bytes : ∀ key value, event.call = .set key value → event.reply.isOk = true →
    event.after.read p = .ok (document (shadow initial (past ++ [event]))).pretty

variable {p : Path} {disk : Disk} {initial : SortedMap String}

/-- A value that is looked up in a file seen as its shadow is that of the shadow. -/
theorem agrees_get (hplain : p.isPlain = true) {past : List (StateEvent Disk)} {before : Disk}
    (hshadow : SeenAsShadow (view p) (∃ name ∈ p.names, ¬ Disk.NameFits name) initial past before)
    (key : String) :
    AgreesWithMemory p initial past
      ⟨before, .get key, .value ((store p).get before key), before⟩ := by
  have hseen := store_isSeenAs hplain
  have hlookup : (store p).get before key = .ok (MemoryState.get? (shadow initial past) key)
      ∨ (∃ e, (store p).get before key = .error e) ∧ (∃ name ∈ p.names, ¬ Disk.NameFits name)
        ∧ ∃ failed ∈ past, ∃ key value e,
          failed.call = .set key value ∧ failed.reply = .done (.error e) := by
    rcases hshadow with hsome | ⟨hnone, hlong, hfailed⟩
    · exact Or.inl (hseen.get_seen key hsome)
    · exact Or.inr ⟨hseen.get_unseen key hnone, hlong, hfailed⟩
  refine ⟨fun hok => ?_, fun key' hcall => ?_, fun _ _ => rfl, fun _ _ hcall => ?_,
    fun _ _ hcall => ?_⟩
  · rcases hlookup with hget | ⟨⟨e, he⟩, -⟩
    · simp only [hget]
      rfl
    · simp only [he] at hok
      cases hok
  · rcases hlookup with hget | ⟨-, hexception⟩
    · left
      simp only [hget]
      rfl
    · exact Or.inr hexception
  -- the last two speak of values that are set
  · simp at hcall
  · simp at hcall

/-- A value that is set in a file seen as its shadow is set in the shadow. -/
theorem agrees_set (hplain : p.isPlain = true) {past : List (StateEvent Disk)} {before : Disk}
    (hshadow : SeenAsShadow (view p) (∃ name ∈ p.names, ¬ Disk.NameFits name) initial past before)
    (key value : String) :
    AgreesWithMemory p initial past
      ⟨before, .set key value, .done ((store p).set before key value).2,
        ((store p).set before key value).1⟩ := by
  have hseen := store_isSeenAs hplain
  rcases hset : (store p).set before key value with ⟨after, outcome⟩
  rcases outcome with e | ⟨⟩
  -- nothing is said of a request that fails
  · refine ⟨fun hok => ?_, fun _ hcall => ?_, fun _ hcall => ?_, fun _ _ _ hok => ?_,
      fun _ _ _ hok => ?_⟩
    · cases hok
    · simp at hcall
    · simp at hcall
    · cases hok
    · cases hok
  · have hbefore : read p before = .ok (shadow initial past) := by
      rcases hshadow with hsome | ⟨hnone, -⟩
      · exact view_eq_some_iff.mp hsome
      · obtain ⟨e, hrefused⟩ := hseen.set_unseen key value hnone
        rw [hrefused] at hset
        simp at hset
    obtain ⟨hbytes, hafter⟩ := read_of_set_ok hbefore hset
    refine ⟨fun _ => rfl, fun _ hcall => ?_, fun _ hcall => ?_, fun key₁ value₁ hcall _ key' => ?_,
      fun key₁ value₁ hcall _ => ?_⟩
    · simp at hcall
    · simp at hcall
    · cases hcall
      show _ = if State.normalizeKey key' = State.normalizeKey key then _ else _
      simp only [store, get, hbefore, hafter, State.get?_set]
      split
      · rfl
      · rfl
    · rw [shadow_concat_set hcall rfl]
      cases hcall
      exact hbytes

/-- Every request of a run on a file agrees with memory. -/
theorem agreesWithMemory (hplain : p.isPlain = true) (hread : read p disk = .ok initial)
    {calls : List StateCall} {past future : List (StateEvent Disk)} {event : StateEvent Disk}
    (h : trace (store p).serve disk calls = past ++ event :: future) :
    AgreesWithMemory p initial past event := by
  have hshadow := seen_as_shadow (store_isSeenAs hplain) (view_eq_some_iff.mpr hread) h
  obtain ⟨-, hserve⟩ := Event.of_mem_trace (h ▸ List.mem_append_right past List.mem_cons_self)
  obtain ⟨before, call, reply, after⟩ := event
  simp only at hshadow hserve
  rcases call with key | ⟨key, value⟩
  · obtain ⟨rfl, rfl⟩ : before = after ∧ .value ((store p).get before key) = reply := by
      simpa only [StateStore.serve, Prod.mk.injEq] using hserve
    exact agrees_get hplain hshadow key
  · rw [StateStore.serve_set] at hserve
    obtain ⟨rfl, rfl⟩ := Prod.mk.inj hserve
    exact agrees_set hplain hshadow key value

/-- The requests to set some values. -/
def setAll (sets : List (String × String)) : List StateCall :=
  sets.map fun e => .set e.1 e.2

/-- The order in which values are set under different keys does not matter. -/
theorem serveAll_perm {sets sets' : List (String × String)} (hperm : sets.Perm sets')
    (hkeys : sets.Pairwise fun a b => State.normalizeKey a.1 ≠ State.normalizeKey b.1) :
    MemoryState.store.serveAll initial (setAll sets)
      = MemoryState.store.serveAll initial (setAll sets') := by
  rw [StateStore.serveAll, StateStore.serveAll, setAll, setAll, List.foldl_map, List.foldl_map]
  refine hperm.foldl_eq' (fun a ha b hb values => ?_) initial
  by_cases hab : a = b
  · rw [hab]
  · have hsymm : Std.Symm fun a b : String × String =>
        State.normalizeKey a.1 ≠ State.normalizeKey b.1 := ⟨fun _ _ h => h.symm⟩
    have hne := hkeys.forall ha hb hab
    -- two values under different keys: compared key by key, the later one hides nothing
    have hset : ∀ (values : SortedMap String) (key value : String),
        (MemoryState.store.serve values (.set key value)).1 = MemoryState.set values key value :=
      fun _ _ _ => rfl
    refine SortedMap.ext fun k => ?_
    simp only [hset, MemoryState.set, SortedMap.get?_insert]
    by_cases hk : k = State.normalizeKey a.1
    · rw [if_pos hk, if_pos hk, if_neg fun h => hne (hk.symm.trans h)]
    · rw [if_neg hk, if_neg hk]

/-- A file is a store that behaves like one in memory. Each request of a run agrees with the shadow
of what has happened before it, and two runs whose shadows have become the same map leave files with
the same bytes, for example when they have set the same values in another order. -/
theorem store_refines_memory (hplain : p.isPlain = true) (hholds : Holds p disk initial)
    (calls : List StateCall) :
    (∀ (past future : List (StateEvent Disk)) (event : StateEvent Disk),
      trace (store p).serve disk calls = past ++ event :: future →
      AgreesWithMemory p initial past event)
    ∧ (∀ p' disk' initial' calls', p'.isPlain = true → Holds p' disk' initial' →
      ∀ (past future past' future' : List (StateEvent Disk)) (event event' : StateEvent Disk),
        trace (store p).serve disk calls = past ++ event :: future →
        trace (store p').serve disk' calls' = past' ++ event' :: future' →
        event.performed?.isSome = true → event'.performed?.isSome = true →
        shadow initial (past ++ [event]) = shadow initial' (past' ++ [event']) →
        ∃ content, event.after.read p = .ok content ∧ event'.after.read p' = .ok content)
    ∧ ∀ sets sets' : List (String × String), sets.Perm sets' →
      sets.Pairwise (fun a b => Text.asciiLower a.1 ≠ Text.asciiLower b.1) →
      MemoryState.store.serveAll initial (setAll sets)
        = MemoryState.store.serveAll initial (setAll sets') := by
  have hbytes : ∀ {p : Path} {initial : SortedMap String} {past : List (StateEvent Disk)}
      {event : StateEvent Disk},
      AgreesWithMemory p initial past event → event.performed?.isSome = true →
      event.after.read p = .ok (document (shadow initial (past ++ [event]))).pretty := by
    intro p initial past event hagrees hperformed
    rcases hcall : event.call with key | ⟨key, value⟩
    · simp [StateEvent.performed?, hcall] at hperformed
    · refine hagrees.bytes key value hcall ?_
      by_contra hfailed
      simp [StateEvent.performed?, hcall, hfailed] at hperformed
  refine ⟨fun past future event h => agreesWithMemory hplain hholds.read h, ?_,
    fun sets sets' hperm hkeys => serveAll_perm hperm hkeys⟩
  intro p' disk' initial' calls' hplain' hholds' past future past' future' event event' h h'
    hperformed hperformed' hsame
  refine ⟨_, hbytes (agreesWithMemory hplain hholds.read h) hperformed, ?_⟩
  rw [hsame]
  exact hbytes (agreesWithMemory hplain' hholds'.read h') hperformed'

/-- Values under two keys, one of them with a quotation mark. -/
def twoValues : List (String × String) :=
  [("Key", "a\"b"), ("Other", "x")]

/-- On a disk without the file the two are set in either order, and the same bytes are left. Both
are found under other spellings of their keys, the first one also after the second one has been
set. -/
theorem store_refines_memory_fresh :
    (⟨"state.json"⟩ : Path).isPlain = true ∧ Holds ⟨"state.json"⟩ .empty .empty
      ∧ ∃ (first event : StateEvent Disk) (past' : List (StateEvent Disk))
          (event' : StateEvent Disk),
        trace (store ⟨"state.json"⟩).serve .empty (setAll twoValues) = [first, event]
        ∧ trace (store ⟨"state.json"⟩).serve .empty (setAll twoValues.reverse) = past' ++ [event']
        ∧ AgreesWithMemory ⟨"state.json"⟩ .empty [first] event
        ∧ (store ⟨"state.json"⟩).get event.after "OTHER" = .ok (some "x")
        ∧ (store ⟨"state.json"⟩).get event.after "kEY" = .ok (some "a\"b")
        ∧ ∃ content, event.after.read ⟨"state.json"⟩ = .ok content
          ∧ event'.after.read ⟨"state.json"⟩ = .ok content := by
  have hplain : (⟨"state.json"⟩ : Path).isPlain = true := by decide +kernel
  have hread : Disk.empty.read ⟨"state.json"⟩ = .error IoFailure.missing := by rfl
  have hholds : Holds ⟨"state.json"⟩ .empty .empty := Holds.missing hread rfl
  obtain ⟨hagrees, hbytes, horder⟩ := store_refines_memory hplain hholds (setAll twoValues)
  have hkeys : twoValues.Pairwise fun a b => Text.asciiLower a.1 ≠ Text.asciiLower b.1 := by
    have hne : Text.asciiLower "Key" ≠ Text.asciiLower "Other" := by decide +kernel
    exact List.pairwise_pair.mpr hne
  have hok : ∀ event ∈ trace (store ⟨"state.json"⟩).serve .empty (setAll twoValues),
      event.reply.isOk = true := List.all_eq_true.mp (by decide +kernel)
  have hok' : ∀ event ∈ trace (store ⟨"state.json"⟩).serve .empty (setAll twoValues.reverse),
      event.reply.isOk = true := List.all_eq_true.mp (by decide +kernel)
  have hsame : shadow .empty (trace (store ⟨"state.json"⟩).serve .empty (setAll twoValues))
      = shadow .empty (trace (store ⟨"state.json"⟩).serve .empty (setAll twoValues.reverse)) := by
    rw [shadow_trace hok, shadow_trace hok']
    exact horder twoValues twoValues.reverse (List.reverse_perm twoValues).symm hkeys
  obtain ⟨hfirst, hrest⟩ := List.forall_mem_cons.mp hok
  have hother := (hagrees [_] [] _ rfl).values "Other" "x" rfl (hrest _ List.mem_cons_self)
  have hkey := (hagrees [] [_] _ rfl).values "Key" "a\"b" rfl hfirst "kEY"
  refine ⟨hplain, hholds, _, _, [_], _, rfl, rfl, hagrees [_] [] _ rfl, ?_, ?_,
    hbytes _ .empty .empty (setAll twoValues.reverse) hplain hholds [_] [] [_] [] _ _ rfl rfl
      ?_ ?_ hsame⟩
  · rw [hother, if_pos (by decide +kernel)]
  · rw [hother, if_neg (by decide +kernel)]
    rw [if_pos (by decide +kernel)] at hkey
    exact hkey
  · decide +kernel
  · decide +kernel

/-! ## A name that is too long

The exception in `AgreesWithMemory.lookup` does occur: below a missing directory a name of 256 bytes
is looked up as a missing file, and after the first request to set a value it is not. -/

/-- A name that is one byte too long. -/
@[irreducible] def longName : List Char :=
  List.replicate 256 'a'

/-- A file of that name, in a directory. -/
def longPath : Path :=
  Path.ofParts [['d'], longName]

theorem longPath_parts : longPath.parts = [['d'], longName] := by
  have hno : ∀ part ∈ [['d'], longName], ∀ c ∈ part, Path.isSlash c = false := by
    have hall : [['d'], longName].all (fun part => part.all fun c => !Path.isSlash c) = true := by
      decide +kernel
    intro part hpart c hc
    simpa using List.all_eq_true.mp (List.all_eq_true.mp hall part hpart) c hc
  exact Path.parts_ofParts (List.cons_ne_nil _ _) (fun h => by cases h) hno

theorem isIdle_longName : Component.isIdle longName = false := by
  decide +kernel

theorem longPath_components :
    longPath.components = [.name "d", .name (String.ofList longName)] := by
  have hup : longName ≠ ['.', '.'] := by decide +kernel
  have hname : Component.ofPart? longName = some (.name (String.ofList longName)) := by
    rw [Component.ofPart?, if_neg (by rw [isIdle_longName]; simp), if_neg hup]
  have hfirst : Component.ofPart? ['d'] = some (.name "d") := by decide
  rw [Path.components, longPath_parts, Path.front?_cons_cons, if_neg (by decide),
    if_neg (by decide), List.filterMap_cons, hfirst, List.filterMap_cons, hname]
  rfl

theorem longPath_isPlain : longPath.isPlain = true := by
  have hopen : longPath.endsOpen = false := by
    rw [Path.endsOpen, longPath_parts]
    exact isIdle_longName
  rw [Path.isPlain, hopen, longPath_components]
  rfl

theorem longPath_check : longPath.check = .ok () := by
  have htext : longPath.text.toList = 'd' :: '/' :: longName := by
    rw [longPath, Path.ofParts, String.toList_ofList]
    · simp [List.intercalate, List.intersperse]
    · exact fun h => by cases (List.cons.inj h).1
  have hzero : ('d' :: '/' :: longName).contains '\x00' = false := by decide +kernel
  have hlength : (('d' :: '/' :: longName).flatMap String.utf8EncodeChar).length < pathLimit := by
    decide +kernel
  rw [Path.check, Utf8.encode, htext, hzero, if_neg (by simp), if_neg (Nat.not_le.mpr hlength)]

theorem longName_not_fits : ¬ Disk.NameFits (String.ofList longName) := by
  rw [Disk.NameFits, Utf8.encode, String.toList_ofList]
  decide +kernel

theorem longPath_names : longPath.names = ["d"] ++ [String.ofList longName] := by
  rw [Path.names, longPath_components]
  rfl

/-- As long as the directory is missing, the file is reported as missing. -/
theorem longPath_missing : Disk.empty.read longPath = .error IoFailure.missing := by
  rw [Disk.read, Disk.resolve, longPath_check, Disk.target, longPath_components]
  rfl

theorem longPath_holds : Holds longPath .empty .empty :=
  Holds.missing longPath_missing rfl

theorem longPath_parent : longPath.parent?.getD ⟨""⟩ = ⟨"d"⟩ := by
  have hsplit : longPath.parts = [['d']] ++ [longName] := longPath_parts
  rw [Path.parent?, Path.above_of_concat hsplit isIdle_longName, longPath_components]
  decide

/-- As soon as the directory is there, it is the name that is reported. -/
theorem longPath_nameTooLong {disk : Disk}
    (hkeeps : Disk.KeepsDirectories ⟨[("d", .directory [])], []⟩ disk) :
    disk.read longPath = .error IoFailure.nameTooLong := by
  have hfront : longPath.front = [] := by
    rw [Path.front, Path.isAbsolute, longPath_components]
    rfl
  exact Disk.read_nameTooLong longPath_isPlain longPath_names longPath_check
    (by rw [hfront]; exact hkeeps.walk rfl) longName_not_fits

/-- A request to set a value is refused, but it makes the directory, and then the name is
reported. -/
theorem longPath_set : ∃ disk e, (store longPath).set .empty "k" "v" = (disk, .error e)
    ∧ read longPath disk = .error (.io IoFailure.nameTooLong) := by
  have hlong : ∃ name ∈ longPath.names, ¬ Disk.NameFits name :=
    ⟨_, by rw [longPath_names]; exact List.mem_append_right _ List.mem_cons_self, longName_not_fits⟩
  obtain ⟨disk, e, hset⟩ := set_refused_of_long longPath_isPlain hlong .empty "k" "v"
  refine ⟨disk, e, hset, ?_⟩
  rw [store_set longPath_holds.read] at hset
  rcases hrun : (Disk.replaceFile longPath
    (document (MemoryState.set .empty "k" "v")).pretty).run .empty with ⟨left, cause | ⟨⟩⟩
  · rw [hrun] at hset
    obtain ⟨rfl, -⟩ := Prod.mk.inj hset
    -- the directory is made before the name is looked at
    obtain ⟨made, result, hmade, -, hkeeps, -⟩ := Disk.replaceFile_error longPath_isPlain hrun
    have hdirectory : (Disk.ensureDirectories ⟨"d"⟩).run .empty
        = (⟨[("d", .directory [])], []⟩, .ok ()) := rfl
    rw [longPath_parent, hdirectory] at hmade
    obtain ⟨rfl, -⟩ := Prod.mk.inj hmade
    exact read_of_error (longPath_nameTooLong hkeeps) (by decide)
  · rw [hrun] at hset
    cases hset

/-- In memory a value that could not be set does not keep another from being looked up. -/
theorem lookup_differs {p : Path} {disk disk' : Disk} {key value : String} {e reported : StateError}
    (hset : (store p).set disk key value = (disk', .error e))
    (hread : read p disk' = .error reported) :
    ∃ (past : List (StateEvent Disk)) (event : StateEvent Disk),
      trace (store p).serve disk [.get key, .set key value, .get key] = past ++ [event]
      ∧ event.call = .get key
      ∧ event.reply ≠ (MemoryState.store.serve (shadow .empty past) event.call).2 := by
  refine ⟨[⟨disk, .get key, .value ((store p).get disk key), disk⟩,
    ⟨disk, .set key value, .done (.error e), disk'⟩],
    ⟨disk', .get key, .value ((store p).get disk' key), disk'⟩, ?_, rfl, fun hsame => ?_⟩
  · simp only [trace, hset, StateStore.serve]
    rfl
  · simp only [store, get, hread, StateStore.serve, MemoryState.store] at hsame
    simp at hsame

/-- The third request of a run looks up a value and is refused, unlike in memory. -/
theorem lookup_refused_after_set : longPath.isPlain = true ∧ Holds longPath .empty .empty
    ∧ ∃ (past : List (StateEvent Disk)) (event : StateEvent Disk),
      trace (store longPath).serve .empty [.get "k", .set "k" "v", .get "k"] = past ++ [event]
      ∧ event.call = .get "k"
      ∧ event.reply ≠ (MemoryState.store.serve (shadow .empty past) event.call).2 := by
  obtain ⟨disk, e, hset, hread⟩ := longPath_set
  exact ⟨longPath_isPlain, longPath_holds, lookup_differs hset hread⟩

end FileState

end BootTrust
