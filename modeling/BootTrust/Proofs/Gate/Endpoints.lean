import BootTrust.Proofs.Gate.FirstFailure
/-
Where a gate posts to. A configuration is checked before a gate works with it, and the check
and the post look at the same text: the endpoint without the blanks at its ends. What the
check accepts is therefore what is posted to, and a configuration whose endpoint is blank
passes the check and posts nothing.
-/

set_option autoImplicit false

namespace BootTrust

namespace Config

variable {config : Config} {url : String}

/-- The texts that count as addresses are those with one of two beginnings. -/
theorem isHttp_iff :
    isHttp url = true ↔ ∃ rest, url = "https://" ++ rest ∨ url = "http://" ++ rest := by
  have hbegins : ∀ beginning : String,
      beginning.toList.isPrefixOf url.toList = true ↔ ∃ rest, url = beginning ++ rest := by
    intro beginning
    rw [List.isPrefixOf_iff_prefix]
    constructor
    · rintro ⟨rest, hrest⟩
      exact ⟨String.ofList rest,
        String.toList_inj.mp (by rw [← hrest, String.toList_append, String.toList_ofList])⟩
    · rintro ⟨rest, rfl⟩
      rw [String.toList_append]
      exact List.prefix_append _ _
  rw [isHttp, Bool.or_eq_true, hbegins, hbegins, exists_or]

theorem endpoint?_eq_some_iff :
    config.endpoint? = some url
      ↔ ∃ text, config.signEndpoint = some text ∧ url = Text.trim text ∧ url ≠ "" := by
  rw [endpoint?, Option.filter_eq_some_iff, Option.map_eq_some_iff]
  constructor
  · rintro ⟨⟨text, htext, rfl⟩, hthere⟩
    exact ⟨text, htext, rfl, fun hnone => by simp [hnone] at hthere⟩
  · rintro ⟨text, htext, rfl, hthere⟩
    exact ⟨⟨text, htext, rfl⟩, by simpa using hthere⟩

/-- What the check of a configuration looks at. An endpoint that is not set is not looked at. -/
theorem validate_eq_ok_iff : config.validate = .ok () ↔
    (∀ endpoint, config.endpoint? = some endpoint → isHttp endpoint = true)
      ∧ Text.isAllBlank config.volumeLabel = false
      ∧ Text.isAllBlank config.mediaRelativePath = false ∧ config.timeoutSeconds ≠ 0 := by
  have hthrow : ∀ e : ConfigError, (throw e : Except ConfigError Unit) = .error e := fun _ => rfl
  -- an endpoint that is set and no address is refused at once, and then come the
  -- others, whatever they are
  have hothers : (do
      if Text.isAllBlank config.volumeLabel then throw (.invalid .volumeLabel "must not be empty")
      if Text.isAllBlank config.mediaRelativePath then
        throw (.invalid .mediaRelativePath "must not be empty")
      if config.timeoutSeconds = 0 then
        throw (.invalid .timeoutSeconds "must be greater than zero") :
        Except ConfigError Unit) = .ok ()
      ↔ Text.isAllBlank config.volumeLabel = false
        ∧ Text.isAllBlank config.mediaRelativePath = false ∧ config.timeoutSeconds ≠ 0 := by
    rcases Text.isAllBlank config.volumeLabel with _ | _
    · rcases Text.isAllBlank config.mediaRelativePath with _ | _
      · by_cases hseconds : config.timeoutSeconds = 0
        · simp [hseconds, hthrow]
        · simp [hseconds, pure, Except.pure]
      · simp [hthrow, bind, Except.bind]
    · simp [hthrow, bind, Except.bind]
  rw [← hothers, validate]
  rcases config.endpoint? with _ | endpoint
  · simp
  · rcases hhttp : isHttp endpoint with _ | _
    · simp [hhttp, hthrow, bind, Except.bind]
    · simp [hhttp]

end Config

/-! ## Posts -/

/-- That a text is where a configuration has its posts sent: the endpoint without the blanks at its
ends, which is the address of a service. -/
structure Config.SendsTo (config : Config) (url : String) : Prop where
  endpoint : ∃ text, config.signEndpoint = some text ∧ url = Text.trim text
  http : ∃ rest, url = "https://" ++ rest ∨ url = "http://" ++ rest
  front : ∀ c, url.toList.head? = some c → Text.isBlank c = false
  back : ∀ c, url.toList.getLast? = some c → Text.isBlank c = false

theorem Config.sendsTo {config : Config} {url : String} (hvalid : config.validate = .ok ())
    (h : config.endpoint? = some url) : config.SendsTo url := by
  obtain ⟨text, htext, rfl, -⟩ := endpoint?_eq_some_iff.mp h
  refine ⟨⟨text, htext, rfl⟩, isHttp_iff.mp ((validate_eq_ok_iff.mp hvalid).1 _ h), ?_, ?_⟩
  · rw [Text.toList_trim]
    exact Text.head?_trimChars_not_blank _
  · rw [Text.toList_trim]
    exact Text.getLast?_trimChars_not_blank _

variable {σ τ : Type}

/-- Whatever a gate posts goes to the endpoint that has been checked. -/
theorem Gate.sendsTo_of_mem_posts {gate : Gate} {resource : String} {transport : Transport τ}
    {state : τ} (hvalid : gate.config.validate = .ok ()) {post : Post}
    (h : post ∈ (gate.signedUrl resource transport state).posts) :
    gate.config.SendsTo post.url := by
  rcases hprepare : gate.prepare resource with e | submission
  · rw [signedUrl_of_prepare_error transport state hprepare] at h
    cases h
  · rw [signedUrl_of_prepare transport state hprepare] at h
    obtain rfl := List.mem_singleton.mp h
    obtain ⟨found, hfound, rfl⟩ := prepare_eq_ok_iff.mp hprepare
    exact Config.sendsTo hvalid hfound.endpoint

namespace GateEvent

variable {store : StateStore σ} {transport : Transport τ} {first : Session σ τ}
  {calls : List GateCall} {past future : List (GateEvent σ τ)} {event : GateEvent σ τ}
  {config : Config}

theorem sendsTo_of_mem_ownPosts (hvalid : config.validate = .ok ())
    (h : ∀ gate resource, event.call = .signedUrl gate resource → gate.config = config) :
    ∀ post ∈ ownPosts transport event, config.SendsTo post.url := by
  intro post hpost
  rw [ownPosts] at hpost
  split at hpost
  next gate resource hcall =>
    obtain rfl := h gate resource hcall
    exact Gate.sendsTo_of_mem_posts hvalid hpost
  next => cases hpost

/-- What has been posted in a run of gates with one configuration went to the endpoint that has been
checked, whatever files, devices and resources they had, and whatever else was done with the
store. -/
theorem posts_sendTo (hvalid : config.validate = .ok ())
    (hcalls : ∀ gate resource, .signedUrl gate resource ∈ calls → gate.config = config)
    (h : trace (Session.step store transport) first calls = past ++ event :: future) :
    ∃ made, event.after.posts = first.posts ++ made ∧ ∀ post ∈ made, config.SendsTo post.url := by
  refine ⟨_, (isOrderly h).posts, fun post hpost => ?_⟩
  obtain ⟨e, he, hpost⟩ := List.mem_flatMap.mp hpost
  have hmem : e ∈ trace (Session.step store transport) first calls := by
    rw [h, List.append_cons past event future]
    exact List.mem_append_left _ he
  exact sendsTo_of_mem_ownPosts hvalid (fun gate resource hcall =>
    hcalls gate resource (hcall ▸ (Event.of_mem_trace hmem).1)) post hpost

end GateEvent

end BootTrust
