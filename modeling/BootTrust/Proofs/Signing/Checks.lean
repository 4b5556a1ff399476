import BootTrust.Proofs.Steps
import BootTrust.Signing.Client
/-
The five checks of an answer, in their order, and calls that do not know of each other.

`Judges` says what an answer means for a request, one case for each check that it can fail and one
for an answer that passes them all. No two cases apply to the same answer, each has what was checked
before among its conditions, and none blames the encoding of the request. That this is what the
checks come to, in both directions, is `verify_eq_iff`.

In a run every call takes one answer from the front of the queue (`make_queue`). So after some
calls the queue is what these calls have left of it, whatever came of them, and the answer of a
call is found at its own place.
-/

set_option autoImplicit false

namespace BootTrust

/-- Texts with the same bytes are the same. -/
theorem Utf8.encode_inj {s t : String} : encode s = encode t ↔ s = t := by
  constructor
  · intro h
    have hdecode := decode?_encode s
    rw [h, decode?_encode t] at hdecode
    exact (Option.some_inj.mp hdecode).symm
  · intro h
    rw [h]

/-! ## One answer -/

/-- What an answer means for a request. -/
inductive SignRequest.Judges (request : SignRequest) : Answer → Except SignError String → Prop
  | undelivered (cause : TransportError) : request.Judges (.error cause) (.error (.transport cause))
  | badStatus {response : HttpResponse} (hstatus : response.status ≠ 200) :
    request.Judges (.ok response) (.error (.badStatus response.status))
  | malformed {response : HttpResponse} {cause : Json.ReadError} (hstatus : response.status = 200)
    (hparse : SignResponse.parse response.body = .error cause) :
    request.Judges (.ok response) (.error (.malformedResponse cause))
  | rejected {response : HttpResponse} {parsed : SignResponse} (hstatus : response.status = 200)
    (hparse : SignResponse.parse response.body = .ok parsed)
    (hrejected : parsed.status ≠ .success) :
    request.Judges (.ok response) (.error (.remoteRejected parsed.status parsed.errorCode))
  | mismatch {response : HttpResponse} {parsed : SignResponse} (hstatus : response.status = 200)
    (hparse : SignResponse.parse response.body = .ok parsed) (hsuccess : parsed.status = .success)
    (hdiffer : Utf8.encode parsed.signedUrl ≠ Utf8.encode request.hash) :
    request.Judges (.ok response) (.error (.hashMismatch request.hash parsed.signedUrl))
  | granted {response : HttpResponse} {parsed : SignResponse} (hstatus : response.status = 200)
    (hparse : SignResponse.parse response.body = .ok parsed) (hsuccess : parsed.status = .success)
    (hsame : Utf8.encode parsed.signedUrl = Utf8.encode request.hash) :
    request.Judges (.ok response) (.ok request.hash)

namespace SignRequest

variable {request : SignRequest} {answer : Answer} {result : Except SignError String}

theorem judges_verify (request : SignRequest) (answer : Answer) :
    request.Judges answer (request.verify answer) := by
  rcases answer with cause | response
  · exact .undelivered cause
  rw [verify]
  by_cases hstatus : response.status = 200
  · rw [if_neg (Decidable.not_not.mpr hstatus)]
    rcases hparse : SignResponse.parse response.body with cause | parsed
    · exact .malformed hstatus hparse
    · show request.Judges _ (if parsed.status ≠ .success then _ else _)
      by_cases hsuccess : parsed.status = .success
      · rw [if_neg (Decidable.not_not.mpr hsuccess)]
        by_cases hsame : parsed.signedUrl = request.hash
        · rw [if_neg (Decidable.not_not.mpr hsame), hsame]
          exact .granted hstatus hparse hsuccess (Utf8.encode_inj.mpr hsame)
        · rw [if_pos hsame]
          exact .mismatch hstatus hparse hsuccess fun hbytes => hsame (Utf8.encode_inj.mp hbytes)
      · rw [if_pos hsuccess]
        exact .rejected hstatus hparse hsuccess
  · rw [if_pos hstatus]
    exact .badStatus hstatus

/-- The conditions of a case leave one way through the checks. -/
theorem Judges.verify_eq (h : request.Judges answer result) : request.verify answer = result := by
  cases h with
  | undelivered cause => rfl
  | badStatus hstatus => rw [verify, if_pos hstatus]
  | malformed hstatus hparse =>
    rw [verify, if_neg (Decidable.not_not.mpr hstatus)]
    simp only [hparse]
  | rejected hstatus hparse hrejected =>
    rw [verify, if_neg (Decidable.not_not.mpr hstatus)]
    simp only [hparse]
    rw [if_pos hrejected]
  | mismatch hstatus hparse hsuccess hdiffer =>
    rw [verify, if_neg (Decidable.not_not.mpr hstatus)]
    simp only [hparse]
    rw [if_neg (Decidable.not_not.mpr hsuccess),
      if_pos fun hsame => hdiffer (Utf8.encode_inj.mpr hsame)]
  | granted hstatus hparse hsuccess hsame =>
    have hhash := Utf8.encode_inj.mp hsame
    rw [verify, if_neg (Decidable.not_not.mpr hstatus)]
    simp only [hparse]
    rw [if_neg (Decidable.not_not.mpr hsuccess), if_neg (Decidable.not_not.mpr hhash), hhash]

theorem verify_eq_iff : request.verify answer = result ↔ request.Judges answer result := by
  constructor
  · rintro rfl
    exact judges_verify request answer
  · exact Judges.verify_eq

/-- No case is about the encoding. -/
theorem not_judges_encode {cause : Json.ReadError} :
    ¬ request.Judges answer (.error (.encode cause)) := by
  intro h
  cases h

end SignRequest

/-! ## Runs of calls -/

namespace SignCall

/-- The answer that call number `index` finds in a queue. Beyond the end of the queue there is none,
and this is a failure of the transport. -/
def answerAt (answers : List Answer) (index : Nat) (call : SignCall) : Answer :=
  answers[index]?.getD (.error ⟨call.endpoint, "no response queued"⟩)

/-- The post of a call: its request as a compact document, to its own endpoint. -/
def post (call : SignCall) : Post :=
  ⟨call.endpoint, call.request.document.compact⟩

/-- A call takes the first answer from a queue, and looks at nothing else. -/
theorem make_queue (answers : List Answer) (call : SignCall) :
    make .queue answers call
      = (answers.tail, ⟨[call.post], call.request.verify (call.answerAt answers 0)⟩) := by
  rw [make, SignRequest.sign_eq]
  rcases answers with _ | ⟨answer, answers⟩
  · rfl
  · rfl

end SignCall

namespace SignEvent

/-- What holds of call number `index` in a run of calls. -/
structure IsChecked (answers : List Answer) (calls : List SignCall) (index : Nat)
    (event : SignEvent (List Answer)) : Prop where
  call : calls[index]? = some event.call
  /-- It posts once, and what it posts is its own. -/
  posts : event.reply.posts = [event.call.post]
  /-- Its result is what its own answer means for its own request. -/
  result : ∀ result, event.reply.result = result ↔
    event.call.request.Judges (event.call.answerAt answers index) result
  /-- It does not fail because of the encoding of its request. -/
  encode : ∀ cause, event.reply.result ≠ .error (.encode cause)

variable {answers : List Answer} {calls : List SignCall}
  {past future : List (SignEvent (List Answer))} {event : SignEvent (List Answer)}

/-- That a queue is what some events have left of the answers that were there at first. -/
def LeftBy (answers : List Answer) (past : List (SignEvent (List Answer)))
    (queue : List Answer) : Prop :=
  queue = answers.drop past.length

/-- Each call takes one answer, whatever comes of it. -/
theorem LeftBy.step {past : List (SignEvent (List Answer))} {event : SignEvent (List Answer)}
    (hstep : SignCall.make .queue event.before event.call = (event.after, event.reply))
    (hbefore : LeftBy answers past event.before) :
    LeftBy answers (past ++ [event]) event.after := by
  rw [SignCall.make_queue] at hstep
  rw [LeftBy, ← (Prod.mk.inj hstep).1, hbefore, List.tail_drop, List.length_append,
    List.length_singleton]

theorem leftBy_past (h : trace (SignCall.make .queue) answers calls = past ++ event :: future) :
    LeftBy answers past event.before := by
  have hstart : LeftBy answers [] answers := rfl
  exact Event.invariant_before hstart (fun _ _ _ hstep hbefore => hbefore.step hstep) h

/-- The events of a run are those of its calls, in their order. -/
theorem trace_call (answers : List Answer) (calls : List SignCall) :
    (trace (SignCall.make .queue) answers calls).map Event.call = calls := by
  induction calls generalizing answers with
  | nil => rfl
  | cons call calls ih => rw [trace, List.map_cons, ih]

theorem isChecked (h : trace (SignCall.make .queue) answers calls = past ++ event :: future) :
    IsChecked answers calls past.length event := by
  obtain ⟨-, hstep⟩ := Event.of_mem_trace (h ▸ List.mem_append_right past List.mem_cons_self)
  rw [leftBy_past h, SignCall.make_queue] at hstep
  have hanswer : event.call.answerAt (answers.drop past.length) 0
      = event.call.answerAt answers past.length := by
    rw [SignCall.answerAt, SignCall.answerAt, List.getElem?_drop, Nat.add_zero]
  rw [hanswer] at hstep
  have hreply := (Prod.mk.inj hstep).2
  have hresult : ∀ result, event.reply.result = result ↔
      event.call.request.Judges (event.call.answerAt answers past.length) result := by
    intro result
    rw [← hreply]
    exact SignRequest.verify_eq_iff
  refine ⟨?_, ?_, hresult, fun cause hencode => ?_⟩
  · rw [← trace_call answers calls, h, List.map_append, List.map_cons,
      List.getElem?_append_right (by simp), List.length_map, Nat.sub_self]
    rfl
  · rw [← hreply]
  · exact SignRequest.not_judges_encode ((hresult _).mp hencode)

/-- The result of a call, by its place in the list of calls. -/
theorem IsChecked.result_iff {index : Nat} {call : SignCall} {result : Except SignError String}
    (h : IsChecked answers calls index event) (hcall : calls[index]? = some call) :
    event.reply.result = result ↔ call.request.Judges (call.answerAt answers index) result := by
  obtain rfl : event.call = call := Option.some_inj.mp (h.call.symm.trans hcall)
  exact h.result result

theorem IsChecked.posts_eq {index : Nat} {call : SignCall} (h : IsChecked answers calls index event)
    (hcall : calls[index]? = some call) : event.reply.posts = [call.post] := by
  obtain rfl : event.call = call := Option.some_inj.mp (h.call.symm.trans hcall)
  exact h.posts

/-- In a run of any length each call has an event of its own, posts its own request once, and gets
what the five checks, in their order, make of the answer at its place in the queue. -/
theorem checked_in_order (answers : List Answer) (calls : List SignCall) :
    (trace (SignCall.make .queue) answers calls).map Event.call = calls
    ∧ ∀ past event future, trace (SignCall.make .queue) answers calls = past ++ event :: future →
      IsChecked answers calls past.length event :=
  ⟨trace_call answers calls, fun _ _ _ h => isChecked h⟩

/-- A request for the hash `h`. -/
def plainRequest : SignRequest :=
  ⟨"h", [], "p", Json.Value.ofDocument .null, "s"⟩

/-- A response with status 200. -/
def responding (body : String) : HttpResponse :=
  ⟨200, Utf8.encode body⟩

def rejecting : HttpResponse :=
  responding "\x7b\"Status\": \"Failed\", \"ErrorCode\": 7, \"SignedURL\": \"h\"\x7d"

/-- A response that shows another hash. -/
def mismatching : HttpResponse :=
  responding "\x7b\"Status\": \"Success\", \"SignedURL\": \"H\"\x7d"

def granting : HttpResponse :=
  responding "\x7b\"Status\": \"Success\", \"SignedURL\": \"h\"\x7d"

/-- One answer for each check, and one that passes them all. -/
def mixedQueue : List Answer :=
  [.error ⟨"a", "connection refused"⟩, .ok ⟨404, []⟩, .ok (responding "not json"), .ok rejecting,
    .ok mismatching, .ok granting]

/-- The same request seven times, each time to another endpoint. -/
def mixedCalls : List SignCall :=
  ["a", "b", "c", "d", "e", "f", "g"].map fun endpoint => ⟨plainRequest, endpoint⟩

/-- Six calls find the answers in the order of the checks, and the seventh one finds none. -/
theorem checked_in_order_mixedQueue :
    ∃ undelivered badStatus malformed rejected mismatch granted unanswered,
      trace (SignCall.make .queue) mixedQueue mixedCalls
        = [undelivered, badStatus, malformed, rejected, mismatch, granted, unanswered]
      ∧ undelivered.reply.result = .error (.transport ⟨"a", "connection refused"⟩)
      ∧ badStatus.reply.result = .error (.badStatus 404)
      ∧ (∃ cause, malformed.reply.result = .error (.malformedResponse cause))
      ∧ rejected.reply.result = .error (.remoteRejected .failed 7)
      ∧ mismatch.reply.result = .error (.hashMismatch "h" "H")
      ∧ granted.reply.result = .ok "h"
      ∧ granted.reply.posts = [⟨"f", plainRequest.document.compact⟩]
      ∧ unanswered.reply.result = .error (.transport ⟨"g", "no response queued"⟩) := by
  obtain ⟨-, hchecked⟩ := checked_in_order mixedQueue mixedCalls
  obtain ⟨cause, hmalformed⟩ :
      ∃ cause, SignResponse.parse (responding "not json").body = .error cause :=
    Steps.toOption_eq_none_iff.mp (by decide +kernel)
  have hrejected : SignResponse.parse rejecting.body = .ok ⟨.failed, 7, "h", ""⟩ :=
    Steps.toOption_eq_some_iff.mp (by decide +kernel)
  have hmismatch : SignResponse.parse mismatching.body = .ok ⟨.success, 0, "H", ""⟩ :=
    Steps.toOption_eq_some_iff.mp (by decide +kernel)
  have hgranted : SignResponse.parse granting.body = .ok ⟨.success, 0, "h", ""⟩ :=
    Steps.toOption_eq_some_iff.mp (by decide +kernel)
  have hdiffer : Utf8.encode "H" ≠ Utf8.encode "h" := by decide
  obtain ⟨undelivered, badStatus, malformed, rejected, mismatch, granted, unanswered, hrun⟩ :
      ∃ undelivered badStatus malformed rejected mismatch granted unanswered,
        trace (SignCall.make .queue) mixedQueue mixedCalls
          = [undelivered, badStatus, malformed, rejected, mismatch, granted, unanswered] :=
    ⟨_, _, _, _, _, _, _, rfl⟩
  refine ⟨_, _, _, _, _, _, _, hrun, ?_, ?_, ⟨cause, ?_⟩, ?_, ?_, ?_, ?_, ?_⟩
  · exact ((hchecked [] _ _ hrun).result_iff rfl).mpr (.undelivered _)
  · exact ((hchecked [_] _ _ hrun).result_iff rfl).mpr (.badStatus (by decide))
  · exact ((hchecked [_, _] _ _ hrun).result_iff rfl).mpr (.malformed rfl hmalformed)
  · have hjudged := @SignRequest.Judges.rejected plainRequest rejecting _ rfl hrejected nofun
    exact ((hchecked [_, _, _] _ _ hrun).result_iff rfl).mpr hjudged
  · have hjudged :=
      @SignRequest.Judges.mismatch plainRequest mismatching _ rfl hmismatch rfl hdiffer
    exact ((hchecked [_, _, _, _] _ _ hrun).result_iff rfl).mpr hjudged
  · have hjudged := @SignRequest.Judges.granted plainRequest granting _ rfl hgranted rfl rfl
    exact ((hchecked [_, _, _, _, _] _ _ hrun).result_iff rfl).mpr hjudged
  · exact (hchecked [_, _, _, _, _] _ _ hrun).posts_eq rfl
  · exact ((hchecked [_, _, _, _, _, _] _ _ hrun).result_iff rfl).mpr (.undelivered _)

end SignEvent

end BootTrust
