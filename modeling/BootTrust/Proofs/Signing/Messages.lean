import BootTrust.Proofs.Json.Records
import BootTrust.Signing.Message
/-
Requests and responses survive the way. What one side sends, the other side reads as the same
request or the same response, member by member. A request carries a value that comes from elsewhere,
so it has to be one that can be written and read again; a response carries a status that is written
as a text, and `Success` can only be read as the status of that name.
-/

set_option autoImplicit false

namespace BootTrust

open Json

/-- A request is read back from its body. -/
theorem SignRequest.parse_body (request : SignRequest)
    (hexact : request.seed.document.isExact = true)
    (hfits : request.seed.document.FitsIn memberDepth) : parse request.body = .ok request := by
  refine Shape.parse_print ⟨some request.hash, some request.macs, some request.path,
    some request.seed, some request.signature⟩ ?_ rfl
  refine .slot rfl rfl (fun rest _ => text_print .none 1 request.hash rest) ?_
  refine .slot rfl rfl (fun rest _ =>
    textList_print .none 1 request.macs (by simp [Spacing.none]) rest) ?_
  refine .slot rfl rfl (fun rest _ => text_print .none 1 request.path rest) ?_
  refine .slot rfl rfl (fun rest hends =>
    value_print hexact hfits .none 1 (by simp [Spacing.none]) hends) ?_
  refine .slot rfl rfl (fun rest _ => text_print .none 1 request.signature rest) ?_
  exact .nil _

namespace SignResponse

theorem readStatus_print (sp : Spacing) (depth : Nat) (status : SignStatus) (rest : Bytes) :
    readStatus (sp.afterColon ++ (Document.string status.text).print sp depth ++ rest)
      = .ok (.ofText status.text, rest) := by
  rw [readStatus, text_print]
  rfl

theorem readErrorCode_print (sp : Spacing) (depth : Nat) (code : Int64) {rest : Bytes}
    (hends : EndsValue rest) :
    readErrorCode (sp.afterColon
        ++ (Document.number (.integer code.toInt (errorCode_inRange code))).print sp depth ++ rest)
      = .ok (code, rest) := by
  have hkind : signed64.least ≤ code.toInt ∧ code.toInt ≤ signed64.greatest := by
    have lower := code.le_toInt
    have upper := code.toInt_lt
    simp only [signed64]
    omega
  rw [readErrorCode, Document.print, integerAs_integer hkind sp.afterColon_blank hends]
  show Except.ok (Int64.ofInt code.toInt, rest) = _
  rw [Int64.ofInt_toInt]

/-- A response is read back from its body, if its status is the one that its text stands for. -/
theorem parse_body (response : SignResponse)
    (hstatus : SignStatus.ofText response.status.text = response.status) :
    parse response.body = .ok response := by
  refine Shape.parse_print ⟨some (.ofText response.status.text), some response.errorCode,
    some response.signedUrl, some response.path⟩ ?_ ?_
  · refine .slot rfl rfl (fun rest _ => readStatus_print .none 1 response.status rest) ?_
    refine .slot rfl rfl (fun rest hends => readErrorCode_print .none 1 response.errorCode hends) ?_
    refine .slot rfl rfl (fun rest _ => text_print .none 1 response.signedUrl rest) ?_
    refine .slot rfl rfl (fun rest _ => text_print .none 1 response.path rest) ?_
    exact .nil _
  · rw [hstatus]
    rfl

end SignResponse

end BootTrust
