import KerberosHttp.Connection.Headers

/-!
# The headers that a call sends

A call sends the content type of its message, or one that fits, and the action of
the message if it has one.
-/

namespace KerberosHttp.CallHeaders

variable {mime : Soap.MimeHeaders} {headers : CallHeaders}

theorem singleValue_eq_ok_iff {name : String} {duplicate : ViolationKind}
    {value : Option HeaderValue} :
    singleValue mime name duplicate = .ok value ↔
      (mime.values name = [] ∧ value = none) ∨
        ∃ text sent, mime.values name = [text] ∧ HeaderValue.ofString? text = some sent ∧
          value = some sent := by
  unfold singleValue
  match hvalues : mime.values name with
  | [] => simp [eq_comm]
  | [text] => cases hsent : HeaderValue.ofString? text <;> simp [hsent, eq_comm]
  | _ :: _ :: _ => simp

theorem ofMime_eq_ok_iff :
    ofMime mime = .ok headers ↔
      ∃ contentType,
        singleValue mime "Content-Type" .duplicateContentType = .ok contentType ∧
        singleValue mime "SOAPAction" .duplicateSoapAction = .ok headers.soapAction ∧
        headers.contentType = contentType.getD
          (defaultContentType (if headers.soapAction.isSome then .v1_1 else .v1_2)) := by
  obtain ⟨sentType, sentAction⟩ := headers
  unfold ofMime
  cases htype : singleValue mime "Content-Type" .duplicateContentType with
  | error violation => simp [bind, Except.bind]
  | ok contentType =>
      cases haction : singleValue mime "SOAPAction" .duplicateSoapAction with
      | error violation => simp [bind, Except.bind]
      | ok action =>
          simp only [bind, Except.bind, pure, Except.pure, Except.ok.injEq, mk.injEq,
            exists_eq_left']
          constructor
          · rintro ⟨rfl, rfl⟩
            exact ⟨rfl, rfl⟩
          · rintro ⟨rfl, htypes⟩
            exact ⟨htypes.symm, rfl⟩

/-- An action is sent exactly if the message has one, and it is that one. -/
theorem soapAction_eq_of_ofMime (hheaders : ofMime mime = .ok headers) :
    (mime.values "SOAPAction" = [] ∧ headers.soapAction = none) ∨
      ∃ text action, mime.values "SOAPAction" = [text] ∧
        HeaderValue.ofString? text = some action ∧ headers.soapAction = some action := by
  obtain ⟨-, -, haction, -⟩ := ofMime_eq_ok_iff.mp hheaders
  exact singleValue_eq_ok_iff.mp haction

end KerberosHttp.CallHeaders
