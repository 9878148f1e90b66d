import HpkeDemo.Signing.Framing

/-! Why the signing variants refuse: the error for every message that `open_request` or
`open_response` does not accept. -/
namespace HpkeDemo.Signing

variable {H : Hpke} {I : Identity}

/-- The message opens to a payload that `open_request` cuts into these parts. -/
structure Laid (server : Server H I) (enc : H.EncappedKey) (ct : Bytes) (id : I.Id)
    (sig kb body : Bytes) : Prop where
  opens : openBase H server.sk INFO_REQUEST enc ct = .ok (id.1 ++ sig ++ kb ++ body)
  sig_length : sig.length = SIG_LEN
  kb_length : kb.length = PUBLIC_KEY_LEN

/-- What is wrong with a request, in the order in which it is looked for. -/
inductive Refusal (server : Server H I) (enc : H.EncappedKey) (ct : Bytes) : String → Prop where
  | unopened {e} (h : openBase H server.sk INFO_REQUEST enc ct = .error e) :
      Refusal server enc ct e
  | malformed {payload} (h : openBase H server.sk INFO_REQUEST enc ct = .ok payload)
      (hlen : payload.length < I.PK_LEN + SIG_LEN + PUBLIC_KEY_LEN) :
      Refusal server enc ct "malformed request"
  | unauthorized {id sig kb body} (laid : Laid server enc ct id sig kb body)
      (h : id ∉ server.allowlist) :
      Refusal server enc ct "unauthorized: client not on allowlist"
  | unread {id sig kb body e} (laid : Laid server enc ct id sig kb body)
      (allowed : id ∈ server.allowlist) (h : I.readKey id = .error e) : Refusal server enc ct e
  | unsigned {id sig kb body clientId} (laid : Laid server enc ct id sig kb body)
      (allowed : id ∈ server.allowlist) (read : I.readKey id = .ok clientId)
      (h : I.verify clientId (I.requestTranscript kb body) sig = false) :
      Refusal server enc ct "bad client signature"
  | unkeyed {id sig kb body clientId e} (laid : Laid server enc ct id sig kb body)
      (allowed : id ∈ server.allowlist) (read : I.readKey id = .ok clientId)
      (signed : I.verify clientId (I.requestTranscript kb body) sig = true)
      (h : pkFromBytes H kb = .error e) : Refusal server enc ct e

/-- What is wrong with a reply. -/
inductive ReplyRefusal (client : Client H I) (replySk : H.PrivateKey)
    (kb : {b : Bytes // b.length = PUBLIC_KEY_LEN}) (enc : H.EncappedKey) (ct : Bytes) :
    String → Prop where
  | unopened {e} (h : openBase H replySk INFO_RESPONSE enc ct = .error e) :
      ReplyRefusal client replySk kb enc ct e
  | malformed {payload} (h : openBase H replySk INFO_RESPONSE enc ct = .ok payload)
      (hlen : payload.length < SIG_LEN) :
      ReplyRefusal client replySk kb enc ct "malformed response"
  | unsigned {sig body} (opens : openBase H replySk INFO_RESPONSE enc ct = .ok (sig ++ body))
      (sig_length : sig.length = SIG_LEN)
      (h : I.verify client.serverId (I.responseTranscript kb body) sig = false) :
      ReplyRefusal client replySk kb enc ct "bad server signature"

section
variable {server : Server H I} {enc : H.EncappedKey} {ct sig kb body payload : Bytes} {id : I.Id}
  {e : String}

theorem exists_laid (h : openBase H server.sk INFO_REQUEST enc ct = .ok payload)
    (hlen : ¬ payload.length < I.PK_LEN + SIG_LEN + PUBLIC_KEY_LEN) :
    ∃ id sig kb body, Laid server enc ct id sig kb body := by
  have hid : (payload.take I.PK_LEN).length = I.PK_LEN := by
    rw [List.length_take]
    omega
  refine ⟨⟨_, hid⟩, (payload.drop I.PK_LEN).take SIG_LEN,
    ((payload.drop I.PK_LEN).drop SIG_LEN).take PUBLIC_KEY_LEN,
    ((payload.drop I.PK_LEN).drop SIG_LEN).drop PUBLIC_KEY_LEN, ?_, ?_, ?_⟩
  · rw [h]
    simp only [List.append_assoc, List.take_append_drop]
  · simp only [List.length_take, List.length_drop]
    omega
  · simp only [List.length_take, List.length_drop]
    omega

/-- What `open_request` makes of the parts. -/
theorem Laid.openRequest_eq (laid : Laid server enc ct id sig kb body) :
    server.openRequest enc ct =
      if id ∉ server.allowlist then .error "unauthorized: client not on allowlist"
      else do
        let clientId ← I.readKey id
        if !I.verify clientId (I.requestTranscript kb body) sig then .error "bad client signature"
        else do
          let replyPk ← pkFromBytes H kb
          return (replyPk, body) := by
  have hsig := laid.sig_length
  have hkb := laid.kb_length
  have hlen : ¬ (id.1 ++ sig ++ kb ++ body).length < I.PK_LEN + SIG_LEN + PUBLIC_KEY_LEN := by
    simp only [List.length_append, id.2, hsig, hkb]
    omega
  rw [Server.openRequest, laid.opens]
  simp only [bind, Except.bind]
  rw [dif_neg hlen]
  simp only [List.append_assoc, List.take_left' id.2, List.drop_left' id.2, List.take_left' hsig,
    List.drop_left' hsig, List.take_left' hkb, List.drop_left' hkb]

theorem openRequest_short (h : openBase H server.sk INFO_REQUEST enc ct = .ok payload)
    (hlen : payload.length < I.PK_LEN + SIG_LEN + PUBLIC_KEY_LEN) :
    server.openRequest enc ct = .error "malformed request" := by
  rw [Server.openRequest, h]
  simp only [bind, Except.bind]
  rw [dif_pos hlen]

theorem openRequest_unopened (h : openBase H server.sk INFO_REQUEST enc ct = .error e) :
    server.openRequest enc ct = .error e := by
  rw [Server.openRequest, h]
  rfl

theorem Laid.refusal_of_error (laid : Laid server enc ct id sig kb body)
    (h : server.openRequest enc ct = .error e) : Refusal server enc ct e := by
  rw [laid.openRequest_eq] at h
  by_cases allowed : id ∈ server.allowlist
  · rw [if_neg (not_not.mpr allowed)] at h
    cases read : I.readKey id with
    | error e' =>
      rw [read] at h
      cases h
      exact .unread laid allowed read
    | ok clientId =>
      cases signed : I.verify clientId (I.requestTranscript kb body) sig with
      | false =>
        simp only [read, signed, bind, Except.bind, Bool.not_false, if_true] at h
        cases h
        exact .unsigned laid allowed read signed
      | true =>
        simp only [read, signed, bind, Except.bind, Bool.not_true, Bool.false_eq_true,
          if_false] at h
        cases hkey : pkFromBytes H kb with
        | error e' =>
          rw [hkey] at h
          cases h
          exact .unkeyed laid allowed read signed hkey
        | ok replyPk =>
          rw [hkey] at h
          cases h
  · rw [if_pos allowed] at h
    cases h
    exact .unauthorized laid allowed

theorem openRequest_error_iff : server.openRequest enc ct = .error e ↔ Refusal server enc ct e := by
  constructor
  · intro h
    cases hopen : openBase H server.sk INFO_REQUEST enc ct with
    | error e' =>
      rw [openRequest_unopened hopen] at h
      cases h
      exact .unopened hopen
    | ok payload =>
      by_cases hlen : payload.length < I.PK_LEN + SIG_LEN + PUBLIC_KEY_LEN
      · rw [openRequest_short hopen hlen] at h
        cases h
        exact .malformed hopen hlen
      · obtain ⟨id, sig, kb, body, laid⟩ := exists_laid hopen hlen
        exact laid.refusal_of_error h
  · intro h
    cases h with
    | unopened h => exact openRequest_unopened h
    | malformed h hlen => exact openRequest_short h hlen
    | unauthorized laid h => rw [laid.openRequest_eq, if_pos h]
    | unread laid allowed h =>
      rw [laid.openRequest_eq, if_neg (not_not.mpr allowed), h]
      rfl
    | unsigned laid allowed read h =>
      rw [laid.openRequest_eq, if_neg (not_not.mpr allowed), read]
      simp only [h, bind, Except.bind, Bool.not_false, if_true]
    | unkeyed laid allowed read signed h =>
      rw [laid.openRequest_eq, if_neg (not_not.mpr allowed), read]
      simp only [signed, h, bind, Except.bind, Bool.not_true, Bool.false_eq_true, if_false]

end

section
variable {client : Client H I} {replySk : H.PrivateKey}
  {kb : {b : Bytes // b.length = PUBLIC_KEY_LEN}} {enc : H.EncappedKey}
  {ct sig body payload : Bytes}
  {e : String}

theorem openResponse_cut (h : openBase H replySk INFO_RESPONSE enc ct = .ok (sig ++ body))
    (hsig : sig.length = SIG_LEN) : client.openResponse replySk kb enc ct =
      if !I.verify client.serverId (I.responseTranscript kb body) sig then
        .error "bad server signature"
      else .ok body := by
  have hlen : ¬ (sig ++ body).length < SIG_LEN := by
    rw [List.length_append]
    omega
  rw [Client.openResponse, h]
  simp only [bind, Except.bind, if_neg hlen, List.splitAt_eq, List.take_left' hsig,
    List.drop_left' hsig]
  rfl

theorem openResponse_short (h : openBase H replySk INFO_RESPONSE enc ct = .ok payload)
    (hlen : payload.length < SIG_LEN) :
    client.openResponse replySk kb enc ct = .error "malformed response" := by
  rw [Client.openResponse, h]
  simp only [bind, Except.bind, if_pos hlen]

theorem openResponse_unopened (h : openBase H replySk INFO_RESPONSE enc ct = .error e) :
    client.openResponse replySk kb enc ct = .error e := by
  rw [Client.openResponse, h]
  rfl

theorem openResponse_error_iff : client.openResponse replySk kb enc ct = .error e ↔
    ReplyRefusal client replySk kb enc ct e := by
  constructor
  · intro h
    cases hopen : openBase H replySk INFO_RESPONSE enc ct with
    | error e' =>
      rw [openResponse_unopened hopen] at h
      cases h
      exact .unopened hopen
    | ok payload =>
      by_cases hlen : payload.length < SIG_LEN
      · rw [openResponse_short hopen hlen] at h
        cases h
        exact .malformed hopen hlen
      · have hsig : (payload.take SIG_LEN).length = SIG_LEN := by
          rw [List.length_take]
          omega
        rw [← List.take_append_drop SIG_LEN payload] at hopen
        rw [openResponse_cut hopen hsig] at h
        cases signed : I.verify client.serverId
            (I.responseTranscript kb (payload.drop SIG_LEN)) (payload.take SIG_LEN) with
        | false =>
          rw [signed] at h
          cases h
          exact .unsigned hopen hsig signed
        | true =>
          rw [signed] at h
          cases h
  · intro h
    cases h with
    | unopened h => exact openResponse_unopened h
    | malformed h hlen => exact openResponse_short h hlen
    | unsigned opens hsig h =>
      rw [openResponse_cut opens hsig, h]
      rfl

end

/-- **Every refusal has its reason.** Either variant refuses a request, and its client a reply,
exactly by the first thing that is wrong: that it does not open, is too short, comes from an
identity that is not allowlisted or is no key, is not signed for just this reply key and body,
or names no reply key. -/
theorem refusals_exact (v : Variant) :
    (∀ (server : Server H v.identity) enc ct e,
      v.openRequest server enc ct = .error e ↔ Refusal server enc ct e) ∧
    ∀ (client : Client H v.identity) replySk kb enc ct e,
      client.openResponse replySk kb enc ct = .error e ↔
        ReplyRefusal client replySk kb enc ct e := by
  constructor
  · intro server enc ct e
    rw [v.openRequest_eq]
    exact openRequest_error_iff
  · intro client replySk kb enc ct e
    exact openResponse_error_iff

end HpkeDemo.Signing
