import HpkeDemo.AuthMode.Hpke

/-! The client and the server of `secp256k1_authmode.rs`. The claimed identity travels in
the clear, and tells the server which key to open the request with. -/
namespace HpkeDemo.AuthMode

structure Client (H : HpkeSecp) where
  sk : H.PrivateKey
  pk : H.PublicKey
  serverPk : H.PublicKey

structure Server (H : HpkeSecp) where
  sk : H.PrivateKey
  pk : H.PublicKey
  allowlist : List Bytes

variable {H : HpkeSecp}

namespace Client

def identity (client : Client H) : Bytes := pkBytes H client.pk

def sealRequest (client : Client H) (rng : H.Randomness) (plaintext : Bytes) :
    Except Panic (H.EncappedKey × Bytes) :=
  sealAuth H rng (client.sk, client.pk) client.serverPk INFO_REQUEST plaintext

def openResponse (client : Client H) (enc : H.EncappedKey) (ciphertext : Bytes) :
    Except String Bytes :=
  openAuth H client.sk client.serverPk INFO_RESPONSE enc ciphertext

/-- The keys are those of one `gen_keypair`. -/
def Keyed (client : Client H) : Prop := H.skToPk client.sk = client.pk

end Client

namespace Server

def handle (server : Server H) (claimedId : Bytes) (enc : H.EncappedKey) (ciphertext : Bytes) :
    Except String Bytes := do
  if claimedId ∉ server.allowlist then
    throw "unauthorized: client not on allowlist"
  let clientPk ← pkFromBytes H claimedId
  (openAuth H server.sk clientPk INFO_REQUEST enc ciphertext).mapError
    fun _ => "authentication failed"

def sealResponse (server : Server H) (rng : H.Randomness) (clientPk : H.PublicKey)
    (plaintext : Bytes) : Except Panic (H.EncappedKey × Bytes) :=
  sealAuth H rng (server.sk, server.pk) clientPk INFO_RESPONSE plaintext

def Keyed (server : Server H) : Prop := H.skToPk server.sk = server.pk

end Server

section
variable {server : Server H} {claimed ct body : Bytes} {enc : H.EncappedKey}

theorem handle_of_unlisted (h : claimed ∉ server.allowlist) :
    server.handle claimed enc ct = .error "unauthorized: client not on allowlist" := by
  simp only [Server.handle, h, not_false_eq_true, if_true]
  rfl

theorem handle_of_listed (h : claimed ∈ server.allowlist) :
    server.handle claimed enc ct = pkFromBytes H claimed >>= fun clientPk =>
      (openAuth H server.sk clientPk INFO_REQUEST enc ct).mapError
        fun _ => "authentication failed" := by
  simp only [Server.handle, h, not_true_eq_false, if_false]

theorem handle_of_key {clientPk : H.PublicKey} (h : claimed ∈ server.allowlist)
    (hkey : H.fromBytes claimed = .ok clientPk) :
    server.handle claimed enc ct = (openAuth H server.sk clientPk INFO_REQUEST enc ct).mapError
      fun _ => "authentication failed" := by
  rw [handle_of_listed h, pkFromBytes, hkey]
  rfl

theorem handle_of_no_key {e : String} (h : claimed ∈ server.allowlist)
    (hkey : H.fromBytes claimed = .error e) :
    server.handle claimed enc ct = .error ("bad pubkey: " ++ e) := by
  rw [handle_of_listed h, pkFromBytes, hkey]
  rfl

theorem handle_eq_ok_iff : server.handle claimed enc ct = .ok body ↔
    claimed ∈ server.allowlist ∧ ∃ clientPk, H.fromBytes claimed = .ok clientPk ∧
      openAuth H server.sk clientPk INFO_REQUEST enc ct = .ok body := by
  by_cases h : claimed ∈ server.allowlist
  · simp only [handle_of_listed h, bind_eq_ok_iff, mapError_eq_ok_iff, pkFromBytes, h, true_and]
  · simp [handle_of_unlisted h, h]

/-- A holder of the key that `claimed` encodes sealed `body` as a request to the server. -/
def Authored (server : Server H) (claimed : Bytes) (enc : H.EncappedKey) (ct body : Bytes) :
    Prop :=
  ∃ clientSk rng, H.fromBytes claimed = .ok (H.skToPk clientSk) ∧
    sealAuth H rng (clientSk, H.skToPk clientSk) (H.skToPk server.sk) INFO_REQUEST body =
      .ok (enc, ct)

theorem authored_iff (correct : H.Correct) (ideal : H.Ideal) :
    Authored server claimed enc ct body ↔ ∃ clientPk, H.fromBytes claimed = .ok clientPk ∧
      openAuth H server.sk clientPk INFO_REQUEST enc ct = .ok body := by
  simp only [openAuth_eq_ok_iff correct ideal, Authored]
  constructor
  · rintro ⟨sk, rng, hkey, hseal⟩
    exact ⟨_, hkey, sk, rng, rfl, hseal⟩
  · rintro ⟨_, hkey, sk, rng, rfl, hseal⟩
    exact ⟨sk, rng, hkey, hseal⟩

end

/-- **What the server answers.** A request is accepted with a body exactly if the claimed
identity is allowlisted and a holder of its key sealed that body as a request to this
server. Each refusal has one cause: the identity is not allowlisted, it encodes no key, or
no holder of its key sealed the message so. -/
theorem handle_exact (correct : H.Correct) (ideal : H.Ideal) (server : Server H)
    (claimed : Bytes) (enc : H.EncappedKey) (ct : Bytes) :
    (∀ body, server.handle claimed enc ct = .ok body ↔
      claimed ∈ server.allowlist ∧ Authored server claimed enc ct body) ∧
    ∀ e, server.handle claimed enc ct = .error e ↔
      claimed ∉ server.allowlist ∧ e = "unauthorized: client not on allowlist" ∨
      claimed ∈ server.allowlist ∧
        ((∃ d, H.fromBytes claimed = .error d ∧ e = "bad pubkey: " ++ d) ∨
          (∃ clientPk, H.fromBytes claimed = .ok clientPk) ∧
            (¬ ∃ body, Authored server claimed enc ct body) ∧ e = "authentication failed") := by
  refine ⟨fun body => by rw [handle_eq_ok_iff, authored_iff correct ideal], fun e => ?_⟩
  by_cases hlisted : claimed ∈ server.allowlist
  · simp only [hlisted, not_true_eq_false, false_and, false_or, true_and]
    cases hkey : H.fromBytes claimed with
    | error d => simp [handle_of_no_key hlisted hkey, eq_comm]
    | ok clientPk =>
      have authored (body : Bytes) : Authored server claimed enc ct body ↔
          openAuth H server.sk clientPk INFO_REQUEST enc ct = .ok body := by
        simp [authored_iff correct ideal, hkey]
      rw [handle_of_key hlisted hkey]
      simp only [authored]
      cases openAuth H server.sk clientPk INFO_REQUEST enc ct <;>
        simp [Except.mapError, eq_comm]
  · simp [handle_of_unlisted hlisted, hlisted, eq_comm]

namespace Demo
open Transparent (key)

def server : Server plainSecp where
  sk := key 2
  pk := key 2
  allowlist := [pkBytes plainSecp (key 1)]

/-- A client of `server` with the key of 32 bytes `b`. -/
def client (b : UInt8) : Client plainSecp where
  sk := key b
  pk := key b
  serverPk := key 2

/-- The ciphertext of `client 1`'s request 7. -/
def sealed : Bytes := chunks [(key 1).1, (key 2).1, INFO_REQUEST, (key 4).1, []] ++ [7]

theorem client_ne : (client 3).pk ≠ (client 1).pk := (by decide : key 3 ≠ key 1)

end Demo

/-- The allowlisted client's request is accepted with its body and no other. -/
theorem handle_exact_sealed :
    Demo.server.handle (Demo.client 1).identity (Transparent.key 4) Demo.sealed = .ok [7] ↔
      (Demo.client 1).identity ∈ Demo.server.allowlist ∧
        Authored Demo.server (Demo.client 1).identity (Transparent.key 4) Demo.sealed [7] :=
  (handle_exact PlainSecp.correct PlainSecp.ideal Demo.server (Demo.client 1).identity
    (Transparent.key 4) Demo.sealed).1 [7]

section
variable {server : Server H} {client other : Client H}

theorem handle_sealRequest (correct : H.Correct) (ideal : H.Ideal) (server_keyed : server.Keyed)
    (client_keyed : client.Keyed) (pinned : client.serverPk = server.pk)
    (listed : client.identity ∈ server.allowlist) (rng : H.Randomness) (body : Bytes) :
    ∃ enc ct, client.sealRequest rng body = .ok (enc, ct) ∧
      server.handle client.identity enc ct = .ok body := by
  obtain ⟨enc, ct, hseal⟩ :=
    exists_sealAuth correct rng (client.sk, client.pk) client.serverPk INFO_REQUEST body
  have hkey : H.fromBytes client.identity = .ok client.pk := correct.from_to client.pk
  refine ⟨enc, ct, hseal, handle_eq_ok_iff.mpr ⟨listed, client.pk, hkey, ?_⟩⟩
  refine (openAuth_eq_ok_iff correct ideal).mpr ⟨client.sk, rng, client_keyed, ?_⟩
  rw [server_keyed, ← pinned]
  exact hseal

theorem openResponse_sealResponse (correct : H.Correct) (ideal : H.Ideal)
    (server_keyed : server.Keyed) (client_keyed : client.Keyed)
    (pinned : client.serverPk = server.pk) (rng : H.Randomness) (reply : Bytes) :
    ∃ enc ct, server.sealResponse rng client.pk reply = .ok (enc, ct) ∧
      client.openResponse enc ct = .ok reply := by
  obtain ⟨enc, ct, hseal⟩ :=
    exists_sealAuth correct rng (server.sk, server.pk) client.pk INFO_RESPONSE reply
  refine ⟨enc, ct, hseal, (openAuth_eq_ok_iff correct ideal).mpr ⟨server.sk, rng, ?_, ?_⟩⟩
  · rw [server_keyed, pinned]
  · rw [client_keyed, pinned]
    exact hseal

/-- Another client's request does not pass for the first one's. -/
theorem handle_impersonation (correct : H.Correct) (ideal : H.Ideal)
    (listed : client.identity ∈ server.allowlist) (hother : other.pk ≠ client.pk)
    {rng : H.Randomness} {body : Bytes} {enc : H.EncappedKey} {ct : Bytes}
    (hseal : other.sealRequest rng body = .ok (enc, ct)) :
    server.handle client.identity enc ct = .error "authentication failed" := by
  have hkey : H.fromBytes client.identity = .ok client.pk := correct.from_to client.pk
  rw [handle_of_key listed hkey]
  cases hopen : openAuth H server.sk client.pk INFO_REQUEST enc ct with
  | error e => rfl
  | ok m => exact absurd (openAuth_sealed correct ideal hseal hopen).1 hother

end

/-- **Both ends are who they claim to be.** Whatever keys are drawn: the allowlisted client's
request and the server's reply are accepted as they were sealed; another client is refused
under its own identity unless that is allowlisted, and under the first one's always. -/
theorem mutual_authentication (correct : H.Correct) (ideal : H.Ideal) (server : Server H)
    (client other : Client H) (server_keyed : server.Keyed) (client_keyed : client.Keyed)
    (pinned : client.serverPk = server.pk) (listed : client.identity ∈ server.allowlist)
    (hother : other.pk ≠ client.pk) (rng rng' : H.Randomness) (body reply : Bytes) :
    (∃ enc ct, client.sealRequest rng body = .ok (enc, ct) ∧
      server.handle client.identity enc ct = .ok body) ∧
    (∃ enc ct, server.sealResponse rng' client.pk reply = .ok (enc, ct) ∧
      client.openResponse enc ct = .ok reply) ∧
    ∃ enc ct, other.sealRequest rng body = .ok (enc, ct) ∧
      server.handle client.identity enc ct = .error "authentication failed" ∧
      (other.identity ∉ server.allowlist →
        server.handle other.identity enc ct =
          .error "unauthorized: client not on allowlist") := by
  refine ⟨handle_sealRequest correct ideal server_keyed client_keyed pinned listed rng body,
    openResponse_sealResponse correct ideal server_keyed client_keyed pinned rng' reply, ?_⟩
  obtain ⟨enc, ct, hseal⟩ :=
    exists_sealAuth correct rng (other.sk, other.pk) other.serverPk INFO_REQUEST body
  exact ⟨enc, ct, hseal, handle_impersonation correct ideal listed hother hseal,
    handle_of_unlisted⟩

/-- A client with the key 1, and another with the key 3. -/
theorem mutual_authentication_two :
    ∃ enc ct, (Demo.client 3).sealRequest (Transparent.key 4) [7] = .ok (enc, ct) ∧
      Demo.server.handle (Demo.client 1).identity enc ct = .error "authentication failed" ∧
      ((Demo.client 3).identity ∉ Demo.server.allowlist →
        Demo.server.handle (Demo.client 3).identity enc ct =
          .error "unauthorized: client not on allowlist") :=
  (mutual_authentication PlainSecp.correct PlainSecp.ideal Demo.server (Demo.client 1)
    (Demo.client 3) rfl rfl rfl (List.mem_singleton_self _) Demo.client_ne (Transparent.key 4)
    (Transparent.key 5) [7] [8]).2.2

end HpkeDemo.AuthMode
