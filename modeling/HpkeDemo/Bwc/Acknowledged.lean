import HpkeDemo.Bwc.Mailbox
import HpkeDemo.Text.Lossy

/-! What an acknowledgement says of the body it acknowledges. It shows the body as lossily
decoded text, so a body that is no text, or has the replacement character, shares it with
others. -/
namespace HpkeDemo.Bwc
open Text

variable {H : Hpke} {ι : Type} {knows : Knowledge H} {conns : ι → Connection H} {s : Network ι}

theorem ofString_inj {text text' : String} :
    Bytes.ofString text = Bytes.ofString text' ↔ text = text' := by
  constructor
  · intro h
    rw [← fromUtf8Lossy_ofString text, h, fromUtf8Lossy_ofString]
  · rintro rfl
    rfl

theorem ack_eq_iff {body body' : Bytes} :
    Wallet.ack body = Wallet.ack body' ↔ fromUtf8Lossy body = fromUtf8Lossy body' := by
  rw [Wallet.ack, Wallet.ack, ofString_inj, String.append_right_inj]

/-- An acknowledgement fits one body exactly if it shows no replacement character. -/
theorem ack_fits_one_iff {body : Bytes} : (∀ body', Wallet.ack body' = Wallet.ack body →
    body' = body) ↔ '\uFFFD' ∉ (fromUtf8Lossy body).toList := by
  simp only [ack_eq_iff]
  exact lossy_determines_iff body

/-- **A fitting acknowledgement is one's own.** If the text of an acknowledgement shows no
replacement character, the client of a safe connection that is shown it knows that its wallet
accepted a request that it sealed with just this body. If it shows one, it fits another body too. -/
theorem fitting_acknowledgement [DecidableEq ι] (encodings : H.Encodings)
    (ideal : H.IdealAuthPsk) (distinct : Distinct conns) (h : Insider.Reachable knows conns s)
    (body : Bytes) :
    ('\uFFFD' ∉ (fromUtf8Lossy body).toList →
      ∀ before after i request reply, Safe knows (conns i) →
        s.trace = before ++
          .received i request (.success reply) (.ok (.accepted (Wallet.ack body))) :: after →
        ∃ now wire timestamp, .handled i now wire (.ok body) (.ok reply) ∈ before ∧
          .sealed i timestamp body wire ∈ before ∧ Near now timestamp) ∧
    ('\uFFFD' ∈ (fromUtf8Lossy body).toList →
      ∃ body', body' ≠ body ∧ Wallet.ack body' = Wallet.ack body) := by
  constructor
  · intro hshown before after i request reply safe htrace
    obtain ⟨now, wire, body', timestamp, hhandled, hack, hsealed, hnear⟩ :=
      (Insider.reachable_inv encodings ideal distinct h).accepted_of_received safe htrace
    obtain rfl : body' = body := ack_fits_one_iff.mpr hshown body' hack.symm
    exact ⟨now, wire, timestamp, hhandled, hsealed, hnear⟩
  · intro hshown
    by_contra hnone
    refine ack_fits_one_iff.mp (fun body' hack => ?_) hshown
    by_contra hne
    exact hnone ⟨body', hne, hack⟩

/-- The acknowledgement of the first of two requests, returned for the second. -/
theorem fitting_acknowledgement_crossed :
    ∃ now wire timestamp,
      .handled false now wire (.ok [5]) (.ok Demo.ackReply) ∈ Demo.crossedTrace.take 3 ∧
        .sealed false timestamp [5] wire ∈ Demo.crossedTrace.take 3 ∧ Near now timestamp := by
  have hshown : '\uFFFD' ∉ (fromUtf8Lossy [5]).toList := by decide
  exact (fitting_acknowledgement Transparent.encodings Transparent.idealAuthPsk
    Demo.connections_distinct Demo.crossed_insider [5]).1 hshown (Demo.crossedTrace.take 3) [] false
    (Demo.request 8 300 [6]) Demo.ackReply (Demo.reader_safe false) Demo.crossed_trace

end HpkeDemo.Bwc
