import Mach.Quic.Stream.SendSteps
/-!
# Packetization is lossless

What a sending stream is for: the bytes the writes hand over come out in frames,
each once and in order, and the FIN comes with the last of them. `Lossless` says
how far a stream that is not reset is with that; every step keeps it, whatever
the writers, the packetizer and the peer's limits do in between.
-/

namespace Mach.Quic.Stream

open Lib List

namespace Sender

/-- One step of a single stream; the label gives the connection credit found. -/
def next (x : Sender) (e : Nat × SendOp) : Option (Sender × List SendEvent) := x.step e.1 e.2

end Sender

def frames (tr : List SendEvent) : List StreamFrame :=
  tr.filterMap fun
    | .popped f => some f
    | _ => none

def accepted (tr : List SendEvent) : List UInt8 :=
  tr.flatMap fun
    | .accepted data => data
    | _ => []

def payload (fs : List StreamFrame) : List UInt8 := fs.flatMap (·.data)

@[simp] theorem frames_append (tr o : List SendEvent) : frames (tr ++ o) = frames tr ++ frames o := filterMap_append

@[simp] theorem accepted_append (tr o : List SendEvent) : accepted (tr ++ o) = accepted tr ++ accepted o :=
  flatMap_append

@[simp] theorem payload_append (fs gs : List StreamFrame) : payload (fs ++ gs) = payload fs ++ payload gs :=
  flatMap_append

theorem frames_quiet {o : List SendEvent} (h : ∀ e ∈ o, e.isQuiet) : frames o = [] := by
  rw [frames, filterMap_eq_nil_iff]
  intro e he
  have := h e he
  cases e <;> simp_all [SendEvent.isQuiet]

theorem accepted_quiet {o : List SendEvent} (h : ∀ e ∈ o, e.isQuiet) : accepted o = [] := by
  rw [accepted, flatMap_eq_nil_iff]
  intro e he
  have := h e he
  cases e <;> simp_all [SendEvent.isQuiet]

theorem frames_conn (calls : List ConnCall) : frames (calls.map .conn) = [] := by
  simp [frames]

theorem accepted_conn (calls : List ConnCall) : accepted (calls.map .conn) = [] := by
  simp [accepted]

/-! ## Credit -/

/-- The stream stays within its own limit, and so does what the writer has been
granted: nobody else spends the stream's credit. -/
structure Credited (x : Sender) : Prop where
  window_lt : x.str.flowController.send.sendWindow < 2 ^ 64
  within : x.str.flowController.send.bytesSent ≤ x.str.flowController.send.sendWindow
  granted : ∀ p n effective, x.phase = .granted p n effective → effective ≤ x.credit
  trying : ∀ p, x.phase = .trying p → p ≠ [] ∧ p.length ≤ x.credit ∧ x.str.resetErr = none
  reset : x.str.resetErr = none ↔ x.str.state.isReset = false

variable {x x' : Sender} {op : SendOp} {o tr : List SendEvent}

theorem credit_eq (x : Sender) :
    x.credit = x.str.flowController.send.sendWindow - x.str.flowController.send.bytesSent := by
  unfold Sender.credit SendSide.credit
  split <;> omega

theorem Credited.not_trying_nil (h : Credited x) : x.phase ≠ .trying [] := fun hph => (h.trying [] hph).1 rfl

theorem refusal_eq_none (h : x.str.refusal = none) :
    x.str.resetErr = none ∧ ¬ (x.str.state = .dataSent ∨ x.str.state = .dataRecvd) := by
  unfold SendStream.refusal at h
  split at h
  · cases h
  rename_i hreset
  split at h
  · cases h
  split at h
  · cases h
  rename_i hst
  exact ⟨hreset, hst⟩

theorem Credited.appended {data : List UInt8} (h : Credited x)
    (hfrom : (∃ p n effective, x.phase = .granted p n effective ∧ data.length ≤ effective) ∨ x.phase = .trying data) :
    x.str.flowController.send.bytesSent + data.length ≤ x.str.flowController.send.sendWindow := by
  have hin := h.within
  have hle : data.length ≤ x.credit := by
    rcases hfrom with ⟨p, n, eff, hph, hle⟩ | hph
    · exact hle.trans (h.granted p n eff hph)
    · exact (h.trying data hph).2.1
  rw [credit_eq] at hle
  omega

theorem bytesSent_append (s : SendStream) (data : List UInt8) :
    (s.append data).1.flowController.send.bytesSent = u64 (s.flowController.send.bytesSent + data.length) := rfl

theorem send_abort (s : SendStream) (code : Nat) (remote : Bool) :
    (s.abort code remote).1.flowController.send.bytesSent ≤ s.flowController.send.bytesSent ∧
      (s.abort code remote).1.flowController.send.sendWindow = s.flowController.send.sendWindow := by
  unfold SendStream.abort
  split
  · refine ⟨?_, rfl⟩
    simp only [StreamFlowController.reclaimBytesSent, SendSide.reclaimBytesSent]
    split <;> omega
  · exact ⟨le_refl _, rfl⟩

theorem credited_did (h : Credited x) (hd : Sender.Did x op x' o) : Credited x' := by
  cases hd with
  | quiet fc rs se phase o h0 hfc hph ho =>
    have hcredit : x.credit ≤ Sender.credit ⟨{ x.str with flowController := fc, resetSent := rs, shutdownErr := se }, phase⟩ := by
      have := hfc.window
      rw [credit_eq, credit_eq, hfc.bytesSent]
      exact Nat.sub_le_sub_right this _
    refine ⟨hfc.window_lt h.window_lt, hfc.bytesSent ▸ h.within.trans hfc.window, ?_, ?_, h.reset⟩
    · rintro p n eff rfl
      rcases hph with hph | ⟨-, hle, -⟩
      · exact (h.granted p n eff hph).trans hcredit
      · exact hle.trans hcredit
    · rintro p rfl
      rcases hph with hph | ⟨hne, hle, href⟩
      · exact ⟨(h.trying p hph).1, (h.trying p hph).2.1.trans hcredit, (h.trying p hph).2.2⟩
      · exact ⟨hne, hle.trans hcredit, (refusal_eq_none href).1⟩
  | appended data phase o hlen hne hfrom hph ho =>
    have hsum := h.appended hfrom
    have hlt := h.window_lt
    have hidle : ∀ p n eff, phase ≠ .granted p n eff := by rcases hph with rfl | ⟨p, n, rfl⟩ <;> simp
    have htry : ∀ p, phase ≠ .trying p := by rcases hph with rfl | ⟨p, n, rfl⟩ <;> simp
    refine ⟨hlt, ?_, fun p n eff he => absurd he (hidle p n eff), fun p he => absurd he (htry p), ?_⟩
    · rw [bytesSent_append, u64_of_lt (hsum.trans_lt hlt)]
      exact hsum
    · refine h.reset.trans ?_
      simp only [SendStream.append]
      split <;> simp_all [SendState.isReset]
  | closed h0 hidle hreset hst =>
    exact ⟨h.window_lt, h.within, by simp [hidle], by simp [hidle], by simp [hreset, SendState.isReset]⟩
  | aborted code remote stop stopCode h0 hop hph hst =>
    set s0 := { x.str with stopSendingReceived := stop, stopSendingCode := stopCode }
    have hsend := send_abort s0 code remote
    have hcredit : x.credit ≤ Sender.credit { x with str := (s0.abort code remote).1 } := by
      rw [credit_eq, credit_eq, hsend.2]
      exact Nat.sub_le_sub_left hsend.1 _
    refine ⟨hsend.2 ▸ h.window_lt, hsend.2 ▸ hsend.1.trans h.within, ?_, fun p he => absurd he (hph p), ?_⟩
    · exact fun p n eff he => (h.granted p n eff he).trans hcredit
    · simp [SendStream.abort, SendState.isReset]
  | popped take fin h0 hst hsome hle hfin => exact { h with }
  | acked st h0 hst =>
    refine { h with reset := h.reset.trans ?_ }
    rcases hst with ⟨hst, rfl⟩ | ⟨hst, rfl⟩ <;> simp [hst, SendState.isReset]

theorem credited_new (id : Nat) (fc : StreamFlowController) (h0 : fc.send.bytesSent = 0) (hlt : fc.send.sendWindow < 2 ^ 64) :
    Credited { str := newSendStream id fc } :=
  ⟨hlt, by simp [newSendStream, h0], by simp, by simp, by simp [newSendStream, SendState.isReset]⟩

/-! ## Lossless packetization -/

def SendOp.resets : SendOp → Bool
  | .cancelWrite _ | .handleStopSending _ => true
  | _ => false

/-- How far the stream is: what is popped and what is buffered make up what was
written, frames lie end to end, and the FIN closes them. -/
structure Lossless (x : Sender) (tr : List SendEvent) : Prop where
  credited : Credited x
  live : x.str.resetErr = none
  charged : x.str.flowController.send.bytesSent = x.str.writeOffset
  written : x.str.writeOffset = (accepted tr).length
  bytes : payload (frames tr) ++ x.str.writeBuffer = accepted tr
  sent : x.str.sentOffset = (payload (frames tr)).length
  tiles : ∀ k f, (frames tr)[k]? = some f → f.offset = (payload ((frames tr).take k)).length
  fin_state : x.str.finQueued ↔ x.str.state = .dataSent ∨ x.str.state = .dataRecvd
  fin_phase : x.str.finQueued → ∀ data : List UInt8, data ≠ [] →
    ¬ ((∃ p n effective, x.phase = .granted p n effective ∧ data.length ≤ effective) ∨ x.phase = .trying data)
  fin_closed : x.str.finQueued → .closed x.str.writeOffset ∈ tr
  fin_sent : x.str.finSent → x.str.finQueued ∧ x.str.writeBuffer = []
  fin_frame : ∀ f ∈ frames tr, f.fin → x.str.finSent ∧ f.offset + f.data.length = x.str.writeOffset
  fin_last : ∀ k f, (frames tr)[k]? = some f → f.fin → k + 1 = (frames tr).length

theorem Lossless.open_of_refusal (h : Lossless x tr) (href : x.str.refusal = none) : ¬ x.str.finQueued :=
  fun hq => (refusal_eq_none href).2 (h.fin_state.1 hq)

theorem lossless_new (id : Nat) (fc : StreamFlowController) (h0 : fc.send.bytesSent = 0)
    (hlt : fc.send.sendWindow < 2 ^ 64) : Lossless { str := newSendStream id fc } [] where
  credited := credited_new id fc h0 hlt
  live := rfl
  charged := h0
  written := rfl
  bytes := rfl
  sent := rfl
  tiles := by simp [frames]
  fin_state := by simp [newSendStream]
  fin_phase := by simp [newSendStream]
  fin_closed := by simp [newSendStream]
  fin_sent := by simp [newSendStream]
  fin_frame := by simp [frames]
  fin_last := by simp [frames]

section Steps

variable (h : Lossless x tr)
include h

theorem Lossless.extend (hf : frames o = []) (ha : accepted o = []) : Lossless x (tr ++ o) := by
  have hf' : frames (tr ++ o) = frames tr := by rw [frames_append, hf, append_nil]
  have ha' : accepted (tr ++ o) = accepted tr := by rw [accepted_append, ha, append_nil]
  exact { h with
    written := ha' ▸ h.written
    bytes := hf' ▸ ha' ▸ h.bytes
    sent := hf' ▸ h.sent
    tiles := hf' ▸ h.tiles
    fin_closed := fun hq => mem_append_left _ (h.fin_closed hq)
    fin_frame := hf' ▸ h.fin_frame
    fin_last := hf' ▸ h.fin_last }

theorem lossless_quiet {fc : StreamFlowController} {rs : Bool} {se : Option String} {phase : WritePhase}
    (hx' : Credited ⟨{ x.str with flowController := fc, resetSent := rs, shutdownErr := se }, phase⟩)
    (hfc : Sender.SameCharge x.str.flowController fc) (hph : x.Moves phase) (ho : ∀ e ∈ o, e.isQuiet) :
    Lossless ⟨{ x.str with flowController := fc, resetSent := rs, shutdownErr := se }, phase⟩ (tr ++ o) := by
  refine { h.extend (frames_quiet ho) (accepted_quiet ho) with
    credited := hx', charged := hfc.bytesSent.trans h.charged, fin_phase := ?_ }
  rintro hq data hne (⟨p, n, eff, rfl, hle⟩ | rfl)
  · rcases hph with hph | ⟨-, -, href⟩
    · exact h.fin_phase hq data hne (.inl ⟨p, n, eff, hph, hle⟩)
    · exact h.open_of_refusal href hq
  · rcases hph with hph | ⟨-, -, href⟩
    · exact h.fin_phase hq data hne (.inr hph)
    · exact h.open_of_refusal href hq

/-- A write that is let in finds the stream open, so the FIN is still to come. -/
theorem lossless_appended {data : List UInt8} {phase : WritePhase}
    (hx' : Credited ⟨(x.str.append data).1, phase⟩) (hne : data ≠ [])
    (hfrom : (∃ p n effective, x.phase = .granted p n effective ∧ data.length ≤ effective) ∨ x.phase = .trying data)
    (ho : ∀ e ∈ o, e.isQuiet) :
    Lossless ⟨(x.str.append data).1, phase⟩ (tr ++ (.accepted data :: (x.str.append data).2.map .conn ++ o)) := by
  have hopen : ¬ x.str.finQueued := fun hq => h.fin_phase hq data hne hfrom
  have hlive : ¬ (x.str.state = .dataSent ∨ x.str.state = .dataRecvd) := fun hst => hopen (h.fin_state.2 hst)
  have hnofin : ∀ f ∈ frames tr, ¬ f.fin := fun f hf hfin => hopen (h.fin_sent (h.fin_frame f hf hfin).1).1
  have hfit : x.str.writeOffset + data.length < 2 ^ 64 :=
    h.charged ▸ (h.credited.appended hfrom).trans_lt h.credited.window_lt
  have hev : frames (.accepted data :: (x.str.append data).2.map .conn ++ o) = [] ∧
      accepted (.accepted data :: (x.str.append data).2.map .conn ++ o) = data := by
    constructor
    · rw [frames_append, frames_quiet ho, append_nil]
      exact frames_conn _
    · rw [accepted_append, accepted_quiet ho, append_nil, ← singleton_append, accepted_append, accepted_conn]
      simp [accepted]
  refine ⟨hx', h.live, ?_, ?_, ?_, ?_, ?_, ?_, ?_, ?_, ?_, ?_, ?_⟩
  all_goals simp only [frames_append, accepted_append, hev, append_nil, length_append]
  · rw [bytesSent_append, h.charged]
    rfl
  · rw [← h.written]
    exact u64_of_lt hfit
  · simp only [SendStream.append, ← append_assoc, h.bytes]
  · exact h.sent
  · exact h.tiles
  · simp only [SendStream.append]
    exact iff_of_false hopen (by split <;> simp_all)
  · exact fun hq => absurd hq hopen
  · exact fun hq => absurd hq hopen
  · exact fun hs => absurd (h.fin_sent hs).1 hopen
  · exact fun f hf hfin => absurd hfin (hnofin f hf)
  · exact fun k f hk hfin => absurd hfin (hnofin f (mem_of_getElem? hk))

/-- Popping moves the front of the buffer behind the frames already popped. -/
theorem lossless_popped {take : Nat} {fin : Bool} (hx' : Credited x')
    (hpop : x' = { x with str := { x.str with
      writeBuffer := x.str.writeBuffer.drop take
      sentOffset := u64 (x.str.sentOffset + take)
      finSent := x.str.finSent || fin } })
    (hsome : ¬ (x.str.writeBuffer = [] ∧ (¬ x.str.finQueued ∨ x.str.finSent))) (hle : take ≤ x.str.writeBuffer.length)
    (hfin : fin = (x.str.finQueued && (x.str.writeBuffer.drop take).isEmpty && !x.str.finSent)) :
    Lossless x' (tr ++ [.popped ⟨x.str.writeBuffer.take take, x.str.sentOffset, fin⟩]) := by
  subst hpop
  set f : StreamFrame := ⟨x.str.writeBuffer.take take, x.str.sentOffset, fin⟩
  have hfr : frames (tr ++ [.popped f]) = frames tr ++ [f] := by simp [frames]
  have hac : accepted (tr ++ [.popped f]) = accepted tr := by simp [accepted]
  have hlen : f.data.length = take := by simp [f, hle]
  -- The FIN cannot have gone out: with it sent and nothing buffered, nothing is popped.
  have hunsent : x.str.finSent = false := by
    by_contra hs
    have hs : x.str.finSent = true := by simpa using hs
    exact hsome ⟨(h.fin_sent hs).2, .inr hs⟩
  have hnofin : ∀ g ∈ frames tr, ¬ g.fin := fun g hg hgf => by
    have hs := (h.fin_frame g hg hgf).1
    simp [hunsent] at hs
  have hbuf : (accepted tr).length = x.str.sentOffset + x.str.writeBuffer.length := by
    rw [← h.bytes, length_append, h.sent]
  have hsum : u64 (x.str.sentOffset + take) = x.str.sentOffset + take := by
    have := h.credited.within
    have := h.credited.window_lt
    have := h.charged
    have := h.written
    exact u64_of_lt (by omega)
  refine ⟨hx', h.live, h.charged, ?_, ?_, ?_, ?_, h.fin_state, h.fin_phase, ?_, ?_, ?_, ?_⟩
  · rw [hac]; exact h.written
  · rw [hac, hfr, payload_append, ← h.bytes, append_assoc]
    simp [payload, f]
  · rw [hfr, payload_append, length_append, ← h.sent]
    simp [payload, hlen, hsum]
  · rw [hfr]
    intro k g hg
    rcases lt_or_ge k (frames tr).length with hk | hk
    · rw [getElem?_append_left hk] at hg
      rw [take_append_of_le_length hk.le]
      exact h.tiles k g hg
    · obtain ⟨rfl, rfl⟩ : g = f ∧ k = (frames tr).length := by
        rw [getElem?_append_right hk] at hg
        have := List.getElem?_eq_some_iff.1 hg
        simp only [length_singleton] at this
        obtain ⟨hlt, hgf⟩ := this
        exact ⟨by simpa [Nat.lt_one_iff.1 hlt] using hgf.symm, by omega⟩
      rw [take_left]
      exact h.sent
  · exact fun hq => mem_append_left _ (h.fin_closed hq)
  · simp only [hunsent, Bool.false_or, hfin, Bool.and_eq_true, List.isEmpty_iff]
    exact fun hf => ⟨hf.1.1, hf.1.2⟩
  · rw [hfr]
    intro g hg hgf
    rcases mem_append.1 hg with hg | hg
    · exact absurd hgf (hnofin g hg)
    rw [mem_singleton.1 hg] at hgf ⊢
    have hfin' : fin = true := hgf
    refine ⟨by simp [hfin'], ?_⟩
    have hdrop : x.str.writeBuffer.drop take = [] := by simp [hfin', hunsent] at hfin; simpa using hfin.2
    have := drop_eq_nil_iff.1 hdrop
    simp only [hlen, f, h.written]
    omega
  · rw [hfr]
    intro k g hg hgf
    rcases lt_or_ge k (frames tr).length with hk | hk
    · rw [getElem?_append_left hk] at hg
      exact absurd hgf (hnofin g (mem_of_getElem? hg))
    · have := (List.getElem?_eq_some_iff.1 hg).1
      simp only [length_append, length_singleton] at this ⊢
      omega

theorem lossless_closed (hidle : x.phase = .idle)
    (hst : ¬ (x.str.state = .dataSent ∨ x.str.state = .dataRecvd)) (hx' : Credited { x with str := { x.str with
      finQueued := true, finalSize := x.str.writeOffset, state := .dataSent } }) :
    Lossless { x with str := { x.str with finQueued := true, finalSize := x.str.writeOffset, state := .dataSent } }
      (tr ++ if x.str.finQueued then [] else [.closed x.str.writeOffset]) := by
  have hopen : x.str.finQueued = false := by simpa using fun hq => hst (h.fin_state.1 hq)
  simp only [hopen, Bool.false_eq_true, if_false]
  exact { h.extend rfl rfl with
    credited := hx'
    fin_state := by simp
    fin_phase := by simp [hidle]
    fin_closed := by simp
    fin_sent := fun hs => ⟨rfl, (h.fin_sent hs).2⟩ }

theorem lossless_acked {st : SendState} (hx' : Credited { x with str := { x.str with state := st } })
    (hst : x.str.state = .dataSent ∧ st = .dataRecvd ∨ x.str.state = .resetSent ∧ st = .resetRecvd) :
    Lossless { x with str := { x.str with state := st } } (tr ++ [.completed]) := by
  obtain ⟨hsent, rfl⟩ : x.str.state = .dataSent ∧ st = .dataRecvd := by
    have hlive := h.credited.reset.1 h.live
    rcases hst with hst | ⟨hst, -⟩
    · exact hst
    · simp [hst, SendState.isReset] at hlive
  exact { h.extend rfl rfl with credited := hx', fin_state := iff_of_true (h.fin_state.2 (.inl hsent)) (.inr rfl) }

end Steps

/-- Every step but a reset keeps the stream lossless. -/
theorem lossless_step {c : Nat} (hop : op.resets = false) (h : Lossless x tr) (hs : x.step c op = some (x', o)) :
    Lossless x' (tr ++ o) := by
  have hd := Sender.did_of_step h.credited.not_trying_nil hs
  have hx' := credited_did h.credited hd
  cases hd with
  | quiet fc rs se phase o h0 hfc hph ho => exact lossless_quiet h hx' hfc hph ho
  | appended data phase o hlen hne hfrom hph ho => exact lossless_appended h hx' hne hfrom ho
  | closed h0 hidle hreset hst => exact lossless_closed h hidle hst hx'
  | aborted code remote stop stopCode h0 hop' hph hst =>
    rcases hop' with rfl | rfl <;> cases hop
  | popped take fin h0 hst hsome hle hfin => exact lossless_popped h hx' rfl hsome hle hfin
  | acked st h0 hst => exact lossless_acked h hx' hst

/-- Packetization is lossless: frames tile what has been sent, their data is what
the writes handed over, up to what is still buffered, and at most the last one
carries the FIN, at the end of what was written when the stream was closed. -/
theorem packetization_lossless (id : Nat) (connection : Bool) (initialReceiveWindow maxReceiveWindow : Nat)
    (sendWindow : UInt64) (es : List (Nat × SendOp)) (hes : ∀ e ∈ es, e.2.resets = false) (x : Sender)
    (tr : List SendEvent)
    (hr : run Sender.next ⟨newSendStream id
      (newStreamFlowController id connection initialReceiveWindow maxReceiveWindow sendWindow.toNat), .idle⟩ es =
        some (x, tr)) :
    (∀ k f, (frames tr)[k]? = some f → f.offset = (payload ((frames tr).take k)).length) ∧
    x.str.sentOffset = (payload (frames tr)).length ∧
    payload (frames tr) <+: accepted tr ∧
    (x.str.writeBuffer = [] → payload (frames tr) = accepted tr) ∧
    x.str.sentOffset + x.str.writeBuffer.length = x.str.writeOffset ∧
    (∀ k f, (frames tr)[k]? = some f → f.fin →
      k + 1 = (frames tr).length ∧ .closed (f.offset + f.data.length) ∈ tr) := by
  have h : Lossless x tr := run_inv Lossless (fun _ _ _ _ _ hA hI hs => lossless_step hA hI hs) hes
    (lossless_new _ _ rfl sendWindow.toNat_lt) hr
  refine ⟨h.tiles, h.sent, ⟨_, h.bytes⟩, fun hbuf => ?_, ?_, fun k f hk hfin => ⟨h.fin_last k f hk hfin, ?_⟩⟩
  · simpa [hbuf] using h.bytes
  · rw [h.written, ← h.bytes, h.sent, length_append]
  · obtain ⟨hsent, heq⟩ := h.fin_frame f (mem_of_getElem? hk) hfin
    exact heq ▸ h.fin_closed (h.fin_sent hsent).1

/-- Three bytes written, one popped, the rest popped with the FIN. -/
theorem packetization_lossless_three :
    ∃ x tr, run Sender.next ⟨newSendStream 4 (newStreamFlowController 4 true 0 0 8), .idle⟩
        [(9, .writeWithLimit [1, 2, 3]), (9, .check false false), (9, .commit none), (9, .popStreamFrame 1), (9, .close),
          (9, .popStreamFrame 100)] = some (x, tr) ∧
      frames tr = [⟨[1], 0, false⟩, ⟨[2, 3], 1, true⟩] ∧ payload (frames tr) <+: accepted tr :=
  ⟨_, _, rfl, by decide,
    (packetization_lossless 4 true 0 0 8
      [(9, .writeWithLimit [1, 2, 3]), (9, .check false false), (9, .commit none), (9, .popStreamFrame 1), (9, .close),
        (9, .popStreamFrame 100)] (by simp [SendOp.resets]) _ _ rfl).2.2.1⟩

end Mach.Quic.Stream
