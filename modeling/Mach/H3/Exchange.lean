import Mach.H3.Client.Response
import Mach.H3.Server.RequestStream
import Mach.Quic.Varint
/-!
# What one side writes, the other reads

A message is a HEADERS frame and, if it has a body, a DATA frame; the client writes a
large request in two pieces. However the stream is cut on its way, the other side
finds these frames, and what becomes of the message is up to its header block.
-/

namespace Mach.H3
open Lib List Quic Wire

variable {cut : ReadError} {v frameType payloadLen : Nat} {b out block body : List UInt8} {writes : List (List UInt8)}

/-- `varint.Append` of both numbers, which panics where one is too large. -/
def appendFrameHeader (b : List UInt8) (frameType payloadLen : Nat) : Option (List UInt8) := do
  Varint.append (← Varint.append b frameType) payloadLen

/-- What `handleRequestStream` writes when the handler has returned. -/
def Server.writeResponse (respBlock body : List UInt8) : Option (List UInt8) := do
  let b := (← appendFrameHeader [] 0x01 respBlock.length) ++ respBlock
  if body = [] then return b
  return (← appendFrameHeader b 0x00 body.length) ++ body

/-- The pieces in which a request is written. -/
def Client.sendRequestTo (headerBlock body : List UInt8) : Option (List (List UInt8)) := do
  let headLen := (← Varint.len 0x01) + (← Varint.len headerBlock.length)
  let out := (← appendFrameHeader [] 0x01 headerBlock.length) ++ headerBlock
  if body = [] then return [out]
  let totalLen := headLen + headerBlock.length + (← Varint.len 0x00) + (← Varint.len body.length) + body.length
  let out ← appendFrameHeader out 0x00 body.length
  return if totalLen ≤ 8192 then [out ++ body] else [out, body]

theorem takeVarint_append (h : Varint.append b v = some out) :
    ∃ front, out = b ++ front ∧ ∀ e, takeVarint .eof (front ++ e) = .ok (v, e) := by
  rw [Varint.append, Varint.checked] at h
  split at h
  · rename_i hv
    have hmax : v ≤ Varint.max := Nat.le_pred_of_lt hv
    refine ⟨varintBytes v, ?_, fun e => ?_⟩
    · rw [varintBytes_eq hmax, apply_bySize (b ++ ·)]
      exact (Option.some.inj h).symm
    · obtain ⟨first, l, r, hb, hsize, hlen, hval⟩ := decode_eq_ok_iff.1 (decode_varintBytes hmax e)
      have hmore : varintSize first - 1 = l.length := by
        rw [varintSize, ← Nat.one_shiftLeft, hsize, ← hlen, Nat.add_sub_cancel]
      obtain ⟨-, rfl⟩ := append_inj (show varintBytes v ++ e = first :: l ++ r from hb) hlen.symm
      rw [hb, takeVarint, hmore, if_neg (by simp), take_left, drop_left, varintValue, hval]
  · cases h

theorem takeHeader_append (h : appendFrameHeader b frameType payloadLen = some out) :
    ∃ front, out = b ++ front ∧ ∀ e, takeHeader .eof (front ++ e) = .ok ((frameType, payloadLen), e) := by
  obtain ⟨b', h1, h2⟩ := Option.bind_eq_some_iff.1 h
  obtain ⟨f1, rfl, hf1⟩ := takeVarint_append h1
  obtain ⟨f2, rfl, hf2⟩ := takeVarint_append h2
  refine ⟨f1 ++ f2, append_assoc .., fun e => ?_⟩
  rw [append_assoc, takeHeader, hf1]
  simp only [hf2]

theorem frames_cons {fs : List Frame} {front payload d : List UInt8}
    (h : ∀ e, takeHeader .eof (front ++ e) = .ok ((frameType, payload.length), e)) (hd : framer.Frames d fs []) :
    framer.Frames (front ++ payload ++ d) (⟨frameType, payload⟩ :: fs) [] := by
  refine .cons (nextFrame_append (f := ⟨frameType, payload⟩) d h) ?_
  rwa [← length_append, drop_left]

theorem frames_writeResponse (h : Server.writeResponse block body = some out) :
    frames out = (⟨0x01, block⟩ :: if body = [] then [] else [⟨0x00, body⟩], []) := by
  have hnil : framer.Frames [] [] [] := .nil rfl
  obtain ⟨b, hb, h⟩ := Option.bind_eq_some_iff.1 h
  obtain ⟨front, rfl, hfront⟩ := takeHeader_append hb
  refine frames_eq ?_
  split at h
  · rename_i hbody
    cases h
    rw [if_pos hbody, ← append_nil (b ++ block)]
    exact frames_cons hfront hnil
  · rename_i hbody
    obtain ⟨b', hb', h⟩ := Option.bind_eq_some_iff.1 h
    obtain ⟨front', rfl, hfront'⟩ := takeHeader_append hb'
    cases h
    rw [if_neg hbody, append_assoc, ← append_nil (front' ++ body)]
    exact frames_cons hfront (frames_cons hfront' hnil)

/-- In one piece or in two, a request is written as a response is. -/
theorem writeResponse_of_sendRequestTo (h : Client.sendRequestTo block body = some writes) :
    Server.writeResponse block body = some writes.flatten := by
  simp only [Client.sendRequestTo, Option.bind_eq_bind, Option.bind_eq_some_iff] at h
  obtain ⟨_, -, _, -, b, hb, h⟩ := h
  rw [Server.writeResponse, hb, Option.bind_eq_bind, Option.bind_some]
  by_cases hbody : body = []
  · rw [if_pos hbody] at h ⊢
    cases h
    rw [flatten_singleton]
    rfl
  · rw [if_neg hbody] at h ⊢
    obtain ⟨_, -, _, -, out, hout, h⟩ := by simpa only [Option.bind_eq_some_iff] using h
    cases h
    rw [hout]
    split <;> simp

/-- What becomes of a request, wherever its stream is cut. -/
theorem request_delivered {enableConnectProtocol : Bool} {decode : List UInt8 → Option Server.Request}
    (h : Client.sendRequestTo block body = some writes) {stream : Source UInt8} (hs : stream.stream = writes.flatten) :
    Server.handleRequestStream cut enableConnectProtocol decode stream =
      if Server.maxHeaders < block.length then Server.tooLarge
      else match decode block with
        | none => .cancel 0x010e
        | some req =>
          if req.isExtendedConnect then
            if enableConnectProtocol = false ∨ req.scheme = [] ∨ req.path = [] ∨ req.authority = [] then .cancel 0x0101
            else .extendedConnect req
          else if block = [] then .cancel 0x010d
          else .handled req body := by
  have hw := writeResponse_of_sendRequestTo h
  rw [← hs] at hw
  rw [Server.handleRequestStream_eq, frames_writeResponse hw, Framer.afterFrames, foldlM_cons, Server.onFrame, if_pos rfl,
    if_neg Bool.false_ne_true]
  by_cases hmax : Server.maxHeaders < block.length
  · rw [if_pos hmax, if_pos hmax]
    rfl
  rw [if_neg hmax, if_neg hmax, if_neg Bool.false_ne_true, Server.Reading.onHeaders]
  cases decode block with
  | none => rfl
  | some req =>
    dsimp only
    by_cases hconnect : req.isExtendedConnect
    · rw [if_pos hconnect, if_pos hconnect]
      split_ifs <;> rfl
    rw [if_neg hconnect, if_neg hconnect]
    have hfinish : ∀ body, Server.Reading.finish { hasSeenHeaders := true, headerBlock := block, req, body } =
        if block = [] then .cancel 0x010d else .handled req body := fun body => by simp [Server.Reading.finish]
    by_cases hbody : body = []
    · rw [if_pos hbody, hbody]
      exact hfinish []
    · rw [if_neg hbody]
      exact hfinish body

/-- What becomes of a response, wherever its stream is cut. -/
theorem response_delivered {qpack : Nat → List UInt8 → Section} {reader : Source UInt8}
    (h : Server.writeResponse block body = some reader.stream) :
    Client.readResponseFrom cut qpack reader =
      if Client.maxHeaders < block.length then .error (.headersTooLarge block.length)
      else match decodeResponseHeaders (qpack 0 block) with
        | .error e => .error (.decode e)
        | .ok (code, calls) =>
          if Client.isInterim code ∧ body ≠ [] then .error .errFrameUnexpected else .ok ⟨calls, body, none⟩ := by
  rw [Client.readResponseFrom_eq, frames_writeResponse h, Framer.afterFrames, foldlM_cons, Client.onFrame, if_pos rfl]
  by_cases hmax : Client.maxHeaders < block.length
  · rw [if_pos hmax, if_pos hmax]
    rfl
  rw [if_neg hmax, if_neg hmax, Client.Reading.onHeaders, if_neg Bool.false_ne_true]
  cases decodeResponseHeaders (qpack 0 block) with
  | error e => rfl
  | ok r =>
    obtain ⟨code, calls⟩ := r
    by_cases hbody : body = []
    · simp only [hbody, ne_eq, not_true_eq_false, and_false, if_true, if_false]
      rfl
    rw [if_neg hbody]
    -- The DATA frame is taken if the section before it was a final one.
    cases hcode : Client.isInterim code with
    | false =>
      simp only [hcode]
      rfl
    | true =>
      simp only [hcode, ne_eq, hbody]
      rfl

/-- A message of six octets, cut in two. -/
def sixOctets : Source UInt8 := ⟨[[0x01, 0x01, 0xaa, 0x00], [0x01, 7]], by decide⟩

theorem request_delivered_get : ∃ req,
    Server.handleRequestStream .eof false Server.getOnly sixOctets = .handled req [7] := by
  have h : Client.sendRequestTo [0xaa] [7] = some [sixOctets.stream] := by decide
  exact ⟨_, (request_delivered h rfl).trans rfl⟩

theorem response_delivered_ok :
    Client.readResponseFrom .eof Client.okSection sixOctets = .ok ⟨[.setStatusCode 200], [7], none⟩ := by
  have h : Server.writeResponse [0xaa] [7] = some sixOctets.stream := by decide
  exact (response_delivered h).trans (by decide)

end Mach.H3
