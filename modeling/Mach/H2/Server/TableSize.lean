import Mach.H2.Server.Windows
import Mach.Hpack.Twin
/-!
# The header table and the peer's settings

`SETTINGS_HEADER_TABLE_SIZE` tells how large a table the peer decodes with, so
it bounds the server's encoder and should not matter to how the peer's own header
blocks are read. `OnSettings` applies it to the decoder. The theorem compares two
runs that differ in its values only: every header block is read alike exactly as
long as no field names an entry that one of the decoders has evicted and the other
still holds.
-/

namespace Mach.H2.Server
open Lib Hpack Headkit ServerConn Option

/-! ## What is decoded -/

namespace ServerConn

/-- The fields that `Next` yields in the loop of `finishHeaderBlock`. -/
def decodedFields : Nat → HPACK → ServerStream → Bool → List UInt8 → List HeaderField
  | fuel + 1, hp, st, seen, c :: rest =>
    match hp.next {} (c :: rest) with
    | (_, .error _) => []
    | (hp, .ok (hf, rawBlock)) =>
      hf ::
        if hf.isEmpty then decodedFields fuel hp st seen rawBlock
        else
          match acceptField st seen hf.key hf.value with
          | .error _ => []
          | .ok (st, seen) => decodedFields fuel hp st seen rawBlock
  | _, _, _, _, _ => []

/-- `P` holds of two decoders at each representation of a block that the loop comes to. -/
def atFields (P : HPACK → HPACK → List UInt8 → Bool) : Nat → HPACK → HPACK → ServerStream → Bool → List UInt8 → Bool
  | fuel + 1, hp, hp', st, seen, c :: rest =>
    HPACK.atNext P (c :: rest).length hp hp' (c :: rest) &&
      match hp.next {} (c :: rest) with
      | (_, .error _) => true
      | (hp, .ok (hf, rawBlock)) =>
        let hp' := (hp'.next {} (c :: rest)).1
        if hf.isEmpty then atFields P fuel hp hp' st seen rawBlock
        else
          match acceptField st seen hf.key hf.value with
          | .error _ => true
          | .ok (st, seen) => atFields P fuel hp hp' st seen rawBlock
  | _, _, _, _, _, _ => true

/-- The connection and the stream with which a callback calls `finishHeaderBlock`. -/
def finishing (sc : ServerConn) : Event → Option (ServerConn × ServerStream)
  | .headers streamID payload endHeaders endStream =>
    if sc.continuationStream ≠ 0 ∨ (streamID = 0 ∨ streamID % 2 = 0) ∨ streamID ≤ sc.maxStreamID then none
    else if endHeaders then
      let st := { sc.newServerStream streamID true endStream with headerBlock := payload }
      some ({ sc with maxStreamID := streamID }.putStream streamID st, st)
    else none
  | .continuation streamID payload endHeaders =>
    if sc.continuationStream = 0 ∨ sc.continuationStream ≠ streamID then none
    else
      match sc.streams streamID with
      | none => none
      | some st =>
        if 65536 < st.headerBlock.length + payload.length then none
        else if endHeaders then
          some ({ sc with continuationStream := 0 },
            { st with headerBlock := st.headerBlock ++ payload, endHeaders := true })
        else none
  | _ => none

end ServerConn

def finishing (sc : ServerConn) : Label → Option (ServerConn × ServerStream)
  | .recv f => f.event.bind sc.finishing
  | _ => none

/-- What `finishHeaderBlock` makes of the block that a step ends: the header list, and the error. -/
def headerList (sc : ServerConn) (l : Label) : Option (List HeaderField × Option ErrorCode) :=
  (finishing sc l).map fun (sc, st) =>
    (ServerConn.decodedFields st.headerBlock.length sc.hpackDec.beginHeaderBlock st false st.headerBlock,
      (sc.finishHeaderBlock st).2)

/-- `P` holds of the decoders of two connections at each representation of the block that a step ends. -/
def atBlock (P : HPACK → HPACK → List UInt8 → Bool) (sc sc' : ServerConn) (l : Label) : Bool :=
  match finishing sc l with
  | none => true
  | some (_, st) =>
    ServerConn.atFields P st.headerBlock.length sc.hpackDec.beginHeaderBlock sc'.hpackDec.beginHeaderBlock st false
      st.headerBlock

/-! ## One block -/

section Block

variable {limit : Nat}

/-- What two decoders of one history make of a block. -/
structure ReadsBlock (limit : Nat) (d d' : List HeaderField) (r r' : HPACK × ServerStream × Option ErrorCode)
    (held : Bool) : Prop where
  fields : d = d' ↔ held = true
  same : held = true → r.2 = r'.2
  twin : held = true → HPACK.Twin limit r.1 r'.1

theorem ReadsBlock.cons {d d' : List HeaderField} {r r' : HPACK × ServerStream × Option ErrorCode} {held : Bool}
    (h : ReadsBlock limit d d' r r' held) (hf : HeaderField) : ReadsBlock limit (hf :: d) (hf :: d') r r' held :=
  { h with fields := by rw [List.cons.injEq, and_iff_right rfl, h.fields] }

theorem readsBlock_fields {hp hp' : HPACK} (h : HPACK.Twin limit hp hp') {fuel : Nat} {st : ServerStream} {seen : Bool}
    {b : List UInt8}
    (hwithin : ServerConn.atFields (fun _ _ => HPACK.withinLimit limit) fuel hp hp st seen b = true) :
    ReadsBlock limit (ServerConn.decodedFields fuel hp st seen b) (ServerConn.decodedFields fuel hp' st seen b)
      (ServerConn.headerFields fuel hp st seen b) (ServerConn.headerFields fuel hp' st seen b)
      (ServerConn.atFields HPACK.heldAlike fuel hp hp' st seen b) := by
  induction fuel generalizing hp hp' st seen b with
  | zero => exact ⟨iff_of_true rfl rfl, fun _ => rfl, fun _ => h⟩
  | succ fuel ih =>
    cases b with
    | nil => exact ⟨iff_of_true rfl rfl, fun _ => rfl, fun _ => h⟩
    | cons c rest =>
      rw [atFields, Bool.and_eq_true] at hwithin
      obtain ⟨hnext, hwithin⟩ := hwithin
      have hreads := HPACK.reads_nextLoop h {} (c :: rest) hnext
      rw [decodedFields, decodedFields, headerFields, headerFields,
        atFields]
      change HPACK.Reads limit (hp.next {} (c :: rest)) (hp'.next {} (c :: rest)) _ at hreads
      generalize hp.next {} (c :: rest) = r at hreads hwithin ⊢
      generalize hp'.next {} (c :: rest) = r' at hreads ⊢
      generalize HPACK.atNext HPACK.heldAlike (c :: rest).length hp hp' (c :: rest) = held at hreads ⊢
      obtain ⟨hp1, r⟩ := r
      obtain ⟨hp1', r'⟩ := r'
      cases held with
      | false =>
        -- one of the decoders stops here, and the other has one field more
        have hone := mt hreads.both.1 Bool.false_ne_true
        rw [Bool.false_and]
        refine ⟨iff_of_false ?_ Bool.false_ne_true, fun hf => absurd hf Bool.false_ne_true,
          fun hf => absurd hf Bool.false_ne_true⟩
        cases r <;> cases r' <;> simp_all [Except.toOption]
      | true =>
        have heq := hreads.same rfl
        have htwin := hreads.twin rfl
        rw [Bool.true_and]
        cases r with
        | error e =>
          cases r' with
          | error e' => exact ⟨iff_of_true rfl rfl, fun _ => rfl, fun _ => htwin⟩
          | ok p' => cases heq
        | ok p =>
          cases r' with
          | error e' => cases heq
          | ok p' =>
            obtain rfl : p = p' := Option.some.inj heq
            obtain ⟨hf, b⟩ := p
            refine .cons ?_ hf
            by_cases hempty : hf.isEmpty = true
            · simp only [if_pos hempty] at hwithin ⊢
              exact ih htwin hwithin
            · simp only [if_neg hempty] at hwithin ⊢
              cases hacc : acceptField st seen hf.key hf.value with
              | error e => exact ⟨iff_of_true rfl rfl, fun _ => rfl, fun _ => htwin⟩
              | ok q =>
                rw [hacc] at hwithin
                exact ih htwin hwithin

end Block

/-! ## One step

The second connection of a pair is the first one with another decoder. -/

namespace ServerConn

def withDec (sc : ServerConn) (hp : HPACK) : ServerConn := { sc with hpackDec := hp }

theorem withDec_withDec (sc : ServerConn) (hp hp' : HPACK) : (sc.withDec hp).withDec hp' = sc.withDec hp' := rfl

def withDecs (hp : HPACK) (r : ServerConn × List Out) : ServerConn × List Out := (r.1.withDec hp, r.2)

variable {sc : ServerConn}

theorem finishing_withDec (sc : ServerConn) (hp : HPACK) (e : Event) :
    (sc.withDec hp).finishing e = (sc.finishing e).map fun p => (p.1.withDec hp, p.2) := by
  cases e with
  | headers streamID payload endHeaders endStream =>
    simp only [finishing, withDec, apply_ite (Option.map _)]
    rfl
  | continuation streamID payload endHeaders =>
    simp only [finishing, withDec, apply_ite (Option.map _), map_none]
    cases sc.streams streamID with
    | none => rfl
    | some st => simp only [apply_ite (Option.map _), map_none]; rfl
  | _ => rfl

theorem replenishReceiveWindow_withDec (sc : ServerConn) (hp : HPACK) (st : ServerStream) (n : Nat) :
    (sc.withDec hp).replenishReceiveWindow st n =
      ((sc.replenishReceiveWindow st n).1.withDec hp, (sc.replenishReceiveWindow st n).2) := by
  unfold replenishReceiveWindow
  by_cases h : n = 0 ∨ sc.isClosed = true
  · rw [if_pos h]
    exact if_pos h
  · rw [if_neg h]
    exact if_neg h

theorem onStreamData_withDec (sc : ServerConn) (hp : HPACK) (streamID : Nat) (payload : List UInt8) (endStream : Bool) :
    (sc.withDec hp).onStreamData streamID payload endStream = withDecs hp (sc.onStreamData streamID payload endStream) := by
  simp only [onStreamData, replenishReceiveWindow_withDec, apply_ite (withDecs hp)]
  refine ite_congr rfl (fun _ => rfl) fun _ => ite_congr rfl (fun _ => rfl) fun _ => ?_
  rw [show (sc.withDec hp).streams = sc.streams from rfl]
  cases sc.streams streamID with
  | none => rfl
  | some st =>
    simp only [apply_ite (withDecs hp)]
    rfl

theorem onWindowUpdate_withDec (sc : ServerConn) (hp : HPACK) (streamID increment : Nat) :
    (sc.withDec hp).onWindowUpdate streamID increment = withDecs hp (sc.onWindowUpdate streamID increment) := by
  simp only [onWindowUpdate, withDec, apply_ite (withDecs hp)]
  cases updateSendWindow sc.connSendWindow increment <;> cases sc.streams streamID with
  | none => rfl
  | some st => cases hw : updateSendWindow st.sendWindow increment <;> simp only [hw] <;> rfl

variable {e : Event}

/-- The callbacks that neither end a header block nor carry settings leave the decoder alone. -/
theorem handle_withDec (sc : ServerConn) (hp : HPACK) (hfin : sc.finishing e = none)
    (hset : ∀ payload ack, e ≠ .settings payload ack) : (sc.withDec hp).handle e = withDecs hp (sc.handle e) := by
  cases e with
  | streamData streamID payload endStream => exact onStreamData_withDec sc hp streamID payload endStream
  | headers streamID payload endHeaders endStream =>
    simp only [handle, onHeaders, apply_ite (withDecs hp)]
    refine ite_congr rfl (fun _ => rfl) fun h1 => ite_congr rfl (fun _ => rfl) fun h2 =>
      ite_congr rfl (fun _ => rfl) fun h3 => ?_
    cases endHeaders with
    | false => rfl
    | true =>
      rw [finishing, if_neg (not_or.2 ⟨h1, not_or.2 ⟨h2, h3⟩⟩)] at hfin
      cases hfin
  | continuation streamID payload endHeaders =>
    simp only [handle, onContinuation, apply_ite (withDecs hp)]
    refine ite_congr rfl (fun _ => rfl) fun h1 => ?_
    change ¬ (sc.continuationStream = 0 ∨ sc.continuationStream ≠ streamID) at h1
    rw [finishing, if_neg h1] at hfin
    rw [show (sc.withDec hp).streams = sc.streams from rfl]
    cases hst : sc.streams streamID with
    | none => rfl
    | some st =>
      simp only [hst] at hfin
      simp only [apply_ite (withDecs hp)]
      refine ite_congr rfl (fun _ => rfl) fun h2 => ?_
      rw [if_neg h2] at hfin
      cases endHeaders with
      | false => rfl
      | true => cases hfin
  | settings payload ack => exact absurd rfl (hset payload ack)
  | ping payload ack =>
    simp only [handle, onPing, withDec, apply_ite (withDecs hp)]
    rfl
  | windowUpdate streamID increment => exact onWindowUpdate_withDec sc hp streamID increment
  | streamReset streamID errorCode =>
    simp only [handle, onStreamReset, withDec, apply_ite (withDecs hp)]
    rfl
  | goAway lastStreamID errorCode => rfl
  | priority streamID payload =>
    simp only [handle, onPriority, withDec, apply_ite (withDecs hp)]
    rfl
  | unknownFrame streamID frameType flags payload =>
    simp only [handle, onUnknownFrame, withDec, apply_ite (withDecs hp)]
    rfl

variable {p : ServerConn × ServerStream}

theorem handle_finishing (h : sc.finishing e = some p) :
    sc.handle e = p.1.endHeaderBlock p.2 := by
  unfold finishing at h
  split at h
  · rename_i streamID payload endHeaders endStream
    split at h
    · cases h
    rename_i hok
    obtain ⟨h1, h23⟩ := not_or.1 hok
    obtain ⟨h2, h3⟩ := not_or.1 h23
    split at h
    · rename_i hend
      subst hend
      obtain rfl := Option.some.inj h
      simp only [handle, onHeaders, if_neg h1, if_neg h2, if_neg h3, if_true]
      rfl
    · cases h
  · rename_i streamID payload endHeaders
    split at h
    · cases h
    rename_i h1
    split at h
    · cases h
    rename_i st hst
    split at h
    · cases h
    rename_i h2
    split at h
    · rename_i hend
      obtain rfl := Option.some.inj h
      simp [handle, onContinuation, if_neg h1, hst, if_neg h2, hend]
    · cases h
  · cases h

theorem hpackDec_finishing (h : sc.finishing e = some p) :
    p.1.hpackDec = sc.hpackDec := by
  have h' := finishing_withDec sc sc.hpackDec e
  rw [show sc.withDec sc.hpackDec = sc from rfl, h, map_some, Option.some.injEq] at h'
  rw [h']
  rfl

/-- A connection keeps its decoder over the callbacks that leave it alone. -/
theorem hpackDec_handle (hfin : sc.finishing e = none) (hset : ∀ payload ack, e ≠ .settings payload ack) :
    (sc.handle e).1.hpackDec = sc.hpackDec := by
  have h := congrArg (fun r => r.1.hpackDec) (handle_withDec sc sc.hpackDec hfin hset)
  exact h

/-- Two connections with different decoders end a block alike if the decoders read it alike. -/
theorem endHeaderBlock_withDec {hp : HPACK} {st : ServerStream}
    (h : (headerFields st.headerBlock.length sc.hpackDec.beginHeaderBlock st false st.headerBlock).2 =
      (headerFields st.headerBlock.length hp.beginHeaderBlock st false st.headerBlock).2) :
    (sc.withDec hp).endHeaderBlock st =
        withDecs (headerFields st.headerBlock.length hp.beginHeaderBlock st false st.headerBlock).1
          (sc.endHeaderBlock st) ∧
      (sc.endHeaderBlock st).1.hpackDec =
        (headerFields st.headerBlock.length sc.hpackDec.beginHeaderBlock st false st.headerBlock).1 ∧
      ((sc.withDec hp).finishHeaderBlock st).2 = (sc.finishHeaderBlock st).2 := by
  simp only [endHeaderBlock, finishHeaderBlock]
  rw [show (sc.withDec hp).hpackDec = hp from rfl]
  generalize headerFields st.headerBlock.length sc.hpackDec.beginHeaderBlock st false st.headerBlock = r at h ⊢
  generalize headerFields st.headerBlock.length hp.beginHeaderBlock st false st.headerBlock = r' at h ⊢
  obtain ⟨hp1, st1, err⟩ := r
  obtain ⟨hp1', r'⟩ := r'
  obtain rfl : (st1, err) = r' := h
  cases err with
  | some e => cases e <;> exact ⟨rfl, rfl, rfl⟩
  | none =>
    have hconn : (sc.withDec hp).enableConnectProtocol = sc.enableConnectProtocol := rfl
    simp only [putStream, hconn]
    cases requestError st1 sc.enableConnectProtocol with
    | some e => cases e <;> exact ⟨rfl, rfl, rfl⟩
    | none => cases st1.endStream || st1.isExtConnect <;> exact ⟨rfl, rfl, rfl⟩

theorem act_withDec (sc : ServerConn) (hp : HPACK) (i : Nat) (d : Dispatch) (a : Act) :
    (sc.withDec hp).act i d a = (sc.act i d a).map (withDecs hp) := by
  cases a with
  | respond res =>
    simp only [act, apply_ite (Option.map (withDecs hp))]
    refine ite_congr rfl (fun _ => rfl) fun _ => ?_
    cases d.isTunnel <;> rfl
  | _ =>
    simp only [act, apply_ite (Option.map (withDecs hp))]
    rfl

theorem hpackDec_act {i : Nat} {d : Dispatch} {a : Act} {r : ServerConn × List Out} (h : sc.act i d a = some r) :
    r.1.hpackDec = sc.hpackDec := by
  have h' := act_withDec sc sc.hpackDec i d a
  rw [show sc.withDec sc.hpackDec = sc from rfl, h, map_some, Option.some.injEq] at h'
  rw [h']
  rfl

end ServerConn

/-! ## Settings that differ -/

/-- Two payloads of a SETTINGS frame that differ in the values of `SETTINGS_HEADER_TABLE_SIZE` only. -/
inductive TableSizesVary : List UInt8 → List UInt8 → Prop
  | rest (p : List UInt8) : p.length < 6 → TableSizesVary p p
  | other (a b c d e f : UInt8) {p p' : List UInt8} : TableSizesVary p p' →
    TableSizesVary (a :: b :: c :: d :: e :: f :: p) (a :: b :: c :: d :: e :: f :: p')
  | tableSize (c d e f c' d' e' f' : UInt8) {p p' : List UInt8} : TableSizesVary p p' →
    TableSizesVary (0 :: 1 :: c :: d :: e :: f :: p) (0 :: 1 :: c' :: d' :: e' :: f' :: p')

theorem tableSizesVary_refl : ∀ p : List UInt8, TableSizesVary p p
  | [] => .rest _ (by decide)
  | [_] => .rest _ (by simp)
  | [_, _] => .rest _ (by simp)
  | [_, _, _] => .rest _ (by simp)
  | [_, _, _, _] => .rest _ (by simp)
  | [_, _, _, _, _] => .rest _ (by simp)
  | a :: b :: c :: d :: e :: f :: p => .other a b c d e f (tableSizesVary_refl p)

variable {p p' : List UInt8}

theorem TableSizesVary.length_eq (h : TableSizesVary p p') : p.length = p'.length := by
  induction h with
  | rest => rfl
  | other _ _ _ _ _ _ _ ih => simp [ih]
  | tableSize _ _ _ _ _ _ _ _ _ ih => simp [ih]

/-- Two steps that are the same, or take in such SETTINGS frames. -/
inductive Label.Varies : Label → Label → Prop
  | same (l : Label) : Label.Varies l l
  | settings (f f' : Frame) : f.type = 0x04 → f'.type = 0x04 → f.flags = f'.flags → f.streamID = f'.streamID →
    TableSizesVary f.payload f'.payload → Label.Varies (.recv f) (.recv f')

/-- The limit of the decoder, and the capacity it starts with. -/
def decoderLimit : Nat := 4096

/-- The second connection is the first one with another decoder of the same history. -/
def Beside (sc sc' : ServerConn) : Prop := ∃ hp, sc' = sc.withDec hp ∧ HPACK.Twin decoderLimit sc.hpackDec hp

structure Together {α : Type} (r r' : ServerConn × α) : Prop where
  beside : Beside r.1 r'.1
  same : r.2 = r'.2

variable {sc sc' : ServerConn}

theorem Together.close (h : Beside sc sc') (code : ErrorCode) :
    Together (sc.closeWithGoAway code) (sc'.closeWithGoAway code) := by
  obtain ⟨hp, rfl, htwin⟩ := h
  exact ⟨⟨hp, rfl, htwin⟩, rfl⟩

theorem Together.ite {α : Type} {c : Prop} [Decidable c] {a a' b b' : ServerConn × α} (ht : Together a a')
    (he : Together b b') : Together (if c then a else b) (if c then a' else b') := by
  split
  · exact ht
  · exact he

theorem together_applySetting (h : Beside sc sc') (id val : Nat) :
    Together (sc.applySetting id val) (sc'.applySetting id val) := by
  obtain ⟨hp, rfl, htwin⟩ := h
  have hkeep : ∀ sc1 : ServerConn, ∀ e : Option ErrorCode, sc1.hpackDec = sc.hpackDec →
      Together (sc1, e) (sc1.withDec hp, e) := fun sc1 e heq => ⟨⟨hp, rfl, heq ▸ htwin⟩, rfl⟩
  unfold applySetting
  refine .ite ⟨⟨hp.setMaxTableSize val, rfl, htwin.setMaxTableSize val val⟩, rfl⟩ ?_
  refine .ite (hkeep sc _ rfl) (.ite (.ite (hkeep sc _ rfl) ?_) (.ite (.ite (hkeep sc _ rfl) ?_) (hkeep sc _ rfl)))
  · exact hkeep _ _ rfl
  · exact hkeep _ _ rfl

theorem applySettings_tableSize (sc : ServerConn) (c d e f : UInt8) (rest : List UInt8) :
    sc.applySettings (0 :: 1 :: c :: d :: e :: f :: rest) =
      (sc.withDec (sc.hpackDec.setMaxTableSize (beNat [c, d, e, f]))).applySettings rest := by
  have hid : beNat [0, 1] = 1 := by decide
  have hone : ∀ val, sc.applySetting 1 val = (sc.withDec (sc.hpackDec.setMaxTableSize val), none) :=
    fun val => if_pos rfl
  rw [applySettings, hid, hone]

theorem together_applySettings (hvary : TableSizesVary p p')
    (h : Beside sc sc') : Together (sc.applySettings p) (sc'.applySettings p') := by
  induction hvary generalizing sc sc' with
  | rest p hp =>
    have hnone : ∀ sc1 : ServerConn, sc1.applySettings p = (sc1, none) := by
      intro sc1
      unfold applySettings
      split
      · simp only [List.length_cons] at hp
        omega
      · rfl
    rw [hnone, hnone]
    exact ⟨h, rfl⟩
  | other a b c d e f _ ih =>
    have hone := together_applySetting h (beNat [a, b]) (beNat [c, d, e, f])
    rw [applySettings, applySettings]
    generalize sc.applySetting (beNat [a, b]) (beNat [c, d, e, f]) = r at hone ⊢
    generalize sc'.applySetting (beNat [a, b]) (beNat [c, d, e, f]) = r' at hone ⊢
    obtain ⟨sc1, err⟩ := r
    obtain ⟨sc1', err'⟩ := r'
    obtain ⟨hbeside, rfl⟩ := hone
    cases err with
    | some code => exact ⟨hbeside, rfl⟩
    | none => exact ih hbeside
  | tableSize c d e f c' d' e' f' _ ih =>
    obtain ⟨hp, rfl, htwin⟩ := h
    rw [applySettings_tableSize, applySettings_tableSize]
    refine ih ⟨hp.setMaxTableSize (beNat [c', d', e', f']), ?_, htwin.setMaxTableSize _ _⟩
    rw [withDec_withDec, withDec_withDec]
    rfl

theorem together_onSettings (hvary : TableSizesVary p p')
    (h : Beside sc sc') (ack : Bool) : Together (sc.onSettings p ack) (sc'.onSettings p' ack) := by
  have hcont : sc'.continuationStream = sc.continuationStream := by
    obtain ⟨hp, rfl, -⟩ := h
    rfl
  have hset := together_applySettings hvary h
  unfold onSettings
  rw [← hvary.length_eq, hcont]
  refine .ite (.close h _) (.ite (.ite (.close h _) ⟨h, rfl⟩) (.ite (.close h _) ?_))
  generalize sc.applySettings p = r at hset ⊢
  generalize sc'.applySettings p' = r' at hset ⊢
  obtain ⟨sc1, e⟩ := r
  obtain ⟨sc1', e'⟩ := r'
  obtain ⟨hbeside, rfl⟩ := hset
  cases e with
  | some code => exact .close hbeside code
  | none => exact ⟨hbeside, rfl⟩

/-! ## Two runs -/

/-- The decoders of two connections side by side read the block that a step ends. -/
theorem readsBlock_finishing {hp : HPACK} (h : HPACK.Twin decoderLimit sc.hpackDec hp) {l : Label}
    {p : ServerConn × ServerStream} (hfin : finishing sc l = some p)
    (hwithin : atBlock (fun _ _ => HPACK.withinLimit decoderLimit) sc sc l = true) :
    ReadsBlock decoderLimit
      (ServerConn.decodedFields p.2.headerBlock.length sc.hpackDec.beginHeaderBlock p.2 false p.2.headerBlock)
      (ServerConn.decodedFields p.2.headerBlock.length hp.beginHeaderBlock p.2 false p.2.headerBlock)
      (ServerConn.headerFields p.2.headerBlock.length sc.hpackDec.beginHeaderBlock p.2 false p.2.headerBlock)
      (ServerConn.headerFields p.2.headerBlock.length hp.beginHeaderBlock p.2 false p.2.headerBlock)
      (atBlock HPACK.heldAlike sc (sc.withDec hp) l) := by
  simp only [atBlock, hfin] at hwithin ⊢
  exact readsBlock_fields (h.allow true) hwithin

theorem hpackDec_finishing {l : Label} {p : ServerConn × ServerStream}
    (h : finishing sc l = some p) : p.1.hpackDec = sc.hpackDec := by
  cases l with
  | recv f =>
    obtain ⟨e, -, he⟩ := bind_eq_some_iff.1 h
    exact ServerConn.hpackDec_finishing he
  | act i a => cases h
  | close => cases h

theorem finishing_varies (hp : HPACK) {l l' : Label} (hvary : l.Varies l') :
    finishing (sc.withDec hp) l' = (finishing sc l).map fun p => (p.1.withDec hp, p.2) := by
  cases hvary with
  | same l =>
    cases l with
    | recv f =>
      simp only [finishing]
      cases f.event with
      | none => rfl
      | some e => exact finishing_withDec sc hp e
    | act i a => rfl
    | close => rfl
  | settings f f' htype htype' =>
    simp only [finishing, Frame.event_settings htype, Frame.event_settings htype']
    rfl

theorem headerList_eq_iff (h : Beside sc sc') {l l' : Label} (hvary : l.Varies l')
    (hwithin : atBlock (fun _ _ => HPACK.withinLimit decoderLimit) sc sc l = true) :
    headerList sc l = headerList sc' l' ↔ atBlock HPACK.heldAlike sc sc' l = true := by
  obtain ⟨hp, rfl, htwin⟩ := h
  rw [headerList, headerList, finishing_varies hp hvary]
  cases hfin : finishing sc l with
  | none => simp [atBlock, hfin]
  | some p =>
    have hreads := readsBlock_finishing htwin hfin hwithin
    have hdec := hpackDec_finishing hfin
    simp only [map_some, Option.some.injEq, Prod.mk.injEq, hdec]
    refine ⟨fun hall => hreads.fields.1 hall.1, fun hheld => ⟨hreads.fields.2 hheld, ?_⟩⟩
    have hsame := hreads.same hheld
    rw [← hdec] at hsame
    exact (endHeaderBlock_withDec hsame).2.2.symm

theorem stepsTogether (h : Beside sc sc') {l l' : Label} (hvary : l.Varies l')
    (hwithin : atBlock (fun _ _ => HPACK.withinLimit decoderLimit) sc sc l = true)
    (hheld : atBlock HPACK.heldAlike sc sc' l = true) : StepsTogether step Beside sc sc' l l' := by
  cases hvary with
  | settings f f' htype htype' hflags _ hpay =>
    have hset := together_onSettings hpay h f.isAck
    refine .inr ⟨_, _, _, _, rfl, rfl, ?_⟩
    rw [Frame.event_settings htype, Frame.event_settings htype', ← show f.isAck = f'.isAck by rw [Frame.isAck, Frame.has, hflags]; rfl]
    exact hset.beside
  | same l =>
    obtain ⟨hp, rfl, htwin⟩ := h
    cases l with
    | recv f =>
      refine .inr ⟨_, _, _, _, rfl, rfl, ?_⟩
      cases hev : f.event with
      | none => exact ⟨hp, rfl, htwin⟩
      | some e =>
        change Beside (sc.handle e).1 ((sc.withDec hp).handle e).1
        by_cases hset : ∃ payload ack, e = .settings payload ack
        · obtain ⟨payload, ack, rfl⟩ := hset
          exact (together_onSettings (tableSizesVary_refl payload) ⟨hp, rfl, htwin⟩ ack).beside
        · cases hfin : sc.finishing e with
          | none =>
            have hkeep : ∀ payload ack, e ≠ .settings payload ack := fun payload ack he => hset ⟨payload, ack, he⟩
            rw [handle_withDec sc hp hfin hkeep]
            exact ⟨hp, rfl, by rw [hpackDec_handle hfin hkeep]; exact htwin⟩
          | some p =>
            have hlabel : finishing sc (.recv f) = some p := by rw [finishing, hev]; exact hfin
            have hreads := readsBlock_finishing htwin hlabel hwithin
            have hsame := hreads.same hheld
            have htwin' := hreads.twin hheld
            rw [← hpackDec_finishing hlabel] at hsame htwin'
            obtain ⟨hend, hdec, -⟩ := endHeaderBlock_withDec hsame
            have hfin' : (sc.withDec hp).finishing e = some (p.1.withDec hp, p.2) := by
              rw [finishing_withDec, hfin, map_some]
            rw [handle_finishing hfin, handle_finishing hfin', hend]
            exact ⟨_, rfl, hdec ▸ htwin'⟩
    | act i a =>
      have hrun : (sc.withDec hp).running = sc.running := rfl
      simp only [StepsTogether, step, hrun]
      cases sc.running[i]? with
      | none => exact .inl ⟨rfl, rfl⟩
      | some d =>
        simp only [act_withDec]
        cases hact : sc.act i d a with
        | none => exact .inl ⟨rfl, rfl⟩
        | some r => exact .inr ⟨_, _, _, _, rfl, rfl, hp, rfl, hpackDec_act hact ▸ htwin⟩
    | close => exact .inr ⟨_, _, _, _, rfl, rfl, hp, rfl, htwin⟩

/-! ## The encoder's table -/

namespace ServerConn

variable {sc : ServerConn}

/-- Response fields are encoded without being stored. -/
theorem dynamic_appendHeaderField (p : HPACK × List UInt8) (k v : List UInt8) :
    (appendHeaderField p k v).1.dynamic = p.1.dynamic := by
  have hupdate : ∀ (hp : HPACK) (dst : List UInt8), (hp.appendSizeUpdate dst).1.dynamic = hp.dynamic := by
    intro hp dst
    unfold HPACK.appendSizeUpdate
    split <;> rfl
  have hfield : ∀ (hp : HPACK) (dst : List UInt8) (hf : HeaderField),
      (hp.appendField dst hf false).1.dynamic = hp.dynamic := by
    intro hp dst hf
    simp only [HPACK.appendField, true_or, if_true]
    split
    · rfl
    · split <;> rfl
  exact (hfield _ _ _).trans (hupdate _ _)

theorem dynamic_foldl {α : Type} {f : HPACK × List UInt8 → α → HPACK × List UInt8}
    (hf : ∀ p x, (f p x).1.dynamic = p.1.dynamic) (l : List α) (p : HPACK × List UInt8) :
    (l.foldl f p).1.dynamic = p.1.dynamic := by
  induction l generalizing p with
  | nil => rfl
  | cons x l ih => exact (ih (f p x)).trans (hf p x)

theorem dynamic_serializeResponseHeaders (hp : HPACK) (statusCode : Nat)
    (headers : List (List UInt8 × List (List UInt8))) (bodyLen : Option Nat) :
    (serializeResponseHeaders hp statusCode headers bodyLen).1.dynamic = hp.dynamic := by
  unfold serializeResponseHeaders
  refine (dynamic_foldl ?_ headers _).trans ?_
  · intro p h
    dsimp only
    split
    · rfl
    · exact dynamic_foldl (fun p v => dynamic_appendHeaderField p _ v) h.2 p
  · cases bodyLen with
    | none => exact dynamic_appendHeaderField _ _ _
    | some n => exact (dynamic_appendHeaderField _ _ _).trans (dynamic_appendHeaderField _ _ _)

theorem dynamic_act {i : Nat} {d : Dispatch} {a : Act} {r : ServerConn × List Out} (h : sc.act i d a = some r) :
    r.1.hpackEnc.dynamic = sc.hpackEnc.dynamic := by
  obtain ⟨sc', out⟩ := r
  cases acted_act h with
  | @upgrade statusCode headers _ _ hsc =>
    subst hsc
    exact dynamic_serializeResponseHeaders _ statusCode headers none
  | respond res _ hres =>
    rcases hres with rfl | rfl
    · rfl
    · exact dynamic_serializeResponseHeaders _ res.statusCode res.headers (some res.body.length)
  | _ => rfl

end ServerConn

theorem dynamic_step {l : Label} {o : List Obs} (h : step sc l = some (sc', o)) :
    sc'.hpackEnc.dynamic = sc.hpackEnc.dynamic := by
  cases l with
  | recv f =>
    obtain rfl := (Prod.mk.inj (Option.some.inj h)).1
    cases f.event with
    | none => rfl
    | some e => exact congrArg HPACK.dynamic (sc.replied_handle e).hpackEnc
  | act i a =>
    simp only [step] at h
    split at h
    · cases h
    obtain ⟨r, hr, heq⟩ := map_eq_some_iff.1 h
    obtain rfl := (Prod.mk.inj heq).1
    exact dynamic_act hr
  | close =>
    obtain rfl := (Prod.mk.inj (Option.some.inj h)).1
    rfl

/-- The encoder's table is empty in every state, so it is within every bound. -/
theorem dynamic_hpackEnc (b : Bool) (ls : List Label) :
    Always step (fun sc _ => sc.hpackEnc.dynamic = []) (newServerConn b) ls := by
  intro pre sc tr _ hr
  refine run_keeps (fun sc _ => sc.hpackEnc.dynamic = []) ?_ rfl hr
  intro sc tr l sc' o hinv hstep
  rw [dynamic_step hstep, hinv]

/-! ## The theorem -/

/-- The size updates of the block that a step ends stay within the decoder's limit. -/
def ObeysLimit (sc : ServerConn) (l : Label) : Prop :=
  atBlock (fun _ _ => HPACK.withinLimit decoderLimit) sc sc l = true

instance (sc : ServerConn) (l : Label) : Decidable (ObeysLimit sc l) := inferInstanceAs (Decidable (_ = true))

/-- No field of the block that a step ends names an entry that one of the two decoders holds and the other does not. -/
def HeldAlike (sc sc' : ServerConn) (l : Label) : Prop := atBlock HPACK.heldAlike sc sc' l = true

instance (sc sc' : ServerConn) (l : Label) : Decidable (HeldAlike sc sc' l) := inferInstanceAs (Decidable (_ = true))

/-- In two runs that differ in the values of `SETTINGS_HEADER_TABLE_SIZE` only, and whose blocks stay within the limit
of the decoder, `finishHeaderBlock` gives the same header lists and the same verdicts exactly as long as no field names
an entry that one of the decoders holds and the other does not. The encoder's table is within any bound, being empty. -/
theorem header_lists_eq_iff (b : Bool) {ls ls' : List Label} (hvary : List.Forall₂ Label.Varies ls ls')
    (hlimit : Along step ObeysLimit (newServerConn b) ls) :
    (observe step headerList (newServerConn b) ls = observe step headerList (newServerConn b) ls' ↔
        Abreast step HeldAlike (newServerConn b) (newServerConn b) ls ls') ∧
      Always step (fun sc _ => sc.hpackEnc.dynamic = []) (newServerConn b) ls := by
  refine ⟨observe_eq_iff Beside Label.Varies (fun _ _ _ _ h hv hw => headerList_eq_iff h hv hw)
    (fun _ _ _ _ h hv hw hheld => stepsTogether h hv hw hheld) ?_ ?_ hvary hlimit, dynamic_hpackEnc b ls⟩
  · intro sc l hnone
    cases l with
    | recv f => cases hnone
    | act i a => rfl
    | close => rfl
  · exact ⟨{}, rfl, rfl, ⟨[], List.suffix_refl [], List.suffix_refl []⟩, Nat.le_refl _, Nat.le_refl _⟩

def tableSizeSettings (size : UInt8) : Frame where
  type := 4
  flags := 0
  streamID := 0
  payload := [0, 1, 0, 0, size, 0]
  length_lt := by simp

/-- Settings, a request that adds a field to the table, and one that names it. -/
def namingRun (size : UInt8) : List Label :=
  [.recv (tableSizeSettings size),
   .recv { type := 1, flags := 0x5, streamID := 1, payload := [0x82, 0x86, 0x84, 0x40, 1, 97, 1, 98] },
   .recv { type := 1, flags := 0x5, streamID := 3, payload := [0x82, 0x86, 0x84, 0xbe] }]

theorem namingRun_varies (size size' : UInt8) : List.Forall₂ Label.Varies (namingRun size) (namingRun size') :=
  .cons (.settings _ _ rfl rfl rfl rfl (.tableSize _ _ _ _ _ _ _ _ (.rest _ (by decide))))
    (.cons (.same _) (.cons (.same _) .nil))

/-- A smaller table that still holds the field. -/
theorem header_lists_eq_small :
    observe step headerList (newServerConn true) (namingRun 16) =
      observe step headerList (newServerConn true) (namingRun 1) :=
  (header_lists_eq_iff true (namingRun_varies 16 1) (by decide +kernel)).1.2 (by decide +kernel)

/-- With no table, the field that the first request added is gone: the second request is refused. -/
theorem header_lists_differ :
    List.Forall₂ Label.Varies (namingRun 16) (namingRun 0) ∧
      Along step ObeysLimit (newServerConn true) (namingRun 16) ∧
      Along step ObeysLimit (newServerConn true) (namingRun 0) ∧
      (observe step headerList (newServerConn true) (namingRun 16)).map (Option.map Prod.snd) =
        [none, some none, some none] ∧
      (observe step headerList (newServerConn true) (namingRun 0)).map (Option.map Prod.snd) =
        [none, some none, some (some .compressionError)] :=
  ⟨namingRun_varies 16 0, by decide +kernel, by decide +kernel, by decide +kernel, by decide +kernel⟩

end Mach.H2.Server
