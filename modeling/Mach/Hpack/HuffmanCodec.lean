import Mach.Hpack.HuffmanTree
/-!
# The Huffman codec is exact and canonical

The encoder's shift register holds the bits that do not make a byte yet; the
decoder's holds those not yet decoded, and its node the bytes of the code it is
in. Between two bytes both say the same: what was written, or read, followed by
the register, is a concatenation of codes.
-/

namespace Mach.Hpack

open Lib List

/-! ## Encoding -/

-- The lemmas below share these equations.
attribute [local simp] encodeLoop in
theorem emitBytes_spec (code length : Nat) (dst : List UInt8) :
    (emitBytes code length dst).1 < 8 ∧
      bytesBits (emitBytes code length dst).2 ++ bits (emitBytes code length dst).1 code
        = bytesBits dst ++ bits length code := by
  induction length using Nat.strong_induction_on generalizing dst with
  | _ length ih =>
    rw [emitBytes]
    split
    · rename_i h8
      obtain ⟨hlt, heq⟩ := ih (length - 8) (by omega) (dst ++ [byte (code >>> (length - 8))])
      refine ⟨hlt, ?_⟩
      rw [heq, bits_split h8 code]
      simp [byteBits_byte]
    · exact ⟨by dsimp only; omega, rfl⟩

theorem emitBytes_append (code length : Nat) (pre dst : List UInt8) :
    emitBytes code length (pre ++ dst) = ((emitBytes code length dst).1, pre ++ (emitBytes code length dst).2) := by
  induction length using Nat.strong_induction_on generalizing dst with
  | _ length ih =>
    rw [emitBytes, emitBytes.eq_def code length dst]
    split
    · rw [append_assoc, ih (length - 8) (by omega)]
    · rfl

variable (src : List UInt8)

/-- The loop appends the codes of `src` to the bits written and pending. -/
theorem encodeLoop_spec (code length : Nat) (dst : List UInt8) (hlen : length < 8) :
    (encodeLoop src code length dst).2.1 < 8 ∧
      bytesBits (encodeLoop src code length dst).2.2
          ++ bits (encodeLoop src code length dst).2.1 (encodeLoop src code length dst).1
        = bytesBits dst ++ bits length code ++ codesOf codeBits src := by
  induction src generalizing code length dst with
  | nil => exact ⟨hlen, by simp [encodeLoop]⟩
  | cons b src ih =>
    have hn := (sound_code b).2.1
    have hlength : (length + codeLenOf b) % 256 = length + codeLenOf b := Nat.mod_eq_of_lt (by omega)
    obtain ⟨hlt, hemit⟩ := emitBytes_spec ((code <<< codeLenOf b ||| codeOf b) % 2 ^ 64) (length + codeLenOf b) dst
    simp only [encodeLoop, hlength]
    refine ⟨(ih _ _ _ hlt).1, ?_⟩
    have hshift : bits (length + codeLenOf b) ((code <<< codeLenOf b ||| codeOf b) % 2 ^ 64)
        = bits length code ++ codeBits b := by
      rw [bits_mod (by omega), bits_shiftLeft_or (codeOf_lt b), codeBits]
    rw [(ih _ _ _ hlt).2, hemit, hshift]
    simp

theorem encodeLoop_append (code length : Nat) (pre dst : List UInt8) :
    encodeLoop src code length (pre ++ dst) =
      ((encodeLoop src code length dst).1, (encodeLoop src code length dst).2.1,
        pre ++ (encodeLoop src code length dst).2.2) := by
  induction src generalizing code length dst with
  | nil => rfl
  | cons b src ih => simp only [encodeLoop, emitBytes_append, ih]

theorem huffmanEncodeFallback_append (dst src : List UInt8) :
    huffmanEncodeFallback dst src = dst ++ huffmanEncodeFallback [] src := by
  have h := encodeLoop_append src 0 0 dst []
  rw [append_nil] at h
  simp only [huffmanEncodeFallback, h]
  split <;> simp

/-- What is written are the codes of `src`, filled up with less than a byte of one-bits. -/
theorem bytesBits_huffmanEncodeFallback :
    ∃ k < 8, bytesBits (huffmanEncodeFallback [] src) = codesOf codeBits src ++ List.replicate k true := by
  obtain ⟨hlt, heq⟩ := encodeLoop_spec src 0 0 [] (by decide)
  simp only [bytesBits_nil, nil_append, bits] at heq
  simp only [huffmanEncodeFallback]
  generalize encodeLoop src 0 0 [] = r at hlt heq ⊢
  obtain ⟨code, length, dst⟩ := r
  dsimp only at hlt heq ⊢
  split
  · refine ⟨8 - length, by omega, ?_⟩
    have hpad : bits 8 (code <<< (8 - length) ||| 2 ^ (8 - length) - 1)
        = bits length code ++ List.replicate (8 - length) true := by
      have h := bits_shiftLeft_or (Nat.sub_lt (Nat.two_pow_pos (8 - length)) Nat.one_pos) length code
      rwa [show length + (8 - length) = 8 by omega, bits_ones (Nat.le_refl _)] at h
    rw [bytesBits_append, bytesBits_cons, bytesBits_nil, append_nil, byteBits_byte, hpad, ← append_assoc, heq]
  · refine ⟨0, by decide, ?_⟩
    have hzero : length = 0 := by omega
    subst hzero
    simpa [bits] using heq

def codesLength (src : List UInt8) : Nat := (src.map codeLenOf).sum

theorem length_codesOf_codeBits : (codesOf codeBits src).length = codesLength src := by
  induction src with
  | nil => rfl
  | cons b src ih => simp [codesLength, ih]

theorem codesLength_le : codesLength src ≤ 30 * src.length := by
  induction src with
  | nil => exact Nat.le_refl 0
  | cons b src ih =>
    have hb := (sound_code b).2.1
    simp only [codesLength, map_cons, sum_cons, length_cons] at ih ⊢
    omega

theorem huffmanEncodeLength_mod : huffmanEncodeLength src = (codesLength src + 7) % 2 ^ 64 / 8 := by
  have hfold : ∀ (l : List UInt8) n, l.foldl (fun bits c => (bits + codeLenOf c) % 2 ^ 64) n % 2 ^ 64 =
      (n + codesLength l) % 2 ^ 64 := by
    intro l
    induction l with
    | nil => exact fun _ => rfl
    | cons b l ih =>
      intro n
      rw [foldl_cons, ih, codesLength, codesLength, map_cons, sum_cons]
      omega
  have h := hfold src 0
  rw [huffmanEncodeLength]
  omega

theorem length_huffmanEncodeFallback :
    (huffmanEncodeFallback [] src).length = (codesLength src + 7) / 8 := by
  obtain ⟨k, hk, heq⟩ := bytesBits_huffmanEncodeFallback src
  have hlen := congrArg List.length heq
  rw [length_append, length_bytesBits, length_codesOf_codeBits, length_replicate] at hlen
  omega

theorem codesLength_le_huffmanEncodeFallback :
    codesLength src ≤ 8 * (huffmanEncodeFallback [] src).length := by
  rw [length_huffmanEncodeFallback]
  omega

/-- The length that is announced is the length that is written. -/
theorem huffmanEncodeLength_eq {src : List UInt8} (h : src.length < 2 ^ 58) :
    huffmanEncodeLength src = (huffmanEncodeFallback [] src).length := by
  have hle := codesLength_le src
  rw [huffmanEncodeLength_mod, length_huffmanEncodeFallback, Nat.mod_eq_of_lt (by omega)]

/-! ## Decoding -/

def padded (src : List UInt8) (pad : Nat) : List Bool := codesOf codeBits src ++ List.replicate pad true

@[simp] theorem length_padded (pad : Nat) : (padded src pad).length = codesLength src + pad := by
  simp [padded, length_codesOf_codeBits]

/-- What the decoder has read: the codes of the symbols that it wrote, the bytes of its node, which lie within a code,
and the bits of its register. -/
structure Decoded (dst : List UInt8) (read : List Bool) (s : DecodeState) : Prop where
  stream : ∃ out, s.dst = dst ++ out ∧ read = codesOf codeBits out ++ (bytesBits s.currNode ++ bits s.cbits s.cum)
  since : s.sbits = 8 * s.currNode.length + s.cbits
  inside : ∃ c, bytesBits s.currNode <+: codeBits c ∧ 8 * s.currNode.length < codeLenOf c

namespace Decoded

variable {dst : List UInt8} {read unread : List Bool} {s : DecodeState} {src : List UInt8} {pad : Nat}

theorem inside_root : ∃ c, bytesBits [] <+: codeBits c ∧ 8 * ([] : List UInt8).length < codeLenOf c :=
  ⟨0, nil_prefix, by decide⟩

section Invariant

variable (h : Decoded dst read s)
include h

theorem node_lt {c : UInt8} {l : List Bool} (hc : codeBits c <+: bytesBits s.currNode ++ l) :
    8 * s.currNode.length < codeLenOf c := by
  obtain ⟨c', hnode, hlt⟩ := h.inside
  by_contra hle
  have hpre : codeBits c <+: bytesBits s.currNode :=
    prefix_of_prefix_length_le hc (prefix_append _ _) (by simpa using hle)
  obtain rfl := prefixFree_codeBits _ _ (hpre.trans hnode)
  exact hle hlt

theorem not_prefix (hzero : s.cbits = 0) {c : UInt8} :
    ¬ codeBits c <+: bytesBits s.currNode ++ bits s.cbits s.cum := by
  intro hc
  have hlt := h.node_lt hc
  have hlen := hc.length_le
  simp at hlen
  omega

theorem leaf {c : UInt8} (hpre : codeBits c <+: bytesBits s.currNode ++ bits s.cbits s.cum)
    {n : Nat} (hn : n = codeLenOf c - 8 * s.currNode.length) {cum : Nat}
    (hcum : bits (s.cbits - n) cum = bits (s.cbits - n) s.cum) :
    Decoded dst read { cum, cbits := s.cbits - n, sbits := s.cbits - n, currNode := [], dst := s.dst ++ [c] } := by
  have hlt := h.node_lt hpre
  obtain ⟨out, hdst, hread⟩ := h.stream
  obtain ⟨rest, hrest⟩ := hpre
  have hlen := congrArg List.length hrest
  simp only [length_append, length_codeBits, length_bytesBits, length_bits] at hlen
  refine ⟨⟨out ++ [c], by simp [hdst], ?_⟩, by simp, inside_root⟩
  rw [hread, bits_split (show n ≤ s.cbits by omega) s.cum, ← append_assoc] at *
  obtain ⟨hcode, htail⟩ := append_inj hrest (by simp; omega)
  simp [hcode, hcum]

/-- The symbols written begin the text, and its other codes are still to be decoded. -/
theorem rest (hread : read ++ unread = padded src pad) : ∃ todo, dst ++ src = s.dst ++ todo ∧
    bytesBits s.currNode ++ (bits s.cbits s.cum ++ unread) = padded todo pad := by
  obtain ⟨out, hdst, heq⟩ := h.stream
  rw [heq, append_assoc, append_assoc] at hread
  obtain ⟨todo, rfl, htodo⟩ := prefixFree_codeBits.rest_of_append notOnes_codeBits hread
  exact ⟨todo, by rw [hdst, append_assoc], htodo⟩

theorem entry_ne_empty (h8 : 8 ≤ s.cbits) (hpad : pad < 8)
    (hread : read ++ unread = padded src pad) :
    flatHuffmanTable.entry s.currNode (byte (s.cum >>> (s.cbits - 8))) ≠ .empty := by
  obtain ⟨todo, -, htodo⟩ := h.rest hread
  cases todo with
  | nil =>
    have hlen := congrArg List.length htodo
    simp [codesLength] at hlen
    omega
  | cons c rest =>
    -- the next code and the bytes read begin the same string
    have hcode : codeBits c <+: bytesBits s.currNode ++ (bits s.cbits s.cum ++ unread) := by
      rw [htodo, padded, codesOf_cons, append_assoc]
      exact prefix_append _ _
    have hbytes : bytesBits (s.currNode ++ [byte (s.cum >>> (s.cbits - 8))]) <+:
        bytesBits s.currNode ++ (bits s.cbits s.cum ++ unread) := by
      rw [bits_split h8 s.cum]
      simp [byteBits_byte]
    by_cases hlong : 8 * s.currNode.length + 8 < codeLenOf c
    · rw [flatHuffmanTable_next
        ⟨prefix_of_prefix_length_le hbytes hcode (by simp; omega), by simpa using hlong⟩]
      nofun
    · rw [flatHuffmanTable_leaf
        ⟨prefix_of_prefix_length_le hcode hbytes (by simp; omega), by simpa using h.node_lt hcode⟩]
      nofun

end Invariant

/-- The inner loop stops with less than a byte pending, or at bits that no text has. -/
theorem decodeBytes {fuel : Nat} (hfuel : s.cbits ≤ fuel) (h : Decoded dst read s) :
    (∃ s', Hpack.decodeBytes fuel s = .ok s' ∧ s'.cbits < 8 ∧ Decoded dst read s') ∨
    ∃ e, Hpack.decodeBytes fuel s = .error e ∧ ∀ unread src pad, pad < 8 → read ++ unread ≠ padded src pad := by
  induction fuel generalizing s with
  | zero => exact .inl ⟨s, rfl, by omega, h⟩
  | succ fuel ih =>
    rw [Hpack.decodeBytes]
    split
    · exact .inl ⟨s, rfl, ‹_›, h⟩
    rename_i h8
    have hsplit := bits_split (Nat.not_lt.1 h8) s.cum
    dsimp only
    split
    · rename_i sym codeLen hleaf
      obtain ⟨hends, rfl⟩ := ends_of_flatHuffmanTable_leaf hleaf
      have hlt := hends.2
      rw [length_codeBits] at hlt
      refine ih (by dsimp only; omega) (h.leaf ?_ rfl rfl)
      rw [hsplit, ← byteBits_byte, ← append_assoc]
      exact hends.1.trans (by simp)
    · rename_i hnext
      obtain ⟨c, hp⟩ := passes_of_flatHuffmanTable_next hnext
      obtain ⟨out, hdst, hread⟩ := h.stream
      have hsince := h.since
      refine ih (by dsimp only; omega) ⟨⟨out, hdst, ?_⟩, ?_, c, hp.1, by simpa [Nat.mul_add] using hp.2⟩
      · rw [hread, hsplit]
        simp [byteBits_byte]
      · simp
        omega
    · rename_i hempty
      split
      · rename_i hroot
        rw [hroot] at hempty
        exact absurd hempty (flatHuffmanTable_root _)
      · exact .inr ⟨_, rfl, fun _ _ _ hpad hread => h.entry_ne_empty (Nat.not_lt.1 h8) hpad hread hempty⟩

theorem decodeLoop (hlt : s.cbits < 8) (h : Decoded dst read s) :
    (∃ s', Hpack.decodeLoop src s = .ok s' ∧ s'.cbits < 8 ∧ Decoded dst (read ++ bytesBits src) s') ∨
    ∃ e, Hpack.decodeLoop src s = .error e ∧ ∀ txt pad, pad < 8 → read ++ bytesBits src ≠ padded txt pad := by
  induction src generalizing s read with
  | nil => exact .inl ⟨s, rfl, hlt, by simpa using h⟩
  | cons b src ih =>
    have hshift : Decoded dst (read ++ byteBits b)
        { s with cum := (s.cum <<< 8 ||| b.toNat) % 2 ^ 32, cbits := s.cbits + 8, sbits := (s.sbits + 8) % 256 } := by
      obtain ⟨out, hdst, hread⟩ := h.stream
      obtain ⟨c, -, hin⟩ := h.inside
      have hsince := h.since
      have hmax := (sound_code c).2.1
      refine ⟨⟨out, hdst, ?_⟩, ?_, h.inside⟩
      · dsimp only
        rw [bits_mod (by omega), bits_shiftLeft_or b.toNat_lt, hread, byteBits]
        simp
      · dsimp only
        omega
    rw [bytesBits_cons, ← append_assoc, Hpack.decodeLoop]
    obtain ⟨s1, hrun, hlt1, h1⟩ | ⟨e, hrun, hno⟩ := hshift.decodeBytes (Nat.le_refl _)
    · rw [hrun]
      exact ih hlt1 h1
    · rw [hrun]
      exact .inr ⟨e, rfl, hno _⟩

theorem bytesBits_tail (hlt : s.cbits < 8) : bytesBits (s.currNode ++ [byte (s.cum <<< (8 - s.cbits))]) =
    bytesBits s.currNode ++ bits s.cbits s.cum ++ List.replicate (8 - s.cbits) false := by
  have h := bits_shiftLeft s.cbits (8 - s.cbits) s.cum
  rw [Nat.add_sub_of_le hlt.le] at h
  simp [byteBits_byte, h]

/-- The last loop stops where no code begins. -/
theorem decodeTail (h : Decoded dst read s) {fuel : Nat} (hfuel : s.cbits ≤ fuel) (hlt : s.cbits < 8)
    (hcum : s.cum < 2 ^ s.cbits) : ∃ t, Hpack.decodeTail fuel s = t ∧ t.cum < 2 ^ t.cbits ∧ Decoded dst read t ∧
      ∀ c, ¬ codeBits c <+: bytesBits t.currNode ++ bits t.cbits t.cum := by
  induction fuel generalizing s with
  | zero => exact ⟨s, rfl, hcum, h, fun c hc => h.not_prefix (by omega) hc⟩
  | succ fuel ih =>
    rw [Hpack.decodeTail]
    split
    · exact ⟨s, rfl, hcum, h, fun c hc => h.not_prefix ‹_› hc⟩
    split
    · rename_i sym codeLen hleaf
      obtain ⟨hends, rfl⟩ := ends_of_flatHuffmanTable_leaf hleaf
      obtain ⟨hpre, hnode⟩ := hends
      rw [bytesBits_tail hlt] at hpre
      rw [length_codeBits] at hnode
      split
      · refine ⟨s, rfl, hcum, h, fun c hc => ?_⟩
        obtain rfl := prefixFree_codeBits.eq_of_prefix (hc.trans (prefix_append _ _)) hpre
        have hlen := hc.length_le
        simp at hlen
        omega
      · refine ih (h.leaf ?_ rfl (bits_mod (Nat.le_refl _) _)) (by dsimp only; omega) (by dsimp only; omega)
          (Nat.mod_lt _ (Nat.two_pow_pos _))
        refine prefix_of_prefix_length_le hpre (prefix_append _ _) ?_
        simp
        omega
    · rename_i hno
      refine ⟨s, rfl, hcum, h, fun c hc => hno c _ (flatHuffmanTable_leaf ⟨?_, by simpa using h.node_lt hc⟩)⟩
      rw [bytesBits_tail hlt]
      exact hc.trans (prefix_append _ _)

end Decoded

/-- The decoder fails on what no text has, and otherwise ends with bits where no code begins. -/
theorem appendHuffmanDecodeFallback_cases (dst src : List UInt8) :
    (∃ e, appendHuffmanDecodeFallback dst src = .error e ∧ ∀ txt pad, pad < 8 → bytesBits src ≠ padded txt pad) ∨
    ∃ t, Decoded dst (bytesBits src) t ∧ t.cum < 2 ^ t.cbits ∧
      (∀ c, ¬ codeBits c <+: bytesBits t.currNode ++ bits t.cbits t.cum) ∧
      appendHuffmanDecodeFallback dst src =
        if t.sbits ≤ 7 ∧ t.cum = 2 ^ t.cbits - 1 then .ok t.dst else .error .invalidHuffman := by
  have hstart : Decoded dst [] { dst } := ⟨⟨[], by simp, by simp [bits]⟩, rfl, Decoded.inside_root⟩
  rw [appendHuffmanDecodeFallback]
  obtain ⟨s, hrun, hlt, hdec⟩ | ⟨e, hrun, hno⟩ := @Decoded.decodeLoop _ _ _ src (Nat.succ_pos 7) hstart
  · have hmod : Decoded dst (bytesBits src) { s with cum := s.cum % 2 ^ s.cbits } :=
      ⟨by simpa [bits_mod (Nat.le_refl _)] using hdec.stream, hdec.since, hdec.inside⟩
    obtain ⟨t, ht, hcum, hdec, hstop⟩ := hmod.decodeTail (Nat.le_refl s.cbits) hlt (Nat.mod_lt _ (Nat.two_pow_pos _))
    refine .inr ⟨t, hdec, hcum, hstop, ?_⟩
    rw [hrun]
    dsimp only at ht ⊢
    rw [ht, Nat.and_two_pow_sub_one_eq_mod, Nat.mod_eq_of_lt hcum]
    grind
  · exact .inl ⟨e, by rw [hrun], hno⟩

theorem decode_huffmanEncodeFallback (dst src : List UInt8) :
    appendHuffmanDecodeFallback dst (huffmanEncodeFallback [] src) = .ok (dst ++ src) := by
  obtain ⟨pad, hpad, hbits⟩ := bytesBits_huffmanEncodeFallback src
  obtain ⟨e, -, hno⟩ | ⟨t, hdec, hcum, hstop, heq⟩ := appendHuffmanDecodeFallback_cases dst (huffmanEncodeFallback [] src)
  · exact absurd hbits (hno _ _ hpad)
  obtain ⟨todo, hout, htodo⟩ := hdec.rest ((append_nil _).trans hbits)
  rw [append_nil] at htodo
  cases todo with
  | cons c rest =>
    refine absurd ?_ (hstop c)
    rw [htodo, padded, codesOf_cons, append_assoc]
    exact prefix_append _ _
  | nil =>
    -- only the padding is left
    have hlen := congrArg List.length htodo
    simp [codesLength] at hlen
    have hroot : t.currNode = [] := length_eq_zero_iff.1 (by omega)
    obtain rfl : t.cbits = pad := by simpa [hroot] using hlen
    have hones : t.cum = 2 ^ t.cbits - 1 := by
      refine bits_inj hcum (Nat.sub_lt (Nat.two_pow_pos _) Nat.one_pos) ?_
      rw [bits_ones (Nat.le_refl _)]
      simpa [hroot, padded] using htodo
    have hsince := hdec.since
    rw [heq, if_pos ⟨by omega, hones⟩, hout, append_nil]

theorem encode_of_decode {dst src out : List UInt8} (h : appendHuffmanDecodeFallback dst src = .ok out) :
    ∃ s, src = huffmanEncodeFallback [] s := by
  obtain ⟨e, herr, -⟩ | ⟨t, hdec, hcum, -, heq⟩ := appendHuffmanDecodeFallback_cases dst src
  · cases herr.symm.trans h
  rw [heq] at h
  split at h
  · rename_i hend
    obtain ⟨syms, -, hread⟩ := hdec.stream
    have hsince := hdec.since
    have hroot : t.currNode = [] := length_eq_zero_iff.1 (by omega)
    rw [hroot, hend.2, bits_ones (Nat.le_refl _), bytesBits_nil, nil_append] at hread
    obtain ⟨k, hk, heq⟩ := bytesBits_huffmanEncodeFallback syms
    have hlen := congrArg List.length hread
    have hlen' := congrArg List.length heq
    simp only [length_append, length_bytesBits, length_replicate] at hlen hlen'
    obtain rfl : k = t.cbits := by omega
    exact ⟨syms, bytesBits_inj (hread.trans heq.symm)⟩
  · cases h

end Mach.Hpack
