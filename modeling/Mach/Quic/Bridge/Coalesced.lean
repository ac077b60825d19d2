import Mach.Lib.Run
import Mach.Quic.Bridge.CryptoOrder
import Mach.Quic.Bridge.Session
import Mach.Quic.Wire.PacketRoundTrip
import Mach.Quic.Wire.Total
/-!
# Packets that come before their keys

A datagram may hold several packets, and the keys for some of them may come late.
A packet without keys is put aside together with everything behind it in the
datagram, and when it is handled again only the first packet of what was put aside
is. So a packet that has to wait takes those behind it with it: every packet of a
datagram reaches its opener exactly if all but the last one can be handled at once.
-/

namespace Mach.Quic

open Lib Wire List

/-! ## Packets and calls -/

def headerLevel : List UInt8 → Option EncryptionLevel
  | [] => none
  | firstByte :: rest =>
    if firstByte &&& 0x80 = 0 then some .oneRTT
    else
      match longType (beNat (rest.take 4)) ((firstByte &&& 0x30) >>> 4) with
      | .initial => some .initial
      | .zeroRTT => some .early
      | .handshake => some .handshake
      | _ => none

/-- A packet of a level that has an opener. -/
structure WirePacket where
  bytes : List UInt8
  level : EncryptionLevel
  header : headerLevel bytes = some level
  keyed : level ≠ .early

namespace WirePacket

def datagram (ps : List WirePacket) : List UInt8 := ps.flatMap bytes

/-- The calls of `OpenPacket` that hand over every packet once: each gets the packet
with what is behind it. -/
def calls : List WirePacket → List (EncryptionLevel × List UInt8)
  | [] => []
  | p :: ps => (p.level, datagram (p :: ps)) :: calls ps

theorem length_calls (ps : List WirePacket) : (calls ps).length = ps.length := by
  induction ps with
  | nil => rfl
  | cons p ps ih => rw [calls, length_cons, ih, length_cons]

theorem datagram_cons (p : WirePacket) (ps : List WirePacket) : datagram (p :: ps) = p.bytes ++ datagram ps := by
  simp [datagram]

theorem exists_cons (p : WirePacket) : ∃ x rest, p.bytes = x :: rest := by
  obtain ⟨bytes, level, header, keyed⟩ := p
  cases bytes with
  | nil => cases header
  | cons x rest => exact ⟨x, rest, rfl⟩

end WirePacket

variable {ε : Type} {x : UInt8} {rest : List UInt8} {level : EncryptionLevel}

/-- The level at which the bytes are handled. -/
def levelOf : List UInt8 → Option EncryptionLevel
  | [] => none
  | x :: _ => (packetLevel (ε := Empty) x).toOption

theorem toOption_packetLevel (x : UInt8) (rest : List UInt8) :
    (packetLevel (ε := ε) x).toOption = levelOf (x :: rest) := by
  simp only [levelOf, packetLevel]
  split_ifs <;> rfl

theorem levelOf_ne_early (packetData : List UInt8) : levelOf packetData ≠ some .early := by
  cases packetData with
  | nil => simp [levelOf]
  | cons x rest =>
    simp only [levelOf, packetLevel]
    split_ifs <;> simp [Except.toOption]

theorem packetLevel_of_levelOf
    (h : levelOf (x :: rest) = some level) : packetLevel (ε := ε) x = .ok level := by
  rw [← toOption_packetLevel (ε := ε)] at h
  cases hp : packetLevel (ε := ε) x with
  | error e => simp [hp, Except.toOption] at h
  | ok l => simpa [hp, Except.toOption] using h

theorem packetLevel_of_none (h : levelOf (x :: rest) = none) : ∃ e, packetLevel (ε := ε) x = .error e := by
  rw [← toOption_packetLevel (ε := ε)] at h
  cases hp : packetLevel (ε := ε) x with
  | error e => exact ⟨e, rfl⟩
  | ok l => simp [hp, Except.toOption] at h

/-- A packet is handled at its level or, if its header is of version 2, not at all. -/
theorem WirePacket.levelOf_cases (p : WirePacket) (rest : List UInt8) :
    levelOf (p.bytes ++ rest) = some p.level ∨ levelOf (p.bytes ++ rest) = none := by
  obtain ⟨bytes, level, header, keyed⟩ := p
  cases bytes with
  | nil => cases header
  | cons x bytes =>
    simp only [headerLevel, longType] at header
    simp only [cons_append, levelOf, packetLevel]
    by_cases hl : x &&& 0x80 = 0
    · simp only [hl, if_true, Option.some.injEq] at header
      subst header
      by_cases h40 : x &&& 0x40 = 0 <;> simp [hl, h40, Except.toOption]
    · simp only [hl, if_false] at header
      split_ifs at header ⊢ <;> simp_all [Except.toOption]

namespace Session

variable {δ σ ε : Type} {s s' s1 : Session δ σ} {X Y : List (EncryptionLevel × List UInt8)}
  {made made' : List (EncryptionLevel × List UInt8)} {k : Keys} {n : Nat}

/-! ## What is passed to an opener and what waits -/

/-- The calls that the packets put aside wait for. -/
def pending (s : Session δ σ) : List (EncryptionLevel × List UInt8) :=
  (s.earlyPackets .handshake).map (.handshake, ·) ++ (s.earlyPackets .oneRTT).map (.oneRTT, ·)

/-- What holds of a bridge from its construction on: the keys for Initial packets are
there, and what is put aside has the first byte of its level. -/
structure Ready (s : Session δ σ) : Prop where
  initial : s.openers .initial ≠ none
  early : ∀ level, ∀ pkt ∈ s.earlyPackets level, level ≠ .initial ∧ levelOf pkt = some level

/-- From `s` to `s'` the calls `made` were made; these and the ones pending now are the
calls `X` and those pending before. -/
structure Accounts (X made : List (EncryptionLevel × List UInt8)) (s s' : Session δ σ) : Prop where
  opened : s'.opened = s.opened ++ made
  perm : (made ++ s'.pending).Perm (X ++ s.pending)

theorem Accounts.trans (h : Accounts X made s s1)
    (h' : Accounts Y made' s1 s') : Accounts (X ++ Y) (made ++ made') s s' := by
  refine ⟨by rw [h'.opened, h.opened, append_assoc], perm_iff_count.2 fun c => ?_⟩
  have hcount := h.perm.count_eq c
  have hcount' := h'.perm.count_eq c
  simp only [count_append] at hcount hcount' ⊢
  omega

/-- The calls `X` are made in order, nothing new is put aside and no keys are given
up. -/
structure Advances (X : List (EncryptionLevel × List UInt8)) (s s' : Session δ σ) : Prop where
  accounts : ∃ made, Accounts X made s s' ∧ X.Sublist made
  openers : ∀ level, s.openers level ≠ none → s'.openers level ≠ none
  early : ∀ level, s'.earlyPackets level = s.earlyPackets level ∨ s'.earlyPackets level = []

theorem Advances.trans (h : Advances X s s1) (h' : Advances Y s1 s') : Advances (X ++ Y) s s' := by
  obtain ⟨made, hacc, hsub⟩ := h.accounts
  obtain ⟨made', hacc', hsub'⟩ := h'.accounts
  refine ⟨⟨_, hacc.trans hacc', hsub.append hsub'⟩, fun l hl => h'.openers l (h.openers l hl), fun l => ?_⟩
  rcases h'.early l with heq | heq
  · rw [heq]
    exact h.early l
  · exact .inr heq

/-- A step that touches neither the calls nor what is put aside. -/
theorem advances_of_same (hopened : s'.opened = s.opened) (hearly : s'.earlyPackets = s.earlyPackets)
    (hopeners : ∀ level, s.openers level ≠ none → s'.openers level ≠ none) : Advances [] s s' := by
  refine ⟨⟨[], ⟨by rw [hopened, append_nil], ?_⟩, .refl _⟩, hopeners, fun l => .inl (by rw [hearly])⟩
  rw [pending, pending, hearly]

theorem Advances.ready (h : Advances X s s') (hs : s.Ready) : s'.Ready := by
  refine ⟨h.openers _ hs.initial, fun l pkt hpkt => ?_⟩
  rcases h.early l with heq | heq
  · exact hs.early l pkt (heq ▸ hpkt)
  · rw [heq] at hpkt
    cases hpkt

def waiting (s : Session δ σ) : Nat :=
  (if s.earlyPackets .handshake = [] then 0 else 1) + if s.earlyPackets .oneRTT = [] then 0 else 1

theorem Advances.waiting_le (h : Advances X s s') : s'.waiting ≤ s.waiting := by
  have hle : ∀ l, (if s'.earlyPackets l = [] then 0 else 1) ≤ if s.earlyPackets l = [] then 0 else 1 := by
    intro l
    rcases h.early l with heq | heq
    · rw [heq]
    · simp [heq]
  exact Nat.add_le_add (hle _) (hle _)

variable (driver : HandshakeDriver δ ε) (engine : StreamEngine σ ε) {check : Session δ σ → Session δ σ}

theorem advances_ensureKeys (level : EncryptionLevel) (s : Session δ σ) : Advances [] s (s.ensureKeys driver level) := by
  unfold ensureKeys
  split
  · exact advances_of_same rfl rfl fun _ h => h
  · rename_i hnone
    refine advances_of_same rfl rfl fun l hl => ?_
    by_cases heq : l = level
    · exact absurd hnone (heq ▸ hl)
    · simpa [heq] using hl

theorem openers_ensureKeys (h : driver.readKeys s.handshakeDriver level ≠ none) :
    (s.ensureKeys driver level).openers level ≠ none := by
  unfold ensureKeys
  split
  · rename_i hk
    simp [hk]
  · simpa using h

theorem ensureKeys_of_some (h : s.openers level = some k) :
    s.ensureKeys driver level = s := by
  unfold ensureKeys
  rw [h]

theorem advances_flush (s : Session δ σ) : Advances [] s (s.flush driver) := by
  unfold flush
  split <;> exact advances_of_same rfl rfl fun _ h => h

/-- Whatever comes of it, one call is made. -/
theorem advances_openAndProcess (s : Session δ σ) (level : EncryptionLevel) (k : Keys) (packetData : List UInt8) :
    Advances [(level, packetData)] s (s.openAndProcess driver engine level k packetData).1 := by
  have hkeep : (s.openAndProcess driver engine level k packetData).1.opened = s.opened ++ [(level, packetData)] ∧
      (s.openAndProcess driver engine level k packetData).1.earlyPackets = s.earlyPackets ∧
      (s.openAndProcess driver engine level k packetData).1.openers = s.openers := by
    unfold openAndProcess
    dsimp only
    split
    · exact ⟨rfl, rfl, rfl⟩
    · unfold storeLargest
      dsimp only
      split <;> (dsimp only; split)
      all_goals first
        | exact ⟨rfl, rfl, rfl⟩
        | unfold adoptConnID
          split <;> exact ⟨rfl, rfl, rfl⟩
  obtain ⟨hopened, hearly, hopeners⟩ := hkeep
  refine ⟨⟨_, ⟨hopened, ?_⟩, .refl _⟩, fun l hl => by rwa [hopeners], fun l => .inl (by rw [hearly])⟩
  rw [pending, pending, hearly]

/-- A packet whose keys are there is passed to the opener of its level. -/
theorem advances_handleSinglePacketWith {packetData : List UInt8} (hs : s.Ready)
    (hcheck : ∀ s1 : Session δ σ, s1.Ready → s1.waiting ≤ s.waiting → Advances [] s1 (check s1))
    (hlevel : levelOf packetData = some level) (hk : s.openers level = some k) :
    Advances [(level, packetData)] s (handleSinglePacketWith driver engine check s packetData).1 := by
  cases packetData with
  | nil => cases hlevel
  | cons x rest =>
    have hens : (if level = .initial then s else s.ensureKeys driver level) = s := by
      rw [ensureKeys_of_some driver hk, ite_self]
    have hopen := advances_openAndProcess driver engine s level k (x :: rest)
    simp only [handleSinglePacketWith, packetLevel_of_levelOf hlevel, hens, hk]
    split
    · rename_i s1 e heq
      rw [heq] at hopen
      exact hopen
    · rename_i s1 hdr heq
      rw [heq] at hopen
      simpa using hopen.trans ((hcheck s1 (hopen.ready hs) hopen.waiting_le).trans (advances_flush driver _))

/-! ## Handling what was put aside -/

/-- `check` may be run on every state in which fewer than `n` levels wait. -/
def ChecksBelow (n : Nat) (check : Session δ σ → Session δ σ) : Prop :=
  ∀ s : Session δ σ, s.Ready → s.waiting < n → Advances [] s (check s)

theorem advances_foldl (hcheck : ChecksBelow n check) (pkts : List (List UInt8))
    (hpkts : ∀ pkt ∈ pkts, levelOf pkt = some level) (s : Session δ σ) (hs : s.Ready) (hn : s.waiting < n)
    (hk : s.openers level ≠ none) :
    Advances (pkts.map (level, ·)) s
      (pkts.foldl (fun s pkt => (handleSinglePacketWith driver engine check s pkt).1) s) := by
  induction pkts generalizing s with
  | nil => exact advances_of_same rfl rfl fun _ h => h
  | cons pkt pkts ih =>
    obtain ⟨k, hk'⟩ := Option.ne_none_iff_exists'.1 hk
    have hstep := advances_handleSinglePacketWith driver engine hs
      (fun s1 hs1 hle => hcheck s1 hs1 (Nat.lt_of_le_of_lt hle hn)) (hpkts pkt mem_cons_self) hk'
    exact hstep.trans (ih (fun q hq => hpkts q (mem_cons_of_mem _ hq)) _ (hstep.ready hs)
      (Nat.lt_of_le_of_lt hstep.waiting_le hn) (hstep.openers _ hk))

theorem pending_cleared (hlevel : level = .handshake ∨ level = .oneRTT) (s : Session δ σ) :
    ((s.earlyPackets level).map (level, ·) ++ (s.cleared level).pending).Perm s.pending := by
  rcases hlevel with rfl | rfl
  · simp [pending, cleared]
  · simpa [pending, cleared] using perm_append_comm

theorem waiting_cleared (hlevel : level = .handshake ∨ level = .oneRTT)
    (hne : s.earlyPackets level ≠ []) : (s.cleared level).waiting + 1 = s.waiting := by
  rcases hlevel with rfl | rfl
  · simp [waiting, cleared, hne]
    omega
  · simp [waiting, cleared, hne]

theorem ready_cleared (hs : s.Ready) (level : EncryptionLevel) : (s.cleared level).Ready := by
  refine ⟨hs.initial, fun l pkt hpkt => ?_⟩
  by_cases hl : l = level
  · simp [cleared, hl] at hpkt
  · exact hs.early l pkt (by simpa [cleared, hl] using hpkt)

theorem advances_drainEarlyWith (hlevel : level = .handshake ∨ level = .oneRTT)
    (hcheck : ChecksBelow n check) (hs : s.Ready) (hn : s.waiting < n + 1) :
    Advances [] s (drainEarlyWith driver engine check level s) ∧
      (s.openers level ≠ none → (drainEarlyWith driver engine check level s).earlyPackets level = []) := by
  unfold drainEarlyWith
  split
  · rename_i hk
    by_cases hne : s.earlyPackets level = []
    · have hsame : s.cleared level = s := by
        rw [cleared, ← hne, Function.update_eq_self]
      rw [hne, foldl_nil, hsame]
      exact ⟨advances_of_same rfl rfl fun _ h => h, fun _ => hne⟩
    · have hn' : (s.cleared level).waiting < n := by
        have := waiting_cleared hlevel hne
        omega
      have hfold := advances_foldl driver engine hcheck (s.earlyPackets level) (fun pkt hpkt => (hs.early _ pkt hpkt).2)
        (s.cleared level) (ready_cleared hs level) hn' hk
      obtain ⟨made, hacc, -⟩ := hfold.accounts
      have hmade : Accounts [] made s _ := ⟨hacc.opened, hacc.perm.trans (pending_cleared hlevel s)⟩
      refine ⟨⟨⟨made, hmade, nil_sublist _⟩, hfold.openers, fun l => ?_⟩, fun _ => ?_⟩
      · rcases hfold.early l with heq | heq
        · by_cases hl : l = level
          · right
            rw [heq, hl]
            simp [cleared]
          · left
            rw [heq]
            simp [cleared, hl]
        · exact .inr heq
      · rcases hfold.early level with heq | heq
        · rw [heq]
          simp [cleared]
        · exact heq
  · rename_i hk
    exact ⟨advances_of_same rfl rfl fun _ h => h, fun h => absurd h hk⟩

/-- Nested as deep as there are levels that wait, the check is complete: the packets
of a level whose keys are there do not wait any more. -/
theorem advances_check (n : Nat) (s : Session δ σ) (hs : s.Ready) (hn : s.waiting < n) :
    Advances [] s (checkHandshakeProgress driver engine n s) ∧
      ∀ level, level = .handshake ∨ level = .oneRTT → driver.readKeys s.handshakeDriver level ≠ none →
        (checkHandshakeProgress driver engine n s).earlyPackets level = [] := by
  induction n generalizing s with
  | zero => omega
  | succ n ih =>
    have hcheck : ChecksBelow n (checkHandshakeProgress driver engine n) := fun s1 hs1 hn1 => (ih s1 hs1 hn1).1
    -- the keys, then the two lists
    let s1 := (s.ensureKeys driver .handshake).ensureKeys driver .oneRTT
    let s2 := drainEarlyWith driver engine (checkHandshakeProgress driver engine n) .handshake s1
    let s3 := drainEarlyWith driver engine (checkHandshakeProgress driver engine n) .oneRTT s2
    have h1 : Advances [] s s1 := (advances_ensureKeys driver .handshake s).trans (advances_ensureKeys driver .oneRTT _)
    have hkeys : ∀ level, level = .handshake ∨ level = .oneRTT → driver.readKeys s.handshakeDriver level ≠ none →
        s1.openers level ≠ none := by
      rintro level (rfl | rfl) hk
      · exact (advances_ensureKeys driver .oneRTT _).openers _ (openers_ensureKeys driver hk)
      · refine openers_ensureKeys driver ?_
        have hsame : (s.ensureKeys driver .handshake).handshakeDriver = s.handshakeDriver := by
          unfold ensureKeys
          split <;> rfl
        rwa [hsame]
    obtain ⟨h2, hempty2⟩ := advances_drainEarlyWith driver engine (.inl rfl) hcheck (h1.ready hs)
      (Nat.lt_of_le_of_lt h1.waiting_le hn)
    have h12 : Advances [] s s2 := h1.trans h2
    obtain ⟨h3, hempty3⟩ := advances_drainEarlyWith driver engine (.inr rfl) hcheck (h12.ready hs)
      (Nat.lt_of_le_of_lt h12.waiting_le hn)
    have h13 : Advances [] s s3 := h12.trans h3
    have hresult : checkHandshakeProgress driver engine (n + 1) s =
        if driver.isHandshakeDone s3.handshakeDriver then { s3 with handshakeDone := true } else s3 := rfl
    have hlast : Advances [] s3 (checkHandshakeProgress driver engine (n + 1) s) ∧
        (checkHandshakeProgress driver engine (n + 1) s).earlyPackets = s3.earlyPackets := by
      rw [hresult]
      split <;> exact ⟨advances_of_same rfl rfl fun _ h => h, rfl⟩
    refine ⟨h13.trans hlast.1, fun level hlevel hk => ?_⟩
    rw [hlast.2]
    rcases hlevel with rfl | rfl
    · rcases h3.early .handshake with heq | heq
      · rw [heq]
        exact hempty2 (hkeys _ (.inl rfl) hk)
      · exact heq
    · exact hempty3 (h2.openers _ (hkeys _ (.inr rfl) hk))

theorem waiting_lt_maxDepth (s : Session δ σ) : s.waiting < maxDepth := by
  unfold waiting maxDepth
  split <;> split <;> omega

/-! ## One packet of a datagram -/

/-- The state in which a packet of a level looks for its keys. -/
def prepared (s : Session δ σ) (level : EncryptionLevel) : Session δ σ :=
  if level = .initial then s else s.ensureKeys driver level

/-- The keys of a level are there, or can be had from the driver. -/
def HasKeys (s : Session δ σ) (level : EncryptionLevel) : Prop := (s.prepared driver level).openers level ≠ none

theorem advances_prepared (s : Session δ σ) (level : EncryptionLevel) : Advances [] s (s.prepared driver level) := by
  unfold prepared
  split
  · exact advances_of_same rfl rfl fun _ h => h
  · exact advances_ensureKeys driver level s

variable {level : EncryptionLevel} {packetData : List UInt8}

theorem advances_handleSinglePacket (hs : s.Ready) (hlevel : levelOf packetData = some level) (hk : s.HasKeys driver level) :
    Advances [(level, packetData)] s (s.handleSinglePacket driver engine packetData).1 := by
  obtain ⟨k, hk'⟩ := Option.ne_none_iff_exists'.1 hk
  have hprep := advances_prepared driver s level
  have hsame : s.handleSinglePacket driver engine packetData =
      (s.prepared driver level).handleSinglePacket driver engine packetData := by
    cases packetData with
    | nil => cases hlevel
    | cons x rest =>
      have hagain : (if level = .initial then s.prepared driver level
          else (s.prepared driver level).ensureKeys driver level) = s.prepared driver level := by
        rw [ensureKeys_of_some driver hk', ite_self]
      simp only [handleSinglePacket, handleSinglePacketWith, packetLevel_of_levelOf hlevel, hagain]
      rfl
  rw [hsame]
  exact hprep.trans (advances_handleSinglePacketWith driver engine (hprep.ready hs)
    (fun s1 hs1 _ => (advances_check driver engine maxDepth s1 hs1 (waiting_lt_maxDepth s1)).1) hlevel hk')

theorem ne_initial_of_not_hasKeys (hs : s.Ready) (hk : ¬ s.HasKeys driver level) : level ≠ .initial := by
  rintro rfl
  exact (advances_prepared driver s .initial |>.ready hs).initial (not_not.1 hk)

/-- Without its keys a packet is put aside with all that is behind it. -/
theorem handleSinglePacket_early (hs : s.Ready) (hlevel : levelOf packetData = some level) (hk : ¬ s.HasKeys driver level) :
    s.handleSinglePacket driver engine packetData =
      ((s.prepared driver level).keepEarly level packetData, .ok packetData.length) := by
  have hnone : (s.prepared driver level).openers level = none := not_not.1 hk
  have hinit := ne_initial_of_not_hasKeys driver hs hk
  cases packetData with
  | nil => cases hlevel
  | cons x rest =>
    have hens : s.ensureKeys driver level = s.prepared driver level := by rw [prepared, if_neg hinit]
    simp only [handleSinglePacket, handleSinglePacketWith, packetLevel_of_levelOf hlevel, if_neg hinit, hens, hnone]

theorem ready_keepEarly (hs : s.Ready) (hlevel : levelOf packetData = some level) (hinit : level ≠ .initial) :
    (s.keepEarly level packetData).Ready := by
  unfold keepEarly
  split
  · refine ⟨hs.initial, fun l pkt hpkt => ?_⟩
    by_cases hl : l = level
    · subst hl
      have hpkt' : pkt ∈ s.earlyPackets l ∨ pkt = packetData := by simpa using hpkt
      rcases hpkt' with hpkt' | rfl
      · exact hs.early l pkt hpkt'
      · exact ⟨hinit, hlevel⟩
    · exact hs.early l pkt (by simpa [hl] using hpkt)
  · exact hs

theorem pending_keepEarly (hroom : (s.earlyPackets level).length < maxEarlyPackets) (hlevel : levelOf packetData = some level)
    (hinit : level ≠ .initial) : (s.keepEarly level packetData).pending.Perm ((level, packetData) :: s.pending) := by
  rw [keepEarly, if_pos hroom]
  cases level with
  | initial => exact absurd rfl hinit
  | early => exact absurd hlevel (levelOf_ne_early packetData)
  | handshake => simp [pending]
  | oneRTT =>
    have hswap : (s.pending ++ [(EncryptionLevel.oneRTT, packetData)]).Perm ([(.oneRTT, packetData)] ++ s.pending) :=
      perm_append_comm
    simpa [pending] using hswap

theorem opened_keepEarly : (s.keepEarly level packetData).opened = s.opened := by
  unfold keepEarly
  split <;> rfl

theorem prepared_same (s : Session δ σ) (level : EncryptionLevel) :
    (s.prepared driver level).earlyPackets = s.earlyPackets ∧ (s.prepared driver level).opened = s.opened := by
  unfold prepared ensureKeys
  split
  · exact ⟨rfl, rfl⟩
  · split <;> exact ⟨rfl, rfl⟩

theorem accounts_early (hroom : (s.earlyPackets level).length < maxEarlyPackets) (hlevel : levelOf packetData = some level)
    (hinit : level ≠ .initial) :
    Accounts [(level, packetData)] [] s ((s.prepared driver level).keepEarly level packetData) := by
  obtain ⟨hearly, hopened⟩ := prepared_same driver s level
  have hpending := pending_keepEarly (s := s.prepared driver level) (by rwa [hearly]) hlevel hinit
  have hsame : (s.prepared driver level).pending = s.pending := by rw [pending, pending, hearly]
  exact ⟨by rw [opened_keepEarly, hopened, append_nil], hsame ▸ hpending⟩

/-! ## Whole datagrams -/

open WirePacket (datagram calls)

/-- Every packet that finds its keys is taken for as long as it is. -/
def Measured : Session δ σ → List WirePacket → Prop
  | _, [] => True
  | s, p :: ps =>
    (s.HasKeys driver p.level → ∀ n, (s.handleSinglePacket driver engine (datagram (p :: ps))).2 = .ok n →
      n = p.bytes.length) ∧
    Measured (s.handleSinglePacket driver engine (datagram (p :: ps))).1 ps

/-- Every packet is recognised, and every packet but the last finds its keys when its
turn comes and is processed without an error. -/
def Undisturbed : Session δ σ → List WirePacket → Prop
  | _, [] => True
  | s, p :: ps =>
    levelOf p.bytes = some p.level ∧
    (ps ≠ [] → s.HasKeys driver p.level ∧
      ∃ n, (s.handleSinglePacket driver engine (datagram (p :: ps))).2 = .ok n) ∧
    Undisturbed (s.handleSinglePacket driver engine (datagram (p :: ps))).1 ps

/-- The calls `X` have been made, in order, or all but the last of them have and the
last is pending. -/
def Follows (X made : List (EncryptionLevel × List UInt8)) (s' : Session δ σ) : Prop :=
  X.Sublist made ∨ ∃ now c, X = now ++ [c] ∧ now.Sublist made ∧ c ∈ s'.pending

theorem Follows.append_left (hX : X.Sublist made) (h : Follows Y made' s') : Follows (X ++ Y) (made ++ made') s' := by
  rcases h with h | ⟨now, c, rfl, h, hc⟩
  · exact .inl (hX.append h)
  · exact .inr ⟨X ++ now, c, (append_assoc ..).symm, hX.append h, hc⟩

/-- What becomes of a datagram: its packets are passed on or wait, in order, or fewer
calls than it has packets are accounted for. -/
def Outcome (s s' : Session δ σ) (ps : List WirePacket) : Prop :=
  s'.Ready ∧ ∃ made,
    (Undisturbed driver engine s ps ∧ Accounts (calls ps) made s s' ∧ Follows (calls ps) made s') ∨
    (¬ Undisturbed driver engine s ps ∧ ∃ Y, Y.length < ps.length ∧ Accounts Y made s s')

theorem levelOf_datagram (p : WirePacket) (ps : List WirePacket) : levelOf (datagram (p :: ps)) = levelOf p.bytes := by
  obtain ⟨x, rest, hx⟩ := p.exists_cons
  rw [WirePacket.datagram_cons, hx]
  rfl

theorem datagram_length (ps : List WirePacket) : ps.length ≤ (datagram ps).length := by
  induction ps with
  | nil => exact Nat.le_refl _
  | cons p ps ih =>
    obtain ⟨x, rest, hx⟩ := p.exists_cons
    rw [WirePacket.datagram_cons, hx]
    simp
    omega

/-- The loop stops behind a packet, or goes on with the rest of the datagram. -/
theorem handlePackets_cons {fuel : Nat} (p : WirePacket) (ps : List WirePacket) :
    handlePackets driver engine (fuel + 1) s (datagram (p :: ps)) =
      match s.handleSinglePacket driver engine (datagram (p :: ps)) with
      | (s, .error e) => (s, some e)
      | (s, .ok n) =>
        if n = 0 ∨ n ≥ (datagram (p :: ps)).length then (s, none)
        else handlePackets driver engine fuel s ((datagram (p :: ps)).drop n) := by
  obtain ⟨x, rest, hx⟩ := p.exists_cons
  rw [WirePacket.datagram_cons, hx]
  rfl

/-- The loop stops at the first packet, which is in order only if it is the last one too. -/
theorem Outcome.stop {p : WirePacket} {ps : List WirePacket} (hs' : s'.Ready) (hlevel : levelOf p.bytes = some p.level)
    (hacc : Accounts [(p.level, datagram (p :: ps))] made s s')
    (hfol : ps = [] → Follows [(p.level, datagram (p :: ps))] made s')
    (hu : ps ≠ [] → ¬ Undisturbed driver engine s (p :: ps)) : Outcome driver engine s s' (p :: ps) := by
  refine ⟨hs', made, ?_⟩
  cases ps with
  | nil => exact .inl ⟨⟨hlevel, fun h => absurd rfl h, trivial⟩, hacc, hfol rfl⟩
  | cons q qs => exact .inr ⟨hu (cons_ne_nil q qs), _, by simp, hacc⟩

theorem outcome_handlePackets (ps : List WirePacket) (fuel : Nat) (hfuel : ps.length ≤ fuel) (s : Session δ σ)
    (hs : s.Ready) (hroom : ∀ level, (s.earlyPackets level).length < maxEarlyPackets)
    (hm : Measured driver engine s ps) :
    Outcome driver engine s (handlePackets driver engine fuel s (datagram ps)).1 ps := by
  induction ps generalizing fuel s with
  | nil =>
    have hnil : handlePackets driver engine fuel s (datagram []) = (s, none) := by cases fuel <;> rfl
    rw [hnil]
    exact ⟨hs, [], .inl ⟨trivial, ⟨(append_nil _).symm, .refl _⟩, .inl (.refl _)⟩⟩
  | cons p ps ih =>
    obtain ⟨fuel, rfl⟩ : ∃ n, fuel = n + 1 := ⟨fuel - 1, by simp only [length_cons] at hfuel; omega⟩
    rw [handlePackets_cons]
    obtain ⟨hlen, hm'⟩ := hm
    have hbytes := levelOf_datagram p ps
    rcases p.levelOf_cases [] with hlevel | hlevel <;> rw [append_nil] at hlevel <;> rw [hlevel] at hbytes
    · by_cases hk : s.HasKeys driver p.level
      · have hadv := advances_handleSinglePacket driver engine hs hbytes hk
        obtain ⟨made, hacc, hsub⟩ := hadv.accounts
        cases hr : s.handleSinglePacket driver engine (datagram (p :: ps)) with
        | mk s1 r =>
          simp only [hr] at hadv hacc hm' hlen
          cases r with
          | error e =>
            refine Outcome.stop driver engine (hadv.ready hs) hlevel hacc (fun _ => .inl hsub) fun hne hu => ?_
            obtain ⟨-, n, hn⟩ := hu.2.1 hne
            simp [hr] at hn
          | ok n =>
            obtain rfl := hlen hk n rfl
            have hcons := WirePacket.datagram_cons p ps
            dsimp only
            by_cases hne : ps = []
            · rw [if_pos (.inr (by simp [hne, datagram]))]
              exact Outcome.stop driver engine (hadv.ready hs) hlevel hacc (fun _ => .inl hsub) (absurd hne)
            · have hgo : ¬ (p.bytes.length = 0 ∨ p.bytes.length ≥ (datagram (p :: ps)).length) := by
                obtain ⟨x, rest, hx⟩ := p.exists_cons
                have := datagram_length ps
                have := length_pos_iff.2 hne
                rw [hcons, length_append, hx, length_cons]
                omega
              rw [if_neg hgo, hcons, drop_left]
              have hroom' : ∀ level, (s1.earlyPackets level).length < maxEarlyPackets := by
                intro level
                rcases hadv.early level with heq | heq
                · rw [heq]
                  exact hroom level
                · rw [heq]
                  decide
              obtain ⟨hready, made', hout⟩ := ih fuel (by simpa using hfuel) s1 (hadv.ready hs) hroom' hm'
              have hiff : Undisturbed driver engine s (p :: ps) ↔ Undisturbed driver engine s1 ps := by
                rw [Undisturbed, hr]
                exact ⟨fun hu => hu.2.2, fun hu => ⟨hlevel, fun _ => ⟨hk, _, rfl⟩, hu⟩⟩
              refine ⟨hready, made ++ made', ?_⟩
              rcases hout with ⟨hu, hacc', hfol⟩ | ⟨hu, Y, hY, hacc'⟩
              · exact .inl ⟨hiff.2 hu, hacc.trans hacc', Follows.append_left hsub hfol⟩
              · exact .inr ⟨mt hiff.1 hu, _, by simpa using hY, hacc.trans hacc'⟩
      · have hinit := ne_initial_of_not_hasKeys driver hs hk
        have hacc := accounts_early driver (hroom p.level) hbytes hinit
        rw [handleSinglePacket_early driver engine hs hbytes hk]
        simp only [ge_iff_le, Nat.le_refl, or_true, if_true]
        refine Outcome.stop driver engine (ready_keepEarly ((advances_prepared driver s p.level).ready hs) hbytes hinit)
          hlevel hacc (fun _ => .inr ⟨[], _, rfl, .refl _, hacc.perm.mem_iff.2 mem_cons_self⟩) fun hne hu => ?_
        exact hk (hu.2.1 hne).1
    · -- A header of version 2 is an error before anything else happens.
      obtain ⟨x, rest, hx⟩ := p.exists_cons
      obtain ⟨e, he⟩ := packetLevel_of_none (ε := ε) (hx ▸ hlevel)
      have hr : s.handleSinglePacket driver engine (datagram (p :: ps)) = (s, .error e) := by
        rw [WirePacket.datagram_cons, hx]
        simp only [cons_append, handleSinglePacket, handleSinglePacketWith, he]
      rw [hr]
      refine ⟨hs, [], .inr ⟨fun hu => ?_, [], by simp, ⟨(append_nil _).symm, .refl _⟩⟩⟩
      cases hlevel.symm.trans hu.1

/-- From `s` to `s'`, every packet of the datagram was passed to the opener of its
level once, in order, and so was what had been put aside before. -/
def PassedOnce (ps : List WirePacket) (s s' : Session δ σ) : Prop :=
  ∃ made, s'.opened = s.opened ++ made ∧ made.Perm (calls ps ++ s.pending) ∧ (calls ps).Sublist made

/-- A driver that has keys or has none, and takes any CRYPTO data. -/
def keyDriver : HandshakeDriver Bool Empty where
  handleCryptoData d _ _ := (d, none)
  readKeys d _ := if d then some tagOnly else none
  isHandshakeDone d := d
  drainCryptoData d := d

/-- A server that has nothing but the keys for Initial packets. -/
def fresh : Session Bool Unit where
  handshakeDriver := false
  streamConn := ()
  perspective := .server
  destConnID := []
  srcConnID := [9, 9]
  connected := false
  openers level := if level = .initial then some tagOnly else none

theorem ready_fresh : fresh.Ready := ⟨nofun, nofun⟩

/-- The packet number `n` of a type, with two PING frames in it. -/
def pings (type : PacketType) (n : Nat) : List UInt8 :=
  let h : Header :=
    { isLong := decide (type ≠ .oneRTT)
      type
      version := version1
      destConnID := [9, 9]
      packetNumber := n
      packetNumberLen := 2 }
  (sealPacket tagOnly [] h [1, 1]).toOption.getD []

def initialPings : WirePacket := ⟨pings .initial 0, .initial, by decide +kernel, nofun⟩

def handshakePings : WirePacket := ⟨pings .handshake 0, .handshake, by decide +kernel, nofun⟩

def morePings : WirePacket := ⟨pings .handshake 1, .handshake, by decide +kernel, nofun⟩

def oneRTTPings : WirePacket := ⟨pings .oneRTT 0, .oneRTT, by decide +kernel, nofun⟩

/-- The bridge after a datagram, and after the keys have come. -/
def settled (ps : List WirePacket) : Session Bool Unit :=
  checkHandshakeProgress keyDriver inert maxDepth
    { (fresh.handleIncomingPacket keyDriver inert (datagram ps)).1 with handshakeDriver := true }

theorem measured_initial_handshake : Measured keyDriver inert fresh [initialPings, handshakePings] := by
  have hfirst : (fresh.handleSinglePacket keyDriver inert (datagram [initialPings, handshakePings])).2 =
      .ok initialPings.bytes.length := by decide +kernel
  have hsecond : ((fresh.handleSinglePacket keyDriver inert (datagram [initialPings, handshakePings])).1.handleSinglePacket
      keyDriver inert (datagram [handshakePings])).2 = .ok handshakePings.bytes.length := by decide +kernel
  exact ⟨fun _ n hn => Except.ok.inj (hn.symm.trans hfirst), fun _ n hn => Except.ok.inj (hn.symm.trans hsecond), trivial⟩

theorem not_passedOnce {ps : List WirePacket}
    (h : s'.opened.length < s.opened.length + ps.length) : ¬ PassedOnce ps s s' := by
  rintro ⟨made, hopened, hperm, -⟩
  have := hperm.length_eq
  rw [length_append, WirePacket.length_calls] at this
  rw [hopened, length_append] at h
  omega

/-- The calls that a datagram may lead to: a packet may begin at any byte. -/
def offers : List UInt8 → List (EncryptionLevel × List UInt8)
  | [] => []
  | x :: rest => ((levelOf (x :: rest)).map (·, x :: rest)).toList ++ offers rest

theorem offers_drop (b : List UInt8) (n : Nat) : (offers (b.drop n)).Sublist (offers b) := by
  induction b generalizing n with
  | nil => rw [drop_nil]
  | cons x rest ih =>
    cases n with
    | zero => exact .refl _
    | succ n => exact (ih n).trans (sublist_append_right ..)

/-- No more packets wait than may, and the calls made and pending are among `X`, none
more often. -/
structure Within (X : List (EncryptionLevel × List UInt8)) (s : Session δ σ) : Prop where
  ready : s.Ready
  room : ∀ level, (s.earlyPackets level).length ≤ maxEarlyPackets
  among : (s.opened ++ s.pending).Subperm X

namespace Within

variable (h : Within X s)
include h

theorem mono (hXY : X.Sublist Y) : Within Y s := ⟨h.ready, h.room, h.among.trans hXY.subperm⟩

theorem accounts (hready : s'.Ready) (hacc : Accounts Y made s s')
    (hroom : ∀ level, (s'.earlyPackets level).length ≤ maxEarlyPackets) : Within (X ++ Y) s' := by
  refine ⟨hready, hroom, subperm_ext_iff.2 fun c _ => ?_⟩
  have hperm := hacc.perm.count_eq c
  have hX := h.among.count_le c
  simp only [hacc.opened, count_append] at hperm hX ⊢
  omega

theorem advances (hadv : Advances Y s s') : Within (X ++ Y) s' := by
  obtain ⟨made, hacc, -⟩ := hadv.accounts
  refine h.accounts (hadv.ready h.ready) hacc fun l => ?_
  rcases hadv.early l with heq | heq
  · exact heq ▸ h.room l
  · simp [heq]

theorem handleSinglePacket (x : UInt8) (rest : List UInt8) :
    Within (X ++ ((levelOf (x :: rest)).map (·, x :: rest)).toList)
      (s.handleSinglePacket driver engine (x :: rest)).1 := by
  cases hlevel : levelOf (x :: rest) with
  | none =>
    obtain ⟨e, he⟩ := packetLevel_of_none (ε := ε) hlevel
    simpa only [Session.handleSinglePacket, handleSinglePacketWith, he, Option.map_none, Option.toList_none, append_nil]
  | some level =>
    by_cases hk : s.HasKeys driver level
    · exact h.advances (advances_handleSinglePacket driver engine h.ready hlevel hk)
    · have hinit := ne_initial_of_not_hasKeys driver h.ready hk
      have hprep := advances_prepared driver s level
      have hsame := (prepared_same driver s level).1
      rw [handleSinglePacket_early driver engine h.ready hlevel hk]
      by_cases hroom : (s.earlyPackets level).length < maxEarlyPackets
      · refine h.accounts (ready_keepEarly (hprep.ready h.ready) hlevel hinit) (accounts_early driver hroom hlevel hinit) ?_
        intro l
        rw [keepEarly, hsame, if_pos hroom]
        by_cases hl : l = level
        · simpa [hl] using Nat.succ_le_of_lt hroom
        · simpa [hl] using h.room l
      · -- The list is full, and the packet is dropped.
        rw [keepEarly, hsame, if_neg hroom]
        exact (h.advances hprep).mono (by simp)

theorem handlePackets (fuel : Nat) (packetData : List UInt8) :
    Within (X ++ offers packetData) (Session.handlePackets driver engine fuel s packetData).1 := by
  induction fuel generalizing X s packetData with
  | zero => cases packetData <;> exact h.mono (sublist_append_left ..)
  | succ fuel ih =>
    cases packetData with
    | nil => exact h.mono (sublist_append_left ..)
    | cons x rest =>
      have hstep := h.handleSinglePacket driver engine x rest
      rw [offers, ← append_assoc]
      unfold Session.handlePackets
      split <;> rename_i heq <;> rw [heq] at hstep
      · exact hstep.mono (sublist_append_left ..)
      · split
        · exact hstep.mono (sublist_append_left ..)
        · rename_i n hn
          obtain ⟨n, rfl⟩ : ∃ m, n = m + 1 := ⟨n - 1, by omega⟩
          exact (ih hstep _).mono ((offers_drop rest n).append_left _)

end Within

inductive Call where
  | start
  | handleIncomingPacket (packetData : List UInt8)
  | setDestConnID (cid : List UInt8)

/-- A call on the bridge, before which the handshake and the streams have gone on in any way, and what arrives with it.
`Start` looks for keys when the driver's own `Start` is done. -/
def call (s : Session δ σ) : δ × σ × Call → Option (Session δ σ × List (List UInt8))
  | (d, c, l) =>
    let s := { s with handshakeDriver := d, streamConn := c }
    match l with
    | .start => some (checkHandshakeProgress driver engine maxDepth s, [])
    | .handleIncomingPacket packetData => some ((s.handleIncomingPacket driver engine packetData).1, [packetData])
    | .setDestConnID cid => some ({ s with destConnID := cid }, [])

/-- In a bridge that was new, a packet is opened or waits no more often than it arrived, and with the keys of its own
level only. -/
theorem opened_as_arrived (hnew : Within [] s) (es : List (δ × σ × Call)) :
    Always (call driver engine) (fun s tr => Within (tr.flatMap offers) s) s es := by
  intro pre s' tr _ hr
  refine run_keeps (fun s tr => Within (tr.flatMap offers) s) ?_ hnew hr
  rintro s tr ⟨d, c, l⟩ s' o h hs
  have h' : Within (tr.flatMap offers) { s with handshakeDriver := d, streamConn := c } :=
    ⟨⟨h.ready.initial, h.ready.early⟩, h.room, h.among⟩
  rw [flatMap_append]
  cases l with
  | start =>
    cases hs
    exact h'.advances (advances_check driver engine maxDepth _ h'.ready (waiting_lt_maxDepth _)).1
  | handleIncomingPacket packetData =>
    cases hs
    rw [flatMap_singleton]
    exact h'.handlePackets driver engine _ packetData
  | setDestConnID cid =>
    cases hs
    rw [flatMap_nil, append_nil]
    exact ⟨⟨h.ready.initial, h.ready.early⟩, h.room, h.among⟩

theorem opened_as_arrived_fresh : Within [] fresh ∧
    Always (call keyDriver inert) (fun s tr => Within (tr.flatMap offers) s) fresh
      [(false, (), .handleIncomingPacket handshakePings.bytes), (true, (), .start)] := by
  have hnew : Within [] fresh := ⟨ready_fresh, fun _ => Nat.zero_le _, .refl _⟩
  exact ⟨hnew, opened_as_arrived keyDriver inert hnew _⟩

/-! ## The two versions -/

/-- The type bits are read as those of the first version, whatever the version: an Initial or Handshake packet goes to
the opener of its level if it is of that one, and is rejected if it is of the second. -/
theorem opened_by_header_iff {b : List UInt8} {d : Int} {largest : Nat} {h : Header} {level : EncryptionLevel}
    (hp : parseHeader b d largest = .ok h)
    (ht : h.type = .initial ∧ level = .initial ∨ h.type = .handshake ∧ level = .handshake)
    (hv : h.version = version1 ∨ h.version = version2) (s : Session δ σ) (hs : s.Ready) (hk : s.HasKeys driver level) :
    ((packetLevel (b.headD 0) : Except (PacketError ε) EncryptionLevel) = .ok level ∧
      (∃ made, (s.handleSinglePacket driver engine b).1.opened = s.opened ++ made ∧ (level, b) ∈ made) ↔
        h.version = version1) ∧
      (h.version = version2 → s.handleSinglePacket driver engine b = (s, .error .unsupportedType)) := by
  cases b with
  | nil => cases hp
  | cons x rest =>
    obtain ⟨r, hr⟩ := parseHeader_eq_ok hp
    split at hr
    · have htype := congrArg HeaderOffsets.typ (offsets_parseShortHeader hr)
      change h.type = .oneRTT at htype
      rcases ht with ⟨ht, -⟩ | ⟨ht, -⟩ <;> cases ht.symm.trans htype
    rename_i hlong
    have hne : h.type ≠ .retry ∧ h.type ≠ .versionNegotiation := by
      rcases ht with ⟨ht, -⟩ | ⟨ht, -⟩ <;> rw [ht] <;> decide
    have hbits := (parseLongOffsets_of_header hr hne.1 hne.2).2
    have hlevel : ∀ {ε : Type}, (packetLevel x : Except (PacketError ε) EncryptionLevel) =
        if h.version = version1 then .ok level else .error .unsupportedType := by
      intro ε
      unfold packetLevel
      rw [if_pos hlong]
      unfold longType at hbits
      rcases hv with hv | hv <;> rcases ht with ⟨ht, rfl⟩ | ⟨ht, rfl⟩ <;> rw [hv, ht] at hbits <;> rw [hv] <;>
        split_ifs at hbits <;> simp_all [version1, version2]
    refine ⟨⟨fun hok => ?_, fun hfirst => ?_⟩, fun hsecond => ?_⟩
    · by_contra hno
      rw [headD_cons, hlevel, if_neg hno] at hok
      cases hok.1
    · simp only [if_pos hfirst] at hlevel
      have hof : levelOf (x :: rest) = some level := by rw [levelOf, hlevel]; rfl
      obtain ⟨made, hacc, hsub⟩ := (advances_handleSinglePacket driver engine hs hof hk).accounts
      exact ⟨hlevel, made, hacc.opened, singleton_sublist.1 hsub⟩
    · rw [handleSinglePacket, handleSinglePacketWith, hlevel, hsecond, if_neg (by decide)]

/-- An empty Initial packet of a version, before header protection. -/
def emptyInitial (firstByte : UInt8) (version : Nat) : List UInt8 := firstByte :: beBytes 4 version ++ [0, 0, 0, 1, 0]

theorem opened_by_header_initial :
    ∃ made, (fresh.handleSinglePacket keyDriver inert (emptyInitial 0xc0 version1)).1.opened = made ∧
      (.initial, emptyInitial 0xc0 version1) ∈ made := by
  have hp : (parseHeader (emptyInitial 0xc0 version1) 2 0).map (fun h => (h.type, h.version)) = .ok (.initial, version1) := by
    decide +kernel
  cases hh : parseHeader (emptyInitial 0xc0 version1) 2 0 with
  | error e => rw [hh] at hp; cases hp
  | ok h =>
    rw [hh] at hp
    obtain ⟨ht, hv⟩ := Prod.mk.inj (Except.ok.inj hp)
    exact ((opened_by_header_iff keyDriver inert hh (.inl ⟨ht, rfl⟩) (.inl hv) fresh ready_fresh nofun).1.2 hv).2

theorem second_version_rejected :
    (parseHeader (emptyInitial 0xd0 version2) 0 0).map (fun h => (h.type, h.version)) = .ok (.initial, version2) ∧
      (fresh.handleSinglePacket keyDriver inert (emptyInitial 0xd0 version2)).2 = .error .unsupportedType := by
  decide +kernel

end Session

end Mach.Quic
