import Mathlib

/-!
# Replay windows

Peer pairs and received masks remember the packets they accepted as the highest
number and a mask: bit `d` stands for the number `d` below the highest.
-/

namespace TonNode.Adnl

open List

/-- No branch reads `accepted`, the numbers accepted since the last reset. -/
structure AdnlReceivedMask where
  seqno : Nat := 0
  mask : Nat := 0
  accepted : List Nat := []

/-- The number has been accepted or has left the window. -/
def Stale (accepted : List Nat) (seqno : Nat) : Prop :=
  seqno ∈ accepted ∨ ∃ highest ∈ accepted, seqno + 64 ≤ highest

namespace AdnlReceivedMask

def packetIsDelivered (received : AdnlReceivedMask) (seqno : Nat) : Bool :=
  if seqno = 0 then
    false
  else if received.seqno < seqno then
    false
  else if 64 ≤ received.seqno - seqno then
    true
  else
    received.mask.testBit (received.seqno - seqno)

/-- What `add_received_packet` and `deliver_packet` do with a new number. -/
def add (received : AdnlReceivedMask) (seqno : Nat) : AdnlReceivedMask where
  seqno := max seqno received.seqno
  mask :=
    if seqno ≤ received.seqno then
      received.mask ||| 1 <<< (received.seqno - seqno)
    else if 64 ≤ seqno - received.seqno then
      1
    else
      received.mask <<< (seqno - received.seqno) % 2 ^ 64 ||| 1
  accepted := seqno :: received.accepted

def deliverPacket (received : AdnlReceivedMask) (seqno : Nat) : AdnlReceivedMask :=
  if seqno = 0 ∨ received.packetIsDelivered seqno then received else received.add seqno

structure Exact (received : AdnlReceivedMask) : Prop where
  once : received.accepted.Nodup
  top : received.seqno = 0 ∨ received.seqno ∈ received.accepted
  bound : ∀ seqno ∈ received.accepted, 0 < seqno ∧ seqno ≤ received.seqno
  bits : ∀ seqno ≤ received.seqno, received.seqno < seqno + 64 →
    (received.mask.testBit (received.seqno - seqno) = true ↔ seqno ∈ received.accepted)

namespace Exact

lemma empty : Exact {} :=
  ⟨.nil, .inl rfl, by simp, by simp⟩

variable {received : AdnlReceivedMask} {seqno : Nat} (holds : received.Exact) (positive : 0 < seqno)
include holds positive

lemma packetIsDelivered_iff : received.packetIsDelivered seqno = true ↔ Stale received.accepted seqno := by
  have within : ∀ other ∈ received.accepted, other ≤ received.seqno := fun other held => (holds.bound other held).2
  rw [packetIsDelivered, if_neg positive.ne']
  split_ifs with above far
  · simp only [false_iff]
    rintro (held | ⟨highest, held, behind⟩)
    · exact (within _ held).not_gt above
    · have := within _ held
      omega
  · exact iff_of_true rfl (.inr ⟨received.seqno, holds.top.resolve_left (by omega), by omega⟩)
  · rw [holds.bits _ (by omega) (by omega), Stale, or_iff_left]
    rintro ⟨highest, held, behind⟩
    have := within _ held
    omega

lemma add (isNew : ¬ received.packetIsDelivered seqno = true) : (received.add seqno).Exact where
  once := nodup_cons.mpr ⟨fun held => isNew ((holds.packetIsDelivered_iff positive).mpr (.inl held)), holds.once⟩
  top := by
    rcases le_total received.seqno seqno with above | inside
    · exact .inr (by simp [AdnlReceivedMask.add, above])
    · exact .inr (by simp [AdnlReceivedMask.add, inside, holds.top.resolve_left (by omega)])
  bound other held := by
    rcases mem_cons.mp held with rfl | held
    · exact ⟨positive, le_max_left ..⟩
    · exact (holds.bound other held).imp_right (le_max_of_le_right ·)
  bits other below near := by
    have within := fun held => (holds.bound other held).2
    dsimp only [AdnlReceivedMask.add] at below near ⊢
    rw [mem_cons]
    split_ifs with inside far
    · rw [max_eq_right inside] at below near ⊢
      rw [← holds.bits other below near, Nat.testBit_or, Nat.one_shiftLeft, Nat.testBit_two_pow, Bool.or_eq_true,
        decide_eq_true_iff, or_comm, show received.seqno - seqno = received.seqno - other ↔ other = seqno by omega]
    · rw [or_iff_left fun held => by have := within held; omega, Nat.testBit_one_eq_true_iff_self_eq_zero]
      omega
    · rw [max_eq_left (by omega)] at below near ⊢
      rw [Nat.testBit_or, Nat.testBit_mod_two_pow, Nat.testBit_shiftLeft]
      -- The mask moves up by what the highest number grows, and the new number is its lowest bit.
      by_cases old : other ≤ received.seqno
      · rw [← holds.bits other old (by omega), show seqno - other - (seqno - received.seqno) = received.seqno - other by omega]
        have first : seqno - other ≠ 0 ∧ other ≠ seqno := by omega
        have shifted : seqno - other < 64 ∧ seqno - received.seqno ≤ seqno - other := by omega
        simp only [Nat.testBit_one_eq_true_iff_self_eq_zero, Bool.or_eq_true, Bool.and_eq_true, decide_eq_true_iff, first, shifted,
          true_and, or_false, false_or]
      · rw [or_iff_left (old <| within ·)]
        simp [Nat.testBit_one_eq_true_iff_self_eq_zero]
        omega

omit positive in
lemma deliverPacket : (received.deliverPacket seqno).Exact := by
  unfold AdnlReceivedMask.deliverPacket
  split
  · exact holds
  next isNew =>
    rw [not_or] at isNew
    exact holds.add (by omega) isNew.2

end Exact

end AdnlReceivedMask

structure AdnlReceivedMaskVersion where
  mask : AdnlReceivedMask := {}
  utime : Int := 0

namespace AdnlReceivedMaskVersion

def packetIsDelivered (version : AdnlReceivedMaskVersion) (utime : Int) (seqno : Nat) : Bool :=
  if utime < version.utime then
    true
  else if utime = version.utime then
    if seqno = 0 ∨ 2 ^ 63 - 1 < seqno then false else version.mask.packetIsDelivered seqno
  else
    false

def deliverPacket (version : AdnlReceivedMaskVersion) (packet : Int × Nat) : AdnlReceivedMaskVersion :=
  if packet.1 < version.utime then
    version
  else if packet.2 = 0 ∨ 2 ^ 63 - 1 < packet.2 then
    version
  else if packet.1 = version.utime then
    { version with mask := version.mask.deliverPacket packet.2 }
  else
    ⟨({} : AdnlReceivedMask).deliverPacket packet.2, packet.1⟩

lemma deliverPacket_exact {version : AdnlReceivedMaskVersion} (holds : version.mask.Exact) (packet : Int × Nat) :
    (version.deliverPacket packet).mask.Exact := by
  unfold deliverPacket
  split_ifs
  · exact holds
  · exact holds
  · exact holds.deliverPacket
  · exact AdnlReceivedMask.Exact.empty.deliverPacket

end AdnlReceivedMaskVersion

structure Packet where
  seqno : Nat
  confirmSeqno : Nat := 0
  reinitDate : Int := 0
  dstReinitDate : Int := 0

/-- `received` is `in_seqno_` with `recv_seqno_mask_`. -/
structure AdnlPeerPair where
  received : AdnlReceivedMask := {}
  outSeqno : Nat := 0
  ackSeqno : Nat := 0
  reinitDate : Int := 0

inductive Event where
  | receive (now : Int) (packet : Packet)
  | send

namespace AdnlPeerPair

def reinit (pair : AdnlPeerPair) (date : Int) : AdnlPeerPair :=
  if pair.reinitDate = 0 then
    { pair with reinitDate := date }
  else if pair.reinitDate < date then
    { reinitDate := date }
  else
    pair

/-- The sum wraps around. -/
def receivedPacket (pair : AdnlPeerPair) (seqno : Nat) : Bool :=
  if (seqno + 64) % 2 ^ 64 ≤ pair.received.seqno then
    true
  else if pair.received.seqno < seqno then
    false
  else
    pair.received.mask.testBit (pair.received.seqno - seqno)

/-- `startTime` is `adnl_start_time`, `now` the system clock. -/
def receivePacketChecked (startTime now : Int) (packet : Packet) (pair : AdnlPeerPair) : AdnlPeerPair :=
  if startTime < packet.dstReinitDate ∨ now + 60 < packet.reinitDate then
    pair
  else
    let pair := if pair.reinitDate < packet.reinitDate then pair.reinit packet.reinitDate else pair
    if 0 < packet.reinitDate ∧ packet.reinitDate < pair.reinitDate ∨ 0 < packet.dstReinitDate ∧ packet.dstReinitDate < startTime ∨
        0 < packet.seqno ∧ pair.receivedPacket packet.seqno ∨ 0 < packet.confirmSeqno ∧ pair.outSeqno < packet.confirmSeqno then
      pair
    else
      { pair with
        received := if 0 < packet.seqno then pair.received.add packet.seqno else pair.received
        ackSeqno := max pair.ackSeqno packet.confirmSeqno }

def handle (startTime : Int) (pair : AdnlPeerPair) : Event → AdnlPeerPair
  | .receive now packet => pair.receivePacketChecked startTime now packet
  | .send => { pair with outSeqno := (pair.outSeqno + 1) % 2 ^ 64 }

variable {pair : AdnlPeerPair}

/-- Without a wrap around the two tests agree. -/
lemma receivedPacket_eq {seqno : Nat} (positive : 0 < seqno) (small : seqno + 64 < 2 ^ 64) :
    pair.receivedPacket seqno = pair.received.packetIsDelivered seqno := by
  rw [receivedPacket, Nat.mod_eq_of_lt small, AdnlReceivedMask.packetIsDelivered]
  split_ifs
  all_goals first | rfl | omega

lemma receivePacketChecked_exact (holds : pair.received.Exact) (startTime now : Int) {packet : Packet}
    (small : packet.seqno + 64 < 2 ^ 64) : (pair.receivePacketChecked startTime now packet).received.Exact := by
  unfold receivePacketChecked
  split
  · exact holds
  · have started : (if pair.reinitDate < packet.reinitDate then pair.reinit packet.reinitDate else pair).received.Exact := by
      unfold reinit
      split_ifs
      · exact holds
      · exact .empty
      · exact holds
    generalize (if pair.reinitDate < packet.reinitDate then pair.reinit packet.reinitDate else pair) = pair at started
    dsimp only
    split_ifs with dropped positive
    · exact started
    · refine started.add positive ?_
      rw [← receivedPacket_eq positive small]
      tauto
    · exact started

end AdnlPeerPair

/-- Packets whose number plus 64 does not wrap around are reported as received
exactly when they were accepted before or have left the window. -/
theorem replay_windows_exact (startTime : Int) (events : List Event) (deliveries : List (Int × Nat))
    (small : ∀ now packet, .receive now packet ∈ events → packet.seqno + 64 < 2 ^ 64) :
    let pair := events.foldl (AdnlPeerPair.handle startTime) {}
    let version := deliveries.foldl AdnlReceivedMaskVersion.deliverPacket {}
    (pair.received.accepted.Nodup ∧
      ∀ seqno, 0 < seqno → seqno + 64 < 2 ^ 64 →
        (pair.receivedPacket seqno = true ↔ Stale pair.received.accepted seqno)) ∧
    version.mask.accepted.Nodup ∧
    ∀ utime seqno, 0 < seqno → seqno < 2 ^ 63 →
      version.utime ≤ (version.deliverPacket (utime, seqno)).utime ∧
      (version.packetIsDelivered utime seqno = true ↔
        utime < version.utime ∨ utime = version.utime ∧ Stale version.mask.accepted seqno) := by
  intro pair version
  have holds : pair.received.Exact := by
    refine foldlRecOn (motive := fun pair : AdnlPeerPair => pair.received.Exact) events _ .empty fun pair holds event member => ?_
    cases event with
    | receive now packet => exact AdnlPeerPair.receivePacketChecked_exact holds startTime now (small now packet member)
    | send => exact holds
  have exactVersion : version.mask.Exact :=
    foldlRecOn (motive := fun version : AdnlReceivedMaskVersion => version.mask.Exact) deliveries _ .empty fun _ holds packet _ =>
      AdnlReceivedMaskVersion.deliverPacket_exact holds packet
  refine ⟨⟨holds.once, fun seqno positive small => ?_⟩, exactVersion.once, fun utime seqno positive small => ⟨?_, ?_⟩⟩
  · rw [AdnlPeerPair.receivedPacket_eq positive small, holds.packetIsDelivered_iff positive]
  · unfold AdnlReceivedMaskVersion.deliverPacket
    split_ifs with older
    · exact le_rfl
    · exact le_rfl
    · exact le_rfl
    · exact not_lt.mp older
  · rw [← exactVersion.packetIsDelivered_iff positive, AdnlReceivedMaskVersion.packetIsDelivered, if_neg (c := _ ∨ _) (by omega)]
    grind

def packetEvents : List Event :=
  [.receive 0 { seqno := 5 }, .receive 0 { seqno := 70 }, .send, .receive 0 { seqno := 69 }, .receive 0 { seqno := 6 }]

def packetDeliveries : List (Int × Nat) := [(1, 5), (2, 80), (1, 9), (2, 79), (2, 16)]

/-- Packets that come again, out of order and too late. -/
theorem replayed_packets_window :
    let pair := packetEvents.foldl (AdnlPeerPair.handle 0) {}
    let version := packetDeliveries.foldl AdnlReceivedMaskVersion.deliverPacket {}
    pair.receivedPacket 69 = true ∧
    pair.receivedPacket 6 = true ∧
    pair.receivedPacket 68 = false ∧
    version.packetIsDelivered 1 9 = true ∧
    version.packetIsDelivered 2 79 = true ∧
    version.packetIsDelivered 2 78 = false := by
  intro pair version
  have small : ∀ now packet, .receive now packet ∈ packetEvents → packet.seqno + 64 < 2 ^ 64 := by
    intro now packet member
    simp only [packetEvents, mem_cons, Event.receive.injEq, reduceCtorEq, not_mem_nil, or_false, false_or] at member
    rcases member with ⟨_, rfl⟩ | ⟨_, rfl⟩ | ⟨_, rfl⟩ | ⟨_, rfl⟩ <;> decide
  obtain ⟨⟨_, received⟩, _, delivered⟩ := replay_windows_exact 0 packetEvents packetDeliveries small
  have accepted : pair.received.accepted = [69, 70, 5] := by decide
  have newest : version.mask.accepted = [79, 80] ∧ version.utime = 2 := by decide
  refine ⟨?_, ?_, ?_, ?_, ?_, ?_⟩
  · exact (received 69 (by decide) (by decide)).mpr (.inl (by rw [accepted]; decide))
  · exact (received 6 (by decide) (by decide)).mpr (.inr ⟨70, by rw [accepted]; decide, by decide⟩)
  · rw [← Bool.not_eq_true, received 68 (by decide) (by decide), accepted]
    simp [Stale]
  · exact (delivered 1 9 (by decide) (by decide)).2.mpr (.inl (by rw [newest.2]; decide))
  · exact (delivered 2 79 (by decide) (by decide)).2.mpr (.inr ⟨newest.2.symm, .inl (by rw [newest.1]; decide)⟩)
  · rw [← Bool.not_eq_true, (delivered 2 78 (by decide) (by decide)).2, newest.1, newest.2]
    simp [Stale]

/-- The first packet of a peer is dropped as old. -/
theorem receivedPacket_wraps_around : let packet : Packet := { seqno := 2 ^ 64 - 64 }
    (AdnlPeerPair.handle 0 {} (.receive 0 packet)).received.accepted = [] ∧
    ({} : AdnlPeerPair).receivedPacket packet.seqno = true ∧ ¬ Stale [] packet.seqno :=
  ⟨by decide, by decide, by simp [Stale]⟩

end TonNode.Adnl
