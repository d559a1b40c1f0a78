import Mathlib.Data.List.Chain
import Dossh.Net.Rules

/-!
# The advertised window

Every segment of a connection carries `rcv_nxt` and the free space of the receive ring.  Their sum
is the right edge of the window, the end of what the peer may send.  The edge of the newest segment
is never beyond the edge the slot would advertise now (`EdgeInv`): storing data moves `rcv_nxt` up
by what the free space shrinks, and taking a byte out only adds to it.
-/

namespace Dossh

variable {n : Nat} {i : Fin n} {g : Nat} {net net' : Net n} {c c' : Conn}

/-! ## Edges -/

/-- The right edge of the window of a segment. -/
def Seg.edge (s : Seg) : BitVec 32 := s.ack + BitVec.ofNat 32 s.window

/-- The edge `tcp_send_seg` advertises. -/
def Conn.edge (c : Conn) : BitVec 32 := c.rcvNxt + BitVec.ofNat 32 c.rcvRoom

/-- The edges of the segments of connection `g` of slot `i`, newest first. -/
def edges (i : Fin n) (g : Nat) (log : List (NetEvent n)) : List (BitVec 32) :=
  (segsOf i g log).map Seg.edge

/-- The highest of some edges, newest first. -/
def highestEdge : List (BitVec 32) → Option (BitVec 32)
  | [] => none
  | e :: past => some ((highestEdge past).elim e fun e' => serialMax e' e)
termination_by structural es => es

/-- An edge that is not behind an older one, and less than a ring beyond it. -/
def EdgeUp (e' e : BitVec 32) : Prop := (e' - e).toNat ≤ RCV_SZ

theorem EdgeUp.toInt_nonneg {e e' : BitVec 32} (h : EdgeUp e' e) : 0 ≤ (e' - e).toInt := by
  have hle : (e' - e).toNat ≤ 512 := h
  rw [BitVec.toInt_eq_toNat_cond]
  split <;> omega

theorem EdgeUp.serialMax_eq {e e' : BitVec 32} (h : EdgeUp e' e) : serialMax e e' = e' := by
  unfold serialMax
  split
  · rfl
  next hpos =>
    have hle : (e' - e).toNat ≤ 512 := h
    rw [Serial.toInt_sub_pos] at hpos
    bv_omega

/-- The newest edge is the highest one. -/
theorem highestEdge_eq_head : ∀ {es : List (BitVec 32)}, es.IsChain EdgeUp →
    highestEdge es = es.head?
  | [], _ => rfl
  | [_], _ => rfl
  | e :: e' :: past, h => by
      rw [List.isChain_cons_cons] at h
      rw [highestEdge, highestEdge_eq_head h.2]
      simp [h.1.serialMax_eq]

/-! ## The invariant -/

/-- The edges of a connection go up, and the newest one is not beyond the present one. -/
structure EdgeInv (i : Fin n) (g : Nat) (net : Net n) : Prop where
  chain : (edges i g net.log).IsChain EdgeUp
  newest : (net.conns i).gen = g → ∀ e ∈ (edges i g net.log).head?,
    ∃ w ≤ (net.conns i).rcvRoom, e = (net.conns i).rcvNxt + BitVec.ofNat 32 w
  future : (net.conns i).gen < g → edges i g net.log = []
  indexed : ∀ j, (net.conns j).rcvIndexed

/-- The slot has the same connection, and at least as much free space. -/
structure Conn.Widens (c c' : Conn) : Prop where
  gen : c'.gen = c.gen
  nxt : c'.rcvNxt = c.rcvNxt
  room : c.rcvRoom ≤ c'.rcvRoom
  indexed : c.rcvIndexed → c'.rcvIndexed

namespace Conn.Widens

theorem same (hgen : c'.gen = c.gen) (hnxt : c'.rcvNxt = c.rcvNxt) (hhead : c'.rHead = c.rHead)
    (htail : c'.rTail = c.rTail) : c.Widens c' := by
  refine ⟨hgen, hnxt, ?_, ?_⟩
  · simp [Conn.rcvRoom, Conn.rcvUsed, hhead, htail]
  · simp [Conn.rcvIndexed, hhead, htail]

theorem refl (c : Conn) : c.Widens c := same rfl rfl rfl rfl

theorem of_sameRcv (h : c.SameRcv c') : c.Widens c' := same h.gen h.nxt h.head h.tail

/-- A ring that was emptied has the most free space. -/
theorem emptied (hgen : c'.gen = c.gen) (hnxt : c'.rcvNxt = c.rcvNxt) (hhead : c'.rHead = 0)
    (htail : c'.rTail = 0) : c.Widens c' := by
  have hall : c'.rcvRoom = RCV_SZ - 1 := by simp [Conn.rcvRoom, Conn.rcvUsed, hhead, htail, Ring.dist]
  refine ⟨hgen, hnxt, ?_, fun _ => ?_⟩
  · rw [hall]
    exact Nat.sub_le _ _
  · rw [Conn.rcvIndexed, hhead, htail]
    decide

theorem reset (c : Conn) : c.Widens (tcpResetListen c) := emptied rfl rfl rfl rfl

/-- `net_rx_getc` frees a byte. -/
theorem get (hne : c.rTail ≠ c.rHead) (hin : c.rcvIndexed) :
    c.Widens { c with rTail := (c.rTail + 1) % RCV_SZ } := by
  refine ⟨rfl, rfl, ?_, fun h => ⟨h.1, Nat.mod_lt _ (by decide)⟩⟩
  obtain ⟨hhead, htail⟩ := hin
  simp only [RCV_SZ] at hhead htail
  simp only [Conn.rcvRoom, Conn.rcvUsed, Ring.dist, RCV_SZ]
  omega

end Conn.Widens

/-- The storing loop moves as much out of the free space as it stores. -/
theorem rcvStore_room (f : Nat → UInt8) :
    ∀ (k o : Nat) (c : Conn), c.rcvIndexed →
      (rcvStore f k o c).2 + (rcvStore f k o c).1.rcvRoom = c.rcvRoom
  | 0, _, _, _ => Nat.zero_add _
  | k + 1, o, c, hin => by
      by_cases hfull : (c.rHead + 1) % RCV_SZ = c.rTail
      · rw [rcvStore_full f k o hfull]
        exact Nat.zero_add _
      · have ih := rcvStore_room f k (o + 1) _ (hin.keep (f o))
        have hroom := Conn.rcvRoom_keep hin hfull (f o)
        rw [rcvStore_keep f k o hfull]
        dsimp only
        omega

/-- The storing loop keeps the edge. -/
theorem Conn.edge_stored (f : Nat → UInt8) (k o : Nat) (hin : c.rcvIndexed) :
    Conn.edge { (rcvStore f k o c).1 with
      rcvNxt := c.rcvNxt + BitVec.ofNat 32 (rcvStore f k o c).2 } = c.edge := by
  have hroom := rcvStore_room f k o c hin
  rw [Conn.edge, Conn.edge, ← hroom, BitVec.ofNat_add, ← BitVec.add_assoc]
  rfl

namespace EdgeInv

/-- A step that sends no segment. -/
theorem quiet (h : EdgeInv i g net) (hlog : edges i g net'.log = edges i g net.log)
    (hw : ∀ j, (net.conns j).Widens (net'.conns j)) : EdgeInv i g net' := by
  refine ⟨?_, ?_, ?_, fun j => (hw j).indexed (h.indexed j)⟩
  · rw [hlog]
    exact h.chain
  · rw [hlog, (hw i).gen, (hw i).nxt]
    intro hg e he
    obtain ⟨w, hle, hew⟩ := h.newest hg e he
    exact ⟨w, hle.trans (hw i).room, hew⟩
  · rw [hlog, (hw i).gen]
    exact h.future

theorem set {j : Fin n} (h : EdgeInv i g net) (hw : (net.conns j).Widens c) :
    EdgeInv i g (net.set j c) := by
  refine h.quiet rfl fun k => ?_
  rw [Net.set_conns]
  split
  next hkj =>
    subst hkj
    exact hw
  next => exact .refl _

/-- The newest edge is less than a ring behind the present one. -/
theorem behind (h : EdgeInv i g net) (hg : (net.conns i).gen = g) {e : BitVec 32}
    (he : e ∈ (edges i g net.log).head?) : ((net.conns i).edge - e).toNat < RCV_SZ := by
  obtain ⟨w, hle, rfl⟩ := h.newest hg e he
  have hroom : (net.conns i).rcvRoom < RCV_SZ := Nat.lt_of_le_of_lt (Nat.sub_le _ _) (by decide)
  rw [Conn.edge]
  generalize (net.conns i).rcvRoom = r at hle hroom
  simp only [RCV_SZ] at hroom ⊢
  have hdiff : (net.conns i).rcvNxt + BitVec.ofNat 32 r -
      ((net.conns i).rcvNxt + BitVec.ofNat 32 w) = BitVec.ofNat 32 (r - w) := by bv_omega
  rw [hdiff, BitVec.toNat_ofNat, Nat.mod_eq_of_lt (by omega)]
  omega

/-- A segment, from a slot that was given an edge not behind the newest one. -/
theorem advertise {j : Fin n} (h : EdgeInv i g net) (hgen : c.gen = (net.conns j).gen)
    (hin : c.rcvIndexed) (hup : ∀ e, ((net.conns j).edge - e).toNat < RCV_SZ → EdgeUp c.edge e)
    (flags : UInt8) (mss : Bool) (doff dlen : Nat) :
    EdgeInv i g (tcpSendSeg (net.set j c) j flags mss doff dlen) := by
  have hedges : edges i g (tcpSendSeg (net.set j c) j flags mss doff dlen).log =
      if j = i ∧ (net.conns j).gen = g then c.edge :: edges i g net.log
      else edges i g net.log := by
    simp only [edges, segsOf_send, Net.set_conns_self, hgen, Net.set_log]
    split <;> rfl
  have hindexed : ∀ k, ((net.set j c).conns k).rcvIndexed := by
    intro k
    rw [Net.set_conns]
    split
    · exact hin
    · exact h.indexed k
  by_cases hji : j = i
  · subst hji
    by_cases hg : (net.conns j).gen = g
    · rw [if_pos ⟨rfl, hg⟩] at hedges
      refine ⟨?_, ?_, ?_, hindexed⟩
      · rw [hedges]
        exact h.chain.cons fun e he => hup e (h.behind hg he)
      · intro _ e he
        rw [hedges] at he
        cases he
        rw [tcpSendSeg_conns, Net.set_conns_self]
        exact ⟨_, le_rfl, rfl⟩
      · intro hlt
        rw [tcpSendSeg_conns, Net.set_conns_self, hgen, hg] at hlt
        exact absurd hlt (Nat.lt_irrefl _)
    · rw [if_neg fun hc => hg hc.2] at hedges
      refine ⟨?_, ?_, ?_, hindexed⟩
      · rw [hedges]
        exact h.chain
      · rw [tcpSendSeg_conns, Net.set_conns_self, hgen]
        exact fun hg' => absurd hg' hg
      · rw [hedges, tcpSendSeg_conns, Net.set_conns_self, hgen]
        exact h.future
  · rw [if_neg fun hc => hji hc.1] at hedges
    have hother : (tcpSendSeg (net.set j c) j flags mss doff dlen).conns i = net.conns i :=
      Net.set_conns_ne net c (Ne.symm hji)
    refine ⟨?_, ?_, ?_, hindexed⟩
    · rw [hedges]
      exact h.chain
    · rw [hedges, hother]
      exact h.newest
    · rw [hedges, hother]
      exact h.future

theorem send (h : EdgeInv i g net) (j : Fin n) (flags : UInt8) (mss : Bool) (doff dlen : Nat) :
    EdgeInv i g (tcpSendSeg net j flags mss doff dlen) := by
  have hsend := h.advertise (j := j) rfl (h.indexed j) (fun _ => Nat.le_of_lt) flags mss doff dlen
  rwa [show net.set j (net.conns j) = net by simp [Net.set]] at hsend

/-- A new connection has sent nothing yet. -/
theorem synAccept (h : EdgeInv i g net) (now : BitVec 32) (hd : TcpHdr) (j : Fin n) :
    EdgeInv i g (tcpInSynAccept now net hd j) := by
  have hsyn : EdgeInv i g ((net.note (.syn j (synConn now hd j (net.conns j)).gen
      (synConn now hd j (net.conns j)).sndUna)).set j (synConn now hd j (net.conns j))) := by
    refine ⟨h.chain, ?_, ?_, ?_⟩
    · intro hg e he
      rw [Net.set_conns] at hg ⊢
      split at hg
      next hij =>
        subst hij
        have hlt : (net.conns i).gen < g := by
          rw [← hg]
          exact Nat.lt_succ_self _
        have hnil : edges i g ((net.note (.syn i (synConn now hd i (net.conns i)).gen
          (synConn now hd i (net.conns i)).sndUna)).set i (synConn now hd i (net.conns i))).log =
            [] := h.future hlt
        rw [hnil] at he
        cases he
      next hij =>
        rw [if_neg hij]
        exact h.newest hg e he
    · rw [Net.set_conns]
      split
      next hij =>
        subst hij
        exact fun hlt => h.future (Nat.lt_of_succ_lt hlt)
      next => exact h.future
    · intro k
      rw [Net.set_conns]
      split
      · exact ⟨Nat.zero_lt_succ _, Nat.zero_lt_succ _⟩
      · exact h.indexed k
  refine (hsyn.send j 0x12 true 0 0).set ?_
  rw [tcpSendSeg_conns, Net.set_conns_self]
  exact .same rfl rfl rfl rfl

/-- The data block: what was stored is acknowledged at the same edge. -/
theorem data (h : EdgeInv i g net) (f : Nat → UInt8) (hd : TcpHdr) (j : Fin n) :
    EdgeInv i g (tcpInData f net hd j) := by
  unfold tcpInData
  split
  · exact h
  dsimp only
  split
  next =>
    refine h.advertise ?_ ?_ ?_ 0x10 false 0 0
    · have hs := (rcvStore_sameButRcv f hd.dlen (hd.off + hd.toff) (net.conns j)).eq
      rw [hs]
    · exact rcvStore_indexed f hd.dlen (hd.off + hd.toff) _ (h.indexed j)
    · intro e he
      rw [Conn.edge_stored f hd.dlen (hd.off + hd.toff) (h.indexed j)]
      exact Nat.le_of_lt he
  next => exact h.advertise rfl (h.indexed j) (fun _ => Nat.le_of_lt) 0x10 false 0 0

/-- The FIN block: the FIN takes one sequence number. -/
theorem fin (h : EdgeInv i g net) (hd : TcpHdr) (j : Fin n) : EdgeInv i g (tcpInFin net hd j) := by
  unfold tcpInFin
  split
  next =>
    refine EdgeInv.set ?_ (.reset _)
    refine h.advertise ?_ ?_ ?_ 0x10 false 0 0
    · rfl
    · exact h.indexed j
    · intro e he
      have hone : Conn.edge { net.conns j with rcvNxt := (net.conns j).rcvNxt + 1 } - e =
          (net.conns j).edge - e + 1 := by
        simp only [Conn.edge]
        have hroom : Conn.rcvRoom { net.conns j with rcvNxt := (net.conns j).rcvNxt + 1 } =
            (net.conns j).rcvRoom := rfl
        rw [hroom]
        bv_omega
      rw [EdgeUp, hone]
      simp only [RCV_SZ] at he ⊢
      bv_omega
  next => exact h

theorem survives (i : Fin n) (g : Nat) : Survives (EdgeInv i g) where
  quiet h hq := by
    refine h.quiet ?_ fun j => .of_sameRcv (hq.slots j)
    rw [edges, hq.segs i g]
    rfl
  send j flags mss doff dlen h := h.send j flags mss doff dlen
  reset j h := h.set (.reset _)
  syn now hd j h := h.synAccept now hd j

theorem run (h : EdgeInv i g net) (op : NetOp n) : EdgeInv i g (op.run net) := by
  by_cases hop : ∃ j, op = .rxGetc j
  · obtain ⟨j, rfl⟩ := hop
    simp only [NetOp.run]
    by_cases hne : (net.conns j).rTail = (net.conns j).rHead
    · rw [netRxGetc_empty hne]
      exact h
    · rw [netRxGetc_some hne]
      exact h.set (.get hne (h.indexed j))
  · refine (survives i g).run (survives i g).toCarried (fun _ => id) op (not_exists.mp hop) ?_ h
    intro _ _ p _ _ hp
    exact (hp.data p.frame p.hdr p.slot).fin p.hdr p.slot

end EdgeInv

/-- Every reachable state. -/
theorem NetReach.edgeInv (h : NetReach net) (i : Fin n) (g : Nat) : EdgeInv i g net := by
  refine h.induct (P := EdgeInv i g) ?_ fun op net h => h.run op
  intro m ip p
  refine ⟨.nil, ?_, fun _ => rfl, fun _ => ⟨Nat.zero_lt_succ _, Nat.zero_lt_succ _⟩⟩
  intro _ e he
  cases he

/-! ## Data inside the window -/

/-- How many bytes of the segment the storing loop keeps. -/
def AtData.kept (p : AtData n) : Nat :=
  (rcvStore p.frame p.hdr.dlen (p.hdr.off + p.hdr.toff) p.conn).2

/-- The storing loop keeps all of a segment that ends inside the newest window. -/
theorem EdgeInv.keeps_all {p : AtData n} {e : BitVec 32} (h : EdgeInv p.slot p.conn.gen p.net)
    (he : highestEdge (edges p.slot p.conn.gen p.net.log) = some e)
    (hseq : p.hdr.seq = p.conn.rcvNxt)
    (hin : (p.hdr.seq + BitVec.ofNat 32 p.hdr.dlen - e).toInt ≤ 0) : p.kept = p.hdr.dlen := by
  rw [highestEdge_eq_head h.chain] at he
  obtain ⟨w, hw, rfl⟩ := h.newest rfl e he
  have hroom : p.conn.rcvRoom < 512 := Nat.lt_of_le_of_lt (Nat.sub_le _ _) (by decide)
  have hw' : w ≤ p.conn.rcvRoom := hw
  have hlen : p.hdr.dlen < 65536 := Nat.lt_of_le_of_lt (Nat.sub_le _ _) (Nat.mod_lt _ (by decide))
  have hdist : ∀ k < 2 ^ 31, (p.conn.rcvNxt + BitVec.ofNat 32 k - p.conn.rcvNxt).toNat = k := by
    intro k hk
    rw [add_sub_cancel_left]
    exact Nat.mod_eq_of_lt (by omega)
  have hfits : p.hdr.dlen ≤ w := by
    have hle := Serial.toInt_sub_le (u := p.conn.rcvNxt) (x := p.conn.rcvNxt + BitVec.ofNat 32 w)
      (a := p.conn.rcvNxt + BitVec.ofNat 32 p.hdr.dlen)
    rw [hdist _ (by omega), hdist _ (by omega)] at hle
    rw [hseq] at hin
    exact (hle (by omega) (by omega)).mp hin
  have hcount := rcvStore_count p.frame p.hdr.dlen (p.hdr.off + p.hdr.toff) _ (h.indexed p.slot)
  rw [AtData.kept, AtData.conn, hcount, ← AtData.conn]
  omega

/-- The right edge of the window never goes back, and data up to the highest edge is kept. -/
theorem window_honest {net : Net n} (hr : NetReach net) :
    (∀ i g, (edges i g net.log).IsChain fun e' e => 0 ≤ (e' - e).toInt) ∧
      ∀ now pkt p, netPollAtData now pkt net = some p →
        ∀ e, highestEdge (edges p.slot p.conn.gen p.net.log) = some e →
          p.hdr.seq = p.conn.rcvNxt →
          (p.hdr.seq + BitVec.ofNat 32 p.hdr.dlen - e).toInt ≤ 0 → p.kept = p.hdr.dlen := by
  refine ⟨fun i g => ?_, fun now pkt p hp e he hseq hin => ?_⟩
  · exact (hr.edgeInv i g).chain.imp fun _ _ h => h.toInt_nonneg
  · exact ((EdgeInv.survives _ _).atData (hr.edgeInv _ _) hp).keeps_all he hseq hin

/-- The next byte of the client of `clientRun` at the data block. -/
def clientData : AtData 2 :=
  (netPollAtData 2 (some (sampleData 2 [33])) clientRun).get (by decide +kernel)

theorem window_honest_clientRun :
    NetReach clientRun ∧ netPollAtData 2 (some (sampleData 2 [33])) clientRun = some clientData ∧
      highestEdge (edges clientData.slot clientData.conn.gen clientData.net.log) = some 517 ∧
      clientData.kept = clientData.hdr.dlen := by
  have hr : NetReach clientRun := ⟨_, _, _, _, rfl⟩
  have hp : netPollAtData 2 (some (sampleData 2 [33])) clientRun = some clientData :=
    (Option.some_get _).symm
  have hedge : highestEdge (edges clientData.slot clientData.conn.gen clientData.net.log) =
      some 517 := by decide +kernel
  exact ⟨hr, hp, hedge, (window_honest hr).2 2 _ _ hp 517 hedge (by decide +kernel)
    (by decide +kernel)⟩

end Dossh
