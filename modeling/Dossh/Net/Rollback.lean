import Dossh.Net.Timer

/-!
# What the roll-back of `snd_nxt` breaks

Two guarantees of the timer, each with the exact states in which the code keeps
it.  An acknowledgement of transmitted bytes is accepted unless `snd_nxt` is
rolled back when it is processed, which it is in the `net_poll` in which the timer
expires and, in `SYNRCVD`, ever after the first retransmission.  And a slot that
waits for its peer is given back after `MAX_REXMIT + 1` expiries unless it is in
`SYNRCVD`, where the first expiry disarms the timer for good.
-/

namespace Dossh

variable {n : Nat}

/-! ## Acknowledgements -/

/-- The slot and the header of a received ACK segment: a frame that reaches the
blocks of `tcp_in` behind the RST and the SYN block, with ACK set, on a live
connection. -/
def ackSegment (net : Net n) (stage : List UInt8) : Option (Fin n × TcpHdr) :=
  let f := overlay net.work 0 (stage.take WORK_SZ)
  let h := tcpHdr f
  if tcpFrame net f (stage.take WORK_SZ).length && h.dport = net.myPort && h.toff ≤ h.tcplen &&
      !hasFlag h.flags 0x04 && !hasFlag h.flags 0x02 && hasFlag h.flags 0x10 then
    (findConn net h.sport h.srcIp).map fun i => (i, h)
  else none

/-- The slot took the acknowledgement: `snd_una` is the acknowledged number, the
slot is established, unless a FIN of the same segment closed it, and the ring of an
established slot gave the acknowledged bytes free. -/
structure AckAccepted (c c' : Conn) (h : TcpHdr) : Prop where
  una : c'.sndUna = h.ack
  tstate : c'.tstate = if hasFlag h.flags 0x01 then .listen else .estab
  ring : c.tstate = .estab →
    c'.used = if hasFlag h.flags 0x01 then 0 else c.used - (h.ack - c.sndUna).toNat

/-- What is wanted of one ACK segment `h` for slot `i` between the states before and
after the `net_poll` that receives it. -/
structure AckHonoured (net net' : Net n) (i : Fin n) (h : TcpHdr) : Prop where
  covers : (net.conns i).outstanding h.ack → AckAccepted (net.conns i) (net'.conns i) h
  synrcvd : (net.conns i).tstate = .synrcvd →
    ∀ iss, NetEvent.syn i (net.conns i).gen iss ∈ net.log →
      (AckAccepted (net.conns i) (net'.conns i) h ↔ h.ack = iss + 1)

theorem Conn.timer_peer (now : BitVec 32) (c : Conn) :
    (c.timer now).peerPort = c.peerPort ∧ (c.timer now).peerIp = c.peerIp ∧
      (c.timer now).sndUna = c.sndUna ∧
      ((c.timer now).tstate = c.tstate ∨ (c.timer now).tstate = .listen) := by
  unfold Conn.timer
  repeat' split
  all_goals simp [tcpResetListen]

/-- The timers of a poll do not hide a live connection from `find_conn`. -/
theorem findConn_netTimers {net : Net n} {now : BitVec 32} {sport : Nat} {ip : List UInt8}
    {i : Fin n} (h : findConn net sport ip = some i)
    (hlive : ((net.conns i).timer now).tstate ≠ .listen) :
    findConn (netTimers now net) sport ip = some i := by
  unfold findConn at h ⊢
  rw [List.find?_eq_some_iff_append] at h ⊢
  obtain ⟨hp, as, bs, hsplit, has⟩ := h
  obtain ⟨hport, hip, _, _⟩ := (net.conns i).timer_peer now
  refine ⟨?_, as, bs, hsplit, fun j hj => ?_⟩
  · simp only [netTimers_conns, hport, hip]
    simp only [Bool.and_eq_true, decide_eq_true_eq] at hp ⊢
    exact ⟨⟨hlive, hp.1.2⟩, hp.2⟩
  · have hno := has j hj
    obtain ⟨hport, hip, _, hst⟩ := (net.conns j).timer_peer now
    simp only [netTimers_conns, hport, hip]
    rcases hst with hst | hst
    · rw [hst]
      exact hno
    · simp [hst]

theorem findConn_live {net : Net n} {sport : Nat} {ip : List UInt8} {i : Fin n}
    (h : findConn net sport ip = some i) : (net.conns i).tstate ≠ .listen := by
  have hp := List.find?_some h
  simp only [Bool.and_eq_true, decide_eq_true_eq] at hp
  exact hp.1.1

/-- The blocks of `tcp_in` touch the slot of the segment only. -/
theorem tcpInConn_other (now : BitVec 32) (f : Nat → UInt8) (net : Net n) (h : TcpHdr)
    {i j : Fin n} (hji : j ≠ i) : (tcpInConn now f net h i).conns j = net.conns j := by
  have hfin : ∀ net : Net n, (tcpInFin net h i).conns j = net.conns j := by
    intro net
    unfold tcpInFin
    split
    · simp [hji]
    · rfl
  have hdata : ∀ net : Net n, (tcpInData f net h i).conns j = net.conns j := by
    intro net
    unfold tcpInData
    split
    · rfl
    · simp [hji]
  unfold tcpInConn tcpInSynrcvd
  dsimp only
  split
  · rfl
  next net' hs =>
    have hfirst : net'.conns j = net.conns j := by
      split at hs
      · split at hs
        · cases hs
          simp [hji]
        · cases hs
      · cases hs
        rfl
    split
    · exact hfirst
    · rw [hfin, hdata, Net.set_conns_ne _ _ hji, hfirst]

theorem tcpResetListen_used (c : Conn) : (tcpResetListen c).used = 0 := by
  simp [Conn.used, tcpResetListen, Ring.dist]

/-- An established slot after a segment: the ACK block, and a FIN closes it. -/
theorem tcpInConn_estab (now : BitVec 32) (f : Nat → UInt8) (net : Net n) (h : TcpHdr)
    (i : Fin n) (hst : (net.conns i).tstate = .estab) :
    ((tcpInConn now f net h i).conns i).sndUna = (tcpInAck now h (net.conns i)).sndUna ∧
      ((tcpInConn now f net h i).conns i).tstate =
        (if hasFlag h.flags 0x01 then .listen else .estab) ∧
      ((tcpInConn now f net h i).conns i).used =
        if hasFlag h.flags 0x01 then 0 else (tcpInAck now h (net.conns i)).used := by
  have hs : tcpInSynrcvd net h i = some net := by simp [tcpInSynrcvd, hst]
  have hd := (tcpInData_sameButRcv f (net.set i (tcpInAck now h (net.conns i))) h i).eq
  rw [Net.set_conns_self] at hd
  simp only [tcpInConn, hs, hst, ne_eq, not_true_eq_false, if_false, tcpInFin]
  have htst : (tcpInAck now h (net.conns i)).tstate = .estab := by rw [tcpInAck_tstate, hst]
  split
  · simp only [Net.set_conns_self, tcpSendSeg_conns]
    refine ⟨?_, rfl, tcpResetListen_used _⟩
    show ((tcpInData f (net.set i (tcpInAck now h (net.conns i))) h i).conns i).sndUna = _
    rw [hd]
  · rw [hd]
    exact ⟨rfl, htst, rfl⟩

/-- A half-open slot after an ACK segment. -/
theorem tcpInConn_synrcvd (now : BitVec 32) (f : Nat → UInt8) (net : Net n) (h : TcpHdr)
    (i : Fin n) (hst : (net.conns i).tstate = .synrcvd) (hflag : hasFlag h.flags 0x10 = true) :
    (h.ack = (net.conns i).sndNxt →
      ((tcpInConn now f net h i).conns i).sndUna = h.ack ∧
      ((tcpInConn now f net h i).conns i).tstate =
        if hasFlag h.flags 0x01 then .listen else .estab) ∧
    (h.ack ≠ (net.conns i).sndNxt → (tcpInConn now f net h i).conns i = net.conns i) := by
  constructor
  · intro hack
    -- from the establishing block on the slot is one that was established before
    have hrest := tcpInConn_estab now f ((net.note (.estab i (net.conns i).gen h.ack)).set i
      { net.conns i with sndUna := h.ack, tstate := .estab, justEstab := true, rexmitCount := 0 })
      h i (by rw [Net.set_conns_self])
    have hsame : tcpInConn now f net h i = tcpInConn now f
        ((net.note (.estab i (net.conns i).gen h.ack)).set i { net.conns i with
          sndUna := h.ack, tstate := .estab, justEstab := true, rexmitCount := 0 }) h i := by
      simp [tcpInConn, tcpInSynrcvd, hst, hflag, hack]
    rw [← hsame, Net.set_conns_self] at hrest
    refine ⟨?_, hrest.2.1⟩
    rw [hrest.1, tcpInAck]
    split <;> rfl
  · intro hack
    simp [tcpInConn, tcpInSynrcvd, hst, hflag, hack]

theorem netTimers_frame (now : BitVec 32) (net : Net n) :
    (netTimers now net).work = net.work ∧ (netTimers now net).gIp = net.gIp ∧
      (netTimers now net).myPort = net.myPort := by
  have hone : ∀ (net : Net n) (i : Fin n), (tcpTimer now net i).work = net.work ∧
      (tcpTimer now net i).gIp = net.gIp ∧ (tcpTimer now net i).myPort = net.myPort := by
    intro net i
    unfold tcpTimer
    dsimp only
    repeat' split
    all_goals exact ⟨rfl, rfl, rfl⟩
  have hall : ∀ (is : List (Fin n)) (net : Net n),
      (is.foldl (tcpTimer now) net).work = net.work ∧
        (is.foldl (tcpTimer now) net).gIp = net.gIp ∧
        (is.foldl (tcpTimer now) net).myPort = net.myPort := by
    intro is
    induction is with
    | nil => exact fun _ => ⟨rfl, rfl, rfl⟩
    | cons i is ih =>
        intro net
        obtain ⟨h1, h2, h3⟩ := ih (tcpTimer now net i)
        obtain ⟨k1, k2, k3⟩ := hone net i
        exact ⟨h1.trans k1, h2.trans k2, h3.trans k3⟩
  exact hall _ net

/-- An ACK segment reaches the blocks of the slot `find_conn` gives after the
timers. -/
theorem netReceive_ack {net : Net n} {stage : List UInt8} {i : Fin n} {h : TcpHdr}
    (hack : ackSegment net stage = some (i, h)) (now : BitVec 32) :
    hasFlag h.flags 0x10 = true ∧ findConn net h.sport h.srcIp = some i ∧
      ∃ f net1, net1.conns = (netTimers now net).conns ∧
        netReceive now (netTimers now net) (some stage) =
          match findConn (netTimers now net) h.sport h.srcIp with
          | none => net1
          | some j => tcpInConn now f net1 h j := by
  unfold ackSegment at hack
  dsimp only at hack
  split at hack
  next hcond =>
    simp only [Bool.and_eq_true, Bool.not_eq_true', decide_eq_true_eq] at hcond
    obtain ⟨⟨⟨⟨⟨htcp, hport⟩, htoff⟩, hrst⟩, hsyn⟩, hflag⟩ := hcond
    obtain ⟨j, hfind, heq⟩ := Option.map_eq_some_iff.mp hack
    obtain ⟨rfl, rfl⟩ := Prod.mk.inj heq
    obtain ⟨hwork, hip, hmy⟩ := netTimers_frame now net
    refine ⟨hflag, hfind, overlay net.work 0 (stage.take WORK_SZ),
      { netTimers now net with work := overlay net.work 0 (stage.take WORK_SZ) }, rfl, ?_⟩
    simp only [netReceive, hwork]
    rw [handleFrame_tcp]
    · simp only [tcpIn, hmy, hport, hrst, hsyn, ne_eq, not_true_eq_false, if_false,
        Nat.not_lt.mpr htoff, Bool.false_eq_true]
      rfl
    · rw [← htcp]
      simp only [tcpFrame, hip]
  next => cases hack

/-- The slot of an ACK segment after the poll that receives it. -/
theorem netPoll_ack {net : Net n} {stage : List UInt8} {i : Fin n} {h : TcpHdr}
    (hack : ackSegment net stage = some (i, h)) (now : BitVec 32) :
    hasFlag h.flags 0x10 = true ∧ (net.conns i).tstate ≠ .listen ∧
      ∃ c', (((net.conns i).timer now).tstate = .listen → c' = (net.conns i).timer now) ∧
        (((net.conns i).timer now).tstate ≠ .listen →
          ∃ (f : Nat → UInt8) (net1 : Net n), net1.conns i = (net.conns i).timer now ∧
            c' = (tcpInConn now f net1 h i).conns i) ∧
        c'.Flushed ((netPoll now (some stage) net).conns i) := by
  obtain ⟨hflag, hfind, f, net1, hconns, hrecv⟩ := netReceive_ack hack now
  have h1 : net1.conns i = (net.conns i).timer now := by rw [hconns, netTimers_conns]
  refine ⟨hflag, findConn_live hfind, _, fun hreap => ?_, fun hlive => ?_, netTxFlush_conns now _ i⟩
  · -- the slot was given up by its timer, so the segment is for another slot or none
    rw [hrecv]
    split
    next => exact h1
    next j hj =>
      have hji : i ≠ j := by
        rintro rfl
        have hl := findConn_live hj
        rw [netTimers_conns] at hl
        exact hl hreap
      rw [tcpInConn_other now f net1 h hji, h1]
  · rw [hrecv, findConn_netTimers hfind hlive]
    exact ⟨f, net1, h1, rfl⟩

theorem Conn.Flushed.kept {c c' : Conn} (h : c.Flushed c') :
    c'.sndUna = c.sndUna ∧ c'.tstate = c.tstate ∧ c'.used = c.used := by
  rw [h.same]
  exact ⟨rfl, rfl, rfl⟩

/-- `snd_nxt` is where the transmitted sequence space ends when the segments of a
poll are processed: it was not rolled back before, and the timer does not expire. -/
def Conn.unrolled (now : BitVec 32) (c : Conn) : Prop :=
  c.sndNxt = c.sndMax ∧ c.expired now = false

/-- Without a roll-back the timer leaves the slot alone. -/
theorem Conn.unrolled.timer {now : BitVec 32} {c : Conn} (h : c.unrolled now) :
    c.timer now = c := by
  rw [Conn.timer, if_neg (by rw [h.2]; decide)]

/-- With a roll-back the slot is given up or has `snd_nxt` at `snd_una`. -/
theorem Conn.timer_rolled {now : BitVec 32} {c : Conn} (hset : c.settled)
    (hne : c.tstate ≠ .listen) (h : ¬ c.unrolled now) :
    (c.timer now).tstate = .listen ∨
      ((c.timer now).tstate = c.tstate ∧ (c.timer now).sndNxt = c.sndUna) := by
  cases hex : c.expired now with
  | true =>
      rw [Conn.timer, if_pos hex]
      split
      · exact .inl rfl
      · exact .inr ⟨rfl, rfl⟩
  | false =>
      rw [Conn.timer, if_neg (by rw [hex]; decide)]
      rcases hset hne with heq | ⟨hn, _⟩
      · exact absurd ⟨heq, hex⟩ h
      · exact .inr ⟨rfl, hn⟩

theorem SeqOk.timer_synrcvd {c : Conn} (h : SeqOk c) (hst : c.tstate = .synrcvd)
    (now : BitVec 32) : (c.timer now).tstate = .synrcvd := by
  obtain ⟨_, hcase⟩ := h.synrcvd hst
  unfold Conn.timer
  split
  · split
    next hmax =>
      unfold MAX_REXMIT at hmax
      omega
    next => exact hst
  · exact hst

/-- In `SYNRCVD` only the number after `snd_una` is outstanding. -/
theorem SeqOk.outstanding_synrcvd {c : Conn} (h : SeqOk c) (hst : c.tstate = .synrcvd)
    (ack : BitVec 32) : c.outstanding ack ↔ ack = c.sndUna + 1 := by
  have hone : c.sndUna + 1 - c.sndUna = 1 := by bv_omega
  have hhigh : c.high = 1 := by
    rw [Conn.high, (h.synrcvd hst).1, hone]
    decide
  rw [outstanding_iff (by rw [hhigh]; decide), hhigh, ← Serial.toNat_sub_inj (u := c.sndUna), hone]
  show _ ↔ _ = 1
  omega

theorem Conn.outstanding.ne {c : Conn} {ack : BitVec 32} (h : c.outstanding ack) :
    ack ≠ c.sndUna := by
  rintro rfl
  have hpos := h.1
  simp at hpos

/-- A half-open slot takes an acknowledgement iff it is `snd_nxt` after the timer. -/
theorem ackAccepted_synrcvd {net : Net n} (hok : TimerOk net) {stage : List UInt8} {i : Fin n}
    {h : TcpHdr} (hack : ackSegment net stage = some (i, h)) (now : BitVec 32)
    (hst : (net.conns i).tstate = .synrcvd) :
    AckAccepted (net.conns i) ((netPoll now (some stage) net).conns i) h ↔
      h.ack = ((net.conns i).timer now).sndNxt := by
  obtain ⟨hflag, _, c', _, hlive, hfl⟩ := netPoll_ack hack now
  have hst1 := (hok.seq i).timer_synrcvd hst now
  obtain ⟨f, net1, h1, hc'⟩ := hlive (by rw [hst1]; decide)
  obtain ⟨hyes, hno⟩ := tcpInConn_synrcvd now f net1 h i (by rw [h1]; exact hst1) hflag
  obtain ⟨kuna, kst, _⟩ := hfl.kept
  rw [h1] at hyes hno
  constructor
  · intro hacc
    by_contra hne
    have htst := hacc.tstate
    rw [kst, hc', hno hne, hst1] at htst
    split at htst <;> cases htst
  · intro heq
    obtain ⟨huna, htst⟩ := hyes heq
    refine ⟨?_, ?_, fun hes => ?_⟩
    · rw [kuna, hc', huna]
    · rw [kst, hc', htst]
    · rw [hst] at hes
      cases hes

/-- An established slot without a roll-back takes what is outstanding. -/
theorem ackAccepted_estab {net : Net n} (hok : TimerOk net) {stage : List UInt8} {i : Fin n}
    {h : TcpHdr} (hack : ackSegment net stage = some (i, h)) (now : BitVec 32)
    (hst : (net.conns i).tstate = .estab) (hun : (net.conns i).unrolled now)
    (hout : (net.conns i).outstanding h.ack) :
    AckAccepted (net.conns i) ((netPoll now (some stage) net).conns i) h := by
  obtain ⟨hflag, _, c', _, hlive, hfl⟩ := netPoll_ack hack now
  rw [hun.timer] at hlive
  obtain ⟨f, net1, h1, hc'⟩ := hlive (by rw [hst]; decide)
  have hsum := hok.sum hst
  have hsent : (net.conns i).high = (net.conns i).sent := by rw [Conn.high, ← hun.1, Conn.sent]
  have hacc : (hasFlag h.flags 0x10 && (net.conns i).acceptsAck h.ack) = true := by
    rw [outstanding_iff (by omega), hsent] at hout
    rw [hflag, Bool.true_and]
    exact (acceptsAck_iff (by omega)).mpr hout
  obtain ⟨kuna, kst, kused⟩ := hfl.kept
  obtain ⟨huna, htst, hused⟩ := tcpInConn_estab now f net1 h i (by rw [h1]; exact hst)
  rw [← hc'] at huna htst hused
  rw [h1] at huna hused
  refine ⟨?_, by rw [kst, htst], fun _ => ?_⟩
  · rw [kuna, huna, tcpInAck, if_pos hacc]
  · rw [kused, hused, (tcpInAck_accepted now hacc hsum).2.1]

/-- An established slot with a roll-back takes no acknowledgement. -/
theorem not_ackAccepted_estab {net : Net n} {stage : List UInt8} {i : Fin n} {h : TcpHdr}
    (hset : (net.conns i).settled) (hack : ackSegment net stage = some (i, h)) (now : BitVec 32)
    (hst : (net.conns i).tstate = .estab) (hun : ¬ (net.conns i).unrolled now)
    (hne : h.ack ≠ (net.conns i).sndUna) :
    ¬ AckAccepted (net.conns i) ((netPoll now (some stage) net).conns i) h := by
  obtain ⟨hflag, hlst, c', hreap, hlive, hfl⟩ := netPoll_ack hack now
  obtain ⟨kuna, _, _⟩ := hfl.kept
  obtain ⟨_, _, huna1, _⟩ := (net.conns i).timer_peer now
  have hc : c'.sndUna = (net.conns i).sndUna := by
    by_cases hl : ((net.conns i).timer now).tstate = .listen
    · rw [hreap hl, huna1]
    · rcases (net.conns i).timer_rolled hset hlst hun with hl' | ⟨hst1, hn⟩
      · exact absurd hl' hl
      · obtain ⟨f, net1, h1, hc'⟩ := hlive hl
        obtain ⟨huna, _, _⟩ := tcpInConn_estab now f net1 h i (by rw [h1, hst1, hst])
        rw [← hc', h1] at huna
        have hzero : ((net.conns i).timer now).sent = 0 := by
          rw [Conn.sent, hn, huna1]
          simp
        have hrej : ¬ ((net.conns i).timer now).acceptsAck h.ack = true := by
          rw [acceptsAck_iff (by rw [hzero]; decide), hzero]
          omega
        rw [huna, tcpInAck, if_neg (by rw [hflag, Bool.true_and]; exact hrej), huna1]
  intro hacc
  exact hne (by rw [← hacc.una, kuna, hc])

/-- In every state of every run, an ACK segment is honoured iff `snd_nxt` is not
rolled back when it is processed, or the segment is neither outstanding nor, in
`SYNRCVD`, the number that a rolled-back `snd_nxt` takes instead. -/
theorem ack_honoured_iff {net : Net n} (hr : NetReach net) {stage : List UInt8} {i : Fin n}
    {h : TcpHdr} (hack : ackSegment net stage = some (i, h)) (now : BitVec 32) :
    AckHonoured net (netPoll now (some stage) net) i h ↔
      (net.conns i).unrolled now ∨ (¬ (net.conns i).outstanding h.ack ∧
        ¬ ((net.conns i).tstate = .synrcvd ∧ h.ack = (net.conns i).sndUna)) := by
  obtain ⟨hok, hset⟩ := hr.timerOk
  obtain ⟨_, hlst, _⟩ := netPoll_ack hack now
  cases hst : (net.conns i).tstate with
  | listen => exact absurd hst hlst
  | synrcvd =>
      have hacc := ackAccepted_synrcvd hok hack now hst
      have hout := (hok.seq i).outstanding_synrcvd hst h.ack
      have hiss := (hok.send.slots i).iss hst
      by_cases hun : (net.conns i).unrolled now
      · refine ⟨fun _ => .inl hun, fun _ => ?_⟩
        have hnxt : ((net.conns i).timer now).sndNxt = (net.conns i).sndUna + 1 := by
          rw [hun.timer, hun.1, ((hok.seq i).synrcvd hst).1]
        rw [hnxt] at hacc
        refine ⟨fun h1 => hacc.mpr (hout.mp h1), fun _ iss h1 => ?_⟩
        rw [(hiss iss).mp h1]
        exact hacc
      · have hnxt : ((net.conns i).timer now).sndNxt = (net.conns i).sndUna := by
          rcases (net.conns i).timer_rolled (hset i) hlst hun with hl | ⟨_, hn⟩
          · rw [(hok.seq i).timer_synrcvd hst now] at hl
            cases hl
          · exact hn
        rw [hnxt] at hacc
        have hdiff : (net.conns i).sndUna ≠ (net.conns i).sndUna + 1 := by bv_omega
        constructor
        · intro hh
          have hiff := hacc.symm.trans (hh.synrcvd hst _ ((hiss _).mpr rfl))
          refine .inr ⟨fun h1 => ?_, fun h1 => ?_⟩
          · exact hdiff ((hiff.mpr (hout.mp h1)).symm.trans (hout.mp h1))
          · exact hdiff (h1.2.symm.trans (hiff.mp h1.2))
        · rintro (h1 | ⟨h1, h2⟩)
          · exact absurd h1 hun
          · refine ⟨fun h3 => absurd h3 h1, fun _ iss h3 => ?_⟩
            rw [(hiss iss).mp h3]
            exact ⟨fun h4 => absurd ⟨rfl, hacc.mp h4⟩ h2, fun h4 => absurd (hout.mpr h4) h1⟩
  | estab =>
      constructor
      · intro hh
        by_cases hun : (net.conns i).unrolled now
        · exact .inl hun
        · refine .inr ⟨fun hout => ?_, (fun h1 => by cases h1.1)⟩
          exact not_ackAccepted_estab (hset i) hack now hst hun hout.ne (hh.covers hout)
      · intro hcond
        refine ⟨fun hout => ?_, (fun hs => by rw [hst] at hs; cases hs)⟩
        rcases hcond with hun | ⟨h1, _⟩
        · exact ackAccepted_estab hok hack now hst hun hout
        · exact absurd hout h1

/-- A client's SYN at tick 0, and what happens after it. -/
def synThen (ops : List (NetOp 2)) : Net 2 :=
  netRun (.poll 0 (some (peerFrame [10, 0, 2, 2] [10, 0, 2, 15] 1000 22 5 0 0x02 [])) :: ops)
    (netOpen (List.replicate 6 0) [10, 0, 2, 15] 22)

/-- A SYN at tick 0, and quiet polls at the given ticks. -/
def synRun (ts : List (BitVec 32)) : Net 2 := synThen (ts.map fun t => .poll t none)

/-- The client's acknowledgement of the SYN|ACK that `synRun` sent. -/
def synAck : List UInt8 := peerFrame [10, 0, 2, 2] [10, 0, 2, 15] 1000 22 6 0x13701 0x10 []

/-- The header of `synAck`. -/
def synAckHdr : TcpHdr where
  srcMac := List.replicate 6 0
  srcIp := [10, 0, 2, 2]
  off := 34
  tcplen := 20
  toff := 20
  flags := 0x10
  sport := 1000
  dport := 22
  seq := 6
  ack := 0x13701

theorem ack_honoured_iff_synRun :
    ackSegment (synRun []) synAck = some (0, synAckHdr) ∧
      AckHonoured (synRun []) (netPoll 3 (some synAck) (synRun [])) 0 synAckHdr := by
  have hack : ackSegment (synRun []) synAck = some (0, synAckHdr) := by decide +kernel
  refine ⟨hack, (ack_honoured_iff ⟨_, _, _, _, rfl⟩ hack 3).mpr (.inl ⟨?_, ?_⟩)⟩
  · decide +kernel
  · decide +kernel

/-- After one retransmission of the SYN|ACK its acknowledgement is ignored. -/
theorem ack_ignored_after_rexmit :
    NetReach (synRun [9]) ∧ ackSegment (synRun [9]) synAck = some (0, synAckHdr) ∧
      ¬ AckHonoured (synRun [9]) (netPoll 10 (some synAck) (synRun [9])) 0 synAckHdr := by
  refine ⟨⟨_, _, _, _, rfl⟩, by decide +kernel, fun hh => ?_⟩
  have hout : ((synRun [9]).conns 0).outstanding synAckHdr.ack := by
    unfold Conn.outstanding
    decide +kernel
  have htst := (hh.covers hout).tstate
  revert htst
  decide +kernel

/-! ## Slots that wait for their peer -/

/-- The slot waits for an acknowledgement. -/
def Conn.waiting (c : Conn) : Prop := c.tstate = .synrcvd ∨ (c.tstate = .estab ∧ 0 < c.used)

/-- `net_poll` at each of the ticks, with no inbound frame. -/
def quietPolls (ts : List (BitVec 32)) (net : Net n) : Net n :=
  ts.foldl (fun net t => netPoll t none net) net

/-- How often the timer of slot `i` expires in these polls. -/
def expiries (i : Fin n) : List (BitVec 32) → Net n → Nat
  | [], _ => 0
  | t :: ts, net =>
      (if (net.conns i).expired t then 1 else 0) + expiries i ts (netPoll t none net)

/-- The slot is not lost: after every `net_poll` its timer runs if it still waits,
and a silent peer is given up by the last expiry that is granted to it. -/
structure NotLeaked (net : Net n) (i : Fin n) : Prop where
  armed : ∀ now pkt, ((netPoll now pkt net).conns i).waiting →
    ((netPoll now pkt net).conns i).armed
  quiet : ∀ t ts, (t :: ts).Pairwise (· < ·) →
    ((quietPolls (t :: ts) net).conns i).tstate = .listen ∨
      ((quietPolls (t :: ts) net).conns i).armed
  reaped : ∀ ts : List (BitVec 32), ts.Pairwise (· < ·) → MAX_REXMIT + 1 ≤ expiries i ts net →
    ((quietPolls ts net).conns i).tstate = .listen

/-- A slot with all its bytes sent and some unacknowledged has its timer armed. -/
theorem armed_of_sent {c : Conn} (hsum : c.sent + c.unsent = c.used ∧ c.used < SND_SZ)
    (hused : 0 < c.used) (hsent : c.unsent = 0) : c.armed := by
  unfold SND_SZ at hsum
  exact Serial.toInt_sub_pos.mpr ⟨by show 0 < c.sent; omega, by show c.sent < _; omega⟩

/-- A slot that is half-open with `snd_nxt` past the SYN. -/
def Conn.freshSyn (c : Conn) : Prop := c.tstate = .synrcvd → c.sndNxt = c.sndUna + 1

/-- Outside the timers a half-open slot is one that a fresh SYN opened. -/
theorem Conn.freshSyn_step {S : Fin n → Conn → Prop} {i : Fin n} {c c' : Conn}
    (h : c.freshSyn) (hs : Conn.Step S False i c c') : c'.freshSyn := by
  cases hs with
  | refl => exact h
  | reset => exact fun hst => by cases hst
  | syn now hd hs => exact fun _ => rfl
  | estab hst => exact fun hst => by cases hst
  | ack now hd hst => exact fun hst' => by rw [tcpInAck_tstate, hst] at hst'; cases hst'
  | store c' hst hc => rw [hc.eq]; exact h
  | get hne => exact h
  | reap hT => exact hT.elim
  | rewind hT => exact hT.elim
  | output now k hst hk => exact fun hst' => by rw [hst] at hst'; cases hst'
  | append b hroom => exact h
  | taken => exact h

theorem armed_of_freshSyn {c : Conn} (h : c.freshSyn) (hst : c.tstate = .synrcvd) : c.armed := by
  have hone : c.sndUna + 1 - c.sndUna = 1 := by bv_omega
  rw [Conn.armed, h hst, hone]
  decide

/-- After a poll of an established slot its timer runs if it waits. -/
theorem netPoll_armed {net : Net n} (hok : TimerOk net) {i : Fin n}
    (hst : (net.conns i).tstate = .estab) (now : BitVec 32) (pkt : Option (List UInt8))
    (hw : ((netPoll now pkt net).conns i).waiting) : ((netPoll now pkt net).conns i).armed := by
  obtain ⟨hok', _, hsent⟩ := hok.poll now pkt
  rcases hw with hsyn | ⟨hes, hused⟩
  · have hfirst : ((netTimers now net).conns i).freshSyn := by
      intro hs
      obtain ⟨_, _, _, hcase⟩ := (net.conns i).timer_peer now
      rw [netTimers_conns] at hs
      rcases hcase with hc | hc
      · rw [hc, hst] at hs
        cases hs
      · rw [hc] at hs
        cases hs
    have hacts : Acts (fun _ _ => True) False (netTimers now net) (netPoll now pkt net) :=
      (netReceive_acts now pkt net fun _ _ => trivial).trans (netTxFlush_acts now _)
    have hlast := hacts.preserves (P := fun net => (net.conns i).freshSyn)
      (fun _ _ hp ha => Conn.freshSyn_step hp (ha.conn_step i)) hfirst
    exact armed_of_freshSyn hlast hsyn
  · exact armed_of_sent (hok'.sum hes) hused (hsent i hes)

/-- A slot in a quiet poll: its timer, then the output. -/
theorem netPoll_none_conns (t : BitVec 32) (net : Net n) (i : Fin n) :
    ((net.conns i).timer t).Flushed ((netPoll t none net).conns i) := by
  have hfl := netTxFlush_conns t (netTimers t net) i
  rw [netTimers_conns] at hfl
  exact hfl

/-- Quiet polls leave a free slot free. -/
theorem quietPolls_listen {i : Fin n} :
    ∀ (ts : List (BitVec 32)) {net : Net n}, (net.conns i).tstate = .listen →
      ((quietPolls ts net).conns i).tstate = .listen
  | [], _, h => h
  | t :: ts, net, h => by
      refine quietPolls_listen ts ?_
      obtain ⟨_, hst, _⟩ := (netPoll_none_conns t net i).kept
      obtain ⟨_, _, _, hcase⟩ := (net.conns i).timer_peer t
      rw [hst]
      rcases hcase with hc | hc
      · rw [hc, h]
      · exact hc

/-- One quiet poll of an established slot that waits: it is given up, or still
waits with one more expiry counted. -/
theorem quietPoll_estab {net : Net n} {i : Fin n} (hst : (net.conns i).tstate = .estab)
    (hused : 0 < (net.conns i).used) (t : BitVec 32) :
    ((netPoll t none net).conns i).tstate = .listen ∨
      (((netPoll t none net).conns i).tstate = .estab ∧
        0 < ((netPoll t none net).conns i).used ∧
        ((netPoll t none net).conns i).rexmitCount =
          (net.conns i).rexmitCount + (if (net.conns i).expired t then 1 else 0) ∧
        ((net.conns i).expired t = true →
          ((netPoll t none net).conns i).rexmitCount ≤ MAX_REXMIT)) := by
  have hfl := netPoll_none_conns t net i
  obtain ⟨_, kst, kused⟩ := hfl.kept
  have kcnt : ((netPoll t none net).conns i).rexmitCount =
      ((net.conns i).timer t).rexmitCount := by rw [hfl.same]
  rw [kst, kused, kcnt]
  unfold Conn.timer
  split
  · split
    next => exact .inl rfl
    next hmax => exact .inr ⟨hst, hused, rfl, (fun _ => Nat.not_lt.mp hmax)⟩
  next hex => exact .inr ⟨hst, hused, rfl, (fun h => absurd h hex)⟩

/-- Quiet polls of an established slot that waits: it is given up, or it still
waits and has not used up its expiries. -/
theorem quietPolls_estab {i : Fin n} :
    ∀ (ts : List (BitVec 32)) {net : Net n}, (net.conns i).tstate = .estab →
      0 < (net.conns i).used →
      ((quietPolls ts net).conns i).tstate = .listen ∨
        (((quietPolls ts net).conns i).tstate = .estab ∧ 0 < ((quietPolls ts net).conns i).used ∧
          (expiries i ts net = 0 ∨ (net.conns i).rexmitCount + expiries i ts net ≤ MAX_REXMIT))
  | [], _, hst, hused => .inr ⟨hst, hused, .inl rfl⟩
  | t :: ts, net, hst, hused => by
      rcases quietPoll_estab hst hused t with hl | ⟨hst', hused', hcount, hle⟩
      · exact .inl (quietPolls_listen ts hl)
      · rcases quietPolls_estab ts hst' hused' with hl | ⟨h1, h2, h3⟩
        · exact .inl hl
        · refine .inr ⟨h1, h2, ?_⟩
          rw [expiries]
          split at hcount
          next hex =>
            have hcap := hle hex
            rw [if_pos hex]
            omega
          next hex =>
            rw [if_neg hex]
            omega

theorem quietPolls_timerOk {net : Net n} (hok : TimerOk net) :
    ∀ ts : List (BitVec 32), TimerOk (quietPolls ts net) := by
  intro ts
  induction ts generalizing net with
  | nil => exact hok
  | cons t ts ih => exact ih (hok.poll t none).1

/-- After a nonempty list of quiet polls nothing of an established slot is unsent. -/
theorem quietPolls_unsent {i : Fin n} :
    ∀ (ts : List (BitVec 32)) (t : BitVec 32) {net : Net n}, TimerOk net →
      ((quietPolls (t :: ts) net).conns i).tstate = .estab →
      ((quietPolls (t :: ts) net).conns i).unsent = 0
  | [], t, _, hok, hst => (hok.poll t none).2.2 i hst
  | t' :: ts, t, _, hok, hst => quietPolls_unsent ts t' (hok.poll t none).1 hst

/-- A quiet poll at the deadline leaves a half-open slot half-open and disarmed. -/
theorem quietPoll_synrcvd {net : Net n} (hok : TimerOk net) {i : Fin n}
    (hst : (net.conns i).tstate = .synrcvd) :
    ((netPoll (net.conns i).rexmitAt none net).conns i).tstate = .synrcvd ∧
      ¬ ((netPoll (net.conns i).rexmitAt none net).conns i).armed := by
  have hst1 := (hok.seq i).timer_synrcvd hst (net.conns i).rexmitAt
  have hfl := netPoll_none_conns (net.conns i).rexmitAt net i
  have heq := hfl.other (by rw [hst1]; decide)
  rw [heq]
  refine ⟨hst1, ?_⟩
  have hnxt : ((net.conns i).timer (net.conns i).rexmitAt).sndNxt = (net.conns i).sndUna := by
    obtain ⟨_, hcase⟩ := (hok.seq i).synrcvd hst
    unfold Conn.timer
    rcases hcase with ⟨hn, hc⟩ | ⟨hn, hc⟩
    · have hex : (net.conns i).expired (net.conns i).rexmitAt = true := by
        simp [Conn.expired, hst, hn]
      rw [if_pos hex, if_neg (by rw [hc]; decide)]
    · have hex : ¬ (net.conns i).expired (net.conns i).rexmitAt = true := by
        simp [Conn.expired, hn]
      rw [if_neg hex, hn]
  obtain ⟨_, _, huna, _⟩ := (net.conns i).timer_peer (net.conns i).rexmitAt
  rw [Conn.armed, hnxt, huna]
  simp

/-- In every state of every run, a slot that waits for its peer is not lost iff it is
established: every half-open slot is. -/
theorem not_leaked_iff {net : Net n} (hr : NetReach net) {i : Fin n}
    (hw : (net.conns i).waiting) : NotLeaked net i ↔ (net.conns i).tstate = .estab := by
  obtain ⟨hok, _⟩ := hr.timerOk
  constructor
  · intro hnl
    rcases hw with hst | ⟨hst, _⟩
    · obtain ⟨hst', hdis⟩ := quietPoll_synrcvd hok hst
      rcases hnl.quiet (net.conns i).rexmitAt [] (List.pairwise_singleton _ _) with hl | ha
      · rw [show quietPolls [(net.conns i).rexmitAt] net =
          netPoll (net.conns i).rexmitAt none net from rfl, hst'] at hl
        cases hl
      · exact absurd ha hdis
    · exact hst
  · intro hst
    have hused : 0 < (net.conns i).used := by
      rcases hw with hs | ⟨_, hu⟩
      · rw [hst] at hs
        cases hs
      · exact hu
    refine ⟨fun now pkt => netPoll_armed hok hst now pkt, fun t ts _ => ?_, fun ts _ hmax => ?_⟩
    · rcases quietPolls_estab (t :: ts) hst hused with hl | ⟨h1, h2, _⟩
      · exact .inl hl
      · exact .inr (armed_of_sent ((quietPolls_timerOk hok (t :: ts)).sum h1) h2
          (quietPolls_unsent ts t hok h1))
    · rcases quietPolls_estab ts hst hused with hl | ⟨_, _, h3⟩
      · exact hl
      · omega

/-- A client connects and a byte is queued for it. -/
def queuedRun : Net 2 := synThen [.poll 3 (some synAck), .putcSlot 0 65]

theorem not_leaked_iff_queuedRun : (queuedRun.conns 0).waiting ∧ NotLeaked queuedRun 0 := by
  have hw : (queuedRun.conns 0).waiting := by
    unfold Conn.waiting
    decide +kernel
  exact ⟨hw, (not_leaked_iff ⟨_, _, _, _, rfl⟩ hw).mpr (by decide +kernel)⟩

/-- A client that never acknowledges the SYN|ACK keeps its slot: after the first
expiry the timer is disarmed, and it never expires again. -/
theorem half_open_slot_leaks :
    NetReach (synRun []) ∧ ((synRun []).conns 0).waiting ∧ ¬ NotLeaked (synRun []) 0 := by
  refine ⟨⟨_, _, _, _, rfl⟩, by unfold Conn.waiting; decide +kernel, fun hnl => ?_⟩
  have h := hnl.quiet 9 [] (List.pairwise_singleton _ _)
  revert h
  unfold Conn.armed
  decide +kernel

end Dossh
