import Dossh.Telnet.Backlog

/-!
# Framing of the outbound telnet stream

What a client decodes from the bytes queued for it, in every run in which no reply is torn and no
SYN takes an admitted slot over.  Then a run in which a reply is torn: the client stops reading
until its ring is full, acknowledges two bytes, and negotiates.
-/

namespace Dossh

variable {n : Nat}

/-! ## Admissions -/

/-- A slot that is admitted has been admitted by `net_slot_ready` for its own connection. -/
def Net.Known (net : Net n) : Prop :=
  ∀ i, (net.conns i).ready = true → NetEvent.admitted i (net.conns i).gen ∈ net.log

theorem Net.Known.acts {T : Prop} {net net' : Net n} (h : net.Known)
    (ha : Acts Conn.unready T net net') : net'.Known := by
  refine Acts.preserves (P := Net.Known) (fun net net' h hact i hready => ?_) ha h
  have hsub : net.log ⊆ net'.log := by
    rcases hact.log_cases with ⟨es, hlog, -⟩ | ⟨j, b, -, hlog⟩
    · rw [hlog]
      exact List.subset_append_right _ _
    · rw [hlog]
      exact List.subset_cons_self _ _
  have hkept : ∀ {c c' : Conn}, Conn.Step Conn.unready T i c c' → c'.ready = true →
      c.ready = true ∧ c'.gen = c.gen := by
    intro c c' hstep hready
    cases hstep with
    | reset => cases hready
    | reap => cases hready
    | syn now hd hs =>
        have hclear : c.ready = false := hs
        have hset : c.ready = true := hready
        rw [hclear] at hset
        cases hset
    | ack now hd hst =>
        have hsame : (tcpInAck now hd c).ready = c.ready ∧ (tcpInAck now hd c).gen = c.gen := by
          unfold tcpInAck
          split <;> exact ⟨rfl, rfl⟩
        exact ⟨hsame.1.symm.trans hready, hsame.2⟩
    | store c' hst hc =>
        rw [hc.eq] at hready ⊢
        exact ⟨hready, rfl⟩
    | _ => exact ⟨hready, rfl⟩
  obtain ⟨hready', hgen⟩ := hkept (hact.conn_step i) hready
  rw [hgen]
  exact hsub (h i hready')

theorem Net.Known.leads {net net' : Net n} (h : net.Known) (hl : net.Leads net') : net'.Known := by
  refine hl.preserves (fun op net hcalm h => ?_) h
  by_cases hready : ∃ j v, op = .slotReady j v
  · obtain ⟨j, v, rfl⟩ := hready
    cases hcalm
    intro i hi
    simp only [NetOp.run, netSlotReady, if_true, Net.set_conns] at hi ⊢
    split at hi
    next hij =>
      subst hij
      rw [if_pos rfl]
      exact List.mem_cons_self
    next hij =>
      rw [if_neg hij]
      exact List.mem_cons_of_mem _ (h i hi)
  · refine h.acts (T := True) (NetOp.run_acts (fun j v heq => hready ⟨j, v, heq⟩)
      (fun _ _ _ => trivial) ?_)
    rintro now pkt rfl
    exact absurd hcalm id

theorem Net.Known.run : ∀ (ticks : List (Option (List UInt8) × Screen)) {st : Server n},
    st.net.Known → NoTakeover ticks st → (telnetRun ticks st).net.Known
  | [], _, h, _ => h
  | (pkt, s) :: ticks, st, h, hclean => by
      have hpoll : (netPoll s.ticks pkt st.net).Known :=
        h.acts (netPoll_acts trivial s.ticks pkt st.net hclean.1)
      exact Net.Known.run ticks (hpoll.leads (Net.Leads.tick pkt s st)) hclean.2

/-! ## Whole replies -/

/-- The stream of every admitted slot is decoded into complete commands, and from its admission on
its data is the broadcast. -/
structure TelnetFramed (st : Server n) (h : List (CastEvent n)) : Prop where
  complete : ∀ i, (st.net.conns i).admitted = true →
    iacAfter (streamOf i (st.net.conns i).gen st.net.log) = .data
  screen : ∀ i, (st.net.conns i).admitted = true →
    NetEvent.admitted i (st.net.conns i).gen ∈ st.net.log ∧
      stripIac .data (streamSince i (st.net.conns i).gen st.net.log) =
        castsSince i (st.net.conns i).gen h

/-- `put3` queues its bytes as a whole or not at all. -/
def PutWhole (st : Server n) (i : Fin n) (a b c : UInt8) : Prop :=
  streamOf i (st.net.conns i).gen (put3 st i a b c).net.log =
      streamOf i (st.net.conns i).gen st.net.log ∨
    streamOf i (st.net.conns i).gen (put3 st i a b c).net.log =
      streamOf i (st.net.conns i).gen st.net.log ++ [a, b, c]

theorem putWhole_iff (st : Server n) (i : Fin n) (a b c : UInt8) :
    PutWhole st i a b c ↔ PutsWhole st.net i := by
  have hnet : (put3 st i a b c).net = sayNet st.net i [a, b, c] := auSay_net i _ st
  have hstream := (streamOf_queues (put3_queues st.net i a b c) (st.net.conns i).gen).1
  rw [if_pos rfl] at hstream
  rw [PutWhole, hnet, hstream, List.append_right_eq_self, List.append_cancel_left_eq, PutsWhole]
  match netTxRoomSlot st.net i with
  | 0 => simp
  | 1 => simp
  | 2 => simp
  | room + 3 => simp

/-- The server as it starts, with the renderer reset at tick `now`. -/
def serverStart (gMac gIp : List UInt8) (myPort : Nat) (pw : List UInt8) (eofExit : Bool)
    (now : BitVec 32) (r : Render) : Server n :=
  serverInit gMac gIp myPort pw eofExit (renderReset now r)

theorem Paints.init (now : BitVec 32) (r : Render) : Paints (n := n) (renderReset now r) [] where
  paint := nofun
  frames := trivial
  render := renderReset_plain now r
  plain := List.not_mem_nil

/-- `put3` never tears a reply if and only if the ring has no free byte or three of them, the
renderer never sends `0xFF`, and in every run in which no reply is torn and no SYN takes an admitted
slot over the stream of every admitted slot is framed. -/
theorem telnet_stream_framed :
    (∀ (st : Server n) (i : Fin n) (a b c : UInt8), PutWhole st i a b c ↔ PutsWhole st.net i) ∧
    ∀ (gMac gIp : List UInt8) (myPort : Nat) (pw : List UInt8) (eofExit : Bool) (now : BitVec 32)
      (r : Render) (ticks : List (Option (List UInt8) × Screen)),
      0xFF ∉ castsOf
          (telnetCasts ticks (serverStart gMac gIp myPort pw eofExit now r : Server n) []) ∧
        (telnetWhole ticks (serverStart gMac gIp myPort pw eofExit now r : Server n) = true →
          NoTakeover ticks (serverStart gMac gIp myPort pw eofExit now r : Server n) →
          TelnetFramed (telnetRun ticks (serverStart gMac gIp myPort pw eofExit now r : Server n))
            (telnetCasts ticks (serverStart gMac gIp myPort pw eofExit now r : Server n) [])) := by
  refine ⟨putWhole_iff, fun gMac gIp myPort pw eofExit now r ticks => ?_⟩
  have hstart : Wires (serverStart gMac gIp myPort pw eofExit now r : Server n) [] :=
    .init gMac gIp myPort pw eofExit now r
  have hknown : (serverStart gMac gIp myPort pw eofExit now r : Server n).net.Known :=
    fun _ hready => absurd hready Bool.false_ne_true
  have hpaint : Paints (n := n) (serverStart gMac gIp myPort pw eofExit now r : Server n).render [] :=
    .init now r
  have hnone : (serverStart gMac gIp myPort pw eofExit now r : Server n).net.NoneNew :=
    fun _ => rfl
  generalize (serverStart gMac gIp myPort pw eofExit now r : Server n) = st at *
  refine ⟨(hpaint.run ticks).plain, fun hwhole hclean => ?_⟩
  have hw := hstart.run ticks hnone hwhole
  have hrun := hknown.run ticks hclean
  refine ⟨fun i _ => (hw.slots i).complete, fun i hi => ?_⟩
  rw [Conn.admitted, Bool.and_eq_true, decide_eq_true_eq] at hi
  exact ⟨hrun i hi.2, ((hw.slots i).screen hi.1 (hrun i hi.2)).2.2.2⟩

/-- A server with a password. -/
def framedServer : Server 3 :=
  serverStart [2, 0, 0, 0, 0, 1] [10, 0, 2, 15] 23 (ascii "pw") false 0 coldRender

theorem telnet_stream_framed_login :
    PutWhole framedServer 0 IAC WONT 0x22 ∧
    ((telnetRun loginTicks framedServer).net.conns 0).admitted = true ∧
      TelnetFramed (telnetRun loginTicks framedServer) (telnetCasts loginTicks framedServer []) := by
  have hwhole : telnetWhole loginTicks framedServer = true := by decide +kernel
  have hclean : NoTakeover loginTicks framedServer := by
    refine ⟨?_, ?_, ?_, trivial⟩ <;> decide +kernel
  have hframed := (telnet_stream_framed (n := 3)).2 [2, 0, 0, 0, 0, 1] [10, 0, 2, 15] 23 (ascii "pw") false 0
    coldRender loginTicks
  exact ⟨(telnet_stream_framed.1 framedServer 0 IAC WONT 0x22).mpr (by decide +kernel),
    by decide +kernel, hframed.2 hwhole hclean⟩

/-! ## A torn reply -/

theorem telnetRun_append (ticks more : List (Option (List UInt8) × Screen)) (st : Server n) :
    telnetRun (ticks ++ more) st = telnetRun more (telnetRun ticks st) := List.foldl_append

theorem telnetRun_singleton (pkt : Option (List UInt8)) (s : Screen) (st : Server n) :
    telnetRun [(pkt, s)] st = netTick pkt s st := rfl

theorem sayNet_room (i : Fin n) : ∀ (s : List UInt8) (net : Net n),
    netTxRoomSlot (sayNet net i s) i = netTxRoomSlot net i - s.length
  | [], net => rfl
  | b :: s, net => by
      have hput := netTxPutcSlot_queues net i b
      have hrest := sayNet_room i s (netTxPutcSlot net i b).2
      show netTxRoomSlot (sayNet (netTxPutcSlot net i b).2 i s) i = _
      rw [hrest, List.length_cons]
      split at hput
      · rw [hput.2]
        omega
      · rw [hput]
        omega

/-- Sending to a slot changes the send ring only. -/
theorem sayNet_line (i : Fin n) : ∀ (s : List UInt8) (net : Net n),
    ((sayNet net i s).conns i).line = (net.conns i).line
  | [], _ => rfl
  | b :: s, net => by
      have hput : ((netTxPutcSlot net i b).2.conns i).line = (net.conns i).line := by
        unfold netTxPutcSlot
        split
        · rfl
        · rw [ringAppend, Net.set_conns_self]
      exact (sayNet_line i s (netTxPutcSlot net i b).2).trans hput

/-- A full ring that is not dead stops the pump. -/
theorem pump_full (s : Screen) {i : Fin n} {st : Server n} (budget : Nat)
    (hadm : (st.net.conns i).admitted = true) (hfull : (st.net.conns i).used = SND_SZ - 1)
    (hfresh : (st.net.conns i).rexmitCount = 0) :
    (txPumpLoop s budget st).net.log = st.net.log := by
  have hblocked : (st.net.conns i).blocked = true := by
    rw [Conn.blocked, hadm, hfull]
    rfl
  cases budget with
  | zero => rfl
  | succ budget =>
      rw [txPumpLoop]
      split
      · rfl
      next b render _ =>
        split
        next net heq =>
          have hput : (netTxPutc st.net b).1 = true := by rw [heq]
          cases (netTxPutc_sent hput i).1 with
          | outside hout hc =>
              rw [hadm] at hout
              cases hout
          | evicted hc =>
              have hdead := hc.2.1
              rw [hfresh] at hdead
              exact absurd hdead (Nat.lt_irrefl 0)
          | sent hadm hroom hc =>
              rw [hblocked] at hroom
              cases hroom
        next net heq =>
          have hput : (netTxPutc st.net b).1 = false := by rw [heq]
          have hlog := (netTxPutc_refused hput).1
          rw [heq] at hlog
          exact hlog

theorem WireStep.of_answered {now : BitVec 32} {i : Fin n} {net net' : Net n} {r r' : Render}
    {au au' : AuState} {es : List (CastEvent n)} (h : WireStep now i net r au net' r' au' es true) :
    ∃ v opt, (WILL ≤ v ∧ v ≤ DONT) ∧ net' = sayNet net i [IAC, v, opt] := by
  cases h with
  | answered v opt hv => exact ⟨v, opt, hv, rfl⟩

/-- A client with a full ring acknowledges two bytes and asks for an option.  Two of the three bytes
of the reply are queued. -/
theorem Alone.torn {t : BitVec 32} {i : Fin n} {st : Server n} {pkt : List UInt8} {b : UInt8}
    (h : Alone t i st) (hok : TimerOk st.net) (hb : Brings st.net i pkt b)
    (hfull : (st.net.conns i).used = SND_SZ - 1) (hunsent : (st.net.conns i).unsent = 0)
    (hack : ((tcpHdr (frameBytes pkt)).ack - (st.net.conns i).sndUna).toNat = 2)
    (hans : answers st i b = true) {s : Screen} (hs : s.ticks = t) :
    ((Dossh.netTick (some pkt) s st).net.conns i).admitted = true ∧
      ((Dossh.netTick (some pkt) s st).net.conns i).gen = (st.net.conns i).gen ∧
      ∃ v, WILL ≤ v ∧ v ≤ DONT ∧
        streamOf i (st.net.conns i).gen (Dossh.netTick (some pkt) s st).net.log =
          streamOf i (st.net.conns i).gen st.net.log ++ [IAC, v] := by
  obtain ⟨hsum, hlt⟩ := hok.sum h.estab
  obtain ⟨-, -, net, hget, hlog, hnet, hgen, hused⟩ := h.getc hb
  -- the acknowledgement frees two bytes
  have hacc : (hasFlag (tcpHdr (frameBytes pkt)).flags 0x10 &&
      (st.net.conns i).acceptsAck (tcpHdr (frameBytes pkt)).ack) = true := by
    rw [Bool.and_eq_true, hb.flags, acceptsAck_iff (by omega), hack]
    unfold SND_SZ at hfull
    exact ⟨by decide, by omega, by omega⟩
  have hroom : netTxRoomSlot net i = 2 := by
    rw [netTxRoomSlot, hused, (tcpInAck_accepted t hacc ⟨hsum, hlt⟩).2.1, hack, hfull]
    decide
  -- the reply takes them both
  have hstep := telnetIn_wire t { st with net := net } i b
  have hslots : answers { st with net := net } i b = true := hans
  rw [hslots] at hstep
  obtain ⟨v, opt, hv, hsay⟩ := hstep.of_answered
  have hq := put3_queues net i IAC v opt
  rw [hroom, ← hsay] at hq
  have hstream := (streamOf_queues hq (net.conns i).gen).1
  have hline : ((telnetIn t { st with net := net } i b).net.conns i).line = (net.conns i).line := by
    rw [hsay]
    exact sayNet_line i _ net
  have hafter : Alone t i (telnetIn t { st with net := net } i b) := hnet.congr hline hq.others
  have hfull' : ((telnetIn t { st with net := net } i b).net.conns i).used = SND_SZ - 1 := by
    have hleft := sayNet_room i [IAC, v, opt] net
    rw [← hsay, hroom, netTxRoomSlot] at hleft
    have hless : ((telnetIn t { st with net := net } i b).net.conns i).used < SND_SZ :=
      Ring.dist_lt (by decide) _ _
    simp only [List.length_cons, List.length_nil] at hleft
    omega
  have hpump := pump_full s TX_BUDGET hafter.admitted hfull' hafter.fresh
  obtain ⟨hsilent, -, -⟩ := Alone.pump s TX_BUDGET hafter
  obtain ⟨hflush, -, -⟩ := (hafter.silent hsilent).flush
  have hend := (hafter.silent hsilent).silent hflush
  have hlines := (hflush.line.trans hsilent.line).trans hline
  simp only [Conn.line, Prod.mk.injEq] at hlines
  rw [h.byteTick hb hs hget hafter]
  refine ⟨hend.admitted, hlines.2.2.2.2.2.2.trans hgen, v, hv.1, hv.2, ?_⟩
  have hmute := (netTxFlush_mute t (txPumpLoop s TX_BUDGET
    (telnetIn t { st with net := net } i b)).net).logSame i
  dsimp only
  rw [hmute.stream, hpump, ← hgen, hstream, if_pos rfl, hlog,
    ((netPoll_mute t (some pkt) st.net).logSame i).stream]
  rfl

/-- A server without a password. -/
def openServer : Server 3 :=
  serverStart [2, 0, 0, 0, 0, 1] [10, 0, 2, 15] 23 [] false 0 coldRender

/-- A client connects and sends the first two bytes of a command. -/
def askTicks : List (Option (List UInt8) × Screen) :=
  [segTick 0 7 1000 5 0 0x02 [], segTick 0 7 1000 6 0x13701 0x18 [IAC, DO]]

/-- The last byte of the command, with an acknowledgement of two bytes. -/
def askFrame : List UInt8 :=
  peerFrame [10, 0, 2, 2] [10, 0, 2, 15] 1000 23 8 0x13703 0x18 [0x22]

/-- A screen at tick 0. -/
def zeroScreen : Screen := { tinyScreen with ticks := 0 }

theorem askTicks_alone : Alone 0 0 (telnetRun askTicks openServer) := by
  refine ⟨?_, ?_, ?_, ?_, ?_, ?_⟩
  · decide +kernel
  · decide +kernel
  · decide +kernel
  · unfold Net.NoneNew
    decide +kernel
  · decide +kernel
  · decide +kernel

theorem askTicks_line : ((telnetRun askTicks openServer).net.conns 0).line =
    ((.estab, [10, 0, 2, 2], 1000, 0x13701, 8), (0, 2, 2), (9, 0, false, true, 1)) := by
  simp only [Conn.line, Prod.mk.injEq]
  decide +kernel

/-- The frame brings its byte to every state that the client has waited for in silence. -/
theorem askFrame_brings {net : Net 3}
    (hline : (net.conns 0).line = ((telnetRun askTicks openServer).net.conns 0).line)
    (hip : net.gIp = [10, 0, 2, 15]) (hport : net.myPort = 23) : Brings net 0 askFrame 0x22 := by
  rw [askTicks_line] at hline
  simp only [Conn.line, Prod.mk.injEq] at hline
  obtain ⟨⟨-, hpeer, hsport, -, hrcv⟩, -⟩ := hline
  refine ⟨⟨by decide, by decide, by decide, by decide, by decide⟩, ?_, ?_, by decide, by decide, ?_,
    ?_, by decide⟩
  · rw [tcpFrame, hip]
    decide
  · rw [hport]
    decide
  · rw [hsport, hpeer]
    decide
  · rw [hrcv]
    decide

/-- In some run the client is admitted and its stream ends inside a command. -/
theorem torn_reply : ¬ ∀ ticks,
    TelnetFramed (telnetRun ticks openServer) (telnetCasts ticks openServer []) := by
  intro hall
  obtain ⟨ticks, hsilent, hfull, hunsent⟩ := askTicks_alone.fills _ rfl
  have halone := askTicks_alone.silent hsilent
  have hreach : NetReach (telnetRun ticks (telnetRun askTicks openServer)).net := by
    refine telnetRun_netReach ticks (telnetRun_netReach askTicks ?_)
    exact ⟨[2, 0, 0, 0, 0, 1], [10, 0, 2, 15], 23, [], rfl⟩
  obtain ⟨hip, hport⟩ := telnetRun_addr ticks (telnetRun askTicks openServer)
  obtain ⟨hip', hport'⟩ := telnetRun_addr askTicks openServer
  have hbrings := askFrame_brings hsilent.line (hip.trans hip') (hport.trans hport')
  have hframed := hall (askTicks ++ ticks)
  have htorn := hall (askTicks ++ ticks ++ [(some askFrame, zeroScreen)])
  rw [telnetRun_append] at hframed
  rw [telnetRun_append, telnetRun_append, telnetRun_singleton] at htorn
  have hline := hsilent.line
  have hslots := hsilent.slots
  have hask : answers (telnetRun askTicks openServer) 0 0x22 = true := by decide +kernel
  generalize telnetRun ticks (telnetRun askTicks openServer) = st at *
  rw [askTicks_line] at hline
  simp only [Conn.line, Prod.mk.injEq] at hline
  have hack : ((tcpHdr (frameBytes askFrame)).ack - (st.net.conns 0).sndUna).toNat = 2 := by
    rw [hline.1.2.2.2.1]
    decide
  have hans : answers st 0 0x22 = true := by
    rw [answers, hslots]
    exact hask
  have htick : zeroScreen.ticks = 0 := rfl
  obtain ⟨hadm, hgen, v, hlo, hhi, hstream⟩ :=
    halone.torn hreach.timerOk.1 hbrings hfull hunsent hack hans htick
  have hbefore := hframed.complete 0 halone.admitted
  have hafter := htorn.complete 0 hadm
  have hverb : iacAfter (streamOf 0 (st.net.conns 0).gen st.net.log ++ [IAC, v]) = .verb := by
    have hne : v ≠ IAC ∧ v ≠ SB := by
      refine ⟨?_, ?_⟩
      · rintro rfl
        exact absurd hhi (by decide)
      · rintro rfl
        exact absurd hlo (by decide)
    rw [List.append_cons, iacAfter_concat, iacAfter_concat, hbefore]
    simp [iacNext, hne, hlo, hhi]
  rw [hgen, hstream, hverb] at hafter
  cases hafter

end Dossh
